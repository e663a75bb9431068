import Mathlib.Data.List.TakeWhile
import Mathlib.Data.Nat.Digits.Defs
import MicroLang.Source.TokenStream

/-!
# Tokens by the longest match

A lexical grammar: `Lexeme.Rule` says which text a lexeme may have, given the text that follows it,
and `Decomposes` cuts a whole source text into pieces that follow the rules. The scanner reads a
text exactly if it has such a decomposition, of which there is only one, and its tokens are then
those of the decomposition.

Both directions rest on one fact about a single lexeme: what a text starts with is a lexeme whose
rule holds there (`rule_of_read`), and where a rule holds it is that lexeme (`read_of_rule`). The
second needs a bound on runs of digits, as a literal with very many leading zeros is refused.
-/

namespace MicroLang.Source

open MicroLang.Text

/-! ## The lexical grammar -/

/-- A text of characters of one class that the rest does not go on with. -/
structure Run (p : Char → Bool) (text rest : List Char) : Prop where
  all : ∀ c ∈ text, p c = true
  longest : ∀ c ∈ rest.head?, p c = false

/-- A letter and all the letters and digits after it. -/
def Word (text rest : List Char) : Prop :=
  ∃ c cs, text = c :: cs ∧ isLetter c = true ∧ Run isAsciiAlphanumeric cs rest

/-- The words that are no identifiers. -/
def keywords : List String :=
  ["begin", "end", "read", "write"]

/-- The value of a text of digits in the decimal system. -/
def decimalValue (digits : List Char) : Nat :=
  Nat.ofDigits 10 (digits.reverse.map fun c => c.toNat - '0'.toNat)

/-- The texts of a lexeme, in front of a given rest. -/
def Lexeme.Rule (text rest : List Char) : Lexeme → Prop
  | whitespace => text ≠ [] ∧ Run isWhiteSpace text rest
  | comment => ['-', '-'] <+: text ∧ Run (· != '\n') text rest
  | beginKw => text = "begin".toList ∧ Word text rest
  | endKw => text = "end".toList ∧ Word text rest
  | readKw => text = "read".toList ∧ Word text rest
  | writeKw => text = "write".toList ∧ Word text rest
  | identifier name => text = name.toList ∧ Word text rest ∧ name ∉ keywords
  | literal value => text ≠ [] ∧ Run isDigit text rest ∧ value = decimalValue text ∧ value < 2 ^ 31
  | minus => text = ['-'] ∧ rest.head? ≠ some '-'
  | leftParen => text = ['(']
  | rightParen => text = [')']
  | semicolon => text = [';']
  | comma => text = [',']
  | plus => text = ['+']
  | assign => text = [':', '=']
  | unknown _ => False
  | eof => False

/-- A source text is cut into the texts of lexemes, each of which follows its rule. -/
def Decomposes : List (Lexeme × List Char) → List Char → Prop
  | [], source => source = []
  | (lexeme, text) :: pieces, source =>
    ∃ rest, source = text ++ rest ∧ lexeme.Rule text rest ∧ Decomposes pieces rest

/-- No run of digits is longer than the numerals that can be read. -/
def ShortRuns (source : List Char) : Prop :=
  ∀ pre run post, source = pre ++ run ++ post → (∀ c ∈ run, isDigit c = true) →
    run.length ≤ Numeral.digitLimit

theorem shortRuns_of_length {source : List Char} (h : source.length ≤ Numeral.digitLimit) :
    ShortRuns source := by
  rintro pre run post rfl _
  simp only [List.length_append] at h
  omega

theorem ShortRuns.of_append {text rest : List Char} (h : ShortRuns (text ++ rest)) :
    ShortRuns rest := by
  intro pre run post hsplit hrun
  refine h (text ++ pre) run post ?_ hrun
  rw [hsplit]
  simp only [List.append_assoc]

/-! ## Runs -/

/-- A run is checked along the text and at the first character of the rest. -/
theorem run_iff_all {p : Char → Bool} {text rest : List Char} :
    Run p text rest ↔ text.all p = true ∧ rest.head?.all (fun c => !p c) = true := by
  rw [List.all_eq_true, Option.all_eq_true]
  constructor
  · intro h
    exact ⟨h.all, fun c hc => by rw [h.longest c hc]; rfl⟩
  · rintro ⟨hall, hlongest⟩
    refine ⟨hall, ?_⟩
    intro c hc
    exact (Bool.not_eq_true' _).mp (hlongest c hc)

instance (p : Char → Bool) (text rest : List Char) : Decidable (Run p text rest) :=
  decidable_of_iff _ run_iff_all.symm

theorem Run.takeWhile_append {p : Char → Bool} {text rest : List Char} (h : Run p text rest) :
    (text ++ rest).takeWhile p = text := by
  rw [List.takeWhile_append_of_pos h.all]
  cases rest with
  | nil => simp
  | cons c rest => rw [List.takeWhile_cons_of_neg (by simp [h.longest c rfl]), List.append_nil]

theorem run_takeWhile (p : Char → Bool) (cs : List Char) :
    Run p (cs.takeWhile p) (cs.dropWhile p) where
  all := fun _ => List.mem_takeWhile_imp
  longest := by
    intro c hc
    have := List.head?_dropWhile_not p cs
    rw [hc] at this
    simpa using this

theorem Run.cons {p : Char → Bool} {c : Char} {text rest : List Char} (hc : p c = true)
    (h : Run p text rest) : Run p (c :: text) rest := by
  refine ⟨?_, h.longest⟩
  intro d hd
  rcases List.mem_cons.mp hd with rfl | hd
  · exact hc
  · exact h.all d hd

theorem Run.tail {p : Char → Bool} {c : Char} {text rest : List Char}
    (h : Run p (c :: text) rest) : p c = true ∧ Run p text rest :=
  ⟨h.all c List.mem_cons_self, ⟨fun d hd => h.all d (List.mem_cons_of_mem _ hd), h.longest⟩⟩

/-- No letter or digit follows a word. -/
theorem Word.longest {text rest : List Char} (h : Word text rest) :
    ∀ c ∈ rest.head?, isAsciiAlphanumeric c = false := by
  obtain ⟨_, _, _, _, hrun⟩ := h
  exact hrun.longest

/-- A word is also one in front of another rest that does not go on with it. -/
theorem Word.of_rest {text rest rest' : List Char} (h : Word text rest)
    (hrest : ∀ c ∈ rest'.head?, isAsciiAlphanumeric c = false) : Word text rest' := by
  obtain ⟨c, cs, rfl, hc, hrun⟩ := h
  exact ⟨c, cs, rfl, hc, hrun.all, hrest⟩

/-! ## Classes of characters -/

theorem toNat_of_isLetter {c : Char} (h : isLetter c = true) :
    (65 ≤ c.toNat ∧ c.toNat ≤ 90) ∨ (97 ≤ c.toNat ∧ c.toNat ≤ 122) := by
  simpa [isLetter, Char.le_def, UInt32.le_iff_toNat_le] using h

theorem toNat_of_isDigit {c : Char} (h : isDigit c = true) : 48 ≤ c.toNat ∧ c.toNat ≤ 57 := by
  simpa [isDigit, Char.le_def, UInt32.le_iff_toNat_le] using h

theorem isWhiteSpace_of_toNat {c : Char} (h : 33 ≤ c.toNat) (h' : c.toNat ≤ 126) :
    isWhiteSpace c = false := by
  simp only [isWhiteSpace, Bool.or_eq_false_iff, Bool.and_eq_false_iff, beq_eq_false_iff_ne,
    decide_eq_false_iff_not]
  omega

theorem isLetter_of_isDigit {c : Char} (h : isDigit c = true) : isLetter c = false := by
  have hnat := toNat_of_isDigit h
  by_contra hletter
  have := toNat_of_isLetter (Bool.not_eq_false _ ▸ hletter)
  omega

/-! ## Literals -/

theorem literalValue_eq (digits : List Char) : literalValue digits = decimalValue digits := by
  unfold literalValue decimalValue
  rw [Nat.ofDigits_eq_foldr, List.map_reverse, List.foldr_reverse, List.foldl_map]
  congr 1
  funext n c
  simp only [Nat.cast_id]
  omega

/-- Each further digit makes a number at least ten times as large. -/
theorem le_foldl_digits (digits : List Char) (n : Nat) :
    n * 10 ^ digits.length
      ≤ digits.foldl (fun n c => n * 10 + (c.toNat - '0'.toNat)) n := by
  induction digits generalizing n with
  | nil => simp
  | cons c digits ih =>
    rw [List.foldl_cons, List.length_cons]
    calc n * 10 ^ (digits.length + 1) = n * 10 * 10 ^ digits.length := by ring
      _ ≤ (n * 10 + (c.toNat - '0'.toNat)) * 10 ^ digits.length :=
        Nat.mul_le_mul_right _ (Nat.le_add_right _ _)
      _ ≤ _ := ih _

theorem literalValue_dropWhile_zero (digits : List Char) :
    literalValue (digits.dropWhile (· == '0')) = literalValue digits := by
  induction digits with
  | nil => rfl
  | cons c digits ih =>
    by_cases hc : c = '0'
    · subst hc
      rw [List.dropWhile_cons_of_pos (by rfl), ih]
      rfl
    · rw [List.dropWhile_cons_of_neg (by simpa using hc)]

/-- A literal with too many significant digits is out of range. -/
theorem maxLiteral_lt_literalValue {digits : List Char} (hdigits : ∀ c ∈ digits, isDigit c = true)
    (h : maxSignificantDigits < (digits.dropWhile (· == '0')).length) :
    maxLiteral < literalValue digits := by
  rw [← literalValue_dropWhile_zero]
  have hfirst := List.head?_dropWhile_not (· == '0') digits
  have hdigits' : ∀ c ∈ digits.dropWhile (· == '0'), isDigit c = true :=
    fun c hc => hdigits c ((List.dropWhile_sublist _).mem hc)
  cases hds : digits.dropWhile (· == '0') with
  | nil =>
    rw [hds] at h
    exact absurd h (Nat.not_lt_zero _)
  | cons c ds =>
    rw [hds] at h hfirst hdigits'
    have hne : c ≠ '0' := by simpa using hfirst
    -- a first digit other than zero counts at least one
    have hpos : 1 ≤ 0 * 10 + (c.toNat - '0'.toNat) := by
      have hnat := toNat_of_isDigit (hdigits' c List.mem_cons_self)
      have hzero : c.toNat ≠ '0'.toNat := fun heq => hne (Char.toNat_inj.mp heq)
      have : '0'.toNat = 48 := rfl
      omega
    have hlength : 10 ≤ ds.length := by
      rw [List.length_cons] at h
      exact Nat.le_of_lt_succ h
    calc maxLiteral < 1 * 10 ^ 10 := by decide
      _ ≤ (0 * 10 + (c.toNat - '0'.toNat)) * 10 ^ ds.length :=
        Nat.mul_le_mul hpos (Nat.pow_le_pow_right (by decide) hlength)
      _ ≤ literalValue (c :: ds) := le_foldl_digits ds _

theorem readLiteral_of_lt {digits : List Char} (hdigits : ∀ c ∈ digits, isDigit c = true)
    (hlength : digits.length ≤ Numeral.digitLimit) (hvalue : decimalValue digits < 2 ^ 31) :
    readLiteral digits = .lexeme (.literal (decimalValue digits)) digits.length := by
  rw [← literalValue_eq] at hvalue ⊢
  replace hvalue : literalValue digits ≤ maxLiteral := Nat.le_of_lt_succ hvalue
  unfold readLiteral
  rw [if_neg, if_neg (Nat.not_lt.mpr hlength), if_neg (Nat.not_lt.mpr hvalue)]
  intro hlong
  exact absurd (maxLiteral_lt_literalValue hdigits hlong) (Nat.not_lt.mpr hvalue)

theorem readLiteral_eq_lexeme {digits : List Char} {lexeme : Lexeme} {length : Nat}
    (h : readLiteral digits = .lexeme lexeme length) :
    lexeme = .literal (decimalValue digits) ∧ length = digits.length
      ∧ decimalValue digits < 2 ^ 31 := by
  rw [← literalValue_eq]
  unfold readLiteral at h
  split at h
  · cases h
  split at h
  · cases h
  split at h
  · cases h
  · rename_i hvalue
    cases h
    exact ⟨rfl, rfl, Nat.lt_succ_of_le (Nat.not_lt.mp hvalue)⟩

/-! ## One lexeme -/

namespace Lexeme

variable {text rest : List Char} {lexeme : Lexeme}

theorem rule_ofWord (h : Word text rest) : Rule text rest (ofWord (String.ofList text)) := by
  have htext : text = (String.ofList text).toList := String.toList_ofList.symm
  unfold ofWord
  split_ifs with hbegin hend hread hwrite
  · exact ⟨by rw [← hbegin]; exact htext, h⟩
  · exact ⟨by rw [← hend]; exact htext, h⟩
  · exact ⟨by rw [← hread]; exact htext, h⟩
  · exact ⟨by rw [← hwrite]; exact htext, h⟩
  · refine ⟨htext, h, ?_⟩
    simp only [keywords, List.mem_cons, List.not_mem_nil, or_false]
    tauto

theorem ofWord_identifier {name : String} (h : name ∉ keywords) :
    ofWord name = identifier name := by
  simp only [keywords, List.mem_cons, List.not_mem_nil, or_false] at h
  unfold ofWord
  rw [if_neg (by tauto), if_neg (by tauto), if_neg (by tauto), if_neg (by tauto)]

theorem rule_ofChar? {c : Char} (h : ofChar? c = some lexeme) (rest : List Char) :
    Rule [c] rest lexeme := by
  unfold ofChar? at h
  split_ifs at h with hc hc hc hc hc <;> cases h <;> exact congrArg ([·]) hc

/-- What a text starts with, unless it is empty, follows its rule. -/
theorem rule_of_read {cs : List Char} {length : Nat} (h : read cs = .lexeme lexeme length)
    (hne : cs ≠ []) :
    ∃ text rest, cs = text ++ rest ∧ length = text.length ∧ Rule text rest lexeme := by
  -- a lexeme that is a run of one class, behind its first character
  have hsplit : ∀ (p : Char → Bool) (c : Char) (cs : List Char),
      c :: cs = (c :: cs.takeWhile p) ++ cs.dropWhile p := by
    intro p c cs
    rw [List.cons_append, List.takeWhile_append_dropWhile]
  cases cs with
  | nil => exact absurd rfl hne
  | cons c cs =>
    rw [read] at h
    split at h
    · rename_i hc
      cases h
      exact ⟨_, _, hsplit isWhiteSpace c cs, Nat.add_comm _ _, List.cons_ne_nil _ _,
        .cons hc (run_takeWhile _ cs)⟩
    split at h
    · rename_i hc
      subst hc
      split at h
      · rename_i hhead
        cases h
        obtain ⟨cs, rfl⟩ := List.head?_eq_some_iff.mp hhead
        refine ⟨_, _, hsplit (· != '\n') '-' ('-' :: cs), Nat.add_comm _ _, ?_,
          .cons (by decide) (run_takeWhile _ _)⟩
        rw [List.takeWhile_cons_of_pos (by decide)]
        exact ⟨_, rfl⟩
      · rename_i hhead
        cases h
        exact ⟨['-'], cs, rfl, rfl, rfl, hhead⟩
    split at h
    · rename_i hc
      cases h
      exact ⟨_, _, hsplit isAsciiAlphanumeric c cs, rfl,
        rule_ofWord ⟨c, _, rfl, hc, run_takeWhile _ cs⟩⟩
    split at h
    · rename_i hc
      obtain ⟨rfl, rfl, hvalue⟩ := readLiteral_eq_lexeme h
      exact ⟨_, _, hsplit isDigit c cs, rfl, List.cons_ne_nil _ _, .cons hc (run_takeWhile _ cs),
        rfl, hvalue⟩
    split at h
    · rename_i hc
      subst hc
      split at h
      · rename_i hhead
        cases h
        obtain ⟨cs, rfl⟩ := List.head?_eq_some_iff.mp hhead
        exact ⟨[':', '='], cs, rfl, rfl, rfl⟩
      · cases h
    split at h
    · rename_i hchar
      cases h
      exact ⟨[c], cs, rfl, rfl, rule_ofChar? hchar cs⟩
    · cases h

theorem read_of_word (h : Word text rest) :
    read (text ++ rest) = .lexeme (ofWord (String.ofList text)) text.length := by
  obtain ⟨c, cs, rfl, hc, hrun⟩ := h
  have hnat := toNat_of_isLetter hc
  have hspace := isWhiteSpace_of_toNat (c := c) (by omega) (by omega)
  have hminus : c ≠ '-' := by
    rintro rfl
    revert hc
    decide
  rw [List.cons_append, read, if_neg (by rw [hspace]; simp), if_neg hminus, if_pos hc,
    hrun.takeWhile_append]

theorem read_of_digits (hne : text ≠ []) (h : Run isDigit text rest) :
    read (text ++ rest) = readLiteral text := by
  obtain ⟨c, cs, rfl⟩ := List.exists_cons_of_ne_nil hne
  obtain ⟨hc, hrun⟩ := h.tail
  have hnat := toNat_of_isDigit hc
  have hspace := isWhiteSpace_of_toNat (c := c) (by omega) (by omega)
  have hminus : c ≠ '-' := by
    rintro rfl
    revert hc
    decide
  rw [List.cons_append, read, if_neg (by rw [hspace]; simp), if_neg hminus,
    if_neg (by rw [isLetter_of_isDigit hc]; simp), if_pos hc, hrun.takeWhile_append]

/-- Where a rule holds, the text starts with its lexeme; only of a literal it matters how long it
is. -/
theorem read_of_rule_of_length (h : Rule text rest lexeme)
    (hlength : ∀ value, lexeme = literal value → text.length ≤ Numeral.digitLimit) :
    read (text ++ rest) = .lexeme lexeme text.length := by
  cases lexeme with
  | whitespace =>
    obtain ⟨hne, hrun⟩ := h
    obtain ⟨c, cs, rfl⟩ := List.exists_cons_of_ne_nil hne
    obtain ⟨hc, hrun⟩ := hrun.tail
    rw [List.cons_append, read, if_pos hc, hrun.takeWhile_append, List.length_cons, Nat.add_comm]
  | comment =>
    obtain ⟨⟨cs, rfl⟩, hrun⟩ := h
    obtain ⟨_, hrun⟩ : _ ∧ Run _ ('-' :: cs) rest := hrun.tail
    show read ('-' :: ('-' :: cs ++ rest)) = .lexeme comment (cs.length + 1 + 1)
    rw [read, if_neg (by decide), if_pos rfl, if_pos (by rfl), hrun.takeWhile_append,
      List.length_cons, Nat.add_comm 1]
  | beginKw =>
    obtain ⟨rfl, hword⟩ := h
    exact read_of_word hword
  | endKw =>
    obtain ⟨rfl, hword⟩ := h
    exact read_of_word hword
  | readKw =>
    obtain ⟨rfl, hword⟩ := h
    exact read_of_word hword
  | writeKw =>
    obtain ⟨rfl, hword⟩ := h
    exact read_of_word hword
  | identifier name =>
    obtain ⟨rfl, hword, hname⟩ := h
    rw [read_of_word hword, String.ofList_toList, ofWord_identifier hname]
  | literal value =>
    obtain ⟨hne, hrun, rfl, hvalue⟩ := h
    rw [read_of_digits hne hrun]
    exact readLiteral_of_lt hrun.all (hlength _ rfl) hvalue
  | minus =>
    obtain ⟨rfl, hrest⟩ := h
    show read ('-' :: rest) = _
    rw [read, if_neg (by decide), if_pos rfl, if_neg hrest]
    rfl
  | leftParen =>
    obtain rfl := h
    rfl
  | rightParen =>
    obtain rfl := h
    rfl
  | semicolon =>
    obtain rfl := h
    rfl
  | comma =>
    obtain rfl := h
    rfl
  | plus =>
    obtain rfl := h
    rfl
  | assign =>
    obtain rfl := h
    rfl
  | unknown _ => exact h.elim
  | eof => exact h.elim

/-- Where a rule holds, the text starts with its lexeme. -/
theorem read_of_rule (h : Rule text rest lexeme) (hshort : ShortRuns (text ++ rest)) :
    read (text ++ rest) = .lexeme lexeme text.length := by
  refine read_of_rule_of_length h ?_
  rintro value rfl
  obtain ⟨_, hrun, _, _⟩ := h
  exact hshort [] text rest rfl hrun.all

theorem Rule.ne_nil (h : Rule text rest lexeme) : text ≠ [] := by
  rintro rfl
  cases lexeme with
  | whitespace => exact h.1 rfl
  | comment => exact absurd h.1 (by simp)
  | literal value => exact h.1 rfl
  | unknown _ => exact h
  | eof => exact h
  | identifier name =>
    obtain ⟨_, ⟨c, cs, htext, _⟩, _⟩ := h
    cases htext
  | minus => cases h.1
  | _ => first | cases h.1 | cases h

end Lexeme

/-! ## Whole texts -/

namespace Scanner

/-- What a token is and how long it is, apart from its place. -/
def shape (t : Token) : Lexeme × Nat :=
  (t.lexeme, t.length)

theorem next_eq_ok {s s' : Scanner} {t : Token} (h : s.next = (.ok t, s')) :
    Lexeme.read s.ahead = .lexeme t.lexeme t.length ∧ s'.ahead = s.ahead.drop t.length := by
  unfold next at h
  split at h
  · rename_i lexeme length hread
    cases h
    exact ⟨hread, rfl⟩
  · cases h

theorem next_of_read {s : Scanner} {lexeme : Lexeme} {length : Nat}
    (h : Lexeme.read s.ahead = .lexeme lexeme length) :
    s.next = (.ok ⟨lexeme, s.pos.line, s.pos.col, length⟩, s.advance length) := by
  unfold next
  rw [h]

theorem next_of_rule {s : Scanner} {lexeme : Lexeme} {text rest : List Char}
    (hs : s.ahead = text ++ rest) (hrule : lexeme.Rule text rest)
    (hlength : ∀ value, lexeme = .literal value → text.length ≤ Numeral.digitLimit) :
    s.next = (.ok ⟨lexeme, s.pos.line, s.pos.col, text.length⟩, ⟨rest, s.pos.after text⟩) := by
  have hread : Lexeme.read s.ahead = .lexeme lexeme text.length := by
    rw [hs]
    exact Lexeme.read_of_rule_of_length hrule hlength
  rw [next_of_read hread]
  unfold advance
  rw [hs, List.drop_left, List.take_left]

theorem readAll_of_eof {s s' : Scanner} {t : Token} (h : s.next = (.ok t, s'))
    (heof : t.lexeme = .eof) : s.readAll = ⟨[t], none, s'⟩ := by
  rw [readAll]
  split
  · simp_all
  · simp_all

theorem readAll_of_token {s s' : Scanner} {t : Token} (h : s.next = (.ok t, s'))
    (hne : t.lexeme ≠ .eof) :
    s.readAll = ⟨t :: s'.readAll.tokens, s'.readAll.error, s'.readAll.final⟩ := by
  rw [readAll]
  split
  · simp_all
  · rename_i heq
    rw [h] at heq
    cases heq
    rw [dif_neg hne]

/-- A text that is read without a fault is decomposed by its tokens. -/
theorem decomposes_of_readAll (s : Scanner) (h : s.readAll.error = none) :
    ∃ pieces, Decomposes pieces s.ahead := by
  fun_induction readAll s with
  | case1 s e s' hnext => cases h
  | case2 s t s' hnext heof =>
    obtain ⟨hread, _⟩ := next_eq_ok hnext
    refine ⟨[], ?_⟩
    by_contra hne
    -- no rule is one for the end of the text
    obtain ⟨_, _, _, _, hrule⟩ := Lexeme.rule_of_read hread hne
    rw [heof] at hrule
    exact hrule
  | case3 s t s' hnext hne rest ih =>
    obtain ⟨hread, hahead⟩ := next_eq_ok hnext
    obtain ⟨text, after, hsplit, hlength, hrule⟩ :=
      Lexeme.rule_of_read hread (Lexeme.length_pos_of_read hread hne).1
    obtain ⟨pieces, hpieces⟩ := ih h
    refine ⟨(t.lexeme, text) :: pieces, after, hsplit, hrule, ?_⟩
    rw [hahead, hsplit, hlength, List.drop_left] at hpieces
    exact hpieces

/-- A decomposed text is read without a fault, with the tokens of its decomposition. -/
theorem readAll_of_decomposes {pieces : List (Lexeme × List Char)} (s : Scanner)
    (h : Decomposes pieces s.ahead) (hshort : ShortRuns s.ahead) :
    s.readAll.error = none ∧
      s.readAll.tokens.map shape
        = pieces.map (fun piece => (piece.1, piece.2.length)) ++ [(.eof, 0)] := by
  induction pieces generalizing s with
  | nil =>
    have hread : Lexeme.read s.ahead = .lexeme .eof 0 := by
      rw [show s.ahead = [] from h]
      rfl
    rw [readAll_of_eof (next_of_read hread) rfl]
    exact ⟨rfl, rfl⟩
  | cons piece pieces ih =>
    obtain ⟨lexeme, text⟩ := piece
    obtain ⟨rest, hsplit, hrule, hpieces⟩ := h
    rw [hsplit] at hshort
    have hread : Lexeme.read s.ahead = .lexeme lexeme text.length := by
      rw [hsplit]
      exact Lexeme.read_of_rule hrule hshort
    have hne : lexeme ≠ .eof := by
      rintro rfl
      exact hrule
    have hahead : (s.advance text.length).ahead = rest := by
      show s.ahead.drop text.length = rest
      rw [hsplit, List.drop_left]
    obtain ⟨herror, htokens⟩ := ih (s.advance text.length) (by rw [hahead]; exact hpieces)
      (by rw [hahead]; exact hshort.of_append)
    rw [readAll_of_token (next_of_read hread) hne]
    refine ⟨herror, ?_⟩
    rw [List.map_cons, htokens]
    rfl

end Scanner

/-! ## Significant tokens -/

theorem Scanner.nextSignificant_of_eof {s s' : Scanner} {t : Token} (h : s.next = (.ok t, s'))
    (heof : t.lexeme = .eof) : s.nextSignificant = (.ok none, s') := by
  rw [nextSignificant]
  split
  · simp_all
  · simp_all

theorem Scanner.nextSignificant_of_token {s s' : Scanner} {t : Token} (h : s.next = (.ok t, s'))
    (hne : t.lexeme ≠ .eof) (htrivia : t.lexeme.isTrivia = false) :
    s.nextSignificant = (.ok (some t), s') := by
  rw [nextSignificant]
  split
  · simp_all
  · simp_all

theorem Scanner.nextSignificant_of_trivia {s s' : Scanner} {t : Token} (h : s.next = (.ok t, s'))
    (htrivia : t.lexeme.isTrivia = true) : s.nextSignificant = s'.nextSignificant := by
  have hne : t.lexeme ≠ .eof := by
    intro heof
    rw [heof] at htrivia
    cases htrivia
  rw [nextSignificant]
  split
  · simp_all
  · simp_all

/-- A stream only sees the significant token ahead. -/
theorem TokenStream.ofScanner_congr {s s' : Scanner} (h : s.nextSignificant = s'.nextSignificant)
    (count : Nat) : ofScanner s count = ofScanner s' count := by
  rw [ofScanner, ofScanner]
  split <;> split <;> simp_all

theorem TokenStream.ofScanner_of_none {s s' : Scanner}
    (h : s.nextSignificant = (.ok none, s')) (count : Nat) :
    ofScanner s count = ⟨[], .finished count s'.pos.line⟩ := by
  rw [ofScanner]
  split <;> simp_all

theorem TokenStream.ofScanner_of_some {s s' : Scanner} {t : Token}
    (h : s.nextSignificant = (.ok (some t), s')) (count : Nat) :
    ofScanner s count
      = ⟨t :: (ofScanner s' (count + 1)).tokens, (ofScanner s' (count + 1)).ending⟩ := by
  rw [ofScanner]
  split <;> simp_all

/-- A text that starts with a significant lexeme has its token first. -/
theorem TokenStream.ofScanner_of_rule {s : Scanner} {lexeme : Lexeme} {text rest : List Char}
    (hs : s.ahead = text ++ rest) (hrule : lexeme.Rule text rest)
    (hlength : ∀ value, lexeme = .literal value → text.length ≤ Numeral.digitLimit)
    (htrivia : lexeme.isTrivia = false) (count : Nat) :
    ofScanner s count
      = ⟨⟨lexeme, s.pos.line, s.pos.col, text.length⟩
            :: (ofScanner ⟨rest, s.pos.after text⟩ (count + 1)).tokens,
          (ofScanner ⟨rest, s.pos.after text⟩ (count + 1)).ending⟩ := by
  have hne : lexeme ≠ .eof := by
    rintro rfl
    exact hrule
  rw [ofScanner_of_some
    (Scanner.nextSignificant_of_token (Scanner.next_of_rule hs hrule hlength) hne htrivia)]

/-- Trivia at the start of a text do not count. -/
theorem TokenStream.ofScanner_of_trivia {s : Scanner} {lexeme : Lexeme} {text rest : List Char}
    (hs : s.ahead = text ++ rest) (hrule : lexeme.Rule text rest)
    (htrivia : lexeme.isTrivia = true) (count : Nat) :
    ofScanner s count = ofScanner ⟨rest, s.pos.after text⟩ count := by
  have hlength : ∀ value, lexeme = .literal value → text.length ≤ Numeral.digitLimit := by
    rintro value rfl
    cases htrivia
  exact ofScanner_congr
    (Scanner.nextSignificant_of_trivia (Scanner.next_of_rule hs hrule hlength) htrivia) count

/-- A significant token was read somewhere in the text, before its end. -/
theorem Scanner.next_of_nextSignificant {s s' : Scanner} {t : Token}
    (h : s.nextSignificant = (.ok (some t), s')) :
    ∃ s₁ : Scanner, s₁.next = (.ok t, s') ∧ t.lexeme ≠ .eof ∧ t.lexeme.isTrivia = false := by
  fun_induction Scanner.nextSignificant s with
  | case1 => cases h
  | case2 => cases h
  | case3 s t' s'' hnext hne htrivia ih => exact ih h
  | case4 s t' s'' hnext hne htrivia =>
    cases h
    exact ⟨s, hnext, hne, Bool.not_eq_true _ ▸ htrivia⟩

theorem TokenStream.next_of_mem_tokens (s : Scanner) (count : Nat) :
    ∀ t ∈ (TokenStream.ofScanner s count).tokens,
      ∃ s₁ s₂ : Scanner, s₁.next = (.ok t, s₂) ∧ t.lexeme ≠ .eof ∧ t.lexeme.isTrivia = false := by
  fun_induction TokenStream.ofScanner s count with
  | case1 => simp
  | case2 => simp
  | case3 s count t s' hnext rest ih =>
    intro t' hmem
    rcases List.mem_cons.mp hmem with rfl | hmem
    · obtain ⟨s₁, h₁, hne⟩ := Scanner.next_of_nextSignificant hnext
      exact ⟨s₁, s', h₁, hne⟩
    · exact ih t' hmem

/-- The significant tokens of a source text follow the rules of their lexemes. -/
theorem TokenStream.rule_of_mem_tokens {source : String} {t : Token}
    (ht : t ∈ (TokenStream.ofSource source).tokens) :
    t.lexeme.isTrivia = false ∧ ∃ text rest, t.lexeme.Rule text rest := by
  obtain ⟨s₁, s₂, hnext, hne, htrivia⟩ := TokenStream.next_of_mem_tokens _ _ t ht
  obtain ⟨hread, _⟩ := Scanner.next_eq_ok hnext
  obtain ⟨text, rest, _, _, hrule⟩ :=
    Lexeme.rule_of_read hread (Lexeme.length_pos_of_read hread hne).1
  exact ⟨htrivia, text, rest, hrule⟩

/-- The literals of a source text are in range. -/
theorem TokenStream.literal_lt {source : String} {t : Token} {value : Nat}
    (ht : t ∈ (TokenStream.ofSource source).tokens) (hvalue : t.lexeme = .literal value) :
    value < 2 ^ 31 := by
  obtain ⟨_, text, rest, hrule⟩ := TokenStream.rule_of_mem_tokens ht
  rw [hvalue] at hrule
  obtain ⟨_, _, _, hlt⟩ := hrule
  exact hlt

/-! ## Decompositions -/

/-- The texts of a decomposition make up the source text. -/
theorem Decomposes.flatten_eq {pieces : List (Lexeme × List Char)} {source : List Char}
    (h : Decomposes pieces source) : (pieces.map Prod.snd).flatten = source := by
  induction pieces generalizing source with
  | nil => exact h.symm
  | cons piece pieces ih =>
    obtain ⟨rest, hsplit, _, hpieces⟩ := h
    rw [List.map_cons, List.flatten_cons, ih hpieces, hsplit]

theorem Decomposes.ne_nil {pieces : List (Lexeme × List Char)} {source : List Char}
    (h : Decomposes pieces source) : ∀ piece ∈ pieces, piece.2 ≠ [] := by
  induction pieces generalizing source with
  | nil => simp
  | cons piece pieces ih =>
    obtain ⟨rest, _, hrule, hpieces⟩ := h
    intro other hmem
    rcases List.mem_cons.mp hmem with rfl | hmem
    · exact hrule.ne_nil
    · exact ih hpieces other hmem

/-- A text has at most one decomposition. -/
theorem Decomposes.unique {pieces pieces' : List (Lexeme × List Char)} {source : List Char}
    (h : Decomposes pieces source) (h' : Decomposes pieces' source) (hshort : ShortRuns source) :
    pieces = pieces' := by
  induction pieces generalizing pieces' source with
  | nil =>
    obtain rfl : source = [] := h
    cases pieces' with
    | nil => rfl
    | cons piece' pieces' =>
      obtain ⟨rest', hsplit', hrule', _⟩ := h'
      exact absurd (List.append_eq_nil_iff.mp hsplit'.symm).1 hrule'.ne_nil
  | cons piece pieces ih =>
    obtain ⟨lexeme, text⟩ := piece
    obtain ⟨rest, rfl, hrule, hpieces⟩ := h
    cases pieces' with
    | nil => exact absurd (List.append_eq_nil_iff.mp h').1 hrule.ne_nil
    | cons piece' pieces' =>
      obtain ⟨lexeme', text'⟩ := piece'
      obtain ⟨rest', hsplit', hrule', hpieces'⟩ := h'
      -- both lexemes are what the text starts with, so the texts are as long
      have hread := Lexeme.read_of_rule hrule hshort
      have hread' := Lexeme.read_of_rule hrule' (by rw [← hsplit']; exact hshort)
      rw [← hsplit', hread] at hread'
      obtain ⟨rfl, hlength⟩ := Reading.lexeme.inj hread'
      obtain ⟨rfl, rfl⟩ := List.append_inj hsplit' hlength
      rw [ih hpieces hpieces' hshort.of_append]

/-- The scanner reads exactly the texts that have a decomposition, and its tokens, up to the end
token, are those of the only one. -/
theorem readAll_iff_decomposes (source : String) (hshort : ShortRuns source.toList) :
    ((Scanner.ofSource source).readAll.error = none ↔ ∃ pieces, Decomposes pieces source.toList)
      ∧ ∀ pieces, Decomposes pieces source.toList →
        (Scanner.ofSource source).readAll.tokens.map Scanner.shape
            = pieces.map (fun piece => (piece.1, piece.2.length)) ++ [(.eof, 0)]
          ∧ (pieces.map Prod.snd).flatten = source.toList
          ∧ (∀ piece ∈ pieces, piece.2 ≠ [])
          ∧ ∀ pieces', Decomposes pieces' source.toList → pieces' = pieces := by
  refine ⟨⟨Scanner.decomposes_of_readAll _, ?_⟩, ?_⟩
  · rintro ⟨pieces, h⟩
    exact (Scanner.readAll_of_decomposes (.ofSource source) h hshort).1
  · intro pieces h
    exact ⟨(Scanner.readAll_of_decomposes (.ofSource source) h hshort).2, h.flatten_eq, h.ne_nil,
      fun pieces' h' => h'.unique h hshort⟩

/-- A text with a comment, a keyword and a longer word that starts with one. -/
theorem readAll_iff_decomposes_comment :
    ShortRuns "read-- 1\nreads".toList
      ∧ (Scanner.ofSource "read-- 1\nreads").readAll.tokens.map Scanner.shape
        = [(.readKw, 4), (.comment, 4), (.whitespace, 1), (.identifier "reads", 5), (.eof, 0)] := by
  have hshort : ShortRuns "read-- 1\nreads".toList := shortRuns_of_length (by decide)
  have hpieces : Decomposes [(.readKw, "read".toList), (.comment, "-- 1".toList),
      (.whitespace, "\n".toList), (.identifier "reads", "reads".toList)]
      "read-- 1\nreads".toList := by
    refine ⟨"-- 1\nreads".toList, rfl, ⟨rfl, 'r', "ead".toList, rfl, rfl, by decide⟩, ?_⟩
    refine ⟨"\nreads".toList, rfl, ⟨⟨" 1".toList, rfl⟩, by decide⟩, ?_⟩
    refine ⟨"reads".toList, rfl, ⟨by decide, by decide⟩, ?_⟩
    exact ⟨[], rfl, ⟨rfl, ⟨'r', "eads".toList, rfl, rfl, by decide⟩, by decide⟩, rfl⟩
  exact ⟨hshort, ((readAll_iff_decomposes _ hshort).2 _ hpieces).1⟩

end MicroLang.Source
