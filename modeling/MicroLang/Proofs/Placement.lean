import MicroLang.Proofs.Diagnosis
import MicroLang.Proofs.Positions

/-!
# Where tokens and faults stand

A token or a fault comes with a line, a column and a length. `Placed` says what these mean: the text
ahead of a scanner is cut in three, and the piece in the middle, of that length, starts at that line
and column. Each significant token of a stream stands at such a piece, which follows the rule of its
lexeme (`Token.StandsAt`), and so does the fault behind them (`LexError.StandsAt`).

What follows a token decides where it ends, and nothing else: only a character that extends the
lexeme could have made it another one.

> `ofScanner_of_tail`: a stream is the same up to one of its tokens, whatever follows that token,
> unless it starts with a character that extends the token.
-/

namespace MicroLang.Source

open MicroLang.Text

/-! ## Characters that extend a lexeme -/

namespace Lexeme

/-- A character that would belong to a lexeme if it stood right behind it. -/
def extendedBy (c : Char) : Lexeme → Bool
  | whitespace => isWhiteSpace c
  | comment => c != '\n'
  | beginKw | endKw | readKw | writeKw | identifier _ => isAsciiAlphanumeric c
  | literal _ => isDigit c
  | minus => c == '-'
  | _ => false

variable {lexeme : Lexeme} {text rest tail : List Char}

theorem Rule.not_extended (h : Rule text rest lexeme) :
    ∀ c ∈ rest.head?, lexeme.extendedBy c = false := by
  intro c hc
  cases lexeme with
  | whitespace => exact h.2.longest c hc
  | comment => exact h.2.longest c hc
  | literal value => exact h.2.1.longest c hc
  | identifier name => exact h.2.1.longest c hc
  | beginKw => exact h.2.longest c hc
  | endKw => exact h.2.longest c hc
  | readKw => exact h.2.longest c hc
  | writeKw => exact h.2.longest c hc
  | minus => exact beq_false_of_ne fun he => h.2 (he ▸ hc)
  | _ => rfl

/-- A lexeme keeps its text in front of anything that does not extend it. -/
theorem Rule.of_tail (h : Rule text rest lexeme)
    (htail : ∀ c ∈ tail.head?, lexeme.extendedBy c = false) : Rule text tail lexeme := by
  cases lexeme with
  | whitespace => exact ⟨h.1, h.2.all, htail⟩
  | comment => exact ⟨h.1, h.2.all, htail⟩
  | literal value => exact ⟨h.1, ⟨h.2.1.all, htail⟩, h.2.2⟩
  | identifier name => exact ⟨h.1, h.2.1.of_rest htail, h.2.2⟩
  | beginKw => exact ⟨h.1, h.2.of_rest htail⟩
  | endKw => exact ⟨h.1, h.2.of_rest htail⟩
  | readKw => exact ⟨h.1, h.2.of_rest htail⟩
  | writeKw => exact ⟨h.1, h.2.of_rest htail⟩
  | minus =>
    refine ⟨h.1, ?_⟩
    intro hhead
    cases htail '-' hhead
  | _ => exact h

/-- A literal that is read is not too long. -/
theorem length_le_of_read {cs : List Char} {value length : Nat}
    (h : read cs = .lexeme (.literal value) length) : length ≤ Numeral.digitLimit := by
  have hne : cs ≠ [] := by
    rintro rfl
    cases h
  obtain ⟨text, rest, rfl, rfl, hnonempty, hrun, _⟩ := rule_of_read h hne
  rw [read_of_digits hnonempty hrun] at h
  unfold readLiteral at h
  split at h
  · cases h
  split at h
  · cases h
  · rename_i hlong
    exact Nat.not_lt.mp hlong

end Lexeme

/-! ## Places -/

/-- A piece of the text ahead of a scanner, with its line, its column and its length. -/
structure Placed (s : Scanner) (line col length : Nat) (before text rest : List Char) : Prop where
  ahead : s.ahead = before ++ text ++ rest
  line : line = (s.pos.after before).line
  col : col = (s.pos.after before).col
  length : length = text.length

/-- A token stands at a piece of the text ahead, which follows the rule of its lexeme. -/
structure Token.StandsAt (t : Token) (s : Scanner) (before text rest : List Char) : Prop
    extends Placed s t.line t.col t.length before text rest where
  rule : t.lexeme.Rule text rest

section

variable {t : Token} {s : Scanner} {skipped more before text rest : List Char}

/-- What stands ahead of a scanner that has moved on stood ahead of it before. -/
theorem Token.StandsAt.behind (h : t.StandsAt ⟨more, s.pos.after skipped⟩ before text rest)
    (hs : s.ahead = skipped ++ more) : t.StandsAt s (skipped ++ before) text rest where
  ahead := by
    rw [hs, show more = before ++ text ++ rest from h.ahead]
    simp only [List.append_assoc]
  line := by
    rw [h.line, Position.after_append]
  col := by
    rw [h.col, Position.after_append]
  length := h.length
  rule := h.rule

/-- What stands before a token goes on with the same character, whatever follows the token. -/
theorem Token.StandsAt.head?_eq (h : t.StandsAt ⟨more, s.pos.after skipped⟩ before text rest)
    (tail : List Char) : (before ++ text ++ tail).head? = more.head? := by
  obtain ⟨c, cs, htext⟩ := List.exists_cons_of_ne_nil h.rule.ne_nil
  rw [show more = before ++ text ++ rest from h.ahead, htext]
  cases before with
  | nil => rfl
  | cons b before => rfl

end

/-- At one place of a source text there is one token. -/
theorem Token.StandsAt.unique {t : Token} {source : String}
    {before text rest before' text' rest' : List Char}
    (h : t.StandsAt (.ofSource source) before text rest)
    (h' : t.StandsAt (.ofSource source) before' text' rest') :
    before = before' ∧ text = text' ∧ rest = rest' := by
  have hsplit : before ++ text ++ rest = before' ++ text' ++ rest' := h.ahead.symm.trans h'.ahead
  rw [List.append_assoc, List.append_assoc] at hsplit
  have hbefore : before = before' :=
    Position.prefix_unique hsplit (h.line.symm.trans h'.line) (h.col.symm.trans h'.col)
  subst hbefore
  obtain ⟨htext, hrest⟩ :=
    List.append_inj (List.append_cancel_left hsplit) (h.length.symm.trans h'.length)
  exact ⟨rfl, htext, hrest⟩

/-! ## Tokens and what follows them -/

namespace Scanner

variable {s s' : Scanner} {t : Token}

/-- One token: its text, and the same token in front of any other rest. -/
theorem next_of_tail (h : s.next = (.ok t, s')) (hne : t.lexeme ≠ .eof) :
    ∃ text rest, t.StandsAt s [] text rest ∧ s' = ⟨rest, s.pos.after text⟩
      ∧ ∀ tail, (∀ c ∈ tail.head?, t.lexeme.extendedBy c = false) →
        next ⟨text ++ tail, s.pos⟩ = (.ok t, ⟨tail, s.pos.after text⟩) := by
  obtain ⟨hread, _⟩ := next_eq_ok h
  obtain ⟨text, rest, hahead, hlength, hrule⟩ :=
    Lexeme.rule_of_read hread (Lexeme.length_pos_of_read hread hne).1
  have hlimit : ∀ value, t.lexeme = .literal value → text.length ≤ Numeral.digitLimit := by
    intro value hvalue
    rw [hvalue, hlength] at hread
    exact Lexeme.length_le_of_read hread
  have hnext := next_of_rule hahead hrule hlimit
  rw [h] at hnext
  obtain ⟨ht, hs'⟩ := Prod.mk.inj hnext
  have ht : t = ⟨t.lexeme, s.pos.line, s.pos.col, text.length⟩ := Except.ok.inj ht
  refine ⟨text, rest, ⟨⟨hahead, ?_, ?_, hlength⟩, hrule⟩, hs', ?_⟩
  · rw [ht]
    rfl
  · rw [ht]
    rfl
  · intro tail htail
    rw [next_of_rule rfl (hrule.of_tail htail) hlimit, ← ht]

/-- The next significant token stands behind trivia, and is the same in front of any other rest. -/
theorem nextSignificant_of_tail (h : s.nextSignificant = (.ok (some t), s')) :
    ∃ before text rest, t.StandsAt s before text rest ∧ s' = ⟨rest, s.pos.after (before ++ text)⟩
      ∧ ∀ tail, (∀ c ∈ tail.head?, t.lexeme.extendedBy c = false) →
        nextSignificant ⟨before ++ text ++ tail, s.pos⟩
          = (.ok (some t), ⟨tail, s.pos.after (before ++ text)⟩) := by
  fun_induction nextSignificant s with
  | case1 => cases h
  | case2 => cases h
  | case3 s trivia mid hnext hne htrivia ih =>
    obtain ⟨skipped, more, hskipped, rfl, hagain⟩ := next_of_tail hnext hne
    obtain ⟨before, text, rest, hstands, hs', hlater⟩ := ih h
    have hafter : (s.pos.after skipped).after (before ++ text)
        = s.pos.after (skipped ++ before ++ text) := by
      rw [List.append_assoc, Position.after_append _ skipped]
    refine ⟨skipped ++ before, text, rest, hstands.behind hskipped.ahead, ?_, ?_⟩
    · rw [hs', hafter]
    · intro tail htail
      -- the trivia end where they did, as the token starts with the same character
      have hskip := hagain (before ++ text ++ tail)
        (hstands.head?_eq tail ▸ hskipped.rule.not_extended)
      have hsplit : skipped ++ before ++ text ++ tail = skipped ++ (before ++ text ++ tail) := by
        simp only [List.append_assoc]
      rw [hsplit, nextSignificant_of_trivia hskip htrivia, hlater tail htail, hafter]
  | case4 s token mid hnext hne htrivia =>
    cases h
    obtain ⟨text, rest, hstands, hs', hagain⟩ := next_of_tail hnext hne
    refine ⟨[], text, rest, hstands, hs', ?_⟩
    intro tail htail
    exact nextSignificant_of_token (hagain tail htail) hne (Bool.eq_false_iff.mpr htrivia)

end Scanner

/-- The first token of a stream is the next significant one, and the others follow it. -/
theorem TokenStream.nextSignificant_of_tokens {s : Scanner} {count : Nat} {t : Token}
    {ts : List Token} (h : (ofScanner s count).tokens = t :: ts) :
    ∃ s' : Scanner, s.nextSignificant = (.ok (some t), s')
      ∧ (ofScanner s' (count + 1)).tokens = ts := by
  rw [ofScanner] at h
  split at h
  · cases h
  · cases h
  · rename_i first s' hnext
    cases h
    exact ⟨s', hnext, rfl⟩

/-- A token of a stream stands in the text, and the stream up to this token does not depend on what
follows it there. -/
theorem TokenStream.ofScanner_of_tail {s : Scanner} {count : Nat} {front back : List Token}
    {t : Token} (h : (ofScanner s count).tokens = front ++ t :: back) :
    ∃ before text rest, t.StandsAt s before text rest
      ∧ ∀ tail, (∀ c ∈ tail.head?, t.lexeme.extendedBy c = false) →
        ∃ back' ending, ofScanner ⟨before ++ text ++ tail, s.pos⟩ count
          = ⟨front ++ t :: back', ending⟩ := by
  induction front generalizing s count with
  | nil =>
    obtain ⟨s', hnext, _⟩ := nextSignificant_of_tokens h
    obtain ⟨before, text, rest, hstands, _, hagain⟩ := Scanner.nextSignificant_of_tail hnext
    refine ⟨before, text, rest, hstands, ?_⟩
    intro tail htail
    rw [ofScanner_of_some (hagain tail htail)]
    exact ⟨_, _, rfl⟩
  | cons first front ih =>
    obtain ⟨s', hnext, hrest⟩ := nextSignificant_of_tokens h
    obtain ⟨blanks, word, more, hfirst, rfl, hagain⟩ := Scanner.nextSignificant_of_tail hnext
    obtain ⟨before, text, rest, hstands, hlater⟩ := ih hrest
    refine ⟨blanks ++ word ++ before, text, rest, hstands.behind hfirst.ahead, ?_⟩
    intro tail htail
    have hskip := hagain (before ++ text ++ tail)
      (hstands.head?_eq tail ▸ hfirst.rule.not_extended)
    have hsplit : blanks ++ word ++ before ++ text ++ tail
        = blanks ++ word ++ (before ++ text ++ tail) := by
      simp only [List.append_assoc]
    obtain ⟨back', ending, hstream⟩ := hlater tail htail
    rw [hsplit, ofScanner_of_some hskip, hstream]
    exact ⟨_, _, rfl⟩

/-- Each token of a source text stands somewhere in it. -/
theorem TokenStream.standsAt_of_mem {source : String} {t : Token}
    (h : t ∈ (ofSource source).tokens) :
    t.lexeme.isTrivia = false
      ∧ ∃ before text rest, t.StandsAt (.ofSource source) before text rest := by
  obtain ⟨front, back, hsplit⟩ := List.append_of_mem h
  obtain ⟨before, text, rest, hstands, _⟩ := ofScanner_of_tail hsplit
  exact ⟨(rule_of_mem_tokens h).1, before, text, rest, hstands⟩

theorem Token.lexeme_eofAfter (last : Option Token) : (eofAfter last).lexeme = .eof := by
  cases last with
  | none => rfl
  | some last => rfl

/-! ## Faults -/

/-- A lexical error stands at a piece of the text ahead, which follows the rule of its fault. -/
structure LexError.StandsAt (e : LexError) (s : Scanner) (before text rest : List Char) : Prop
    extends Placed s e.line e.col e.length before text rest where
  rule : e.fault.Rule text rest

/-- The fault at the end of a stream stands in the text. -/
theorem TokenStream.standsAt_of_failed {s : Scanner} {count : Nat} {e : LexError}
    (h : (ofScanner s count).ending = .failed e) :
    ∃ before text rest, e.StandsAt s before text rest := by
  obtain ⟨n, s', hnext⟩ := next_of_failed h
  obtain ⟨⟨past, hread⟩, hline, hcol⟩ := Scanner.read_of_next_error hnext
  obtain ⟨text, rest, hahead, hlength, hrule, _⟩ := Lexeme.rule_of_fault hread
  refine ⟨s.ahead.take n, text, rest, ⟨?_, hline, hcol, hlength⟩, hrule⟩
  rw [List.append_assoc, ← hahead]
  exact (List.take_append_drop n s.ahead).symm

end MicroLang.Source
