import MicroLang.Proofs.Displacement
import MicroLang.Proofs.Placement

/-!
# Layout

White space and comments stand between the tokens that count. More of them may be put between any
two tokens, also in the middle of other layout, if the text that is put there starts with white
space and all its comments are complete.

Such a text does not become tokens of its own everywhere. White space before it or behind it is one
token with its ends, and behind a comment it belongs to that comment up to the end of the line. So
what is compared is not the tokens of two texts, but the lexemes that count: `Lexes` relates a text
to them, and says that it has no faults. Layout in front of a text does not change them
(`Lexes.layout`), and no lexeme that counts is extended by white space.

> `compile_layout`: with layout put between two tokens, a text has the same significant lexemes, and
> the same listing or an error of the same stage with the same message.
-/

namespace MicroLang.Source

open MicroLang.Text

/-! ## Boundaries and layout -/

/-- Reading tokens, trivia included, leads from one scanner to another. From the start of a text it
leads to the places between its tokens, and to its end. -/
inductive Scanner.Reaches : Scanner → Scanner → Prop where
  | here (s : Scanner) : Reaches s s
  | token {s mid s' : Scanner} {t : Token} (h : s.next = (.ok t, mid)) (hrest : Reaches mid s') :
    Reaches s s'

/-- White space and complete line comments. -/
inductive Layout : List Char → Prop where
  | nil : Layout []
  | blank {c : Char} {more : List Char} (hc : isWhiteSpace c = true) (h : Layout more) :
    Layout (c :: more)
  | comment {text more : List Char} (htext : '\n' ∉ text) (h : Layout more) :
    Layout ('-' :: '-' :: (text ++ '\n' :: more))

/-- Layout that starts with white space. -/
def Gap (gap : List Char) : Prop :=
  Layout gap ∧ ∃ c ∈ gap.head?, isWhiteSpace c = true

/-- A text that is white space up to some layout is layout. -/
theorem Layout.blanks {text more : List Char} (htext : ∀ c ∈ text, isWhiteSpace c = true)
    (h : Layout more) : Layout (text ++ more) := by
  induction text with
  | nil => exact h
  | cons c text ih =>
    obtain ⟨hc, htext⟩ := List.forall_mem_cons.mp htext
    exact .blank hc (ih htext)

theorem Run.dropWhile_append {p : Char → Bool} {text rest : List Char} (h : Run p text rest) :
    (text ++ rest).dropWhile p = rest := by
  have hsplit := List.takeWhile_append_dropWhile (p := p) (l := text ++ rest)
  rw [h.takeWhile_append] at hsplit
  exact List.append_cancel_left hsplit

/-- A run goes on with the characters of its class that are put behind it. -/
theorem Run.append {p : Char → Bool} {text rest more tail : List Char} (h : Run p text rest)
    (hmore : Run p more tail) : Run p (text ++ more) (tail ++ rest) where
  all := List.forall_mem_append.mpr ⟨h.all, hmore.all⟩
  longest := by
    intro c hc
    cases tail with
    | nil => exact h.longest c hc
    | cons d tail => exact hmore.longest c hc

/-- A line comment runs up to the end of its line. -/
theorem run_comment {text : List Char} (htext : '\n' ∉ text) (more : List Char) :
    Run (· != '\n') ('-' :: '-' :: text) ('\n' :: more) := by
  have htext : Run (· != '\n') text ('\n' :: more) := by
    refine ⟨fun c hc => bne_iff_ne.mpr fun he => htext (he ▸ hc), ?_⟩
    intro c hc
    cases hc
    rfl
  exact (htext.cons rfl).cons rfl

/-- Layout is still layout from the end of its first line on. -/
theorem Layout.dropLine {gap : List Char} (h : Layout gap) :
    Layout (gap.dropWhile (· != '\n')) := by
  induction h with
  | nil => exact .nil
  | @blank c more hc h ih =>
    by_cases hline : c = '\n'
    · rw [List.dropWhile_cons_of_neg (by simp [hline])]
      exact .blank hc h
    · rw [List.dropWhile_cons_of_pos (by simp [hline])]
      exact ih
  | @comment text more htext h ih =>
    have hdrop := (run_comment htext more).dropWhile_append
    rw [List.cons_append, List.cons_append] at hdrop
    rw [hdrop]
    exact .blank (by decide) h

/-! ## Texts and the lexemes that count -/

/-- A lexeme, if it counts. -/
def Lexeme.significant (lexeme : Lexeme) : List Lexeme :=
  if lexeme.isTrivia then [] else [lexeme]

/-- A text without faults has some significant lexemes. -/
inductive Lexes : List Char → List Lexeme → Prop where
  | done : Lexes [] []
  | piece {lexeme : Lexeme} {text rest : List Char} {xs : List Lexeme}
      (hrule : lexeme.Rule text rest)
      (hlength : ∀ value, lexeme = .literal value → text.length ≤ Numeral.digitLimit)
      (h : Lexes rest xs) : Lexes (text ++ rest) (lexeme.significant ++ xs)

section

variable {s s' : Scanner} {t : Token} {cs : List Char} {xs : List Lexeme}

/-- A token that is read is cut from the front of the text. -/
theorem Scanner.piece_of_next (h : s.next = (.ok t, s')) (hne : t.lexeme ≠ .eof) :
    ∃ text, s.ahead = text ++ s'.ahead ∧ t.lexeme.Rule text s'.ahead
      ∧ ∀ value, t.lexeme = .literal value → text.length ≤ Numeral.digitLimit := by
  obtain ⟨text, rest, hstands, rfl, _⟩ := next_of_tail h hne
  refine ⟨text, hstands.ahead, hstands.rule, ?_⟩
  intro value hvalue
  have hread := (next_eq_ok h).1
  rw [hvalue, hstands.length] at hread
  exact Lexeme.length_le_of_read hread

/-- The end token is read where nothing is ahead. -/
theorem Scanner.ahead_of_eof (h : s.next = (.ok t, s')) (heof : t.lexeme = .eof) :
    s.ahead = [] ∧ s'.ahead = [] := by
  obtain ⟨hread, hahead⟩ := next_eq_ok h
  have hnil : s.ahead = [] := by
    by_contra hne
    obtain ⟨text, rest, _, _, hrule⟩ := Lexeme.rule_of_read hread hne
    rw [heof] at hrule
    exact hrule
  rw [hnil, List.drop_nil] at hahead
  exact ⟨hnil, hahead⟩

theorem Scanner.next_of_nil (h : s.ahead = []) :
    ∃ t s', s.next = (.ok t, s') ∧ t.lexeme = .eof := by
  have hread : Lexeme.read s.ahead = .lexeme .eof 0 := by
    rw [h]
    rfl
  exact ⟨_, _, next_of_read hread, rfl⟩

/-- A text that is read without an error has significant lexemes. -/
theorem Lexes.of_readAll (s : Scanner) (h : s.readAll.error = none) : ∃ xs, Lexes s.ahead xs := by
  fun_induction Scanner.readAll s with
  | case1 s e s' hnext => cases h
  | case2 s t s' hnext heof =>
    rw [(Scanner.ahead_of_eof hnext heof).1]
    exact ⟨[], .done⟩
  | case3 s t s' hnext hne rest ih =>
    obtain ⟨text, hs, hrule, hlength⟩ := Scanner.piece_of_next hnext hne
    obtain ⟨xs, hxs⟩ := ih h
    rw [hs]
    exact ⟨_, .piece hrule hlength hxs⟩

theorem Lexes.readAll (h : Lexes cs xs) (hs : s.ahead = cs) : s.readAll.error = none := by
  induction h generalizing s with
  | done =>
    obtain ⟨t, s', hnext, heof⟩ := Scanner.next_of_nil hs
    rw [Scanner.readAll_of_eof hnext heof]
  | @piece lexeme text rest xs hrule hlength h ih =>
    have hne : lexeme ≠ .eof := by
      rintro rfl
      exact hrule
    rw [Scanner.readAll_of_token (Scanner.next_of_rule hs hrule hlength) hne]
    exact ih rfl

/-- The significant lexemes are those of the token stream, which ends without a fault. -/
theorem Lexes.stream (h : Lexes cs xs) (hs : s.ahead = cs) (count : Nat) :
    (TokenStream.ofScanner s count).tokens.map Token.lexeme = xs
      ∧ ∀ e, (TokenStream.ofScanner s count).ending ≠ .failed e := by
  induction h generalizing s count with
  | done =>
    obtain ⟨t, s', hnext, heof⟩ := Scanner.next_of_nil hs
    rw [TokenStream.ofScanner_of_none (Scanner.nextSignificant_of_eof hnext heof)]
    exact ⟨rfl, fun e he => nomatch he⟩
  | @piece lexeme text rest xs hrule hlength h ih =>
    unfold Lexeme.significant
    cases htrivia : lexeme.isTrivia with
    | true =>
      rw [TokenStream.ofScanner_of_trivia hs hrule htrivia]
      exact ih rfl count
    | false =>
      rw [TokenStream.ofScanner_of_rule hs hrule hlength htrivia]
      obtain ⟨htokens, hending⟩ := ih (s := ⟨rest, s.pos.after text⟩) rfl (count + 1)
      exact ⟨congrArg (lexeme :: ·) htokens, hending⟩

end

/-! ## Layout in front of a text -/

section

variable {lexeme : Lexeme} {text rest gap cs : List Char} {xs : List Lexeme}

/-- Only white space starts with white space. -/
theorem Lexeme.Rule.not_blank (h : lexeme.Rule text rest)
    (hlength : ∀ value, lexeme = .literal value → text.length ≤ Numeral.digitLimit)
    (hne : lexeme ≠ .whitespace) : ∃ c more, text = c :: more ∧ isWhiteSpace c = false := by
  have hread := read_of_rule_of_length h hlength
  obtain ⟨c, more, rfl⟩ := List.exists_cons_of_ne_nil h.ne_nil
  refine ⟨c, more, rfl, ?_⟩
  by_contra hc
  rw [List.cons_append, Lexeme.read, if_pos (Bool.not_eq_false _ ▸ hc)] at hread
  exact hne (Reading.lexeme.inj hread).1.symm

/-- White space in front of a text can be left out. -/
theorem Lexes.dropBlanks (h : Lexes cs xs) : Lexes (cs.dropWhile isWhiteSpace) xs := by
  cases h with
  | done => exact .done
  | @piece lexeme text rest xs hrule hlength h =>
    by_cases hblank : lexeme = .whitespace
    · subst hblank
      rw [hrule.2.dropWhile_append]
      exact h
    · obtain ⟨c, more, rfl, hc⟩ := hrule.not_blank hlength hblank
      rw [List.cons_append, List.dropWhile_cons_of_neg (by simp [hc])]
      exact .piece hrule hlength h

/-- White space may be put in front of a text, where it is one token with the white space that the
text starts with. -/
theorem Lexes.blank {c : Char} (hc : isWhiteSpace c = true) (h : Lexes cs xs) :
    Lexes (c :: cs) xs := by
  have hrule : Lexeme.whitespace.Rule (c :: cs.takeWhile isWhiteSpace)
      (cs.dropWhile isWhiteSpace) := ⟨List.cons_ne_nil _ _, .cons hc (run_takeWhile _ cs)⟩
  have hpiece := Lexes.piece hrule (fun _ h => nomatch h) h.dropBlanks
  rw [List.cons_append, List.takeWhile_append_dropWhile] at hpiece
  exact hpiece

theorem Lexes.layout (hgap : Layout gap) (h : Lexes rest xs) : Lexes (gap ++ rest) xs := by
  induction hgap with
  | nil => exact h
  | blank hc _ ih => exact ih.blank hc
  | @comment text more htext _ ih =>
    have hrule : Lexeme.comment.Rule ('-' :: '-' :: text) ('\n' :: (more ++ rest)) :=
      ⟨⟨text, rfl⟩, run_comment htext _⟩
    have hpiece := Lexes.piece hrule (fun _ h => nomatch h) (ih.blank (by decide))
    show Lexes ('-' :: '-' :: (text ++ '\n' :: more ++ rest)) xs
    rw [List.append_assoc]
    exact hpiece

/-! ## Layout behind a lexeme -/

theorem isAsciiAlphanumeric_of_isWhiteSpace {c : Char} (h : isWhiteSpace c = true) :
    isAsciiAlphanumeric c = false := by
  by_contra hword
  have hnat : ((48 ≤ c.toNat ∧ c.toNat ≤ 57) ∨ (65 ≤ c.toNat ∧ c.toNat ≤ 90))
      ∨ (97 ≤ c.toNat ∧ c.toNat ≤ 122) := by
    rw [Bool.not_eq_false] at hword
    simpa [isAsciiAlphanumeric, Char.le_def, UInt32.le_iff_toNat_le] using hword
  rw [isWhiteSpace_of_toNat (by omega) (by omega)] at h
  cases h

/-- White space extends only white space and comments. -/
theorem Lexeme.not_extended_of_blank {c : Char} (hc : isWhiteSpace c = true)
    (htrivia : lexeme.isTrivia = false) : lexeme.extendedBy c = false := by
  have hword := isAsciiAlphanumeric_of_isWhiteSpace hc
  have hdigit : isDigit c = false := (Bool.or_eq_false_iff.mp (Bool.or_eq_false_iff.mp hword).1).1
  cases lexeme with
  | whitespace => cases htrivia
  | comment => cases htrivia
  | beginKw => exact hword
  | endKw => exact hword
  | readKw => exact hword
  | writeKw => exact hword
  | identifier name => exact hword
  | literal value => exact hdigit
  | minus =>
    refine beq_false_of_ne ?_
    rintro rfl
    cases hc
  | _ => rfl

/-- A gap behind a lexeme becomes part of it, if it is trivia, and is skipped in any case. -/
theorem Lexes.piece_gap (hgap : Gap gap) (hrule : lexeme.Rule text rest)
    (hlength : ∀ value, lexeme = .literal value → text.length ≤ Numeral.digitLimit)
    (h : Lexes rest xs) : Lexes (text ++ (gap ++ rest)) (lexeme.significant ++ xs) := by
  obtain ⟨hlayout, c, hhead, hc⟩ := hgap
  cases htrivia : lexeme.isTrivia with
  | false =>
    refine .piece (hrule.of_tail ?_) hlength (h.layout hlayout)
    intro d hd
    obtain ⟨more, rfl⟩ := List.head?_eq_some_iff.mp hhead
    cases hd
    exact Lexeme.not_extended_of_blank hc htrivia
  | true =>
    cases lexeme with
    | whitespace =>
      rw [← List.append_assoc]
      exact h.layout (hlayout.blanks hrule.2.all)
    | comment =>
      -- the comment goes on up to the end of the line, which may be in the gap or behind it
      have hrule' : Lexeme.comment.Rule (text ++ gap.takeWhile (· != '\n'))
          (gap.dropWhile (· != '\n') ++ rest) :=
        ⟨hrule.1.trans (List.prefix_append _ _), hrule.2.append (run_takeWhile _ gap)⟩
      have hpiece := Lexes.piece hrule' (fun _ h => nomatch h) (h.layout hlayout.dropLine)
      rw [List.append_assoc, ← List.append_assoc (gap.takeWhile _),
        List.takeWhile_append_dropWhile] at hpiece
      exact hpiece
    | _ => cases htrivia

/-! ## Layout between two tokens -/

variable {s s' : Scanner}

theorem Scanner.Reaches.suffix (h : s.Reaches s') : s'.ahead <:+ s.ahead := by
  induction h with
  | here s => exact List.suffix_rfl
  | token hnext _ ih =>
    rw [(next_eq_ok hnext).2] at ih
    exact ih.trans (List.drop_suffix _ _)

theorem Scanner.Reaches.readAll (h : s.Reaches s') (hread : s.readAll.error = none) :
    s'.readAll.error = none := by
  induction h with
  | here s => exact hread
  | @token s mid s' t hnext _ ih =>
    refine ih ?_
    by_cases heof : t.lexeme = .eof
    · exact Lexes.done.readAll (Scanner.ahead_of_eof hnext heof).2
    · rw [readAll_of_token hnext heof] at hread
      exact hread

/-- A gap between two tokens is skipped: with it and without it, a text has the same lexemes. -/
theorem Lexes.insert (hgap : Gap gap) (hs : s.Reaches s') (h : Lexes s'.ahead xs)
    {before : List Char} (hbefore : s.ahead = before ++ s'.ahead) :
    ∃ xs', Lexes s.ahead xs' ∧ Lexes (before ++ (gap ++ s'.ahead)) xs' := by
  induction hs generalizing before with
  | here s =>
    obtain rfl := List.self_eq_append_left.mp hbefore
    rw [List.nil_append]
    exact ⟨xs, h, h.layout hgap.1⟩
  | @token s mid s' t hnext hrest ih =>
    by_cases heof : t.lexeme = .eof
    · -- nothing is ahead any more, neither before the end token nor behind it
      rw [(Scanner.ahead_of_eof hnext heof).1] at hbefore ⊢
      obtain ⟨rfl, hnil⟩ := List.append_eq_nil_iff.mp hbefore.symm
      rw [List.nil_append, ← hnil]
      exact ⟨xs, h, h.layout hgap.1⟩
    · obtain ⟨text, hahead, hrule, hlength⟩ := Scanner.piece_of_next hnext heof
      obtain ⟨more, hmid⟩ := hrest.suffix
      rw [hahead, ← hmid, ← List.append_assoc] at hbefore
      obtain rfl := List.append_cancel_right hbefore
      obtain ⟨xs', hwithout, hwith⟩ := ih h hmid.symm
      rw [hahead, List.append_assoc]
      refine ⟨_, .piece hrule hlength hwithout, ?_⟩
      cases more with
      | nil =>
        have hpiece := hwithout.piece_gap hgap hrule hlength
        rw [← hmid] at hpiece
        exact hpiece
      | cons c more =>
        -- the token ends where it did, as what follows it starts with the same character
        refine .piece (hrule.of_tail ?_) hlength hwith
        rw [← hmid] at hrule
        exact hrule.not_extended

end

end MicroLang.Source

namespace MicroLang

open MicroLang.Source

/-- Layout does not matter. In a source text that is read without an error, a gap may be put between
any two tokens, trivia included, before the first one and behind the last one: the text is still
read without an error, the lexemes of its significant tokens stay the same, and it compiles to the
same listing, or fails at the same stage with the same message. -/
theorem compile_layout {source : String} {s : Scanner} {before gap : List Char}
    (hread : (Scanner.ofSource source).readAll.error = none)
    (hs : (Scanner.ofSource source).Reaches s) (hbefore : source.toList = before ++ s.ahead)
    (hgap : Gap gap) :
    (Scanner.ofSource (String.ofList (before ++ gap ++ s.ahead))).readAll.error = none
      ∧ TokenStream.lexemes (String.ofList (before ++ gap ++ s.ahead)) = TokenStream.lexemes source
      ∧ SameOutcome (compile (String.ofList (before ++ gap ++ s.ahead))).1 (compile source).1 := by
  obtain ⟨ys, hys⟩ := Lexes.of_readAll s (hs.readAll hread)
  obtain ⟨xs, hwithout, hwith⟩ := hys.insert hgap hs hbefore
  have hahead : (Scanner.ofSource (String.ofList (before ++ gap ++ s.ahead))).ahead
      = before ++ (gap ++ s.ahead) := by
    rw [← List.append_assoc]
    exact String.toList_ofList
  obtain ⟨hlexemes, hending⟩ := hwithout.stream rfl 0
  obtain ⟨hlexemes', hending'⟩ := hwith.stream hahead 0
  have hsame := hlexemes'.trans hlexemes.symm
  exact ⟨hwith.readAll hahead, hsame, compile_displaced hsame hending' hending⟩

/-- Behind the comment of `begin--a`, a gap with another comment in it: up to the end of its first
line it belongs to the comment before it. -/
theorem compile_layout_swallowed :
    (Scanner.ofSource "begin--a\nx:=1-y end").readAll.error = none
      ∧ (Scanner.ofSource "begin--a\t--b\n \nx:=1-y end").readAll.error = none
      ∧ TokenStream.lexemes "begin--a\t--b\n \nx:=1-y end"
        = TokenStream.lexemes "begin--a\nx:=1-y end"
      ∧ SameOutcome (compile "begin--a\t--b\n \nx:=1-y end").1
        (compile "begin--a\nx:=1-y end").1 := by
  have hread : (Scanner.ofSource "begin--a\nx:=1-y end").readAll.error = none := by decide +kernel
  have hs : (Scanner.ofSource "begin--a\nx:=1-y end").Reaches
      ⟨"\nx:=1-y end".toList, ⟨8, 1, 9⟩⟩ :=
    .token (t := ⟨.beginKw, 1, 1, 5⟩) rfl (.token (t := ⟨.comment, 1, 6, 3⟩) rfl (.here _))
  have hbefore : "begin--a\nx:=1-y end".toList
      = "begin--a".toList ++ "\nx:=1-y end".toList := rfl
  have hline : '\n' ∉ ['b'] := by decide
  have hgap : Gap "\t--b\n ".toList :=
    ⟨.blank rfl (.comment hline (.blank rfl .nil)), '\t', rfl, rfl⟩
  have htext : String.ofList ("begin--a".toList ++ "\t--b\n ".toList ++ "\nx:=1-y end".toList)
      = "begin--a\t--b\n \nx:=1-y end" := by decide
  have hlayout := compile_layout hread hs hbefore hgap
  rw [htext] at hlayout
  exact ⟨hread, hlayout⟩

end MicroLang
