import MicroLang.Compile
import MicroLang.Proofs.Lookahead
import MicroLang.Proofs.Refusals
import MicroLang.Proofs.WellFormedPrograms

/-!
# Errors with a diagnostic

Whatever is wrong with a source text, the stage that refuses it says so in a diagnostic, with one
exception. A literal is compared with the largest word by its significant digits first, so that a
literal with very many digits is out of range before its value is computed. Leading zeros are not
significant, though: a literal that has few significant digits behind very many zeros passes this
test, and has too many digits for its value to be computed (`Padded`).

What a text starts with when it starts with a fault is said once (`rule_of_fault`): a piece of the
text that follows the rule of that fault, which is passed if it is a literal and stays ahead if not.

> `compile_diagnosed_iff`: no scanner moves past the end of its text, and a source text has a
> listing or an error with a diagnostic, unless its first fault is a padded literal and parsing gets
> to it.
-/

namespace MicroLang.Source

open MicroLang.Text

/-! ## Padded literals -/

/-- A run of digits that is too long to be read, though its significant digits are few enough. -/
structure Padded (run rest : List Char) : Prop where
  digits : Run isDigit run rest
  long : Numeral.digitLimit < run.length
  significant : (run.dropWhile (· == '0')).length ≤ maxSignificantDigits

theorem readLiteral_of_padded {run rest : List Char} (h : Padded run rest) :
    readLiteral run = .fault (.tooLong run.length) run.length run.length := by
  unfold readLiteral
  rw [if_neg (Nat.not_lt.mpr h.significant), if_pos h.long]

/-! ## Faults -/

/-- A character that some token, trivia included, starts with. -/
def startsToken (c : Char) : Bool :=
  isWhiteSpace c || isLetter c || isDigit c || ['-', ':', '(', ')', ';', ',', '+'].contains c

/-- The texts of a fault, in front of a given rest. -/
def LexFault.Rule (text rest : List Char) : LexFault → Prop
  | unexpected shown => text = shown.toList ∧ ∃ c run, text = c :: run ∧ startsToken c = false
      ∧ Run (fun c => !isExpected c) run rest
  | loneColon => text = [':'] ∧ rest.head? ≠ some '='
  | outOfRange => text ≠ [] ∧ Run isDigit text rest ∧ 2 ^ 31 ≤ decimalValue text
  | tooLong digits => Padded text rest ∧ digits = text.length

/-- A literal that cannot be read is passed, and all other faults stay ahead. -/
def LexFault.isPassed : LexFault → Bool
  | outOfRange | tooLong _ => true
  | unexpected _ | loneColon => false

theorem startsToken_of_ofChar? {c : Char} (hspace : isWhiteSpace c = false)
    (hletter : isLetter c = false) (hdigit : isDigit c = false) (hminus : c ≠ '-')
    (hcolon : c ≠ ':') (hchar : Lexeme.ofChar? c = none) : startsToken c = false := by
  unfold Lexeme.ofChar? at hchar
  split at hchar
  · cases hchar
  split at hchar
  · cases hchar
  split at hchar
  · cases hchar
  split at hchar
  · cases hchar
  split at hchar
  · cases hchar
  · simp_all [startsToken]

/-- The faults of a run of digits. -/
theorem rule_of_readLiteral {digits rest : List Char} {fault : LexFault} {length past : Nat}
    (hne : digits ≠ []) (hrun : Run isDigit digits rest)
    (h : readLiteral digits = .fault fault length past) :
    length = digits.length ∧ fault.Rule digits rest ∧ fault.isPassed = true ∧ past = length := by
  have hrange : maxLiteral < literalValue digits → 2 ^ 31 ≤ decimalValue digits := by
    intro hlt
    rw [← literalValue_eq]
    exact hlt
  unfold readLiteral at h
  split at h
  · rename_i hmany
    cases h
    exact ⟨rfl, ⟨hne, hrun, hrange (maxLiteral_lt_literalValue hrun.all hmany)⟩, rfl, rfl⟩
  rename_i hfew
  split at h
  · rename_i hlong
    cases h
    exact ⟨rfl, ⟨⟨hrun, hlong, Nat.not_lt.mp hfew⟩, rfl⟩, rfl, rfl⟩
  split at h
  · rename_i hlt
    cases h
    exact ⟨rfl, ⟨hne, hrun, hrange hlt⟩, rfl, rfl⟩
  · cases h

/-- A text that starts with a fault starts with a text of that fault, and only a literal is passed.
-/
theorem Lexeme.rule_of_fault {cs : List Char} {fault : LexFault} {length past : Nat}
    (h : read cs = .fault fault length past) :
    ∃ text rest, cs = text ++ rest ∧ length = text.length ∧ fault.Rule text rest
      ∧ past = if fault.isPassed then length else 0 := by
  cases cs with
  | nil => cases h
  | cons c cs =>
    rw [read] at h
    split at h
    · cases h
    rename_i hspace
    split at h
    · split at h
      · cases h
      · cases h
    rename_i hminus
    split at h
    · cases h
    rename_i hletter
    split at h
    · rename_i hdigit
      obtain ⟨hlength, hrule, hpassed, hpast⟩ := rule_of_readLiteral (List.cons_ne_nil _ _)
        (.cons hdigit (run_takeWhile _ cs)) h
      refine ⟨_, _, ?_, hlength, hrule, ?_⟩
      · rw [List.cons_append, List.takeWhile_append_dropWhile]
      · rw [hpassed, hpast]
        rfl
    rename_i hdigit
    split at h
    · rename_i hcolon
      split at h
      · cases h
      · rename_i hhead
        cases h
        exact ⟨[':'], cs, congrArg (· :: cs) hcolon, rfl, ⟨rfl, hhead⟩, rfl⟩
    rename_i hcolon
    split at h
    · cases h
    · rename_i hchar
      cases h
      have hstart : startsToken c = false :=
        startsToken_of_ofChar? (Bool.eq_false_iff.mpr hspace) (Bool.eq_false_iff.mpr hletter)
          (Bool.eq_false_iff.mpr hdigit) hminus hcolon hchar
      refine ⟨c :: cs.takeWhile fun c => !isExpected c, cs.dropWhile fun c => !isExpected c, ?_,
        rfl, ⟨String.toList_ofList.symm, c, _, rfl, hstart, run_takeWhile _ cs⟩, rfl⟩
      rw [List.cons_append, List.takeWhile_append_dropWhile]

/-- Reading passes text that is ahead. -/
theorem Lexeme.moved_le (cs : List Char) : (read cs).moved ≤ cs.length := by
  cases hread : read cs with
  | lexeme lexeme length =>
    by_cases hne : cs = []
    · rw [hne] at hread
      cases hread
      exact Nat.zero_le _
    · obtain ⟨text, rest, rfl, hlength, _⟩ := rule_of_read hread hne
      rw [List.length_append]
      exact Nat.le_trans (Nat.le_of_eq hlength) (Nat.le_add_right _ _)
  | fault fault length past =>
    obtain ⟨text, rest, rfl, hlength, _, hpast⟩ := rule_of_fault hread
    rw [List.length_append]
    show past ≤ _
    split at hpast
    · omega
    · omega

/-! ## The first fault of a text -/

namespace Scanner

variable {s s' : Scanner} {t : Token} {e : LexError}

theorem advance_advance (s : Scanner) (m n : Nat) :
    (s.advance m).advance n = s.advance (m + n) := by
  unfold advance Position.after
  rw [List.drop_drop, ← List.foldl_append, ← List.take_add]

/-- A scanner never moves past the end of its text. -/
theorem advance?_moved (s : Scanner) : s.advance? (Lexeme.read s.ahead).moved = some s.next.2 := by
  unfold advance? next
  rw [if_pos (Lexeme.moved_le s.ahead)]
  cases Lexeme.read s.ahead with
  | lexeme lexeme length => rfl
  | fault fault length past => rfl

theorem advance_of_next (h : s.next = (.ok t, s')) : s' = s.advance t.length := by
  unfold next at h
  split at h
  · cases h
    rfl
  · cases h

theorem read_of_next_error (h : s.next = (.error e, s')) :
    (∃ past, Lexeme.read s.ahead = .fault e.fault e.length past)
      ∧ e.line = s.pos.line ∧ e.col = s.pos.col := by
  unfold next at h
  split at h
  · cases h
  · rename_i hread
    cases h
    exact ⟨⟨_, hread⟩, rfl, rfl⟩

theorem next_of_padded {run rest : List Char} (hs : s.ahead = run ++ rest) (h : Padded run rest) :
    s.next = (.error ⟨.tooLong run.length, s.pos.line, s.pos.col, run.length⟩,
      s.advance run.length) := by
  have hne : run ≠ [] := by
    rintro rfl
    exact absurd h.long (Nat.not_lt_zero _)
  unfold next
  rw [hs, Lexeme.read_of_digits hne h.digits, readLiteral_of_padded h]

theorem nextSignificant_of_error (h : s.next = (.error e, s')) :
    s.nextSignificant = (.error e, s') := by
  rw [nextSignificant]
  split
  · rename_i heq
    rw [h] at heq
    cases heq
    rfl
  · simp_all

/-- Significant tokens are read somewhere ahead. -/
theorem advance_of_nextSignificant (h : s.nextSignificant = (.ok (some t), s')) :
    ∃ n, s' = s.advance n := by
  fun_induction nextSignificant s with
  | case1 => cases h
  | case2 => cases h
  | case3 s t' mid hnext hne htrivia ih =>
    obtain ⟨n, rfl⟩ := ih h
    rw [advance_of_next hnext, advance_advance]
    exact ⟨_, rfl⟩
  | case4 s t' mid hnext hne htrivia =>
    cases h
    exact ⟨_, advance_of_next hnext⟩

theorem next_of_nextSignificant_error (h : s.nextSignificant = (.error e, s')) :
    ∃ n, ∃ s'' : Scanner, (s.advance n).next = (.error e, s'') := by
  fun_induction nextSignificant s with
  | case1 s e' s'' hnext =>
    cases h
    exact ⟨0, s', hnext⟩
  | case2 => cases h
  | case3 s t' mid hnext hne htrivia ih =>
    obtain ⟨n, s'', hnext'⟩ := ih h
    rw [advance_of_next hnext, advance_advance] at hnext'
    exact ⟨_, s'', hnext'⟩
  | case4 => cases h

end Scanner

/-- The fault at the end of a stream is met somewhere in the text. -/
theorem TokenStream.next_of_failed {s : Scanner} {count : Nat} {e : LexError}
    (h : (ofScanner s count).ending = .failed e) :
    ∃ n, ∃ s' : Scanner, (s.advance n).next = (.error e, s') := by
  fun_induction ofScanner s count with
  | case1 s count e' s' hnext =>
    cases h
    exact Scanner.next_of_nextSignificant_error hnext
  | case2 => cases h
  | case3 s count t mid hnext rest ih =>
    obtain ⟨n, s', hnext'⟩ := ih h
    obtain ⟨m, rfl⟩ := Scanner.advance_of_nextSignificant hnext
    rw [Scanner.advance_advance] at hnext'
    exact ⟨_, s', hnext'⟩

/-- A text that starts with a fault has no tokens. -/
theorem TokenStream.ofScanner_of_error {s s' : Scanner} {e : LexError}
    (h : s.next = (.error e, s')) (count : Nat) : ofScanner s count = ⟨[], .failed e⟩ := by
  have hnext := Scanner.nextSignificant_of_error h
  rw [ofScanner]
  split
  · rename_i heq
    rw [hnext] at heq
    cases heq
    rfl
  · simp_all
  · simp_all

theorem TokenStream.ofScanner_of_padded {s : Scanner} {run rest : List Char}
    (hs : s.ahead = run ++ rest) (h : Padded run rest) (count : Nat) :
    ofScanner s count
      = ⟨[], .failed ⟨.tooLong run.length, s.pos.line, s.pos.col, run.length⟩⟩ :=
  ofScanner_of_error (Scanner.next_of_padded hs h) count

/-- The error at a padded literal that stands behind some text. -/
def paddedError (before run : List Char) : LexError :=
  ⟨.tooLong run.length, (Position.after {} before).line, (Position.after {} before).col, run.length⟩

/-- If the first fault of a text is a literal that is too long, this is a padded one. -/
theorem TokenStream.padded_of_failed {source : String} {e : LexError} {n : Nat}
    (h : (ofSource source).ending = .failed e) (hfault : e.fault = .tooLong n) :
    ∃ before run rest, source.toList = before ++ run ++ rest ∧ Padded run rest
      ∧ e = paddedError before run := by
  obtain ⟨k, s', hnext⟩ := next_of_failed h
  obtain ⟨⟨past, hread⟩, hline, hcol⟩ := Scanner.read_of_next_error hnext
  obtain ⟨fault, line, col, length⟩ := e
  cases hfault
  obtain ⟨run, rest, hahead, rfl, ⟨hpadded, rfl⟩, _⟩ := Lexeme.rule_of_fault hread
  cases hline
  cases hcol
  refine ⟨source.toList.take k, run, rest, ?_, hpadded, rfl⟩
  rw [List.append_assoc, ← hahead]
  exact (List.take_append_drop k source.toList).symm

end MicroLang.Source

namespace MicroLang

open MicroLang.Assembly
open MicroLang.Source
open MicroLang.Program.Parse (Exhausts)

/-! ## Diagnostics -/

/-- The stage that finds an error. -/
def CompileError.stage : CompileError → Stage
  | lexical _ => .lexing
  | syntactic _ => .parsing
  | generation _ => .generating

/-- Every error but that of a literal that is too long has a diagnostic, from the stage that found
it. -/
theorem CompileError.diagnostic?_cases (e : CompileError) :
    (∃ d, e.diagnostic? = some d ∧ d.stage = e.stage)
      ∨ e.diagnostic? = none
        ∧ ((∃ e' n, e = .lexical e' ∧ e'.fault = .tooLong n) ∨ e = .generation .longLiteral) := by
  cases e with
  | lexical e =>
    obtain ⟨fault, line, col, length⟩ := e
    cases fault with
    | tooLong n => exact .inr ⟨rfl, .inl ⟨_, n, rfl, rfl⟩⟩
    | unexpected text => exact .inl ⟨_, rfl, rfl⟩
    | loneColon => exact .inl ⟨_, rfl, rfl⟩
    | outOfRange => exact .inl ⟨_, rfl, rfl⟩
  | syntactic e => exact .inl ⟨_, rfl, rfl⟩
  | generation e =>
    cases e with
    | longLiteral => exact .inr ⟨rfl, .inr rfl⟩
    | callAsValue routine => exact .inl ⟨_, rfl, rfl⟩
    | noValue form => exact .inl ⟨_, rfl, rfl⟩
    | readIntoValue => exact .inl ⟨_, rfl, rfl⟩
    | notStatement form => exact .inl ⟨_, rfl, rfl⟩

/-- Compiling fails where parsing or generating code does. -/
theorem compile_eq_error {source : String} {e : CompileError} (h : (compile source).1 = .error e) :
    (Program.parse source).1 = .error e
      ∨ ∃ p e' g, e = .generation e' ∧ (Program.parse source).1 = .ok p
        ∧ Gen.program p {} = .error e' g := by
  unfold compile at h
  generalize Program.parse source = parsed at h ⊢
  obtain ⟨result, log⟩ := parsed
  cases result with
  | error e' =>
    cases h
    exact .inl rfl
  | ok p =>
    dsimp only at h
    unfold Program.listing at h
    cases hgen : Gen.program p {} with
    | ok a g =>
      rw [hgen] at h
      cases h
    | error e' g =>
      rw [hgen] at h
      cases h
      exact .inr ⟨p, e', g, rfl, rfl, hgen⟩

theorem compile_of_parse_error {source : String} {e : CompileError}
    (h : (Program.parse source).1 = .error e) : (compile source).1 = .error e := by
  unfold compile
  generalize Program.parse source = parsed at h ⊢
  obtain ⟨result, log⟩ := parsed
  cases h
  rfl

/-- What can be wrong with the program of a source text: the literals of a text are words, and can
be written. -/
theorem generation_of_compile {source : String} {e : GenError}
    (h : (compile source).1 = .error (.generation e)) :
    (∃ routine, e = .callAsValue routine) ∨ e = .readIntoValue := by
  rcases compile_eq_error h with hparse | ⟨p, e', g, heq, hparse, hgen⟩
  · exact (Program.refused_of_parse hparse).elim
  · cases heq
    exact error_of_parse hparse hgen

/-- The lexical errors of compilation are those of parsing. -/
theorem compile_lexical_iff (source : String) (e : LexError) :
    (compile source).1 = .error (.lexical e) ↔ (Program.parse source).1 = .error (.lexical e) := by
  constructor
  · intro h
    rcases compile_eq_error h with hparse | ⟨_, _, _, heq, _⟩
    · exact hparse
    · cases heq
  · exact compile_of_parse_error

/-- The first fault of a source text is a padded literal, and parsing needs all the tokens before
it. -/
structure MeetsPadded (source : String) (before run rest : List Char) : Prop where
  text : source.toList = before ++ run ++ rest
  padded : Padded run rest
  fault : (TokenStream.ofSource source).ending = .failed (paddedError before run)
  needed : Exhausts (TokenStream.ofSource source).tokens

theorem MeetsPadded.compile_eq {source : String} {before run rest : List Char}
    (h : MeetsPadded source before run rest) :
    (compile source).1 = .error (.lexical (paddedError before run)) := by
  rw [compile_lexical_iff, Program.parse_lexical_iff]
  exact ⟨h.fault, h.needed⟩

theorem meetsPadded_of_compile {source : String} {e : LexError} {n : Nat}
    (h : (compile source).1 = .error (.lexical e)) (hfault : e.fault = .tooLong n) :
    ∃ before run rest, MeetsPadded source before run rest := by
  rw [compile_lexical_iff, Program.parse_lexical_iff] at h
  obtain ⟨hending, hneeded⟩ := h
  obtain ⟨before, run, rest, htext, hpadded, rfl⟩ := TokenStream.padded_of_failed hending hfault
  exact ⟨before, run, rest, htext, hpadded, hending, hneeded⟩

/-- Wherever it stands, a scanner moves past text that it has ahead. A source text compiles, or
fails with a diagnostic of the stage that refused it, exactly unless parsing meets a padded
literal. -/
theorem compile_diagnosed_iff (source : String) :
    (∀ s : Scanner, s.advance? (Lexeme.read s.ahead).moved = some s.next.2)
    ∧ (((∃ listing, (compile source).1 = .ok listing)
        ∨ ∃ e d, (compile source).1 = .error e ∧ e.diagnostic? = some d ∧ d.stage = e.stage)
      ↔ ¬ ∃ before run rest, MeetsPadded source before run rest) := by
  refine ⟨Scanner.advance?_moved, ?_⟩
  constructor
  · rintro (⟨listing, h⟩ | ⟨e, d, h, hsome, _⟩) ⟨before, run, rest, hmeets⟩
    · rw [hmeets.compile_eq] at h
      cases h
    · rw [hmeets.compile_eq] at h
      cases h
      cases hsome
  · intro hnever
    cases hcompile : (compile source).1 with
    | ok listing => exact .inl ⟨listing, rfl⟩
    | error e =>
      rcases e.diagnostic?_cases with ⟨d, hd, hstage⟩ | ⟨_, ⟨e', n, rfl, hfault⟩ | rfl⟩
      · exact .inr ⟨e, d, rfl, hd, hstage⟩
      · exact absurd (meetsPadded_of_compile hcompile hfault) hnever
      · rcases generation_of_compile hcompile with ⟨routine, heq⟩ | heq
        · cases heq
        · cases heq

/-- The text `begin write(` in front of a padded literal, which is the argument. -/
theorem meetsPadded_argument {run rest : List Char} (h : Padded run rest) :
    MeetsPadded (String.ofList ("begin write(".toList ++ run ++ rest)) "begin write(".toList run
      rest := by
  -- three tokens, and a blank between the first two
  have hbegin : Lexeme.beginKw.Rule "begin".toList (" write(".toList ++ (run ++ rest)) :=
    ⟨rfl, 'b', "egin".toList, rfl, rfl, by decide, by rintro c ⟨⟩; rfl⟩
  have hblank : Lexeme.whitespace.Rule " ".toList ("write(".toList ++ (run ++ rest)) :=
    ⟨by decide, by decide, by rintro c ⟨⟩; rfl⟩
  have hwrite : Lexeme.writeKw.Rule "write".toList ("(".toList ++ (run ++ rest)) :=
    ⟨rfl, 'w', "rite".toList, rfl, rfl, by decide, by rintro c ⟨⟩; rfl⟩
  have hparen : Lexeme.leftParen.Rule "(".toList (run ++ rest) := rfl
  have hstream : TokenStream.ofSource (String.ofList ("begin write(".toList ++ run ++ rest))
      = ⟨[⟨.beginKw, 1, 1, 5⟩, ⟨.writeKw, 1, 7, 5⟩, ⟨.leftParen, 1, 12, 1⟩],
          .failed (paddedError "begin write(".toList run)⟩ := by
    unfold TokenStream.ofSource Scanner.ofSource
    rw [String.toList_ofList, List.append_assoc,
      TokenStream.ofScanner_of_rule rfl hbegin (by simp) rfl,
      TokenStream.ofScanner_of_trivia rfl hblank rfl,
      TokenStream.ofScanner_of_rule rfl hwrite (by simp) rfl,
      TokenStream.ofScanner_of_rule rfl hparen (by simp) rfl, TokenStream.ofScanner_of_padded rfl h]
    rfl
  refine ⟨String.toList_ofList, h, ?_, ?_⟩
  · rw [hstream]
  · rw [hstream]
    rfl

/-- `begin write(0…0) end` with one zero more than can be read is a program that prints 0, and is
refused without a diagnostic. -/
theorem compile_undiagnosed_zeros :
    ∃ e, (compile (String.ofList
        ("begin write(".toList ++ List.replicate 4301 '0' ++ ") end".toList))).1 = .error e
      ∧ e.diagnostic? = none := by
  have hpadded : Padded (List.replicate 4301 '0') ") end".toList := by
    refine ⟨⟨?_, ?_⟩, ?_, ?_⟩
    · intro c hc
      rw [List.eq_of_mem_replicate hc]
      rfl
    · intro c hc
      cases hc
      rfl
    · rw [List.length_replicate]
      decide
    · rw [List.dropWhile_replicate]
      exact Nat.zero_le _
  exact ⟨_, (meetsPadded_argument hpadded).compile_eq, rfl⟩

end MicroLang
