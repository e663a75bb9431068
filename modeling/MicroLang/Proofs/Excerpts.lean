import MicroLang.Proofs.Placement
import MicroLang.Proofs.Refusals

/-!
# Excerpts

A diagnostic of a source text is written as an excerpt of five lines: the message, the place, a bar,
the line of the source text behind a gutter with its number, and marks behind a margin (`Shows`).
The line is found by cutting the whole text at its line feeds, apart from the count that the scanner
keeps; the two agree because the count can be read off the text behind a place (`Positions`).

The marks are as many as the characters of the refused token or fault, which stands in the line at
the column of the diagnostic (`PointsAt`). The gutter is as wide as the number in it needs, and the
margin always has the width for five digits:

> `compile_excerpt`: every error of a source text has its excerpt, and the marks stand under the
> text that it is about exactly up to line 99999.
-/

namespace MicroLang.Source

open MicroLang.Text
open Position (endsLine)

/-! ## The parts of an excerpt -/

namespace Diagnostic

/-- The line with the message. -/
def head (d : Diagnostic) : String :=
  "microc: " ++ d.stage.label ++ " error: " ++ d.message

/-- The line with the place. -/
def place (d : Diagnostic) : String :=
  s!"    --> {d.line}:{d.col}"

/-- The line between the place and the source text. -/
def bar : String :=
  "      |"

/-- What stands before the line of the source text. -/
def gutter (d : Diagnostic) : List Char :=
  alignRight d.line ++ " | ".toList

/-- What stands before the marks. -/
def margin (d : Diagnostic) : List Char :=
  "      | ".toList ++ List.replicate (d.col - 1).toNat ' '

/-- The marks. -/
def marks (d : Diagnostic) : List Char :=
  List.replicate d.length.toNat '^'

/-- The lines of a diagnostic as it is written for a source text. -/
def lines (d : Diagnostic) (source : String) : List (List Char) :=
  splitWhere endsLine (d.render source).toList

/-- A diagnostic points at a line of a source text, and is written as five lines with that line, the
carriage returns at its end removed, among them. -/
structure Shows (d : Diagnostic) (source : String) (line : List Char) : Prop where
  first : 1 ≤ d.line
  last : d.line ≤ source.toList.count '\n' + 1
  quoted : (splitWhere endsLine source.toList)[d.line.toNat - 1]?.map (trimRight (· == '\r'))
    = some line
  parts : d.lines source
    = [d.head.toList, d.place.toList, bar.toList, d.gutter ++ line, d.margin ++ d.marks]

/-- A text stands in the upper of two lines from a place on, and in the lower one there are marks
below all of its characters and nowhere else. -/
def Underlined (upper lower : List Char) (start : Nat) (text : List Char) : Prop :=
  (upper.drop start).take text.length = text
    ∧ ∀ k, lower[k]? = some '^' ↔ start ≤ k ∧ k < start + text.length

/-- A diagnostic shows a line with the text that it is about at its column. This text is underlined
if the number of the line has at most five digits, and only then. -/
structure PointsAt (d : Diagnostic) (source : String) (line text : List Char) : Prop
    extends Shows d source line where
  piece : (line.drop (d.col - 1).toNat).take d.length.toNat = text
  under : Underlined (d.gutter ++ line) (d.margin ++ d.marks)
    (d.gutter.length + (d.col - 1).toNat) text ↔ d.line < 100000

variable {d : Diagnostic} {source : String} {line text : List Char}

theorem append_ofList (s : String) (cs cs' : List Char) :
    s ++ String.ofList (cs ++ cs') = String.ofList (s.toList ++ cs ++ cs') := by
  simp only [String.ofList_append, String.ofList_toList, String.append_assoc]

/-- An excerpt is its five parts with line feeds between them. -/
theorem render_of_line (h : d.sourceLine? source = some line) :
    d.render source = "\n".intercalate [d.head, d.place, bar, String.ofList (d.gutter ++ line),
      String.ofList (d.margin ++ d.marks)] := by
  have hgutter : String.ofList (alignRight d.line) ++ " | " ++ String.ofList line
      = String.ofList (d.gutter ++ line) := by
    simp only [gutter, String.ofList_append, String.ofList_toList]
  have hmargin : "      | " ++ String.ofList (List.replicate (d.col - 1).toNat ' ' ++ d.marks)
      = String.ofList (d.margin ++ d.marks) :=
    append_ofList _ _ _
  unfold render
  rw [h, ← hgutter, ← hmargin]
  rfl

theorem oneLine_place : OneLine d.place.toList := by
  unfold place
  simp only [oneLine_toList_append]
  exact ⟨⟨⟨by decide, oneLine_toString _⟩, by decide⟩, oneLine_toString _⟩

theorem oneLine_head (hmessage : OneLine d.message.toList) : OneLine d.head.toList := by
  have hlabel : OneLine d.stage.label.toList := by
    cases d.stage <;> decide
  unfold head
  simp only [oneLine_toList_append]
  exact ⟨⟨⟨by decide, hlabel⟩, by decide⟩, hmessage⟩

theorem oneLine_replicate {n : Nat} {c : Char} (hc : c ≠ '\n') : OneLine (List.replicate n c) := by
  intro c' hc'
  rw [List.eq_of_mem_replicate hc']
  exact oneLine_of_ne hc

theorem oneLine_gutter : OneLine d.gutter := by
  refine oneLine_append.mpr ⟨?_, by decide⟩
  exact oneLine_append.mpr ⟨oneLine_replicate (by decide), oneLine_toString _⟩

/-- Five parts of one line each make five lines. -/
theorem lines_of_line (h : d.sourceLine? source = some line) (hmessage : OneLine d.message.toList)
    (hline : OneLine line) :
    d.lines source
      = [d.head.toList, d.place.toList, bar.toList, d.gutter ++ line, d.margin ++ d.marks] := by
  have hmargin : OneLine (d.margin ++ d.marks) :=
    oneLine_append.mpr ⟨oneLine_append.mpr ⟨by decide, oneLine_replicate (by decide)⟩,
      oneLine_replicate (by decide)⟩
  unfold lines
  rw [render_of_line h, String.toList_intercalate]
  refine (splitWhere_intercalate rfl (by simp) ?_).trans ?_
  · simp only [List.map_cons, List.map_nil, String.toList_ofList, List.forall_mem_cons]
    refine ⟨oneLine_head hmessage, oneLine_place, by decide, ?_, hmargin, by simp⟩
    exact oneLine_append.mpr ⟨oneLine_gutter, hline⟩
  · simp only [List.map_cons, List.map_nil, String.toList_ofList]

/-! ## The line and the marks -/

/-- The line that a place is on, without the carriage returns at its end. -/
def lineAround (before rest : List Char) : List Char :=
  trimRight (· == '\r') (lastPiece endsLine before ++ rest.takeWhile fun c => !endsLine c)

section

variable {before rest : List Char}

theorem oneLine_lastPiece : OneLine (lastPiece endsLine before) := by
  intro c hc
  have hmem := List.mem_takeWhile_imp (List.mem_reverse.mp hc)
  rwa [Bool.not_eq_true_eq_eq_false] at hmem

theorem oneLine_lineAround : OneLine (lineAround before rest) := by
  intro c hc
  have hmem := (List.dropWhile_sublist _).mem (List.mem_reverse.mp hc)
  rcases List.mem_append.mp (List.mem_reverse.mp hmem) with hc | hc
  · exact oneLine_lastPiece c hc
  · have htake := List.mem_takeWhile_imp hc
    rwa [Bool.not_eq_true_eq_eq_false] at htake

/-- A diagnostic with the line of a place quotes the line that the place is on. -/
theorem shows_of_place (hsource : source.toList = before ++ rest)
    (hline : d.line = ((Position.after {} before).line : Int))
    (hmessage : OneLine d.message.toList) : d.Shows source (lineAround before rest) := by
  rw [Position.after_eq] at hline
  dsimp only at hline
  have hnumber : d.line.toNat - 1 = before.countP endsLine := by omega
  have hquoted : (splitWhere endsLine source.toList)[d.line.toNat - 1]?.map (trimRight (· == '\r'))
      = some (lineAround before rest) := by
    rw [hnumber, hsource, getElem?_splitWhere]
    rfl
  have hsourceLine : d.sourceLine? source = some (lineAround before rest) := by
    unfold sourceLine?
    rw [if_pos (by omega)]
    exact hquoted
  have hcount : source.toList.count '\n' = before.countP endsLine + rest.countP endsLine := by
    rw [hsource]
    exact List.countP_append
  exact ⟨by omega, by omega, hquoted, lines_of_line hsourceLine hmessage oneLine_lineAround⟩

end

/-- The gutter has the width of the margin as long as the number of the line has five digits. -/
theorem length_gutter_iff (h : 0 ≤ d.line) : d.gutter.length = 8 ↔ d.line < 100000 := by
  have hdigits : (toString d.line).toList.length ≤ 5 ↔ d.line.natAbs < 10 ^ 5 := by
    rw [Numeral.toList_toString, if_neg (by omega), List.nil_append]
    exact Nat.length_toDigits_le_iff (by decide) (by decide)
  have hlength : d.gutter.length
      = 5 - (toString d.line).toList.length + (toString d.line).toList.length + 3 := by
    unfold gutter alignRight
    rw [List.length_append, List.length_append, List.length_replicate]
    rfl
  omega

theorem length_margin : d.margin.length = 8 + (d.col - 1).toNat := by
  unfold margin
  rw [List.length_append, List.length_replicate]
  rfl

/-- Below the margin there are no marks. -/
theorem marked_iff (k : Nat) : (d.margin ++ d.marks)[k]? = some '^'
    ↔ d.margin.length ≤ k ∧ k < d.margin.length + d.length.toNat := by
  rcases Nat.lt_or_ge k d.margin.length with hlt | hge
  · rw [List.getElem?_append_left hlt]
    constructor
    · intro h
      rcases List.mem_append.mp (List.mem_of_getElem? h) with hmem | hmem
      · exact absurd hmem (by decide)
      · exact absurd (List.eq_of_mem_replicate hmem) (by decide)
    · omega
  · rw [List.getElem?_append_right hge, marks, List.getElem?_replicate]
    split
    · simp only [true_iff]
      omega
    · simp only [reduceCtorEq, false_iff]
      omega

/-- A text in the quoted line is underlined if the gutter and the margin are equally wide. -/
theorem underlined_iff (hfirst : 1 ≤ d.line) (hne : text ≠ [])
    (hlength : d.length.toNat = text.length)
    (hpiece : (line.drop (d.col - 1).toNat).take d.length.toNat = text) :
    Underlined (d.gutter ++ line) (d.margin ++ d.marks) (d.gutter.length + (d.col - 1).toNat) text
      ↔ d.line < 100000 := by
  have hpos : 0 < text.length := List.length_pos_iff.mpr hne
  have hmargin := length_margin (d := d)
  rw [← length_gutter_iff (by omega)]
  unfold Underlined
  rw [← hlength] at hpos ⊢
  constructor
  · rintro ⟨_, hmarks⟩
    -- the first mark of the one is not left of the first mark of the other
    have hleft := ((marked_iff (d := d) _).symm.trans (hmarks d.margin.length)).mp (by omega)
    have hright := ((marked_iff (d := d) _).symm.trans
      (hmarks (d.gutter.length + (d.col - 1).toNat))).mpr (by omega)
    omega
  · intro hgutter
    refine ⟨?_, ?_⟩
    · rw [List.drop_append, List.drop_eq_nil_of_le (by omega), List.nil_append,
        Nat.add_sub_cancel_left]
      exact hpiece
    · intro k
      rw [marked_iff]
      omega

end Diagnostic

/-! ## Places and lines -/

section

open Diagnostic

variable {d : Diagnostic} {source : String} {before text rest : List Char}

/-- A text without white space has no line feed. -/
theorem oneLine_of_visible (h : ∀ c ∈ text, isWhiteSpace c = false) : OneLine text := by
  intro c hc
  refine oneLine_of_ne ?_
  rintro rfl
  exact absurd (h _ hc) (by decide)

/-- A text without white space has no carriage return at its end, so nothing of it is removed from
the line that it is in. -/
theorem lineAround_append (before rest : List Char) (hne : text ≠ [])
    (hvisible : ∀ c ∈ text, isWhiteSpace c = false) :
    ∃ more, lineAround before (text ++ rest) = lastPiece endsLine before ++ text ++ more := by
  have hone := oneLine_of_visible hvisible
  have hlast : (text.getLast hne == '\r') = false := by
    refine beq_false_of_ne fun h => ?_
    exact absurd (hvisible _ (List.getLast_mem hne)) (by rw [h]; decide)
  have hend : (lastPiece endsLine before ++ text).getLast? = some (text.getLast hne) := by
    rw [List.getLast?_append_of_ne_nil _ hne, List.getLast?_eq_some_getLast hne]
  have htake : (text ++ rest).takeWhile (fun c => !endsLine c)
      = text ++ rest.takeWhile fun c => !endsLine c := by
    refine List.takeWhile_append_of_pos ?_
    intro c hc
    rw [hone c hc]
    rfl
  refine ⟨trimRight (· == '\r') (rest.takeWhile fun c => !endsLine c), ?_⟩
  unfold lineAround
  rw [htake, ← List.append_assoc]
  exact trimRight_append hend hlast _

/-- A diagnostic about a piece of the source text points at it. -/
theorem pointsAt_of_placed {line col length : Nat} {stage : Stage} {message : String}
    (h : Placed (.ofSource source) line col length before text rest) (hne : text ≠ [])
    (hvisible : ∀ c ∈ text, isWhiteSpace c = false) (hmessage : OneLine message.toList) :
    (ofPlace stage message line col length).PointsAt source (lineAround before (text ++ rest))
      text := by
  obtain ⟨more, hmore⟩ := lineAround_append before rest hne hvisible
  have hsource : source.toList = before ++ (text ++ rest) := by
    rw [← List.append_assoc]
    exact h.ahead
  have hshows : (ofPlace stage message line col length).Shows source
      (lineAround before (text ++ rest)) := by
    refine shows_of_place hsource ?_ hmessage
    exact congrArg Nat.cast h.line
  have hcol : ((ofPlace stage message line col length).col - 1).toNat
      = (lastPiece endsLine before).length := by
    show ((col : Int) - 1).toNat = _
    rw [h.col]
    show ((Position.after {} before).col - 1 : Int).toNat = _
    rw [Position.after_eq]
    dsimp only
    omega
  have hlength : (ofPlace stage message line col length).length.toNat = text.length := by
    have hpos := List.length_pos_iff.mpr hne
    show (max 1 (length : Int)).toNat = _
    rw [h.length]
    omega
  have hpiece : ((lineAround before (text ++ rest)).drop
      ((ofPlace stage message line col length).col - 1).toNat).take
        (ofPlace stage message line col length).length.toNat = text := by
    rw [hcol, hlength, hmore, List.append_assoc, List.drop_left, List.take_left]
  exact ⟨hshows, hpiece, underlined_iff hshows.first hne hlength hpiece⟩

end

/-! ## Visible texts -/

section

variable {text rest : List Char}

theorem Word.visible (h : Word text rest) : ∀ c ∈ text, isWhiteSpace c = false := by
  obtain ⟨first, run, rfl, hfirst, hrun⟩ := h
  intro c hc
  rcases List.mem_cons.mp hc with rfl | hc
  · have hnat := toNat_of_isLetter hfirst
    exact isWhiteSpace_of_toNat (by omega) (by omega)
  · have hnat := hrun.all c hc
    simp only [isAsciiAlphanumeric, Bool.or_eq_true, Bool.and_eq_true, decide_eq_true_eq,
      Char.le_def, UInt32.le_iff_toNat_le] at hnat
    change ((48 ≤ c.toNat ∧ c.toNat ≤ 57) ∨ (65 ≤ c.toNat ∧ c.toNat ≤ 90))
      ∨ (97 ≤ c.toNat ∧ c.toNat ≤ 122) at hnat
    exact isWhiteSpace_of_toNat (by omega) (by omega)

theorem visible_of_digits (h : ∀ c ∈ text, isDigit c = true) :
    ∀ c ∈ text, isWhiteSpace c = false := by
  intro c hc
  have hnat := toNat_of_isDigit (h c hc)
  exact isWhiteSpace_of_toNat (by omega) (by omega)

/-- The texts of significant tokens have no white space in them. -/
theorem Lexeme.Rule.visible {lexeme : Lexeme} (h : lexeme.Rule text rest)
    (htrivia : lexeme.isTrivia = false) : ∀ c ∈ text, isWhiteSpace c = false := by
  cases lexeme with
  | whitespace => cases htrivia
  | comment => cases htrivia
  | beginKw => exact h.2.visible
  | endKw => exact h.2.visible
  | readKw => exact h.2.visible
  | writeKw => exact h.2.visible
  | identifier name => exact h.2.1.visible
  | literal value => exact visible_of_digits h.2.1.all
  | minus => rw [h.1]; decide
  | unknown shown => exact h.elim
  | eof => exact h.elim
  | leftParen => rw [show text = ['('] from h]; decide
  | rightParen => rw [show text = [')'] from h]; decide
  | semicolon => rw [show text = [';'] from h]; decide
  | comma => rw [show text = [','] from h]; decide
  | plus => rw [show text = ['+'] from h]; decide
  | assign => rw [show text = [':', '='] from h]; decide

theorem LexFault.Rule.ne_nil {fault : LexFault} (h : fault.Rule text rest) : text ≠ [] := by
  cases fault with
  | unexpected shown =>
    obtain ⟨_, c, run, rfl, _⟩ := h
    exact List.cons_ne_nil _ _
  | loneColon => rw [h.1]; exact List.cons_ne_nil _ _
  | outOfRange => exact h.1
  | tooLong digits =>
    rintro rfl
    exact absurd h.1.long (by decide)

/-- The texts of faults have no white space in them. -/
theorem LexFault.Rule.visible {fault : LexFault} (h : fault.Rule text rest) :
    ∀ c ∈ text, isWhiteSpace c = false := by
  cases fault with
  | unexpected shown =>
    obtain ⟨_, first, run, rfl, hfirst, hrun⟩ := h
    intro c hc
    rcases List.mem_cons.mp hc with rfl | hc
    · simp only [startsToken, Bool.or_eq_false_iff] at hfirst
      exact hfirst.1.1.1
    · have hunexpected := hrun.all c hc
      simp only [isExpected, Bool.not_eq_true', Bool.or_eq_false_iff] at hunexpected
      exact hunexpected.1.2
  | loneColon => rw [h.1]; decide
  | outOfRange => exact visible_of_digits h.2.1.all
  | tooLong digits => exact visible_of_digits h.1.digits.all

end

end MicroLang.Source

namespace MicroLang

open MicroLang.Source
open MicroLang.Assembly (Gen Generator)
open Source.Position (endsLine)

/-! ## Errors and their diagnostics -/

/-- The diagnostic of a lexical error has its place and a message of one line. -/
theorem diagnostic_of_lexical {e : LexError} {d : Diagnostic} (h : e.diagnostic? = some d) :
    d = .ofPlace .lexing e.fault.message e.line e.col e.length
      ∧ OneLine e.fault.message.toList := by
  obtain ⟨fault, line, col, length⟩ := e
  cases fault with
  | unexpected shown =>
    cases h
    exact ⟨rfl, oneLine_toList_append.mpr ⟨by decide, oneLine_quoted shown⟩⟩
  | loneColon =>
    cases h
    exact ⟨rfl, show OneLine "expected '=' after ':'".toList by decide⟩
  | outOfRange =>
    cases h
    exact ⟨rfl, show OneLine "integer literal out of range".toList by decide⟩
  | tooLong digits => cases h

theorem oneLine_describe {lexeme : Lexeme} {text rest : List Char} (h : lexeme.Rule text rest) :
    OneLine lexeme.describe.toList := by
  cases lexeme with
  | identifier name =>
    have hname : OneLine name.toList := h.1 ▸ oneLine_of_visible h.2.1.visible
    simp only [Lexeme.describe, oneLine_toList_append]
    exact ⟨⟨by decide, hname⟩, by decide⟩
  | literal value =>
    simp only [Lexeme.describe, oneLine_toList_append]
    exact ⟨⟨by decide, oneLine_repr value⟩, by decide⟩
  | eof => exact h.elim
  | _ => exact oneLine_quoted _

theorem oneLine_refusal {e : ParseError} (hfault : OneLine e.fault.message.toList)
    (hfound : OneLine e.token.lexeme.describe.toList) : OneLine e.diagnostic.message.toList := by
  show OneLine (e.fault.message ++ ", found " ++ e.token.lexeme.describe).toList
  simp only [oneLine_toList_append]
  exact ⟨⟨hfault, by decide⟩, hfound⟩

variable {source : String}

theorem lexical_pointsAt {e : LexError} {d : Diagnostic}
    (h : (compile source).1 = .error (.lexical e)) (hd : e.diagnostic? = some d) :
    ∃ before text rest line, e.StandsAt (.ofSource source) before text rest
      ∧ d.PointsAt source line text := by
  obtain ⟨rfl, hmessage⟩ := diagnostic_of_lexical hd
  rw [compile_lexical_iff, Program.parse_lexical_iff] at h
  obtain ⟨before, text, rest, hstands⟩ := TokenStream.standsAt_of_failed h.1
  exact ⟨before, text, rest, _, hstands,
    pointsAt_of_placed hstands.toPlaced hstands.rule.ne_nil hstands.rule.visible hmessage⟩

/-- A syntax error is one of the parser. -/
theorem refused_of_compile {e : ParseError} (h : (compile source).1 = .error (.syntactic e)) :
    Program.Met (.ofSource source) e.token ∧ OneLine e.fault.message.toList
      ∧ (TokenStream.ofSource source).tokens ≠ [] := by
  rcases compile_eq_error h with hparse | ⟨_, _, _, heq, _, _⟩
  · obtain ⟨hmet, hmessage⟩ := Program.refused_of_parse hparse
    exact ⟨hmet, hmessage, Program.tokens_ne_nil_of_parse hparse⟩
  · cases heq

theorem syntactic_pointsAt {e : ParseError} (h : (compile source).1 = .error (.syntactic e))
    (hne : e.token.lexeme ≠ .eof) :
    ∃ before text rest line, e.token.StandsAt (.ofSource source) before text rest
      ∧ e.diagnostic.PointsAt source line text := by
  obtain ⟨hmet, hmessage, _⟩ := refused_of_compile h
  rcases hmet with hmem | ⟨heof, _⟩
  · obtain ⟨htrivia, before, text, rest, hstands⟩ := TokenStream.standsAt_of_mem hmem
    exact ⟨before, text, rest, _, hstands, pointsAt_of_placed hstands.toPlaced hstands.rule.ne_nil
      (hstands.rule.visible htrivia) (oneLine_refusal hmessage (oneLine_describe hstands.rule))⟩
  · rw [heof] at hne
    exact absurd (Token.lexeme_eofAfter _) hne

/-- The place right behind a piece of a text that stands on one line. -/
theorem after_of_placed {line col length : Nat} {before text rest : List Char}
    (h : Placed (.ofSource source) line col length before text rest) (hone : OneLine text) :
    (Position.after {} (before ++ text)).line = line
      ∧ (Position.after {} (before ++ text)).col = col + length := by
  have hcount : text.countP endsLine = 0 := by
    refine List.countP_eq_zero.mpr fun c hc => ?_
    rw [hone c hc]
    exact Bool.false_ne_true
  have hline : line = (Position.after {} before).line := h.line
  have hcol : col = (Position.after {} before).col := h.col
  rw [hline, hcol, h.length, Position.after_eq, Position.after_eq, List.countP_append, hcount,
    Text.lastPiece_append _ _ hone]
  refine ⟨rfl, ?_⟩
  dsimp only
  rw [List.length_append]
  omega

/-- At the end of the input the place is right behind the last significant token. -/
theorem syntactic_atEnd {e : ParseError} (h : (compile source).1 = .error (.syntactic e))
    (heof : e.token.lexeme = .eof) :
    ∃ t before text rest line, (TokenStream.ofSource source).tokens.getLast? = some t
      ∧ (∀ e', (TokenStream.ofSource source).ending ≠ .failed e')
      ∧ t.StandsAt (.ofSource source) before text rest
      ∧ e.diagnostic.line = (Position.after {} (before ++ text)).line
      ∧ e.diagnostic.col = (Position.after {} (before ++ text)).col
      ∧ e.diagnostic.length = 1 ∧ e.diagnostic.Shows source line := by
  obtain ⟨hmet, hmessage, htokens⟩ := refused_of_compile h
  rcases hmet with hmem | ⟨htoken, hending⟩
  · obtain ⟨_, _, _, _, hstands⟩ := TokenStream.standsAt_of_mem hmem
    have hrule := hstands.rule
    rw [heof] at hrule
    exact hrule.elim
  · have hlast := List.getLast?_eq_some_getLast htokens
    obtain ⟨htrivia, before, text, rest, hstands⟩ :=
      TokenStream.standsAt_of_mem (List.getLast_mem htokens)
    obtain ⟨hline, hcol⟩ :=
      after_of_placed hstands.toPlaced (oneLine_of_visible (hstands.rule.visible htrivia))
    rw [hlast] at htoken
    obtain ⟨fault, token⟩ := e
    cases htoken
    refine ⟨_, before, text, rest, Diagnostic.lineAround (before ++ text) rest, hlast, hending,
      hstands, congrArg Nat.cast hline.symm, congrArg Nat.cast hcol.symm, rfl, ?_⟩
    refine Diagnostic.shows_of_place hstands.ahead (congrArg Nat.cast hline.symm) ?_
    exact oneLine_refusal hmessage (show OneLine "end of input".toList by decide)

/-- An error of code generation has no place, and is written as one line. -/
theorem generation_lines {e : GenError} (h : (compile source).1 = .error (.generation e)) :
    e.diagnostic.line = 0 ∧ e.diagnostic.lines source = [e.diagnostic.head.toList] := by
  have hmessage : OneLine e.message.toList := by
    rcases generation_of_compile h with ⟨routine, rfl⟩ | rfl
    · cases routine
      all_goals decide
    · decide
  exact ⟨rfl, Text.splitWhere_eq_singleton (Diagnostic.oneLine_head hmessage)⟩

/-- Diagnostics point at the right text. An error of a source text is written with the line that it
is in, and its column and length are those of the refused token or fault there; at the end of the
input they are those of one character behind the last significant token. The marks stand under
exactly that text, unless the number of the line has more than five digits. An error of code
generation has no place and one line. -/
theorem compile_excerpt (source : String) :
    (∀ e d, (compile source).1 = .error (.lexical e) → e.diagnostic? = some d →
      ∃ before text rest line, e.StandsAt (.ofSource source) before text rest
        ∧ d.PointsAt source line text)
    ∧ (∀ e, (compile source).1 = .error (.syntactic e) → e.token.lexeme ≠ .eof →
      ∃ before text rest line, e.token.StandsAt (.ofSource source) before text rest
        ∧ e.diagnostic.PointsAt source line text)
    ∧ (∀ e, (compile source).1 = .error (.syntactic e) → e.token.lexeme = .eof →
      ∃ t before text rest line, (TokenStream.ofSource source).tokens.getLast? = some t
        ∧ (∀ e', (TokenStream.ofSource source).ending ≠ .failed e')
        ∧ t.StandsAt (.ofSource source) before text rest
        ∧ e.diagnostic.line = (Position.after {} (before ++ text)).line
        ∧ e.diagnostic.col = (Position.after {} (before ++ text)).col
        ∧ e.diagnostic.length = 1 ∧ e.diagnostic.Shows source line)
    ∧ ∀ e, (compile source).1 = .error (.generation e) →
      e.diagnostic.line = 0 ∧ e.diagnostic.lines source = [e.diagnostic.head.toList] := by
  refine ⟨?_, ?_, ?_, ?_⟩
  · intro e d h hd
    exact lexical_pointsAt h hd
  · intro e h hne
    exact syntactic_pointsAt h hne
  · intro e h heof
    exact syntactic_atEnd h heof
  · intro e h
    exact generation_lines h

/-- A run of dollar signs in the second of three lines, which end with carriage returns. -/
theorem compile_excerpt_dollars :
    (compile "begin\r\n  x := $$ 1\r\nend\r\n").1 = .error (.lexical ⟨.unexpected "$$", 2, 8, 2⟩)
      ∧ ∃ line, (Diagnostic.ofPlace .lexing "unexpected '$$'" 2 8 2).PointsAt
        "begin\r\n  x := $$ 1\r\nend\r\n" line "$$".toList := by
  have hcompile : (compile "begin\r\n  x := $$ 1\r\nend\r\n").1
      = .error (.lexical ⟨.unexpected "$$", 2, 8, 2⟩) := by decide +kernel
  refine ⟨hcompile, ?_⟩
  obtain ⟨before, text, rest, line, hstands, hpoints⟩ :=
    (compile_excerpt "begin\r\n  x := $$ 1\r\nend\r\n").1 _ _ hcompile rfl
  have htext : text = "$$".toList := hstands.rule.1
  rw [htext] at hpoints
  exact ⟨line, hpoints⟩

/-! ## Lines with large numbers -/

theorem lastPiece_feeds (n : Nat) :
    Text.lastPiece endsLine (List.replicate (n + 1) '\n') = [] := by
  unfold Text.lastPiece
  rw [List.reverse_replicate]
  rfl

/-- A star below some empty lines is refused where it stands. -/
theorem compile_star (n : Nat) :
    (compile (String.ofList (List.replicate (n + 1) '\n' ++ ['*']))).1
      = .error (.lexical ⟨.unexpected "*", n + 2, 1, 1⟩) := by
  have hblank : Lexeme.whitespace.Rule (List.replicate (n + 1) '\n') ['*'] := by
    refine ⟨by simp, ?_, ?_⟩
    · intro c hc
      rw [List.eq_of_mem_replicate hc]
      rfl
    · rintro c ⟨⟩
      rfl
  have hpos : Position.after {} (List.replicate (n + 1) '\n') = ⟨n + 1, n + 2, 1⟩ := by
    rw [Position.after_eq, List.length_replicate, List.countP_replicate, lastPiece_feeds]
    rfl
  have hstream : TokenStream.ofSource (String.ofList (List.replicate (n + 1) '\n' ++ ['*']))
      = ⟨[], .failed ⟨.unexpected "*", n + 2, 1, 1⟩⟩ := by
    unfold TokenStream.ofSource Scanner.ofSource
    rw [String.toList_ofList, TokenStream.ofScanner_of_trivia rfl hblank rfl, hpos]
    exact TokenStream.ofScanner_of_error rfl 0
  rw [compile_lexical_iff, Program.parse_lexical_iff, hstream]
  exact ⟨rfl, Program.exhausts_nil⟩

/-- In line 100000 the gutter is wider than the margin, and the mark for a star there stands left of
it. -/
theorem marks_left_of_text :
    (compile (String.ofList (List.replicate 99999 '\n' ++ ['*']))).1
        = .error (.lexical ⟨.unexpected "*", 100000, 1, 1⟩)
      ∧ (Diagnostic.ofPlace .lexing "unexpected '*'" 100000 1 1).lines
          (String.ofList (List.replicate 99999 '\n' ++ ['*']))
        = ["microc: syntax error: unexpected '*'".toList, "    --> 100000:1".toList,
            "      |".toList, "100000 | *".toList, "      | ^".toList]
      ∧ ¬ Diagnostic.Underlined "100000 | *".toList "      | ^".toList 9 ['*'] := by
  refine ⟨compile_star 99998, ?_, ?_⟩
  · have hline : Diagnostic.lineAround (List.replicate 99999 '\n') ['*'] = ['*'] := by
      unfold Diagnostic.lineAround
      rw [lastPiece_feeds 99998]
      rfl
    have hshows : (Diagnostic.ofPlace .lexing "unexpected '*'" 100000 1 1).Shows
        (String.ofList (List.replicate 99999 '\n' ++ ['*']))
        (Diagnostic.lineAround (List.replicate 99999 '\n') ['*']) := by
      refine Diagnostic.shows_of_place String.toList_ofList ?_ (by decide)
      rw [Position.after_eq, List.countP_replicate]
      rfl
    rw [hshows.parts, hline]
    rfl
  · rintro ⟨_, hmarks⟩
    exact absurd ((hmarks 8).mp rfl).1 (by decide)

end MicroLang
