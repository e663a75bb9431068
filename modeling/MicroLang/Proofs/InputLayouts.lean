import MicroLang.Proofs.Pipeline
import MicroLang.Proofs.Spellings

/-!
# Layouts of input files

An input file is cut into lines, at line feeds and carriage returns and at no other line break. Each
line loses its comment, and what is left of it is cut at blanks. `LaidOut` says along the text, and
without lines, which tokens stand in it:

> `laidOut_iff`: the tokens that are laid out in a text are those that are cut out of it.

The integers of a file are then those that its tokens spell, whatever the layout, and the first
token that is no integer is the one that is reported (`readInputs_laidOut`).
-/

namespace MicroLang.Machine.InputFile

open MicroLang.Sequencing
open MicroLang.Text

/-! ## Layouts -/

/-- The characters that end a line of a file. -/
def isNewline (c : Char) : Bool :=
  c == '\n' || c == '\r'

/-- A text in which tokens stand apart, with any blanks and comments around them. -/
inductive LaidOut : List (List Char) → List Char → Prop where
  | nil : LaidOut [] []
  | blank {c : Char} {text : List Char} {tokens : List (List Char)} :
    isBlank c = true → LaidOut tokens text → LaidOut tokens (c :: text)
  /-- A comment goes to the end of its line. -/
  | comment {words text : List Char} {tokens : List (List Char)} :
    (∀ c ∈ words, isNewline c = false) → (∀ c ∈ text.head?, isNewline c = true) →
    LaidOut tokens text → LaidOut tokens ('#' :: (words ++ text))
  /-- A token goes to the next blank or comment. -/
  | token {token text : List Char} {tokens : List (List Char)} :
    token ≠ [] → (∀ c ∈ token, isBlank c = false ∧ c ≠ '#') →
    (∀ c ∈ text.head?, isBlank c = true ∨ c = '#') →
    LaidOut tokens text → LaidOut (token :: tokens) (token ++ text)

/-- The lines of a text. -/
def textLines (text : List Char) : List (List Char) :=
  splitWhere (· == '\n') (unixNewlines text)

/-- The tokens that are cut out of a text. -/
def tokensIn (text : List Char) : List String :=
  (textLines text).flatMap tokens

/-! ## Lines along a text -/

section

variable {c : Char} {text line : List Char} {lines : List (List Char)}

theorem isBlank_of_isNewline (h : isNewline c = true) : isBlank c = true := by
  rcases (Bool.or_eq_true _ _).mp h with hc | hc
  · rw [eq_of_beq hc]
    decide
  · rw [eq_of_beq hc]
    decide

/-- A character that ends no line is one more of the first line. -/
theorem exists_textLines_cons (hc : isNewline c = false) (text : List Char) :
    ∃ line lines, textLines text = line :: lines
      ∧ textLines (c :: text) = (c :: line) :: lines := by
  obtain ⟨hfeed, hreturn⟩ := (Bool.or_eq_false_iff).mp hc
  have hunix : unixNewlines (c :: text) = c :: unixNewlines text := by
    have hne : c ≠ '\r' := ne_of_beq_false hreturn
    cases text <;> simp [unixNewlines, hne]
  obtain ⟨line, lines, hlines⟩ :=
    List.exists_cons_of_ne_nil (splitWhere_ne_nil (· == '\n') (unixNewlines text))
  refine ⟨line, lines, hlines, ?_⟩
  unfold textLines
  rw [hunix, splitWhere, hfeed, hlines]
  rfl

theorem exists_textLines_append {front : List Char} (hfront : ∀ c ∈ front, isNewline c = false)
    (text : List Char) :
    ∃ line lines, textLines text = line :: lines
      ∧ textLines (front ++ text) = (front ++ line) :: lines := by
  induction front with
  | nil =>
    obtain ⟨line, lines, hlines⟩ :=
      List.exists_cons_of_ne_nil (splitWhere_ne_nil (· == '\n') (unixNewlines text))
    exact ⟨line, lines, hlines, hlines⟩
  | cons c front ih =>
    obtain ⟨hc, hfront⟩ := List.forall_mem_cons.mp hfront
    obtain ⟨line, lines, hlines, hrest⟩ := ih hfront
    obtain ⟨line', lines', hlines', hall⟩ := exists_textLines_cons hc (front ++ text)
    rw [hrest] at hlines'
    cases hlines'
    exact ⟨line, lines, hlines, hall⟩

/-- A character that ends a line starts a text whose first line is empty. -/
theorem exists_textLines_newline (hc : isNewline c = true) (text : List Char) :
    ∃ lines, textLines (c :: text) = [] :: lines ∧ lines.flatMap tokens = tokensIn text := by
  have hfeed (rest : List Char) : textLines ('\n' :: rest) = [] :: textLines rest := rfl
  rcases (Bool.or_eq_true _ _).mp hc with hc | hc
  · rw [eq_of_beq hc]
    exact ⟨textLines text, hfeed text, rfl⟩
  · rw [eq_of_beq hc]
    cases text with
    | nil => exact ⟨[[]], rfl, rfl⟩
    | cons d text =>
      by_cases hd : d = '\n'
      · rw [hd]
        -- the two characters end one line
        exact ⟨textLines text, rfl, rfl⟩
      · refine ⟨textLines (d :: text), ?_, rfl⟩
        unfold textLines
        rw [show unixNewlines ('\r' :: d :: text) = '\n' :: unixNewlines (d :: text) by
          simp [unixNewlines, hd]]
        rfl

/-- The first line is empty, or starts as the text does. -/
theorem head?_of_textLines (h : textLines text = line :: lines) :
    ∀ c ∈ line.head?, c ∈ text.head? ∧ isNewline c = false := by
  intro c hc
  cases text with
  | nil =>
    cases h
    cases hc
  | cons d text =>
    by_cases hd : isNewline d = true
    · obtain ⟨lines', hlines, _⟩ := exists_textLines_newline hd text
      rw [hlines] at h
      cases h
      cases hc
    · rw [Bool.not_eq_true] at hd
      obtain ⟨line', lines', _, hlines⟩ := exists_textLines_cons hd text
      rw [hlines] at h
      cases h
      cases hc
      exact ⟨rfl, hd⟩

/-! ## The tokens of a line -/

theorem tokens_cons_of_isBlank (hc : isBlank c = true) (line : List Char) :
    tokens (c :: line) = tokens line := by
  have hsharp := not_mem_of_isBlank (List.forall_mem_singleton.mpr hc)
  unfold tokens
  rw [← List.singleton_append, beforeComment_append hsharp, List.singleton_append,
    fieldsWhere_cons hc]

theorem tokens_append {token : List Char} (hne : token ≠ [])
    (htoken : ∀ c ∈ token, isBlank c = false ∧ c ≠ '#')
    (hline : ∀ c ∈ line.head?, isBlank c = true ∨ c = '#') :
    tokens (token ++ line) = String.ofList token :: tokens line := by
  have hsharp : '#' ∉ token := fun hmem => (htoken _ hmem).2 rfl
  have hends : ∀ c ∈ (beforeComment line).head?, isBlank c = true := by
    intro c hc
    cases line with
    | nil => cases hc
    | cons d line =>
      rcases hline d rfl with hd | rfl
      · rw [← List.singleton_append,
          beforeComment_append (not_mem_of_isBlank (List.forall_mem_singleton.mpr hd))] at hc
        cases hc
        exact hd
      · cases hc
  unfold tokens
  rw [beforeComment_append hsharp, fieldsWhere_append hne (fun c hc => (htoken c hc).1) hends,
    List.map_cons]

end

/-! ## The tokens of a text -/

theorem tokensIn_of_laidOut {laid : List (List Char)} {text : List Char} (h : LaidOut laid text) :
    tokensIn text = laid.map String.ofList := by
  induction h with
  | nil => rfl
  | @blank c text laid hc _ ih =>
    by_cases hnewline : isNewline c = true
    · obtain ⟨lines, hlines, hrest⟩ := exists_textLines_newline hnewline text
      rw [← ih, tokensIn, hlines, List.flatMap_cons, hrest]
      rfl
    · rw [Bool.not_eq_true] at hnewline
      obtain ⟨line, lines, hlines, hall⟩ := exists_textLines_cons hnewline text
      rw [← ih, tokensIn, tokensIn, hlines, hall, List.flatMap_cons, List.flatMap_cons,
        tokens_cons_of_isBlank hc]
  | @comment words text laid hwords hends _ ih =>
    have hfront : ∀ c ∈ '#' :: words, isNewline c = false :=
      List.forall_mem_cons.mpr ⟨by decide, hwords⟩
    obtain ⟨line, lines, hlines, hall⟩ := exists_textLines_append hfront text
    -- behind a comment nothing is left of its line
    have hline : line = [] := by
      rw [← List.head?_eq_none_iff, Option.eq_none_iff_forall_not_mem]
      intro c hc
      obtain ⟨hhead, hc⟩ := head?_of_textLines hlines c hc
      rw [hends c hhead] at hc
      cases hc
    rw [← ih, tokensIn, tokensIn, hlines, ← List.cons_append, hall, hline]
    rfl
  | @token token text laid hne htoken hends _ ih =>
    have hfront : ∀ c ∈ token, isNewline c = false := by
      intro c hc
      by_contra hnewline
      have hblank := isBlank_of_isNewline ((Bool.not_eq_false _).mp hnewline)
      rw [(htoken c hc).1] at hblank
      cases hblank
    obtain ⟨line, lines, hlines, hall⟩ := exists_textLines_append hfront text
    have hline : ∀ c ∈ line.head?, isBlank c = true ∨ c = '#' :=
      fun c hc => hends c (head?_of_textLines hlines c hc).1
    rw [List.map_cons, ← ih, tokensIn, tokensIn, hlines, hall, List.flatMap_cons,
      List.flatMap_cons, tokens_append hne htoken hline, List.cons_append]

/-- Tokens are laid out in every text. -/
theorem exists_laidOut (text : List Char) : ∃ laid, LaidOut laid text := by
  -- a comment or a token takes a whole run of characters, so the induction is on the length
  induction hlength : text.length using Nat.strong_induction_on generalizing text with
  | _ n ih =>
    cases text with
    | nil => exact ⟨[], .nil⟩
    | cons c text =>
      rw [List.length_cons] at hlength
      by_cases hblank : isBlank c = true
      · obtain ⟨laid, hlaid⟩ := ih text.length (by omega) text rfl
        exact ⟨laid, .blank hblank hlaid⟩
      by_cases hsharp : c = '#'
      · obtain ⟨words, rest, rfl, hwords, hends, _⟩ := exists_run (fun d => !isNewline d) text
        rw [List.length_append] at hlength
        obtain ⟨laid, hlaid⟩ := ih rest.length (by omega) rest rfl
        rw [hsharp]
        exact ⟨laid, .comment (fun d hd => by simpa using hwords d hd)
          (fun d hd => by simpa using hends d hd) hlaid⟩
      · obtain ⟨token, rest, htext, htoken, hends, _⟩ :=
          exists_run (fun d => !isBlank d && d != '#') (c :: text)
        have hne : token ≠ [] := by
          rintro rfl
          rw [List.nil_append] at htext
          rw [← htext] at hends
          have hstop := hends c rfl
          simp [hblank, hsharp] at hstop
        have hshorter := congrArg List.length htext
        rw [List.length_cons, List.length_append] at hshorter
        have hpos := List.length_pos_iff.mpr hne
        obtain ⟨laid, hlaid⟩ := ih rest.length (by omega) rest rfl
        rw [htext]
        refine ⟨token :: laid, .token hne (fun d hd => by simpa using htoken d hd) ?_ hlaid⟩
        intro d hd
        have hstop := hends d hd
        rw [Bool.and_eq_false_iff, Bool.not_eq_false', bne_eq_false_iff_eq] at hstop
        exact hstop

/-- The tokens that are laid out in a text are those that are cut out of it. -/
theorem laidOut_iff {laid : List (List Char)} {text : List Char} :
    LaidOut laid text ↔ tokensIn text = laid.map String.ofList := by
  refine ⟨tokensIn_of_laidOut, ?_⟩
  intro h
  obtain ⟨found, hfound⟩ := exists_laidOut text
  have hsame := (tokensIn_of_laidOut hfound).symm.trans h
  rw [← List.map_injective_iff.mpr (fun _ _ => String.ofList_injective) hsame]
  exact hfound

instance (laid : List (List Char)) (text : List Char) : Decidable (LaidOut laid text) :=
  decidable_of_iff _ laidOut_iff.symm

/-- The tokens of a text are determined. -/
theorem existsUnique_laidOut (text : List Char) : ∃! laid, LaidOut laid text := by
  obtain ⟨laid, hlaid⟩ := exists_laidOut text
  refine ⟨laid, hlaid, ?_⟩
  intro found hfound
  have hsame := (laidOut_iff.mp hfound).symm.trans (laidOut_iff.mp hlaid)
  exact List.map_injective_iff.mpr (fun _ _ => String.ofList_injective) hsame

/-! ## The integers of tokens -/

/-- The token is an integer. -/
def Accepted (token : List Char) : Prop :=
  ∃ v, Numeral.read (String.ofList token) = .ok v

/-- The token is the first one that is no integer. -/
def FirstRejected (laid : List (List Char)) (token : List Char) : Prop :=
  ∃ before behind, laid = before ++ token :: behind ∧ (∀ other ∈ before, Accepted other)
    ∧ ¬Accepted token

section

variable {laid : List (List Char)} {token found : List Char}

theorem not_firstRejected_nil : ¬FirstRejected [] found := by
  intro h
  obtain ⟨before, behind, hnil, _⟩ := h
  exact List.cons_ne_nil found behind (List.append_eq_nil_iff.mp hnil.symm).2

theorem firstRejected_cons_of_accepted (h : Accepted token) :
    FirstRejected (token :: laid) found ↔ FirstRejected laid found := by
  constructor
  · intro hfound
    obtain ⟨before, behind, hlaid, hbefore, hrejected⟩ := hfound
    cases before with
    | nil =>
      cases hlaid
      exact absurd h hrejected
    | cons other before =>
      cases hlaid
      exact ⟨before, behind, rfl, (List.forall_mem_cons.mp hbefore).2, hrejected⟩
  · intro hfound
    obtain ⟨before, behind, rfl, hbefore, hrejected⟩ := hfound
    exact ⟨token :: before, behind, rfl, List.forall_mem_cons.mpr ⟨h, hbefore⟩, hrejected⟩

theorem firstRejected_cons_of_rejected (h : ¬Accepted token) :
    FirstRejected (token :: laid) found ↔ found = token := by
  constructor
  · intro hfound
    obtain ⟨before, behind, hlaid, hbefore, _⟩ := hfound
    cases before with
    | nil =>
      cases hlaid
      rfl
    | cons other before =>
      cases hlaid
      exact absurd (hbefore token List.mem_cons_self) h
  · rintro rfl
    exact ⟨[], laid, rfl, fun _ hmem => absurd hmem List.not_mem_nil, h⟩

theorem exists_firstRejected_iff :
    (∃ token, FirstRejected laid token) ↔ ∃ token ∈ laid, ¬Accepted token := by
  induction laid with
  | nil =>
    constructor
    · intro h
      obtain ⟨token, htoken⟩ := h
      exact absurd htoken not_firstRejected_nil
    · intro h
      obtain ⟨token, hmem, _⟩ := h
      exact absurd hmem List.not_mem_nil
  | cons token laid ih =>
    by_cases htoken : Accepted token
    · simp only [firstRejected_cons_of_accepted htoken, ih, List.mem_cons, exists_eq_or_imp, htoken,
        not_true_eq_false, false_or]
    · simp only [firstRejected_cons_of_rejected htoken, List.mem_cons, exists_eq_or_imp, htoken,
        not_false_eq_true, true_or, exists_eq]

end

theorem readTokens_cons_of_ok {token : String} {v : Int} (h : Numeral.read token = .ok v)
    (rest : List String) :
    readTokens (token :: rest) = readTokens rest >>= fun values => .ok (v :: values) := by
  rw [readTokens, h]
  rfl

theorem readTokens_cons_of_error {token : String} {cause : Numeral.Error}
    (h : Numeral.read token = .error cause) (rest : List String) :
    readTokens (token :: rest) = .error (.badValue token) := by
  rw [readTokens, h]

theorem readTokens_eq_ok {laid : List (List Char)} {values : List Int} :
    readTokens (laid.map String.ofList) = .ok values
      ↔ List.Forall₂ (fun token v => Numeral.read (String.ofList token) = .ok v) laid values := by
  induction laid generalizing values with
  | nil =>
    rw [List.forall₂_nil_left_iff]
    constructor
    · intro h
      cases h
      rfl
    · rintro rfl
      rfl
  | cons token laid ih =>
    rw [List.map_cons, List.forall₂_cons_left_iff]
    cases hread : Numeral.read (String.ofList token) with
    | error cause =>
      rw [readTokens_cons_of_error hread]
      constructor
      · intro h
        cases h
      · intro h
        obtain ⟨v, rest, hv, _⟩ := h
        cases hv
    | ok v =>
      rw [readTokens_cons_of_ok hread, except_bind_eq_ok]
      constructor
      · intro h
        obtain ⟨rest, hrest, hvalues⟩ := h
        cases hvalues
        exact ⟨v, rest, rfl, ih.mp hrest, rfl⟩
      · intro h
        obtain ⟨v', rest, hv, hrest, rfl⟩ := h
        cases hv
        exact ⟨rest, ih.mpr hrest, rfl⟩

/-- What stops the reading of tokens is the first one that is no integer. -/
theorem readTokens_eq_error {laid : List (List Char)} {e : Error} :
    readTokens (laid.map String.ofList) = .error e
      ↔ ∃ token, FirstRejected laid token ∧ e = .badValue (String.ofList token) := by
  induction laid with
  | nil =>
    constructor
    · intro h
      cases h
    · intro h
      obtain ⟨token, htoken, _⟩ := h
      exact absurd htoken not_firstRejected_nil
  | cons token laid ih =>
    rw [List.map_cons]
    cases hread : Numeral.read (String.ofList token) with
    | error cause =>
      have hrejected : ¬Accepted token := by
        intro haccepted
        obtain ⟨v, hv⟩ := haccepted
        rw [hread] at hv
        cases hv
      simp only [readTokens_cons_of_error hread, firstRejected_cons_of_rejected hrejected,
        exists_eq_left, Except.error.injEq]
      exact eq_comm
    | ok v =>
      simp only [readTokens_cons_of_ok hread, firstRejected_cons_of_accepted ⟨v, hread⟩, ← ih]
      cases readTokens (laid.map String.ofList) with
      | error e' => rfl
      | ok values =>
        constructor
        · intro h
          cases h
        · intro h
          cases h

/-- The integers of a file are those of its text. -/
theorem read_of_decode {bytes : List UInt8} {text : List Char} (h : Utf8.decode bytes = .ok text) :
    read bytes = readTokens (tokensIn text) := by
  rw [read, lines, Utf8.decode_eq_ok.1 h]
  exact bind_pure _

end MicroLang.Machine.InputFile

namespace MicroLang.Tool

open MicroLang.Files
open MicroLang.Machine
open MicroLang.Text

variable {path : String} {s : Session} {bytes : List UInt8} {text : List Char}
  {laid : List (List Char)}

/-- A token that is no integer ends the tool that reads it. -/
theorem exec_readInputs_of_badValue {token : String} (hpath : NullFree path)
    (hfile : s.files.readFile s.here path = .ok bytes)
    (h : InputFile.read bytes = .error (.badValue token)) :
    exec (readInputs path) s = (.error (.badInput token path), s) := by
  unfold readInputs
  rw [exec_bind_of_ok (exec_readFile_eq_ok.2 ⟨hpath, hfile, rfl⟩), h]
  rfl

theorem exec_readInputs_of_laidOut (hpath : NullFree path)
    (hfile : s.files.readFile s.here path = .ok bytes) (htext : Utf8.decode bytes = .ok text)
    (hlaid : InputFile.LaidOut laid text) (values : List Int) :
    exec (readInputs path) s = (.ok values, s) ↔
      List.Forall₂ (fun token v => Numeral.read (String.ofList token) = .ok v) laid values := by
  rw [exec_readInputs_eq_ok, ← InputFile.readTokens_eq_ok, ← InputFile.tokensIn_of_laidOut hlaid,
    ← InputFile.read_of_decode htext]
  constructor
  · intro h
    obtain ⟨_, ⟨found, hfound, hvalues⟩, _⟩ := h
    rw [hfile] at hfound
    cases hfound
    exact hvalues
  · intro h
    exact ⟨hpath, ⟨bytes, hfile, h⟩, rfl⟩

theorem exec_readInputs_error_of_laidOut (hpath : NullFree path)
    (hfile : s.files.readFile s.here path = .ok bytes) (htext : Utf8.decode bytes = .ok text)
    (hlaid : InputFile.LaidOut laid text) (failure : Failure) :
    exec (readInputs path) s = (.error failure, s) ↔
      ∃ token, InputFile.FirstRejected laid token
        ∧ failure = .badInput (String.ofList token) path := by
  have hread : InputFile.read bytes = InputFile.readTokens (laid.map String.ofList) := by
    rw [InputFile.read_of_decode htext, InputFile.tokensIn_of_laidOut hlaid]
  constructor
  · intro h
    cases hresult : InputFile.readTokens (laid.map String.ofList) with
    | ok values =>
      rw [exec_readInputs_eq_ok.2 ⟨hpath, ⟨bytes, hfile, hread.trans hresult⟩, rfl⟩] at h
      cases h
    | error e =>
      obtain ⟨token, htoken, rfl⟩ := InputFile.readTokens_eq_error.mp hresult
      rw [exec_readInputs_of_badValue hpath hfile (hread.trans hresult)] at h
      cases h
      exact ⟨token, htoken, rfl⟩
  · intro h
    obtain ⟨token, htoken, rfl⟩ := h
    have hresult := InputFile.readTokens_eq_error.mpr ⟨token, htoken, rfl⟩
    exact exec_readInputs_of_badValue hpath hfile (hread.trans hresult)

/-- **Layouts of input files.** Integers that are laid out in a file are read in their order. The
tokens of every text are determined, and reading it fails exactly if one of them is no integer; the
failure names the first such token. -/
theorem readInputs_laidOut (hpath : NullFree path)
    (hfile : s.files.readFile s.here path = .ok bytes) (htext : Utf8.decode bytes = .ok text) :
    (∀ spellings : List Numeral.Spelling, (∀ spelling ∈ spellings, spelling.Short) →
        InputFile.LaidOut (spellings.map Numeral.Spelling.text) text →
        exec (readInputs path) s = (.ok (spellings.map Numeral.Spelling.value), s))
      ∧ (∃! laid, InputFile.LaidOut laid text)
      ∧ ∀ laid, InputFile.LaidOut laid text →
        (∀ values, exec (readInputs path) s = (.ok values, s) ↔
          List.Forall₂ (fun token v => Numeral.read (String.ofList token) = .ok v) laid values)
        ∧ ((∃ failure, exec (readInputs path) s = (.error failure, s)) ↔
          ∃ token ∈ laid, ¬InputFile.Accepted token)
        ∧ ∀ failure, exec (readInputs path) s = (.error failure, s) ↔
          ∃ token, InputFile.FirstRejected laid token
            ∧ failure = .badInput (String.ofList token) path
            ∧ failure.message
              = "bad input value " ++ quoted (String.ofList token) ++ " in " ++ path := by
  refine ⟨?_, InputFile.existsUnique_laidOut text, ?_⟩
  · intro spellings hshort hlaid
    rw [exec_readInputs_of_laidOut hpath hfile htext hlaid, List.forall₂_map_left_iff,
      List.forall₂_map_right_iff, List.forall₂_same]
    intro spelling hspelling
    rw [Numeral.read_spelling, if_pos (hshort spelling hspelling)]
  · intro laid hlaid
    have herror := exec_readInputs_error_of_laidOut hpath hfile htext hlaid
    refine ⟨exec_readInputs_of_laidOut hpath hfile htext hlaid, ?_, ?_⟩
    · rw [← InputFile.exists_firstRejected_iff]
      constructor
      · intro h
        obtain ⟨failure, hfailure⟩ := h
        obtain ⟨token, htoken, _⟩ := (herror failure).mp hfailure
        exact ⟨token, htoken⟩
      · intro h
        obtain ⟨token, htoken⟩ := h
        exact ⟨_, (herror _).mpr ⟨token, htoken, rfl⟩⟩
    · intro failure
      rw [herror failure]
      refine exists_congr fun token => and_congr_right fun _ => ?_
      constructor
      · rintro rfl
        exact ⟨rfl, rfl⟩
      · exact And.left

/-- Twelve, minus thirty and five, in three notations. -/
def mixedSpellings : List Numeral.Spelling :=
  [⟨.missing, .decimal 12⟩,
    ⟨.minus, .marked .hexadecimal false ⟨⟨1, by decide⟩, false⟩ [⟨⟨14, by decide⟩, true⟩]⟩,
    ⟨.plus, .marked .binary false ⟨⟨1, by decide⟩, false⟩
      [⟨⟨0, by decide⟩, false⟩, ⟨⟨1, by decide⟩, false⟩]⟩]

/-- Comments hold numbers and other line breaks, and a token may stand right before one. Of two
tokens that are no integers the first is reported. -/
theorem readInputs_laidOut_commented :
    exec (readInputs "in.txt") (workbench "" "12 # 7\r\n\u2003-0x1E#\u2028 9\r\n\n+0b101")
        = (.ok [12, -30, 5], workbench "" "12 # 7\r\n\u2003-0x1E#\u2028 9\r\n\n+0b101")
      ∧ exec (readInputs "in.txt") (workbench "" "1 # a\r 0x 2 b")
        = (.error (.badInput "0x" "in.txt"), workbench "" "1 # a\r 0x 2 b") := by
  have hmixed : InputFile.LaidOut (mixedSpellings.map Numeral.Spelling.text)
      "12 # 7\r\n\u2003-0x1E#\u2028 9\r\n\n+0b101".toList := by decide +kernel
  have hbad : InputFile.LaidOut ["1".toList, "0x".toList, "2".toList, "b".toList]
      "1 # a\r 0x 2 b".toList := by decide +kernel
  refine ⟨?_, ?_⟩
  · exact (readInputs_laidOut (by decide) (readFile_inputs _ _) (Utf8.decode_encode _)).1
      mixedSpellings (by decide +kernel) hmixed
  · obtain ⟨_, _, h⟩ :=
      readInputs_laidOut (by decide) (readFile_inputs "" "1 # a\r 0x 2 b") (Utf8.decode_encode _)
    refine ((h _ hbad).2.2 _).mpr ⟨"0x".toList, ⟨["1".toList], _, rfl, ?_, ?_⟩, rfl, rfl⟩
    · rw [List.forall_mem_singleton]
      exact ⟨1, rfl⟩
    · intro haccepted
      obtain ⟨v, hv⟩ := haccepted
      cases hv

end MicroLang.Tool
