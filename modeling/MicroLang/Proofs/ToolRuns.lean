import MicroLang.Proofs.Encoding
import MicroLang.Proofs.FileTrees
import MicroLang.Tool.Basic

/-!
# What tools do to a session

A tool is a sequence of small actions on a host. On a session each action can be computed: `exec`
gives what it ends with and the session it leaves. Here is one equation or equivalence for each
action, so that what a whole tool does is put together from them, along `exec_bind_eq_ok`.
-/

namespace MicroLang.Tool

open MicroLang.Files
open MicroLang.Machine
open MicroLang.Sequencing
open MicroLang.Text

/-- What an action ends with in a session, and the session that it leaves. -/
def exec {α : Type} (x : ToolM (StateM Session) α) (s : Session) : Except Failure α × Session :=
  Id.run (StateT.run (ExceptT.run x) s)

/-! ## One action after the other -/

section

variable {α β : Type} {x : ToolM (StateM Session) α} {f : α → ToolM (StateM Session) β}
  {s mid s' : Session}

theorem exec_bind_of_ok {a : α} (h : exec x s = (.ok a, mid)) :
    exec (x >>= f) s = exec (f a) mid := by
  show Id.run (ExceptT.bindCont f (exec x s).1 (exec x s).2) = exec (f a) mid
  rw [h]
  rfl

theorem exec_bind_of_error {e : Failure} (h : exec x s = (.error e, mid)) :
    exec (x >>= f) s = (.error e, mid) := by
  show Id.run (ExceptT.bindCont f (exec x s).1 (exec x s).2) = (.error e, mid)
  rw [h]
  rfl

/-- A sequence of two actions succeeds exactly when both do. -/
theorem exec_bind_eq_ok {b : β} :
    exec (x >>= f) s = (.ok b, s')
      ↔ ∃ a mid, exec x s = (.ok a, mid) ∧ exec (f a) mid = (.ok b, s') := by
  rcases hx : exec x s with ⟨e | a, mid⟩
  · rw [exec_bind_of_error hx]
    constructor
    · intro h
      cases h
    · rintro ⟨_, _, heq, _⟩
      cases heq
  · rw [exec_bind_of_ok hx]
    constructor
    · intro h
      exact ⟨a, mid, rfl, h⟩
    · rintro ⟨_, _, heq, h⟩
      cases heq
      exact h

theorem exec_pure (a : α) : exec (pure a) s = (.ok a, s) := rfl

theorem exec_pure_eq_ok {a b : α} : exec (pure a) s = (.ok b, s') ↔ b = a ∧ s' = s := by
  constructor
  · intro h
    cases h
    exact ⟨rfl, rfl⟩
  · rintro ⟨rfl, rfl⟩
    rfl

end

/-! ## Texts in files -/

/-- A text whose lines end in line feeds only is read back from its bytes. -/
theorem decodeText_encode {text : String} (h : '\r' ∉ text.toList) :
    decodeText (Utf8.encode text) = .ok text := by
  unfold decodeText
  rw [Utf8.decode_encode]
  show Except.ok (String.ofList (unixNewlines text.toList)) = .ok text
  rw [unixNewlines_eq_self h, String.ofList_toList]

theorem decodeText_eq_ok {bytes : List UInt8} {text : String} :
    decodeText bytes = .ok text
      ↔ ∃ cs, Utf8.decode bytes = .ok cs ∧ text = String.ofList (unixNewlines cs) := by
  unfold decodeText
  rw [except_bind_eq_ok]
  constructor
  · rintro ⟨cs, hcs, h⟩
    cases h
    exact ⟨cs, hcs, rfl⟩
  · rintro ⟨cs, hcs, rfl⟩
    exact ⟨cs, hcs, rfl⟩

/-- The lines of a text that was read end in line feeds only. -/
theorem not_mem_of_decodeText {bytes : List UInt8} {text : String}
    (h : decodeText bytes = .ok text) : '\r' ∉ text.toList := by
  obtain ⟨cs, _, rfl⟩ := decodeText_eq_ok.1 h
  rw [String.toList_ofList]
  exact not_mem_unixNewlines cs

/-- A copy of a text file that is an input file holds the same integers. -/
theorem readInputs_of_copy {bytes : List UInt8} {text : String} (h : decodeText bytes = .ok text) :
    InputFile.read (Utf8.encode text) = InputFile.read bytes := by
  obtain ⟨cs, hcs, rfl⟩ := decodeText_eq_ok.1 h
  exact InputFile.read_encode hcs

/-! ## The actions -/

/-- A path that a file can have on some host. -/
def NullFree (path : String) : Prop :=
  '\x00' ∉ path.toList

instance (path : String) : Decidable (NullFree path) :=
  inferInstanceAs (Decidable ('\x00' ∉ path.toList))

variable {s s' : Session} {path text : String}

theorem exec_print : exec (print text) s = (.ok (), { s with out := s.out ++ text }) := rfl

theorem exec_printError :
    exec (printError text) s = (.ok (), { s with err := s.err ++ text }) := rfl

theorem exec_fileExists :
    exec (ExceptT.lift (Host.fileExists path)) s = (.ok (s.files.contains s.here path), s) := rfl

theorem exec_checkPath_of_nullFree (h : NullFree path) : exec (checkPath path) s = (.ok (), s) := by
  unfold checkPath
  rw [if_neg (by rw [String.contains_char_eq, decide_eq_true_eq]; exact h)]
  rfl

theorem exec_checkPath_eq_ok :
    exec (checkPath path) s = (.ok (), s') ↔ NullFree path ∧ s' = s := by
  by_cases h : NullFree path
  · rw [exec_checkPath_of_nullFree h]
    constructor
    · intro heq
      cases heq
      exact ⟨h, rfl⟩
    · rintro ⟨_, rfl⟩
      rfl
  · unfold checkPath
    rw [if_pos (by rw [String.contains_char_eq, decide_eq_true_eq]; exact Classical.not_not.1 h)]
    constructor
    · intro heq
      cases heq
    · exact fun heq => absurd heq.1 h

theorem exec_lift {α : Type} {result : StateM Session α} {a : α} (h : result s = (a, s')) :
    exec (ExceptT.lift result) s = (.ok a, s') := by
  show (Except.ok (result s).1, (result s).2) = (.ok a, s')
  rw [h]

theorem exec_orFail_eq_ok {α : Type} {result : StateM Session (Except FileError α)} {a : α} :
    exec (orFail path result) s = (.ok a, s') ↔ NullFree path ∧ result s = (.ok a, s') := by
  unfold orFail
  constructor
  · intro h
    obtain ⟨_, mid, hcheck, hrest⟩ := exec_bind_eq_ok.1 h
    obtain ⟨hpath, rfl⟩ := exec_checkPath_eq_ok.1 hcheck
    refine ⟨hpath, ?_⟩
    rcases hresult : result mid with ⟨e | b, last⟩
    · rw [exec_bind_of_ok (exec_lift hresult)] at hrest
      cases hrest
    · rw [exec_bind_of_ok (exec_lift hresult)] at hrest
      cases hrest
      rfl
  · rintro ⟨hpath, h⟩
    rw [exec_bind_of_ok (exec_checkPath_of_nullFree hpath), exec_bind_of_ok (exec_lift h)]
    rfl

/-- Reading a file leaves the session as it is. -/
theorem exec_readFile_eq_ok {bytes : List UInt8} :
    exec (orFail path (Host.readFile path)) s = (.ok bytes, s')
      ↔ NullFree path ∧ s.files.readFile s.here path = .ok bytes ∧ s' = s := by
  have hresult : (Host.readFile path : StateM Session _) s = (s.files.readFile s.here path, s) :=
    rfl
  rw [exec_orFail_eq_ok, hresult, Prod.mk.injEq, eq_comm (a := s)]

theorem exec_readText_eq_ok :
    exec (readText path) s = (.ok text, s')
      ↔ NullFree path
        ∧ (∃ bytes, s.files.readFile s.here path = .ok bytes ∧ decodeText bytes = .ok text)
        ∧ s' = s := by
  unfold readText
  rw [exec_bind_eq_ok]
  constructor
  · rintro ⟨bytes, mid, hread, h⟩
    obtain ⟨hpath, hread, rfl⟩ := exec_readFile_eq_ok.1 hread
    split at h
    · next found hdecode =>
      cases h
      exact ⟨hpath, ⟨bytes, hread, hdecode⟩, rfl⟩
    · cases h
  · rintro ⟨hpath, ⟨bytes, hread, hdecode⟩, rfl⟩
    refine ⟨bytes, _, exec_readFile_eq_ok.2 ⟨hpath, hread, rfl⟩, ?_⟩
    rw [hdecode]
    rfl

theorem exec_readInputs_eq_ok {values : List Int} :
    exec (readInputs path) s = (.ok values, s')
      ↔ NullFree path
        ∧ (∃ bytes, s.files.readFile s.here path = .ok bytes ∧ InputFile.read bytes = .ok values)
        ∧ s' = s := by
  unfold readInputs
  rw [exec_bind_eq_ok]
  constructor
  · rintro ⟨bytes, mid, hread, h⟩
    obtain ⟨hpath, hread, rfl⟩ := exec_readFile_eq_ok.1 hread
    split at h
    · next found hvalues =>
      cases h
      exact ⟨hpath, ⟨bytes, hread, hvalues⟩, rfl⟩
    · cases h
    · cases h
  · rintro ⟨hpath, ⟨bytes, hread, hvalues⟩, rfl⟩
    refine ⟨bytes, _, exec_readFile_eq_ok.2 ⟨hpath, hread, rfl⟩, ?_⟩
    rw [hvalues]
    rfl

theorem change_of_ok {action : Session → Except FileError Tree} {files : Tree}
    (h : action s = .ok files) : Session.change action s = (.ok (), { s with files }) := by
  simp only [Session.change, StateT.bind, bind, get, getThe, MonadStateOf.get, StateT.get, pure, h]
  rfl

theorem change_of_error {action : Session → Except FileError Tree} {e : FileError}
    (h : action s = .error e) : Session.change action s = (.error e, s) := by
  simp only [Session.change, StateT.bind, bind, get, getThe, MonadStateOf.get, StateT.get, pure, h]
  rfl

theorem change_eq_ok {action : Session → Except FileError Tree} :
    Session.change action s = (.ok (), s')
      ↔ ∃ files, action s = .ok files ∧ s' = { s with files } := by
  cases haction : action s with
  | error e =>
    rw [change_of_error haction]
    constructor
    · intro h
      cases h
    · rintro ⟨_, heq, _⟩
      cases heq
  | ok files =>
    rw [change_of_ok haction]
    constructor
    · intro h
      cases h
      exact ⟨files, rfl, rfl⟩
    · rintro ⟨_, heq, rfl⟩
      cases heq
      rfl

theorem exec_writeText_eq_ok :
    exec (writeText path text) s = (.ok (), s')
      ↔ NullFree path ∧ ∃ files, s.files.writeFile s.here path (Utf8.encode text) = .ok files
        ∧ s' = { s with files } :=
  exec_orFail_eq_ok.trans (and_congr_right fun _ => change_eq_ok)

/-- Writing a text sets what is at the place of its path, and changes nothing but files. -/
theorem sets_of_writeText (hhere : s.files.node? s.here = some .dir)
    (h : exec (writeText path text) s = (.ok (), s')) :
    NullFree path ∧ ∃ place files, s.files.locate s.here path = .ok place
      ∧ s.files.node? place ≠ some .dir ∧ s.files.Sets place (.file (Utf8.encode text)) files
      ∧ s' = { s with files } := by
  obtain ⟨hpath, files, hwrite, rfl⟩ := exec_writeText_eq_ok.1 h
  obtain ⟨place, hplace, hnode, hsets⟩ := Tree.sets_of_writeFile hhere hwrite
  exact ⟨hpath, place, files, hplace, hnode, hsets, rfl⟩

/-- A tool whose arguments are a command goes on with its settings. -/
theorem withSettings_of_ok {κ : Type} {manual : Manual} {line : CommandLine κ} {args : List String}
    {action : List (Setting κ) → ToolM (StateM Session) Nat} {settings : List (Setting κ)}
    (h : line.parse args = .ok settings) :
    withSettings manual line args action = action settings := by
  unfold withSettings
  rw [h]

end MicroLang.Tool
