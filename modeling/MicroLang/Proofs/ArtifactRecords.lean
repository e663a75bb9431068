import Mathlib.Algebra.Group.Int.Defs
import MicroLang.Proofs.SessionFrames
import MicroLang.Tool.Artifacts

/-!
# Records of samples

The record of a sample is a directory with its source text, the listing of it, what that printed, a
description, and the inputs if the sample comes with any. `generate` is a sequence of stages, each
of which writes at most one of these files (`generate_eq`, `Stages`). The stages touch the files of
the record and the way to its directory, and nothing else; in particular, an input file in the
directory of a sample without inputs stays there.

What the stages leave behind (`Recorded`) is what a later reader needs to know: the recorded listing
is the one of the recorded source text, the recorded output is what it printed on some inputs, and
these are the recorded ones if the sample comes with inputs. The last point needs care, since the
input file is read twice, once to be copied and once to be used, and files are written in between.

> `recorded_of_generateAll`: after the records of samples have been made, all of them are there.
> `exists_generate`: a record is made if nothing is in the way.
-/

namespace MicroLang.Tool.Artifacts

open MicroLang.Files
open MicroLang.Machine
open MicroLang.Text

/-! ## Paths -/

section

variable {place : List String} {name : String}

theorem entry_absolute (hne : place ≠ []) (hplain : PlainPlace place) (name : String) :
    entry (absolute place) name = absolute (place ++ [name]) := by
  obtain ⟨parent, last, rfl⟩ := (List.eq_nil_or_concat' place).resolve_left hne
  unfold entry
  rw [if_neg (Tree.absolute_ne_slash (hplain last (by simp))), Tree.absolute_concat hne]

/-- An entry of any directory ends in the last name of its path. -/
theorem exists_toList_entry (root : String) {path name : String} {front : List Char}
    (hpath : path.toList = front ++ '/' :: name.toList) :
    ∃ front', (entry root path).toList = front' ++ '/' :: name.toList := by
  unfold entry
  split
  · exact ⟨root.toList ++ front, by rw [String.toList_append, hpath, List.append_assoc]⟩
  · exact ⟨(root ++ "/").toList ++ front, by rw [String.toList_append, hpath, List.append_assoc]⟩

/-- If one entry of a directory has a path, so has each with a name that is not longer. -/
theorem addressable_of_shorter (hne : place ≠ []) {other : String}
    (h : Addressable (place ++ [name])) (hplain : PlainName other) (hnull : NullFree other)
    (hsize : other.utf8ByteSize ≤ name.utf8ByteSize) : Addressable (place ++ [other]) where
  plain := by
    intro entry hentry
    rcases List.mem_append.mp hentry with hentry | hentry
    · exact h.plain_parent entry hentry
    · rw [List.mem_singleton.mp hentry]
      exact hplain
  nullFree := by
    have hname := h.nullFree
    unfold NullFree at hname hnull ⊢
    rw [Tree.absolute_concat hne, String.toList_append, List.mem_append, not_or] at hname ⊢
    exact ⟨hname.1, hnull⟩
  fault := by
    have hfault := h.fault
    have hsome : ∀ last, (absolute (place ++ [last])).isEmpty = false := by
      intro last
      rw [String.isEmpty_eq_false_iff]
      intro hempty
      have hlist := congrArg String.toList hempty
      rw [Tree.toList_absolute] at hlist
      cases hlist
    unfold Tree.pathFault? at hfault ⊢
    rw [hsome, if_neg Bool.false_ne_true, Tree.absolute_concat hne, String.utf8ByteSize_append]
      at hfault ⊢
    split at hfault
    · cases hfault
    · rw [if_neg (by omega)]

end

/-! ## Samples -/

/-- The files that are written for a sample. -/
def recordNames (sample : Sample) : List String :=
  ["program.mc", "program.s", "out.txt", "meta.json"]
    ++ if sample.input.isSome then ["input.txt"] else []

/-- The places that are touched when the files of a sample are made. -/
def TouchedBy (place : List String) (sample : Sample) (other : List String) : Prop :=
  other <+: place ∨ ∃ name ∈ recordNames sample, other = place ++ [name]

/-- Among the entries of the directories for samples, those of the sample's own record are
touched. -/
theorem touchedBy_entry {outDir : List String} {sample : Sample} {directory name : String} :
    TouchedBy (outDir ++ [sample.name]) sample (outDir ++ [directory] ++ [name])
      ↔ directory = sample.name ∧ name ∈ recordNames sample := by
  constructor
  · rintro (hway | ⟨other, hother, heq⟩)
    · have hlength := hway.length_le
      simp only [List.length_append, List.length_cons, List.length_nil] at hlength
      omega
    · rw [List.append_assoc, List.append_assoc, List.append_cancel_left_eq] at heq
      cases heq
      exact ⟨rfl, hother⟩
  · rintro ⟨rfl, hname⟩
    exact .inr ⟨name, hname, rfl⟩

/-- Samples have different directories. -/
theorem pairwise_selected (only : List String) :
    (selected only).Pairwise fun a b => a.name ≠ b.name := by
  have hall : samples.Pairwise fun a b => a.name ≠ b.name := by
    unfold samples
    decide
  unfold selected
  split
  · exact hall
  · exact hall.filter _

theorem mem_samples_of_mem_selected {only : List String} {sample : Sample}
    (h : sample ∈ selected only) : sample ∈ samples := by
  unfold selected at h
  split at h
  · exact h
  · exact (List.mem_filter.mp h).1

theorem eq_of_name_eq {sample other : Sample} (h : sample ∈ samples) (h' : other ∈ samples)
    (heq : sample.name = other.name) : sample = other := by
  simp only [samples, List.mem_cons, List.not_mem_nil, or_false] at h h'
  rcases h with rfl | rfl | rfl <;> rcases h' with rfl | rfl | rfl <;> simp_all

theorem plain_name {sample : Sample} (h : sample ∈ samples) : PlainName sample.name := by
  simp only [samples, List.mem_cons, List.not_mem_nil, or_false] at h
  rcases h with rfl | rfl | rfl <;> decide

theorem ticks_le {sample : Sample} (h : sample ∈ samples) : (sample.ticks : Int) ≤ 2 ^ 28 := by
  simp only [samples, List.mem_cons, List.not_mem_nil, or_false] at h
  rcases h with rfl | rfl | rfl <;> decide

/-- No input file of a sample has the name of a file that is written. -/
theorem input_name {sample : Sample} (h : sample ∈ samples) {path : String}
    (hinput : sample.input = some path) :
    ∃ front name, path.toList = front ++ '/' :: name.toList ∧ PlainName name
      ∧ name ∉ recordNames sample := by
  simp only [samples, List.mem_cons, List.not_mem_nil, or_false] at h
  rcases h with rfl | rfl | rfl
  · cases hinput
    exact ⟨"examples".toList, "a_plus_b.input", by decide, by decide, by decide⟩
  · cases hinput
    exact ⟨"examples".toList, "chain.input", by decide, by decide, by decide⟩
  · cases hinput

/-! ## Stages -/

/-- Copies the input file of a sample, if it has one that exists. -/
def copyInput (place : List String) : Option String → ToolM (StateM Session) Unit
  | none => return ()
  | some path => do
    if ← ExceptT.lift (Host.fileExists path) then
      writeText (entry (absolute place) "input.txt") (← readText path)

/-- The inputs of a sample. -/
def givenInputs : Option String → ToolM (StateM Session) (List Int)
  | none => return []
  | some path => readInputs path

theorem generate_eq (root : String) (place : List String) (sample : Sample) :
    (generate root place sample : ToolM (StateM Session) Unit) = (do
      makeDirectories place.reverse
      let source ← readText (entry root sample.source)
      writeText (entry (absolute place) "program.mc") source
      copyInput place (sample.input.map (entry root))
      let listing ← listingOf source
      writeText (entry (absolute place) "program.s") listing
      let inputs ← givenInputs (sample.input.map (entry root))
      let output ← outputOf listing inputs sample.ticks
      writeText (entry (absolute place) "out.txt") output
      writeText (entry (absolute place) "meta.json") sample.description) := by
  unfold generate
  refine bind_congr fun _ => bind_congr fun source => bind_congr fun _ => ?_
  cases sample.input with
  | none => simp only [Option.map_none, copyInput, givenInputs, pure_bind]
  | some path =>
    simp only [Option.map_some, copyInput, givenInputs, bind_assoc]
    refine bind_congr fun found => ?_
    cases found with
    | true => simp only [if_true, bind_assoc]
    | false => simp only [Bool.false_eq_true, if_false, pure_bind]

/-- What is printed about a source text while it is compiled. -/
def warningsOf (source : String) : String :=
  unlines (((compile source).2.toList.filter fun event => event.level = .warning).map Event.message)

section

variable {s s' : Session} {source listing output : String} {inputs : List Int} {ticks : Nat}

theorem exec_listingOf_eq_ok :
    exec (listingOf source) s = (.ok listing, s')
      ↔ (compile source).1 = .ok listing ∧ s' = { s with err := s.err ++ warningsOf source } := by
  unfold listingOf warningsOf
  rcases compile source with ⟨result, events⟩
  dsimp only
  rw [exec_bind_of_ok exec_printError]
  cases result with
  | ok found =>
    constructor
    · intro h
      cases h
      exact ⟨rfl, rfl⟩
    · rintro ⟨h, rfl⟩
      cases h
      rfl
  | error e =>
    constructor
    · intro h
      cases h
    · rintro ⟨h, _⟩
      cases h

theorem exec_outputOf_eq_ok :
    exec (outputOf listing inputs ticks) s = (.ok output, s')
      ↔ (runListing listing inputs ticks).1 = .ok output ∧ s' = s := by
  unfold outputOf
  cases (runListing listing inputs ticks).1 with
  | ok found =>
    dsimp only
    rw [exec_pure_eq_ok, Except.ok.injEq, eq_comm]
  | error e =>
    constructor
    · intro h
      cases h
    · rintro ⟨h, _⟩
      cases h

end

/-! ## What a record holds -/

/-- The inputs that are recorded in a directory: none if there is no input file. There is no value
if the input file cannot be read. -/
def storedInputs (t : Tree) (place : List String) : Option (List Int) :=
  match t.node? (place ++ ["input.txt"]) with
  | none => some []
  | some (.file bytes) => (InputFile.read bytes).toOption
  | some .dir => none

/-- The files of a sample are recorded in a directory: a source text, its listing, and what that
printed on some inputs. These are the recorded ones if the sample comes with inputs. -/
structure Recorded (t : Tree) (place : List String) (sample : Sample) (listing : String)
    (inputs : List Int) (printed : String) : Prop where
  sourceFile : ∃ source, t.node? (place ++ ["program.mc"]) = some (.file (Utf8.encode source))
    ∧ '\r' ∉ source.toList ∧ (compile source).1 = .ok listing
  listingFile : t.node? (place ++ ["program.s"]) = some (.file (Utf8.encode listing))
  outputFile : t.node? (place ++ ["out.txt"]) = some (.file (Utf8.encode printed))
  prints : (runListing listing inputs sample.ticks).1 = .ok printed
  stored : sample.input ≠ none → storedInputs t place = some inputs
  unset : sample.input = none → inputs = []

section

variable {s mid s' : Session} {place : List String} {sample : Sample} {listing printed : String}
  {inputs : List Int}

theorem storedInputs_congr {t t' : Tree}
    (h : t'.node? (place ++ ["input.txt"]) = t.node? (place ++ ["input.txt"])) :
    storedInputs t' place = storedInputs t place := by
  unfold storedInputs
  rw [h]

/-- A record stays one as long as none of its files is touched. -/
theorem Recorded.of_kept {t t' : Tree} (h : Recorded t place sample listing inputs printed)
    (hkept : ∀ name, t'.node? (place ++ [name]) = t.node? (place ++ [name])) :
    Recorded t' place sample listing inputs printed where
  sourceFile := by
    rw [hkept]
    exact h.sourceFile
  listingFile := (hkept _).trans h.listingFile
  outputFile := (hkept _).trans h.outputFile
  prints := h.prints
  stored := fun hinput => (storedInputs_congr (hkept _)).trans (h.stored hinput)
  unset := h.unset

/-- A path that does not stand for the place of a file is read as before after this is written. -/
theorem readFile_of_writes {other : List String} {path text : String} (hw : Writes other text s s')
    (hpath : s.files.locate s.here path ≠ .ok other) {bytes : List UInt8} :
    s'.files.readFile s'.here path = .ok bytes ↔ s.files.readFile s.here path = .ok bytes := by
  rw [hw.touches.here]
  exact hw.sets.readFile_elsewhere hw.before hpath

/-- The inputs on which a listing is run are recorded if they are read from a file: the copy of it
was made before, and the listing is not written over it. -/
theorem stored_of_readInputs {path name : String} {front : List Char}
    (hpath : path.toList = front ++ '/' :: name.toList) (hname : PlainName name)
    (hother : name ≠ "input.txt" ∧ name ≠ "program.s") (hne : place ≠ [])
    (hplain : PlainPlace (place ++ ["input.txt"])) (hhere : s.files.node? s.here = some .dir)
    (hcopy : exec (copyInput place (some path)) s = (.ok (), mid)) {err : String}
    (hlisting : Writes (place ++ ["program.s"]) listing { mid with err } s')
    (hread : exec (readInputs path) s' = (.ok inputs, s')) :
    storedInputs s'.files place = some inputs := by
  -- the path leads to a file with another name than the two that are written
  have hlocate : ∀ (t : Tree) (here : List String) (last : String), name ≠ last →
      t.locate here path ≠ .ok (place ++ [last]) := by
    intro t here last hlast hplace
    obtain ⟨parent, hparent⟩ := Tree.exists_parent_of_locate hpath hname hplace
    exact hlast (List.append_inj_right' hparent rfl |> List.cons.inj).1.symm
  obtain ⟨_, ⟨bytes, hbytes, hinputs⟩, _⟩ := exec_readInputs_eq_ok.1 hread
  replace hbytes : mid.files.readFile mid.here path = .ok bytes :=
    (readFile_of_writes hlisting (hlocate _ _ _ hother.2)).1 hbytes
  have hkept : s'.files.node? (place ++ ["input.txt"]) = mid.files.node? (place ++ ["input.txt"]) :=
    hlisting.touches.kept _ (by simp)
  unfold copyInput at hcopy
  rw [exec_bind_of_ok exec_fileExists] at hcopy
  cases hfound : s.files.contains s.here path with
  | false =>
    -- a file that is read later on exists
    rw [hfound] at hcopy
    cases hcopy
    obtain ⟨found, hfile, hnode⟩ := Tree.readFile_eq_ok.1 hbytes
    have hcontains : s.files.contains s.here path = true :=
      Tree.contains_eq_true.2 ⟨found, hfile, by rw [hnode]; exact Option.some_ne_none _⟩
    rw [hfound] at hcontains
    cases hcontains
  | true =>
    rw [hfound, if_pos rfl] at hcopy
    obtain ⟨text, next, htext, hwrite⟩ := exec_bind_eq_ok.1 hcopy
    obtain ⟨_, ⟨bytes', hbytes', hdecode⟩, rfl⟩ := exec_readText_eq_ok.1 htext
    rw [entry_absolute hne fun other h => hplain other (List.mem_append_left _ h)] at hwrite
    obtain ⟨_, hwrites⟩ := writes_of_writeText hplain hhere hwrite
    rw [readFile_of_writes hwrites (hlocate _ _ _ hother.1), hbytes'] at hbytes
    obtain rfl := Except.ok.inj hbytes
    unfold storedInputs
    rw [hkept, hwrites.sets.at_place]
    dsimp only
    rw [readInputs_of_copy hdecode, hinputs]
    rfl

/-! ## Making records -/

theorem plainPlace_concat {name : String} (hplain : PlainPlace place) (hname : PlainName name) :
    PlainPlace (place ++ [name]) := by
  intro other hother
  rcases List.mem_append.mp hother with hother | hother
  · exact hplain other hother
  · rw [List.mem_singleton.mp hother]
    exact hname

theorem touches_copyInput (hne : place ≠ []) (hplain : PlainPlace place) {input : Option String}
    (hhere : s.files.node? s.here = some .dir)
    (h : exec (copyInput place input) s = (.ok (), s')) :
    Touches (fun other => input ≠ none ∧ other = place ++ ["input.txt"]) s s' := by
  cases input with
  | none =>
    cases h
    exact touches_of_files rfl rfl
  | some path =>
    unfold copyInput at h
    rw [exec_bind_of_ok exec_fileExists] at h
    split at h
    · obtain ⟨text, _, htext, hwrite⟩ := exec_bind_eq_ok.1 h
      obtain ⟨_, _, rfl⟩ := exec_readText_eq_ok.1 htext
      rw [entry_absolute hne hplain] at hwrite
      obtain ⟨_, hwrites⟩ := writes_of_writeText (plainPlace_concat hplain (by decide)) hhere hwrite
      exact hwrites.touches.mono fun other hother => ⟨Option.some_ne_none _, hother⟩
    · cases h
      exact touches_of_files rfl rfl

theorem exec_givenInputs {input : Option String}
    (h : exec (givenInputs input) s = (.ok inputs, s')) :
    s' = s ∧ (input = none → inputs = [])
      ∧ ∀ path, input = some path → exec (readInputs path) s = (.ok inputs, s) := by
  cases input with
  | none =>
    cases h
    exact ⟨rfl, fun _ => rfl, fun path hpath => nomatch hpath⟩
  | some path =>
    obtain ⟨hnull, hfile, rfl⟩ := exec_readInputs_eq_ok.1 h
    refine ⟨rfl, fun hnone => absurd hnone (Option.some_ne_none _), ?_⟩
    rintro path' ⟨⟩
    exact h

/-- The stages in which the files of a sample are made, from session to session. -/
structure Stages (root : String) (place : List String) (sample : Sample)
    (source listing printed : String) (inputs : List Int) (s s₁ s₂ s₃ s₄ s₅ s' : Session) :
    Prop where
  made : Touches (· <+: place) s s₁
  unix : '\r' ∉ source.toList
  address : Addressable (place ++ ["program.mc"])
  program : Writes (place ++ ["program.mc"]) source s₁ s₂
  started : s₂.files.node? s₂.here = some .dir
  copied : exec (copyInput place (sample.input.map (entry root))) s₂ = (.ok (), s₃)
  compiled : (compile source).1 = .ok listing
  assembly :
    Writes (place ++ ["program.s"]) listing { s₃ with err := s₃.err ++ warningsOf source } s₄
  given : exec (givenInputs (sample.input.map (entry root))) s₄ = (.ok inputs, s₄)
  prints : (runListing listing inputs sample.ticks).1 = .ok printed
  output : Writes (place ++ ["out.txt"]) printed s₄ s₅
  description : Writes (place ++ ["meta.json"]) sample.description s₅ s'

theorem exists_stages (hne : place ≠ []) (hplain : PlainPlace place)
    (hhere : s.files.node? s.here = some .dir) {root : String}
    (h : exec (generate root place sample) s = (.ok (), s')) :
    ∃ source listing printed inputs s₁ s₂ s₃ s₄ s₅,
      Stages root place sample source listing printed inputs s s₁ s₂ s₃ s₄ s₅ s' := by
  have hentry : ∀ name, PlainName name → PlainPlace (place ++ [name]) :=
    fun name => plainPlace_concat hplain
  rw [generate_eq] at h
  simp only [entry_absolute hne hplain] at h
  obtain ⟨_, s₁, hmake, hrest₁⟩ := exec_bind_eq_ok.1 h
  obtain ⟨source, _, hsource, hrest₂⟩ := exec_bind_eq_ok.1 hrest₁
  obtain ⟨_, s₂, hprogram, hrest₃⟩ := exec_bind_eq_ok.1 hrest₂
  obtain ⟨_, s₃, hcopy, hrest₄⟩ := exec_bind_eq_ok.1 hrest₃
  obtain ⟨listing, _, hcompile, hrest₅⟩ := exec_bind_eq_ok.1 hrest₄
  obtain ⟨_, s₄, hlisting, hrest₆⟩ := exec_bind_eq_ok.1 hrest₅
  obtain ⟨inputs, s₄', hgiven, hrest₇⟩ := exec_bind_eq_ok.1 hrest₆
  obtain ⟨printed, _, hprinted, hrest₈⟩ := exec_bind_eq_ok.1 hrest₇
  obtain ⟨_, s₅, houtput, hdescription⟩ := exec_bind_eq_ok.1 hrest₈
  clear h hrest₁ hrest₂ hrest₃ hrest₄ hrest₅ hrest₆ hrest₇ hrest₈
  obtain ⟨_, ⟨bytes, _, hdecode⟩, rfl⟩ := exec_readText_eq_ok.1 hsource
  obtain ⟨hcompiled, rfl⟩ := exec_listingOf_eq_ok.1 hcompile
  obtain ⟨rfl, _⟩ := exec_givenInputs hgiven
  obtain ⟨hprints, rfl⟩ := exec_outputOf_eq_ok.1 hprinted
  -- each file is written in a session whose working directory is still there
  have hmade := touches_makeDirectories (by rwa [List.reverse_reverse]) hhere hmake
  rw [List.reverse_reverse] at hmade
  have hhere₁ := hmade.inDirectory hhere
  obtain ⟨haddress, hprogram⟩ :=
    writes_of_writeText (hentry "program.mc" (by decide)) hhere₁ hprogram
  have hhere₂ := hprogram.touches.inDirectory hhere₁
  have hhere₃ := (touches_copyInput hne hplain hhere₂ hcopy).inDirectory hhere₂
  obtain ⟨_, hlisting⟩ :=
    writes_of_writeText (hentry "program.s" (by decide)) (by exact hhere₃) hlisting
  have hhere₄ := hlisting.touches.inDirectory hhere₃
  obtain ⟨_, houtput⟩ := writes_of_writeText (hentry "out.txt" (by decide)) hhere₄ houtput
  have hhere₅ := houtput.touches.inDirectory hhere₄
  obtain ⟨_, hdescription⟩ :=
    writes_of_writeText (hentry "meta.json" (by decide)) hhere₅ hdescription
  exact ⟨source, listing, printed, inputs, _, s₂, s₃, _, s₅, hmade, not_mem_of_decodeText hdecode,
    haddress, hprogram, hhere₂, hcopy, hcompiled, hlisting, hgiven, hprints, houtput, hdescription⟩

section

variable {root source : String} {s₁ s₂ s₃ s₄ s₅ : Session}

/-- The stages touch the way to the directory and the files of the record. -/
theorem Stages.touches (hne : place ≠ []) (hplain : PlainPlace place)
    (h : Stages root place sample source listing printed inputs s s₁ s₂ s₃ s₄ s₅ s') :
    Touches (TouchedBy place sample) s s' := by
  have hrecord : ∀ {a b : Session} {name text : String}, name ∈ recordNames sample →
      Writes (place ++ [name]) text a b → Touches (TouchedBy place sample) a b :=
    fun hname hw => hw.touches.mono fun other hother => .inr ⟨_, hname, hother⟩
  have hfixed : ∀ {name}, name ∈ ["program.mc", "program.s", "out.txt", "meta.json"] →
      name ∈ recordNames sample := fun hname => List.mem_append_left _ hname
  have hcopied : Touches (TouchedBy place sample) s₂ s₃ := by
    refine (touches_copyInput hne hplain h.started h.copied).mono ?_
    rintro other ⟨hinput, rfl⟩
    refine .inr ⟨"input.txt", ?_, rfl⟩
    cases hsome : sample.input with
    | none =>
      rw [hsome] at hinput
      exact absurd rfl hinput
    | some path => simp [recordNames, hsome]
  have hwarned : Touches (TouchedBy place sample) s₃
      { s₃ with err := s₃.err ++ warningsOf source } := touches_of_files rfl rfl
  have hmade := h.made.mono fun other (hother : other <+: place) =>
    (.inl hother : TouchedBy place sample other)
  exact hmade.trans <| (hrecord (hfixed (by decide)) h.program).trans <| hcopied.trans <|
    hwarned.trans <| (hrecord (hfixed (by decide)) h.assembly).trans <|
    (hrecord (hfixed (by decide)) h.output).trans (hrecord (hfixed (by decide)) h.description)

/-- The stages leave a record. -/
theorem Stages.recorded (hsample : sample ∈ samples) (hne : place ≠ []) (hplain : PlainPlace place)
    (h : Stages root place sample source listing printed inputs s s₁ s₂ s₃ s₄ s₅ s') :
    Recorded s'.files place sample listing inputs printed := by
  -- a file stays as it was written until the end, as all others have other names
  have hkept : ∀ name, name ≠ "out.txt" → name ≠ "meta.json" →
      s'.files.node? (place ++ [name]) = s₄.files.node? (place ++ [name]) := by
    intro name hout hmeta
    rw [h.description.touches.kept _ (by simpa using hmeta),
      h.output.touches.kept _ (by simpa using hout)]
  obtain ⟨_, hunset, hread⟩ := exec_givenInputs h.given
  refine ⟨⟨source, ?_, h.unix, h.compiled⟩, ?_, ?_, h.prints, ?_, ?_⟩
  · rw [hkept _ (by decide) (by decide), h.assembly.touches.kept _ (by simp)]
    have hcopied := touches_copyInput hne hplain h.started h.copied
    exact (hcopied.kept _ (by simp)).trans h.program.sets.at_place
  · rw [hkept _ (by decide) (by decide)]
    exact h.assembly.sets.at_place
  · rw [h.description.touches.kept _ (by simp)]
    exact h.output.sets.at_place
  · intro hinput
    obtain ⟨path, hpath⟩ := Option.ne_none_iff_exists'.1 hinput
    obtain ⟨front, name, hfront, hname, hother⟩ := input_name hsample hpath
    obtain ⟨front', hfront'⟩ := exists_toList_entry root hfront
    have hcopied := h.copied
    rw [hpath, Option.map_some] at hcopied hread
    rw [storedInputs_congr (hkept _ (by decide) (by decide))]
    refine stored_of_readInputs hfront' hname ⟨?_, ?_⟩ hne (plainPlace_concat hplain (by decide))
      h.started hcopied h.assembly (hread _ rfl)
    · rintro rfl
      exact hother (by simp [recordNames, hpath])
    · rintro rfl
      exact hother (by simp [recordNames])
  · intro hinput
    exact hunset (by rw [hinput]; rfl)

end

/-- The files of a sample can be written: its directory is there, no directory is in the place of
one of them, and their paths can be used. -/
structure Ready (place : List String) (sample : Sample) (s : Session) : Prop where
  here : s.files.node? s.here = some .dir
  dir : s.files.node? place = some .dir
  free : ∀ name ∈ recordNames sample, s.files.node? (place ++ [name]) ≠ some .dir
  address : ∀ name ∈ recordNames sample, Addressable (place ++ [name])

theorem Ready.exists_writes (h : Ready place sample s) (hne : place ≠ []) {name : String}
    (hname : name ∈ recordNames sample) (text : String) :
    ∃ s', exec (writeText (entry (absolute place) name) text) s = (.ok (), s')
      ∧ Writes (place ++ [name]) text s s' ∧ Ready place sample s' := by
  have haddress := h.address name hname
  have hshort : ∀ name ∈ ["program.mc", "program.s", "out.txt", "meta.json", "input.txt"],
      name.utf8ByteSize ≤ Tree.nameLimit := by decide
  have hsize : name.utf8ByteSize ≤ Tree.nameLimit := by
    refine hshort name ?_
    unfold recordNames at hname
    split at hname
    · exact hname
    · exact List.mem_append_left ["input.txt"] hname
  obtain ⟨s', hwrite⟩ := exists_writeText haddress hsize h.dir (h.free name hname) text
  obtain ⟨_, hwrites⟩ := writes_of_writeText haddress.plain h.here hwrite
  have hdirs := hwrites.sets.dir_iff hwrites.before
  refine ⟨s', by rw [entry_absolute hne haddress.plain_parent]; exact hwrite, hwrites, ?_⟩
  refine ⟨hwrites.touches.inDirectory h.here, (hdirs place).2 h.dir, ?_, h.address⟩
  exact fun other hother hdir => h.free other hother ((hdirs _).1 hdir)

/-- The files of a sample without inputs are made, if its source text has a listing that halts
within the ticks of the sample. -/
theorem exists_generate {root source : String} (hsample : sample ∈ samples)
    (hinput : sample.input = none) (hready : Ready place sample s) (hplace : Addressable place)
    (hne : place ≠ []) (hsource : exec (readText (entry root sample.source)) s = (.ok source, s))
    (hcompile : (compile source).1 = .ok listing)
    (hprints : (runListing listing [] sample.ticks).1 = .ok printed) :
    ∃ s', exec (generate root place sample) s = (.ok (), s')
      ∧ Recorded s'.files place sample listing [] printed := by
  have hmake : exec (makeDirectories place.reverse) s = (.ok (), s) := by
    have hdir := hready.dir
    obtain ⟨parent, last, rfl⟩ := (List.eq_nil_or_concat' place).resolve_left hne
    exact exec_makeDirectories_of_dir hplace.plain hplace.nullFree hplace.fault hdir
  obtain ⟨_, ⟨bytes, _, hdecode⟩, _⟩ := exec_readText_eq_ok.1 hsource
  have hnames : ∀ name ∈ ["program.mc", "program.s", "out.txt", "meta.json"],
      name ∈ recordNames sample := fun name hname => List.mem_append_left _ hname
  obtain ⟨s₁, hprogram, hwrites₁, hready₁⟩ :=
    hready.exists_writes hne (hnames "program.mc" (by decide)) source
  have hcopy : exec (copyInput place (sample.input.map (entry root))) s₁ = (.ok (), s₁) := by
    rw [hinput]
    rfl
  have hwarned : Ready place sample { s₁ with err := s₁.err ++ warningsOf source } :=
    ⟨hready₁.here, hready₁.dir, hready₁.free, hready₁.address⟩
  obtain ⟨s₂, hlisting, hwrites₂, hready₂⟩ :=
    hwarned.exists_writes hne (hnames "program.s" (by decide)) listing
  have hgiven : exec (givenInputs (sample.input.map (entry root))) s₂ = (.ok [], s₂) := by
    rw [hinput]
    rfl
  obtain ⟨s₃, houtput, hwrites₃, hready₃⟩ :=
    hready₂.exists_writes hne (hnames "out.txt" (by decide)) printed
  obtain ⟨s₄, hdescription, hwrites₄, _⟩ :=
    hready₃.exists_writes hne (hnames "meta.json" (by decide)) sample.description
  have hstages : Stages root place sample source listing printed [] s s s₁ s₁ s₂ s₃ s₄ :=
    ⟨touches_of_files rfl rfl, not_mem_of_decodeText hdecode,
      hready.address _ (hnames "program.mc" (by decide)), hwrites₁, hready₁.here, hcopy, hcompile,
      hwrites₂, hgiven, hprints, hwrites₃, hwrites₄⟩
  refine ⟨s₄, ?_, hstages.recorded hsample hne hplace.plain⟩
  rw [generate_eq, exec_bind_of_ok hmake, exec_bind_of_ok hsource, exec_bind_of_ok hprogram,
    exec_bind_of_ok hcopy, exec_bind_of_ok (exec_listingOf_eq_ok.2 ⟨hcompile, rfl⟩),
    exec_bind_of_ok hlisting, exec_bind_of_ok hgiven,
    exec_bind_of_ok (exec_outputOf_eq_ok.2 ⟨hprints, rfl⟩), exec_bind_of_ok houtput]
  exact hdescription

/-- The files of a sample are recorded below a directory, at paths that can be used. -/
def IsRecorded (t : Tree) (outDir : List String) (sample : Sample) : Prop :=
  Addressable (outDir ++ [sample.name] ++ ["program.mc"])
    ∧ ∃ listing inputs printed, Recorded t (outDir ++ [sample.name]) sample listing inputs printed

/-- Making the files of samples leaves records of all of them, and touches nothing else. -/
theorem recorded_of_generateAll {root : String} {outDir : List String} (hplain : PlainPlace outDir)
    {chosen : List Sample} (hchosen : ∀ sample ∈ chosen, sample ∈ samples)
    (hnames : chosen.Pairwise fun a b => a.name ≠ b.name)
    (hhere : s.files.node? s.here = some .dir)
    (h : exec (generateAll root outDir chosen) s = (.ok (), s')) :
    Touches (fun other => ∃ sample ∈ chosen, TouchedBy (outDir ++ [sample.name]) sample other) s s'
      ∧ ∀ sample ∈ chosen, IsRecorded s'.files outDir sample := by
  induction chosen generalizing s with
  | nil =>
    cases h
    exact ⟨touches_of_files rfl rfl, fun sample hsample => absurd hsample List.not_mem_nil⟩
  | cons first rest ih =>
    have hfirst : first ∈ samples := hchosen first List.mem_cons_self
    have hplace := plainPlace_concat hplain (plain_name hfirst)
    rw [List.pairwise_cons] at hnames
    unfold generateAll at h
    rw [exec_bind_of_ok exec_print] at h
    obtain ⟨_, mid, hgenerate, hrest⟩ := exec_bind_eq_ok.1 h
    obtain ⟨source, listing, printed, inputs, s₁, s₂, s₃, s₄, s₅, hstages⟩ :=
      exists_stages (by simp) hplace (by exact hhere) hgenerate
    have hmade := hstages.touches (by simp) hplace
    obtain ⟨htouches, hrecorded⟩ := ih (fun sample hsample => hchosen sample (.tail _ hsample))
      hnames.2 (hmade.inDirectory (by exact hhere)) hrest
    refine ⟨?_, ?_⟩
    · have hprinted : Touches (fun other => ∃ sample ∈ first :: rest,
          TouchedBy (outDir ++ [sample.name]) sample other) s
          { s with out := s.out ++ ("[golden] Generating " ++ first.name ++ " -> "
            ++ absolute (outDir ++ [first.name]) ++ "\n") } := touches_of_files rfl rfl
      refine hprinted.trans ((hmade.mono ?_).trans (htouches.mono ?_))
      · exact fun other hother => ⟨first, List.mem_cons_self, hother⟩
      · exact fun other ⟨sample, hsample, hother⟩ => ⟨sample, .tail _ hsample, hother⟩
    · intro sample hsample
      rcases List.mem_cons.mp hsample with rfl | hsample
      · -- the other samples have other directories
        refine ⟨hstages.address, listing, inputs, printed, ?_⟩
        refine (hstages.recorded hfirst (by simp) hplace).of_kept fun name => htouches.kept _ ?_
        rintro ⟨other, hother, htouched⟩
        exact hnames.1 other hother (touchedBy_entry.1 htouched).1
      · exact hrecorded sample hsample

end

end MicroLang.Tool.Artifacts
