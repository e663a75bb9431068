import MicroLang.Proofs.ArtifactRecords
import MicroLang.Proofs.CommandLines
import MicroLang.Proofs.ShortRuns

/-!
# Verifying records

Verifying a record compiles the recorded source text again, runs the listing on the recorded inputs,
and compares both with what is recorded. Right after the record was made the listing is the same.
The output is the same if the inputs are: recorded texts are read back as they were written, since
neither a listing nor what it prints within a few ticks holds a carriage return.

A sample that comes without inputs is run without any when its record is made. When it is verified,
inputs are taken from the input file in its directory, if one is there; and since making a record
does not remove this file, it may still be there from before.

> `verified_after_generated`: making records and then verifying them succeeds exactly if each sample
> without inputs prints the same on what is in that file.
-/

namespace MicroLang.Tool.Artifacts

open MicroLang.Files
open MicroLang.Machine
open MicroLang.Text

section

variable {s s' : Session} {place : List String} {sample : Sample} {listing printed : String}
  {inputs : List Int}

/-! ## Stages of verifying -/

/-- Reports a difference, if there is one. -/
def report (differs : Bool) (text : String) : ToolM (StateM Session) Unit :=
  if differs then print text else return ()

/-- The inputs in the input file of a record, or none without it. -/
def recordedInputs (place : List String) : ToolM (StateM Session) (List Int) := do
  let path := absolute (place ++ ["input.txt"])
  if ← ExceptT.lift (Host.fileExists path) then readInputs path else return []

theorem report_bind {α : Type} (differs : Prop) [Decidable differs] (text : String)
    (rest : ToolM (StateM Session) α) :
    (if differs then print text >>= fun _ => rest else rest)
      = report differs text >>= fun _ => rest := by
  unfold report
  by_cases h : differs
  · rw [if_pos h, if_pos (decide_eq_true h)]
  · rw [if_neg h, if_neg (by simpa using h), pure_bind]

theorem recordedInputs_bind {α : Type} (place : List String)
    (rest : List Int → ToolM (StateM Session) α) :
    (ExceptT.lift (Host.fileExists (absolute (place ++ ["input.txt"]))) >>= fun found =>
      if found = true then readInputs (absolute (place ++ ["input.txt"])) >>= rest
      else pure [] >>= rest) = recordedInputs place >>= rest := by
  unfold recordedInputs
  rw [bind_assoc]
  refine bind_congr fun found => ?_
  cases found with
  | true => rfl
  | false => rfl

/-- Verifying a record, stage by stage. -/
theorem verify_eq (hne : place ≠ []) (hplain : PlainPlace place) (sample : Sample) :
    (verify (absolute place) sample : ToolM (StateM Session) Bool) = (do
      let source ← readText (absolute (place ++ ["program.mc"]))
      let listing ← listingOf source
      let expected ← readText (absolute (place ++ ["program.s"]))
      report (listing ≠ expected) (unlines (("[mismatch][" ++ sample.name ++ "] "
        ++ "program.s differs") :: LineDiff.unified "golden/program.s" "fresh/program.s"
          (linesOf expected) (linesOf listing)))
      let inputs ← recordedInputs place
      let output ← outputOf listing inputs sample.ticks
      let recorded ← readText (absolute (place ++ ["out.txt"]))
      report (output ≠ recorded)
        ("[mismatch][" ++ sample.name ++ "] " ++ "out.txt differs: " ++ quoted output ++ "\n")
      return listing = expected && output = recorded) := by
  unfold verify
  simp only [entry_absolute hne hplain]
  refine bind_congr fun source => bind_congr fun listing => bind_congr fun expected => ?_
  simp only [report_bind, recordedInputs_bind]

theorem exec_report (differs : Bool) (text : String) :
    exec (report differs text) s
      = (.ok (), { s with out := s.out ++ if differs then text else "" }) := by
  unfold report
  cases differs with
  | true => rfl
  | false =>
    rw [if_neg Bool.false_ne_true, if_neg Bool.false_ne_true, String.append_empty]
    rfl

theorem exec_recordedInputs_eq_ok (hplace : Addressable (place ++ ["input.txt"])) :
    exec (recordedInputs place) s = (.ok inputs, s')
      ↔ storedInputs s.files place = some inputs ∧ s' = s := by
  have hfound : s.files.contains s.here (absolute (place ++ ["input.txt"])) = true
      ↔ s.files.node? (place ++ ["input.txt"]) ≠ none :=
    Tree.contains_absolute hplace.plain hplace.fault
  unfold recordedInputs storedInputs
  dsimp only
  rw [exec_bind_of_ok exec_fileExists]
  cases hnode : s.files.node? (place ++ ["input.txt"]) with
  | none =>
    rw [if_neg (fun hcontains => hfound.1 hcontains hnode), exec_pure_eq_ok]
    simp only [Option.some.injEq, eq_comm]
  | some node =>
    rw [if_pos (hfound.2 (by rw [hnode]; exact Option.some_ne_none _)),
      exec_readInputs_absolute hplace, hnode]
    refine and_congr_left fun _ => ?_
    cases node with
    | dir => simp
    | file bytes =>
      cases hread : InputFile.read bytes with
      | ok values => simp [hread, Except.toOption]
      | error e => simp [hread, Except.toOption]

section

variable {stored : List Int} {output : String}

/-- The paths of a record can be used if that of the source text can. -/
theorem addressable_record (hne : place ≠ []) (h : Addressable (place ++ ["program.mc"])) :
    ∀ name ∈ ["program.s", "input.txt", "out.txt"], Addressable (place ++ [name]) := by
  intro name hname
  simp only [List.mem_cons, List.not_mem_nil, or_false] at hname
  rcases hname with rfl | rfl | rfl
  · exact addressable_of_shorter hne h (by decide) (by decide) (by decide)
  · exact addressable_of_shorter hne h (by decide) (by decide) (by decide)
  · exact addressable_of_shorter hne h (by decide) (by decide) (by decide)

/-- What verifying says about an output, if that is not the recorded one. -/
def mismatch (sample : Sample) (output : String) : String :=
  "[mismatch][" ++ sample.name ++ "] " ++ "out.txt differs: " ++ quoted output ++ "\n"

/-- The recorded source text still has the recorded listing, so what that prints on the recorded
inputs decides. -/
theorem exec_verify (hsample : sample ∈ samples) (hne : place ≠ [])
    (haddress : Addressable (place ++ ["program.mc"]))
    (hrecord : Recorded s.files place sample listing inputs printed)
    (hstored : storedInputs s.files place = some stored)
    (houtput : (runListing listing stored sample.ticks).1 = .ok output) :
    ∃ err, exec (verify (absolute place) sample) s
      = (.ok (decide (output = printed)),
        { s with
          out := s.out ++ if output ≠ printed then mismatch sample output else "", err }) := by
  obtain ⟨source, hfile, hunix, hcompile⟩ := hrecord.sourceFile
  have hentries := addressable_record hne haddress
  have hunix' : '\r' ∉ printed.toList :=
    Simulation.return_not_mem_of_runListing hcompile (ticks_le hsample) hrecord.prints
  -- the files are the same in all sessions on the way
  have hlisting : ∀ out err, exec (readText (absolute (place ++ ["program.s"])))
      { s with out, err } = (.ok listing, { s with out, err }) := fun out err =>
    exec_readText_of_file (hentries _ (by decide)) hrecord.listingFile
      (return_not_mem_of_compile hcompile)
  have hinputs : ∀ out err, exec (recordedInputs place)
      { s with out, err } = (.ok stored, { s with out, err }) := fun out err =>
    (exec_recordedInputs_eq_ok (hentries _ (by decide))).2 ⟨hstored, rfl⟩
  have hprinted : ∀ out err, exec (readText (absolute (place ++ ["out.txt"])))
      { s with out, err } = (.ok printed, { s with out, err }) := fun out err =>
    exec_readText_of_file (hentries _ (by decide)) hrecord.outputFile hunix'
  refine ⟨s.err ++ warningsOf source, ?_⟩
  rw [verify_eq hne haddress.plain_parent,
    exec_bind_of_ok (exec_readText_of_file haddress hfile hunix),
    exec_bind_of_ok (exec_listingOf_eq_ok.2 ⟨hcompile, rfl⟩), exec_bind_of_ok (hlisting _ _),
    exec_bind_of_ok (exec_report _ _), exec_bind_of_ok (hinputs _ _),
    exec_bind_of_ok (exec_outputOf_eq_ok.2 ⟨houtput, rfl⟩), exec_bind_of_ok (hprinted _ _),
    exec_bind_of_ok (exec_report _ _)]
  unfold mismatch
  simp [exec_pure]

/-- If a record can be verified at all, its inputs can be read and its listing runs on them. -/
theorem output_of_verify (hne : place ≠ []) (haddress : Addressable (place ++ ["program.mc"]))
    (hrecord : Recorded s.files place sample listing inputs printed) {same : Bool}
    (h : exec (verify (absolute place) sample) s = (.ok same, s')) :
    ∃ stored output, storedInputs s.files place = some stored
      ∧ (runListing listing stored sample.ticks).1 = .ok output := by
  have hentries := addressable_record hne haddress
  obtain ⟨source, hfile, hunix, hcompile⟩ := hrecord.sourceFile
  rw [verify_eq hne haddress.plain_parent] at h
  obtain ⟨source', s₁, hsource, hrest₁⟩ := exec_bind_eq_ok.1 h
  obtain ⟨listing', s₂, hcompile', hrest₂⟩ := exec_bind_eq_ok.1 hrest₁
  obtain ⟨expected, s₃, hexpected, hrest₃⟩ := exec_bind_eq_ok.1 hrest₂
  rw [exec_bind_of_ok (exec_report _ _)] at hrest₃
  obtain ⟨stored, s₄, hstored, hrest₄⟩ := exec_bind_eq_ok.1 hrest₃
  obtain ⟨output, s₅, houtput, _⟩ := exec_bind_eq_ok.1 hrest₄
  clear h hrest₁ hrest₂ hrest₃ hrest₄
  obtain ⟨⟨bytes, hbytes, hdecode⟩, rfl⟩ := (exec_readText_absolute haddress).1 hsource
  obtain ⟨hlisting, rfl⟩ := exec_listingOf_eq_ok.1 hcompile'
  obtain ⟨_, rfl⟩ := (exec_readText_absolute (hentries _ (by decide))).1 hexpected
  obtain ⟨hinputs, rfl⟩ := (exec_recordedInputs_eq_ok (hentries _ (by decide))).1 hstored
  -- it is the recorded source text that is compiled
  cases hfile.symm.trans hbytes
  cases (decodeText_encode hunix).symm.trans hdecode
  cases hcompile.symm.trans hlisting
  exact ⟨stored, output, hinputs, (exec_outputOf_eq_ok.1 houtput).1⟩

end

/-- The recorded listing prints the recorded output on the recorded inputs. -/
def Reproduces (t : Tree) (place : List String) (sample : Sample) : Prop :=
  ∃ listing inputs printed,
    t.node? (place ++ ["program.s"]) = some (.file (Utf8.encode listing))
    ∧ t.node? (place ++ ["out.txt"]) = some (.file (Utf8.encode printed))
    ∧ storedInputs t place = some inputs
    ∧ (runListing listing inputs sample.ticks).1 = .ok printed

theorem Recorded.reproduces_iff {t : Tree}
    (h : Recorded t place sample listing inputs printed) :
    Reproduces t place sample ↔ ∃ stored, storedInputs t place = some stored
      ∧ (runListing listing stored sample.ticks).1 = .ok printed := by
  constructor
  · rintro ⟨listing', stored, printed', hlisting, houtput, hstored, hprints⟩
    rw [h.listingFile, Option.some.injEq, Node.file.injEq] at hlisting
    rw [h.outputFile, Option.some.injEq, Node.file.injEq] at houtput
    cases Utf8.encode_inj hlisting
    cases Utf8.encode_inj houtput
    exact ⟨stored, hstored, hprints⟩
  · rintro ⟨stored, hstored, hprints⟩
    exact ⟨listing, stored, printed, h.listingFile, h.outputFile, hstored, hprints⟩

/-- On the inputs that were in a directory before, the listing that is there now prints the same as
without inputs. -/
def Undisturbed (before now : Tree) (place : List String) (sample : Sample) : Prop :=
  ∃ listing stored, now.node? (place ++ ["program.s"]) = some (.file (Utf8.encode listing))
    ∧ storedInputs before place = some stored
    ∧ (runListing listing stored sample.ticks).1 = (runListing listing [] sample.ticks).1

/-- The record of a sample with inputs always reproduces. That of a sample without inputs does if
its listing prints the same on whatever inputs are in the directory. -/
theorem Recorded.reproduces_iff_undisturbed {t : Tree}
    (h : Recorded t place sample listing inputs printed) :
    Reproduces t place sample ↔ (sample.input = none → Undisturbed t t place sample) := by
  rw [h.reproduces_iff]
  have hprints := h.prints
  constructor
  · rintro ⟨stored, hstored, hprinted⟩ hinput
    rw [h.unset hinput] at hprints
    exact ⟨listing, stored, h.listingFile, hstored, hprinted.trans hprints.symm⟩
  · intro hsame
    by_cases hinput : sample.input = none
    · obtain ⟨listing', stored, hlisting, hstored, hequal⟩ := hsame hinput
      rw [h.listingFile, Option.some.injEq, Node.file.injEq] at hlisting
      cases Utf8.encode_inj hlisting
      rw [h.unset hinput] at hprints
      exact ⟨stored, hstored, hequal.trans hprints⟩
    · exact ⟨inputs, h.stored hinput, hprints⟩

section

variable {outDir : List String}

/-- Verifying a record touches no file, and succeeds exactly if the record reproduces. -/
theorem reproduces_of_verify {same : Bool} (hsample : sample ∈ samples)
    (hrecorded : IsRecorded s.files outDir sample)
    (h : exec (verify (absolute (outDir ++ [sample.name])) sample) s = (.ok same, s')) :
    s'.files = s.files
      ∧ (same = true → Reproduces s.files (outDir ++ [sample.name]) sample) := by
  obtain ⟨haddress, listing, inputs, printed, hrecord⟩ := hrecorded
  obtain ⟨stored, output, hstored, houtput⟩ := output_of_verify (by simp) haddress hrecord h
  obtain ⟨err, hverify⟩ := exec_verify hsample (by simp) haddress hrecord hstored houtput
  cases hverify.symm.trans h
  refine ⟨rfl, fun hsame => hrecord.reproduces_iff.2 ⟨stored, hstored, ?_⟩⟩
  rw [← of_decide_eq_true hsame]
  exact houtput

theorem exec_verify_of_reproduces (hsample : sample ∈ samples)
    (hrecorded : IsRecorded s.files outDir sample)
    (h : Reproduces s.files (outDir ++ [sample.name]) sample) :
    ∃ err, exec (verify (absolute (outDir ++ [sample.name])) sample) s
      = (.ok true, { s with err }) := by
  obtain ⟨haddress, listing, inputs, printed, hrecord⟩ := hrecorded
  obtain ⟨stored, hstored, hprints⟩ := hrecord.reproduces_iff.1 h
  obtain ⟨err, hverify⟩ := exec_verify hsample (by simp) haddress hrecord hstored hprints
  refine ⟨err, ?_⟩
  rw [hverify]
  simp

/-- All samples are as recorded only if each of their records reproduces. -/
theorem reproduces_of_verifyAll {chosen : List Sample}
    (hchosen : ∀ sample ∈ chosen, sample ∈ samples ∧ IsRecorded s.files outDir sample)
    (h : exec (verifyAll outDir chosen) s = (.ok true, s')) :
    ∀ sample ∈ chosen, Reproduces s.files (outDir ++ [sample.name]) sample := by
  induction chosen generalizing s with
  | nil => exact fun sample hsample => absurd hsample List.not_mem_nil
  | cons first rest ih =>
    obtain ⟨hfirst, hrecorded⟩ := hchosen first List.mem_cons_self
    unfold verifyAll at h
    rw [exec_bind_of_ok exec_print] at h
    obtain ⟨same, s₁, hverify, hrest⟩ := exec_bind_eq_ok.1 h
    obtain ⟨allSame, s₂, hverifyAll, hresult⟩ := exec_bind_eq_ok.1 hrest
    obtain ⟨hboth, rfl⟩ := exec_pure_eq_ok.1 hresult
    rw [eq_comm, Bool.and_eq_true] at hboth
    obtain ⟨rfl, rfl⟩ := hboth
    obtain ⟨hfiles, hreproduces⟩ := reproduces_of_verify hfirst (by exact hrecorded) hverify
    replace hfiles : s₁.files = s.files := hfiles
    intro sample hsample
    rcases List.mem_cons.mp hsample with rfl | hsample
    · exact hreproduces rfl
    · rw [← hfiles]
      refine ih (fun sample hsample => ?_) hverifyAll sample hsample
      rw [hfiles]
      exact hchosen sample (.tail _ hsample)

/-- If each record reproduces, verifying names each sample and finds no difference. -/
theorem exec_verifyAll {chosen : List Sample}
    (hchosen : ∀ sample ∈ chosen, sample ∈ samples ∧ IsRecorded s.files outDir sample)
    (h : ∀ sample ∈ chosen, Reproduces s.files (outDir ++ [sample.name]) sample) :
    ∃ err, exec (verifyAll outDir chosen) s = (.ok true, { s with
      out := s.out ++ unlines (chosen.map fun sample => "[verify] " ++ sample.name), err }) := by
  induction chosen generalizing s with
  | nil => exact ⟨s.err, by rw [List.map_nil]; simp [verifyAll, unlines, exec_pure]⟩
  | cons first rest ih =>
    obtain ⟨hfirst, hrecorded⟩ := hchosen first List.mem_cons_self
    obtain ⟨err, hverify⟩ := exec_verify_of_reproduces
      (s := { s with out := s.out ++ ("[verify] " ++ first.name ++ "\n") }) hfirst hrecorded
      (h first List.mem_cons_self)
    obtain ⟨err', hrest⟩ := ih
      (s := { s with out := s.out ++ ("[verify] " ++ first.name ++ "\n"), err })
      (fun sample hsample => hchosen sample (.tail _ hsample))
      (fun sample hsample => h sample (.tail _ hsample))
    refine ⟨err', ?_⟩
    unfold verifyAll
    rw [exec_bind_of_ok exec_print, exec_bind_of_ok hverify, exec_bind_of_ok hrest]
    simp only [exec_pure, Bool.and_self, List.map_cons, unlines_cons, String.append_assoc]

end

/-! ## Runs of the tool -/

/-- The samples that settings choose. -/
def chosen (settings : List (Setting Key)) : List Sample :=
  selected ((textsOf settings .only).filterMap id)

/-- Settings give all that is needed: a directory, and names of samples if any. -/
structure Complete (settings : List (Setting Key)) (outDir : String) : Prop where
  directory : (textsOf settings .outDir).getLast?.getD (some "golden") = some outDir
  nullFree : NullFree outDir
  only : ¬ (textsOf settings .only).contains none = true

/-- What the tool does, once it knows the directory. -/
def act (settings : List (Setting Key)) (root : String) (outDir : List String) :
    ToolM (StateM Session) Nat :=
  if hasFlag settings .verify then do
    if ← verifyAll outDir (chosen settings) then
      print "[verify] all tests OK\n"
      return 0
    else return 1
  else do
    generateAll root outDir (chosen settings)
    return 0

section

variable {args : List String} {settings : List (Setting Key)} {outDir : String}

/-- The option for verifying. -/
def verifyOption : OptionSpec Key :=
  ⟨.verify, .flag, ["--verify"]⟩

theorem parse_verify (hargs : commandLine.parse args = .ok settings) :
    commandLine.parse ("--verify" :: args) = .ok (.flag .verify :: settings) := by
  have hne : "--verify" ≠ "--" := by decide
  have hfind : commandLine.find? "--verify" = some verifyOption := rfl
  exact CommandLine.parse_flag_cons rfl hne hfind rfl hargs

theorem exec_run (hargs : commandLine.parse args = .ok settings) (h : Complete settings outDir) :
    exec (run args) s
      = exec (act settings (absolute s.here) (resolve (absolute s.here) outDir)) s := by
  have hroot : exec (ExceptT.lift Host.workingDirectory) s = (.ok (absolute s.here), s) := rfl
  unfold run
  rw [withSettings_of_ok hargs, exec_bind_of_ok hroot, h.directory]
  dsimp only
  rw [pure_bind, exec_bind_of_ok (exec_checkPath_of_nullFree h.nullFree), if_neg h.only]
  rfl

/-- A run that ends with a status has found all that it needs. -/
theorem complete_of_run (hargs : commandLine.parse args = .ok settings) {status : Nat}
    (h : exec (run args) s = (.ok status, s')) : ∃ outDir, Complete settings outDir := by
  have hroot : exec (ExceptT.lift Host.workingDirectory) s = (.ok (absolute s.here), s) := rfl
  unfold run at h
  rw [withSettings_of_ok hargs, exec_bind_of_ok hroot] at h
  cases hdirectory : (textsOf settings .outDir).getLast?.getD (some "golden") with
  | none =>
    rw [hdirectory] at h
    cases h
  | some outDir =>
    rw [hdirectory] at h
    dsimp only at h
    rw [pure_bind] at h
    obtain ⟨_, mid, hcheck, hrest⟩ := exec_bind_eq_ok.1 h
    refine ⟨outDir, hdirectory, (exec_checkPath_eq_ok.1 hcheck).1, fun hnone => ?_⟩
    rw [if_pos hnone] at hrest
    cases hrest

section

variable {root : String} {place : List String}

theorem reproduces_of_act (hflag : hasFlag settings .verify = true)
    (hchosen : ∀ sample ∈ chosen settings, sample ∈ samples ∧ IsRecorded s.files place sample)
    (h : exec (act settings root place) s = (.ok 0, s')) :
    ∀ sample ∈ chosen settings, Reproduces s.files (place ++ [sample.name]) sample := by
  unfold act at h
  rw [if_pos hflag] at h
  obtain ⟨same, mid, hverify, hrest⟩ := exec_bind_eq_ok.1 h
  cases same with
  | true => exact reproduces_of_verifyAll hchosen hverify
  | false => cases hrest

theorem exec_act_of_reproduces (hflag : hasFlag settings .verify = true)
    (hchosen : ∀ sample ∈ chosen settings, sample ∈ samples ∧ IsRecorded s.files place sample)
    (h : ∀ sample ∈ chosen settings, Reproduces s.files (place ++ [sample.name]) sample) :
    ∃ err, exec (act settings root place) s = (.ok 0, { s with
      out := s.out ++ unlines ((chosen settings).map (fun sample => "[verify] " ++ sample.name)
        ++ ["[verify] all tests OK"]), err }) := by
  obtain ⟨err, hverify⟩ := exec_verifyAll hchosen h
  refine ⟨err, ?_⟩
  unfold act
  rw [if_pos hflag, exec_bind_of_ok hverify, if_pos rfl, exec_bind_of_ok exec_print, unlines_append,
    ← String.append_assoc]
  rfl

end

/-- A run that makes records leaves a record of each chosen sample. The inputs in the directory of a
sample that comes without any stay as they were. -/
theorem recorded_of_run (hhere : s.files.node? s.here = some .dir)
    (hargs : commandLine.parse args = .ok settings) (hmode : hasFlag settings .verify = false)
    (hcomplete : Complete settings outDir) (hrun : exec (run args) s = (.ok 0, s')) :
    s'.here = s.here ∧ ∀ sample ∈ chosen settings, sample ∈ samples
      ∧ IsRecorded s'.files (resolve (absolute s.here) outDir) sample
      ∧ (sample.input = none →
        storedInputs s'.files (resolve (absolute s.here) outDir ++ [sample.name])
          = storedInputs s.files (resolve (absolute s.here) outDir ++ [sample.name])) := by
  rw [exec_run hargs hcomplete, act, if_neg (by rw [hmode]; exact Bool.false_ne_true)] at hrun
  obtain ⟨_, mid, hgenerate, hstatus⟩ := exec_bind_eq_ok.1 hrun
  cases hstatus
  have hchosen : ∀ sample ∈ chosen settings, sample ∈ samples :=
    fun sample hsample => mem_samples_of_mem_selected hsample
  obtain ⟨htouches, hrecorded⟩ := recorded_of_generateAll (plain_of_resolve _ _) hchosen
    (pairwise_selected _) hhere hgenerate
  refine ⟨htouches.here, fun sample hsample => ?_⟩
  refine ⟨hchosen sample hsample, hrecorded sample hsample, fun hinput => ?_⟩
  refine storedInputs_congr (htouches.kept _ ?_)
  rintro ⟨other, hother, htouched⟩
  obtain ⟨hname, hrecord⟩ := touchedBy_entry.1 htouched
  obtain rfl := eq_of_name_eq (hchosen _ hsample) (hchosen _ hother) hname
  rw [recordNames, hinput] at hrecord
  exact absurd hrecord (by decide)

/-- After the records of samples have been made, verifying them succeeds exactly if no sample is
disturbed by an input file that it does not come with: the listing of a sample without inputs has to
print the same on the inputs that were in its directory before. Then each sample is named, and no
difference is reported. -/
theorem verified_after_generated (hhere : s.files.node? s.here = some .dir)
    (hargs : commandLine.parse args = .ok settings) (hmode : hasFlag settings .verify = false)
    (hrun : exec (run args) s = (.ok 0, s')) :
    ∃ outDir, Complete settings outDir
      ∧ ((exec (run ("--verify" :: args)) s').1 = .ok 0
        ↔ ∀ sample ∈ chosen settings, sample.input = none →
          Undisturbed s.files s'.files (resolve (absolute s.here) outDir ++ [sample.name]) sample)
      ∧ ((exec (run ("--verify" :: args)) s').1 = .ok 0 → ∃ err,
        exec (run ("--verify" :: args)) s' = (.ok 0, { s' with
          out := s'.out ++ unlines ((chosen settings).map (fun sample => "[verify] " ++ sample.name)
            ++ ["[verify] all tests OK"]), err })) := by
  obtain ⟨outDir, hcomplete⟩ := complete_of_run hargs hrun
  obtain ⟨hhere', hrecorded⟩ := recorded_of_run hhere hargs hmode hcomplete hrun
  -- the settings are the same but for the flag
  have hflag : hasFlag (.flag .verify :: settings) Key.verify = true := rfl
  have hcomplete' : Complete (.flag .verify :: settings) outDir :=
    ⟨hcomplete.directory, hcomplete.nullFree, hcomplete.only⟩
  have hact : exec (run ("--verify" :: args)) s' = exec (act (.flag .verify :: settings)
      (absolute s.here) (resolve (absolute s.here) outDir)) s' := by
    rw [exec_run (parse_verify hargs) hcomplete', hhere']
  have hchosen : ∀ sample ∈ chosen (.flag .verify :: settings), sample ∈ samples
      ∧ IsRecorded s'.files (resolve (absolute s.here) outDir) sample :=
    fun sample hsample => ⟨(hrecorded sample hsample).1, (hrecorded sample hsample).2.1⟩
  have hsucceeds : (exec (run ("--verify" :: args)) s').1 = .ok 0 ↔ ∀ sample ∈ chosen settings,
      Reproduces s'.files (resolve (absolute s.here) outDir ++ [sample.name]) sample := by
    rw [hact]
    constructor
    · intro hstatus
      have hall := reproduces_of_act hflag hchosen (Prod.ext hstatus rfl)
      exact hall
    · intro hall
      obtain ⟨err, hverify⟩ := exec_act_of_reproduces hflag hchosen hall
      rw [hverify]
  refine ⟨outDir, hcomplete, ?_, ?_⟩
  · rw [hsucceeds]
    refine forall₂_congr fun sample hsample => ?_
    obtain ⟨_, ⟨_, listing, inputs, printed, hrecord⟩, hkept⟩ := hrecorded sample hsample
    rw [hrecord.reproduces_iff_undisturbed]
    -- making records has left the inputs of this sample alone
    refine imp_congr_right fun hinput => ?_
    unfold Undisturbed
    rw [hkept hinput]
  · intro hstatus
    rw [hact]
    exact exec_act_of_reproduces hflag hchosen (hsucceeds.1 hstatus)

end

end

/-! ## An input file that is left over -/

/-- The sample without inputs. -/
def bareSample : Sample :=
  ⟨"comments", "examples/comments.mc", none, 200⟩

/-- The option for choosing samples. -/
def onlyOption : OptionSpec Key :=
  ⟨.only, .text, ["--only"]⟩

/-- A session with a source text for this sample, and with an input file in its directory. -/
def leftover (source inputs : String) : Session where
  files := .dir [("examples", .dir [("comments.mc", .file (Utf8.encode source))]),
    ("golden", .dir [("comments", .dir [("input.txt", .file (Utf8.encode inputs))])])]
  here := []

theorem mem_samples_bareSample : bareSample ∈ samples :=
  .tail _ (.tail _ (.head _))

theorem parse_only :
    commandLine.parse ["--only", "comments"] = .ok [.text .only (some "comments")] := by
  have hclassify : commandLine.classifyAll ["--only", "comments"]
      = .ok [.option ⟨onlyOption, "--only", none⟩, .operand "comments"] := by
    rw [CommandLine.classifyAll_cons (by decide) (CommandLine.classify_option rfl rfl),
      CommandLine.classifyAll_cons (by decide) (CommandLine.classify_operand (by decide))]
    rfl
  refine CommandLine.parse_eq_ok.2 ⟨_, hclassify, ?_⟩
  rw [CommandLine.consume_value rfl, CommandLine.applyValue_text rfl (by decide)]
  rfl

theorem complete_only : Complete [.text .only (some "comments")] "golden" :=
  ⟨rfl, by decide, by decide⟩

theorem resolve_golden : resolve (absolute []) "golden" = ["golden"] := by
  unfold resolve
  rw [if_neg (by rw [String.startsWith_string_iff]; decide)]
  decide

theorem readText_leftover {source : String} (inputs out : String) (hunix : '\r' ∉ source.toList) :
    exec (readText (entry (absolute []) bareSample.source)) { leftover source inputs with out }
      = (.ok source, { leftover source inputs with out }) := by
  have hentry :
      entry (absolute []) bareSample.source = absolute (["examples"] ++ ["comments.mc"]) := by
    unfold entry
    rw [if_pos (by rw [Tree.endsWith_slash_iff]; decide)]
    decide
  rw [hentry]
  exact exec_readText_of_file (by decide) rfl hunix

theorem ready_leftover (source inputs out : String) :
    Ready ["golden", "comments"] bareSample { leftover source inputs with out } where
  here := rfl
  dir := rfl
  free := by
    intro name hname
    have hnames : name ∈ ["program.mc", "program.s", "out.txt", "meta.json"] := hname
    simp only [List.mem_cons, List.not_mem_nil, or_false] at hnames
    rcases hnames with rfl | rfl | rfl | rfl <;> exact fun h => nomatch h
  address := by decide

theorem exec_run_leftover (source inputs : String) :
    ∃ out, exec (run ["--only", "comments"]) (leftover source inputs)
      = exec (generate (absolute []) ["golden", "comments"] bareSample >>= fun _ => pure 0)
        { leftover source inputs with out } := by
  refine ⟨"" ++ ("[golden] Generating " ++ bareSample.name ++ " -> "
    ++ absolute (["golden"] ++ [bareSample.name]) ++ "\n"), ?_⟩
  rw [exec_run parse_only complete_only]
  show exec (generateAll (absolute []) (resolve (absolute []) "golden") [bareSample]
    >>= fun _ => pure 0) (leftover source inputs) = _
  rw [resolve_golden]
  unfold generateAll
  rw [bind_assoc, exec_bind_of_ok exec_print, bind_assoc]
  rfl

/-- The record of the sample is made, and keeps the input file. -/
theorem exists_recorded_leftover {source printed printed' : String} {inputs : String}
    {stored : List Int} (hunix : '\r' ∉ source.toList)
    (hstored : InputFile.read (Utf8.encode inputs) = .ok stored)
    (hprints : Simulation.printsWithin 200 source [] printed = true)
    (hprints' : Simulation.printsWithin 200 source stored printed' = true) :
    ∃ s' listing, exec (run ["--only", "comments"]) (leftover source inputs) = (.ok 0, s')
      ∧ s'.here = [] ∧ Recorded s'.files ["golden", "comments"] bareSample listing [] printed
      ∧ storedInputs s'.files ["golden", "comments"] = some stored
      ∧ (runListing listing stored bareSample.ticks).1 = .ok printed' := by
  obtain ⟨listing, hcompile, hprinted⟩ := Simulation.exists_printed hprints (Int.le_refl 200)
  obtain ⟨listing', hcompile', hprinted'⟩ := Simulation.exists_printed hprints' (Int.le_refl 200)
  cases hcompile.symm.trans hcompile'
  obtain ⟨out, hstart⟩ := exec_run_leftover source inputs
  obtain ⟨s', hgenerate, hrecord⟩ := exists_generate mem_samples_bareSample rfl
    (ready_leftover source inputs out) (by decide) (by decide) (readText_leftover inputs out hunix)
    hcompile hprinted
  have hrun : exec (run ["--only", "comments"]) (leftover source inputs) = (.ok 0, s') := by
    rw [hstart, exec_bind_of_ok hgenerate]
    rfl
  obtain ⟨hhere, hrecorded⟩ := recorded_of_run rfl parse_only rfl complete_only hrun
  obtain ⟨_, _, hkept⟩ := hrecorded bareSample (.head _)
  refine ⟨s', listing, hrun, hhere, hrecord, ?_, hprinted'⟩
  replace hkept := hkept rfl
  rw [show (leftover source inputs).here = [] from rfl, resolve_golden] at hkept
  refine hkept.trans ?_
  show (InputFile.read (Utf8.encode inputs)).toOption = some stored
  rw [hstored]
  rfl

/-- An input file is left over in the directory of a program that reads a number but always prints
the same. The record is verified. -/
theorem verified_after_generated_constant :
    ∃ s' err, (leftover "begin read(a); write(7) end" "5\n").files.node? [] = some .dir
      ∧ commandLine.parse ["--only", "comments"] = .ok [.text .only (some "comments")]
      ∧ exec (run ["--only", "comments"]) (leftover "begin read(a); write(7) end" "5\n")
        = (.ok 0, s')
      ∧ storedInputs s'.files ["golden", "comments"] = some [5]
      ∧ exec (run ["--verify", "--only", "comments"]) s' = (.ok 0, { s' with
        out := s'.out ++ "[verify] comments\n[verify] all tests OK\n", err }) := by
  have hfive : InputFile.read (Utf8.encode "5\n") = .ok [5] := rfl
  obtain ⟨s', listing, hrun, _, hrecord, hstored, hprints⟩ :=
    exists_recorded_leftover (by decide) hfive
      (show Simulation.printsWithin 200 "begin read(a); write(7) end" _ "7\n" = true by
        decide +kernel)
      (show Simulation.printsWithin 200 _ _ "7\n" = true by decide +kernel)
  obtain ⟨outDir, hcomplete, hsucceeds, hreport⟩ :=
    verified_after_generated rfl parse_only rfl hrun
  obtain rfl : "golden" = outDir := Option.some.inj hcomplete.directory
  have hstatus := hsucceeds.2 (by
    intro sample hsample _
    obtain rfl := List.mem_singleton.1 (show sample ∈ [bareSample] from hsample)
    rw [show (leftover "begin read(a); write(7) end" "5\n").here = [] from rfl, resolve_golden]
    exact ⟨listing, [5], hrecord.listingFile, rfl, hprints.trans hrecord.prints.symm⟩)
  obtain ⟨err, hverified⟩ := hreport hstatus
  exact ⟨s', err, rfl, parse_only, hrun, hstored, hverified⟩

/-- An input file is left over in the directory of a program that prints what it reads. Right after
the record has been made, verifying it reports a difference. -/
theorem leftover_input_reported :
    ∃ s' s'', exec (run ["--only", "comments"]) (leftover "begin read(a); write(a) end" "5\n")
        = (.ok 0, s')
      ∧ exec (run ["--verify", "--only", "comments"]) s' = (.ok 1, s'')
      ∧ s''.out
        = s'.out ++ "[verify] comments\n" ++ "[mismatch][comments] out.txt differs: '5\\n'\n" := by
  have hfive : InputFile.read (Utf8.encode "5\n") = .ok [5] := rfl
  obtain ⟨s', listing, hrun, hhere, hrecord, hstored, hprints⟩ :=
    exists_recorded_leftover (by decide) hfive
      (show Simulation.printsWithin 200 "begin read(a); write(a) end" _ "0\n" = true by
        decide +kernel)
      (show Simulation.printsWithin 200 _ _ "5\n" = true by decide +kernel)
  obtain ⟨err, hverify⟩ := exec_verify
    (s := { s' with out := s'.out ++ ("[verify] " ++ bareSample.name ++ "\n") })
    mem_samples_bareSample (by decide) (by decide) hrecord hstored hprints
  have hcomplete : Complete [.flag .verify, .text .only (some "comments")] "golden" :=
    ⟨complete_only.directory, complete_only.nullFree, complete_only.only⟩
  have hmismatch :
      mismatch bareSample "5\n" = "[mismatch][comments] out.txt differs: '5\\n'\n" := by
    decide +kernel
  rw [if_pos (by decide), hmismatch] at hverify
  have hact : exec (run ["--verify", "--only", "comments"]) s'
      = exec (act [.flag .verify, .text .only (some "comments")] (absolute []) ["golden"]) s' := by
    rw [exec_run (parse_verify parse_only) hcomplete, hhere, resolve_golden]
  have hreported : exec (run ["--verify", "--only", "comments"]) s' = (.ok 1, { s' with
      out := s'.out ++ "[verify] comments\n" ++ "[mismatch][comments] out.txt differs: '5\\n'\n",
      err }) := by
    rw [hact]
    show exec (verifyAll ["golden"] [bareSample] >>= fun same => if same = true then
      (do print "[verify] all tests OK\n"; return 0) else pure 1) s' = _
    unfold verifyAll
    rw [bind_assoc, exec_bind_of_ok exec_print, bind_assoc]
    refine (exec_bind_of_ok hverify).trans ?_
    rfl
  exact ⟨s', _, hrun, hreported, rfl⟩

end MicroLang.Tool.Artifacts
