import MicroLang.Proofs.CommandLines
import MicroLang.Proofs.ListingText
import MicroLang.Proofs.PlainPaths
import MicroLang.Proofs.ToolRuns
import MicroLang.Tool.Execute
import MicroLang.Tool.Translate

/-!
# From a source file to its output

The translator writes the listing of a source file to a file, and the executor runs a listing from a
file on inputs from another one. Between the two the listing is a file: it is encoded, written, read
and decoded. Since a listing is plain text (`graphic_of_compile`) it comes out as it went in, and so
the two tools, one after the other, do what `compile` and `runListing` do.
-/

namespace MicroLang.Tool

open MicroLang.Files
open MicroLang.Machine
open MicroLang.Text

/-- A path that can stand on a command line as it is. -/
structure PathArgument (path : String) : Prop where
  nonempty : path ≠ ""
  no_option : path.toList.head? ≠ some '-'
  nullFree : NullFree path

instance (path : String) : Decidable (PathArgument path) :=
  decidable_of_iff (path ≠ "" ∧ path.toList.head? ≠ some '-' ∧ NullFree path)
    ⟨fun ⟨h₁, h₂, h₃⟩ => ⟨h₁, h₂, h₃⟩, fun h => ⟨h.nonempty, h.no_option, h.nullFree⟩⟩

theorem PathArgument.ne_separator {path : String} (h : PathArgument path) : path ≠ "--" := by
  rintro rfl
  exact h.no_option rfl

/-- A tool ends with a status, and prints a text on the way. -/
structure Finishes (tool : ToolM (StateM Session) Nat) (s : Session) (status : Nat)
    (printed : String) (s' : Session) : Prop where
  result : exec tool s = (.ok status, s')
  out : s'.out = s.out ++ printed

section

variable {κ : Type} {manual : Manual} {line : CommandLine κ} {args : List String}
  {action : List (Setting κ) → ToolM (StateM Session) Nat}

/-- A tool that refuses its arguments does nothing else. -/
theorem finishes_of_invalid {message : String} (s : Session)
    (h : line.parse args = .error (.invalid message)) :
    ∃ s', Finishes (withSettings manual line args action) s 2 "" s' ∧ s'.files = s.files := by
  unfold withSettings
  rw [h]
  exact ⟨_, ⟨rfl, String.append_empty.symm⟩, rfl⟩

end

theorem exec_logEvents (s : Session) (verbose : Bool) (events : List Event) :
    ∃ err, exec (logEvents verbose events) s = (.ok (), { s with err }) :=
  ⟨_, rfl⟩

theorem exec_readBytes {s : Session} {path : String} (h : NullFree path) :
    exec (readBytes path) s = (.ok (s.files.readFile s.here path), s) := by
  unfold readBytes
  rw [exec_bind_of_ok (exec_checkPath_of_nullFree h)]
  rfl

/-! ## The translator -/

namespace Translate

variable {s : Session} {path output text : String}

/-- The option for the path of the listing. -/
def outputOption : OptionSpec Key :=
  ⟨.output, .text, ["-o", "--output"]⟩

theorem parse_to_output (hpath : PathArgument path) (houtput : PathArgument output) :
    commandLine.parse [path, "-o", output]
      = .ok [.operand path, .text .output (some output)] := by
  have hclassify : commandLine.classifyAll [path, "-o", output]
      = .ok [.operand path, .option ⟨outputOption, "-o", none⟩, .operand output] := by
    rw [CommandLine.classifyAll_cons hpath.ne_separator
        (CommandLine.classify_operand hpath.no_option),
      CommandLine.classifyAll_cons (by decide) (CommandLine.classify_option rfl rfl),
      CommandLine.classifyAll_cons houtput.ne_separator
        (CommandLine.classify_operand houtput.no_option)]
    rfl
  refine CommandLine.parse_eq_ok.2 ⟨_, hclassify, ?_⟩
  rw [CommandLine.consume_operand rfl (fun _ h => by cases h), CommandLine.consume_value rfl,
    CommandLine.applyValue_text rfl houtput.ne_separator]
  rfl

/-- The translator reads its source file and translates the text in it. -/
theorem exec_run (hpath : PathArgument path) (houtput : PathArgument output)
    {bytes : List UInt8} (hread : s.files.readFile s.here path = .ok bytes)
    (htext : decodeText bytes = .ok text) :
    exec (run [path, "-o", output]) s = exec (translate text (some output) false) s := by
  have htarget : textOf? [.operand path, .text Key.output (some output)] .output = some output := by
    show Option.filter _ (some output) = some output
    rw [Option.filter_some, if_pos (by simpa using houtput.nonempty)]
  unfold run
  rw [withSettings_of_ok (parse_to_output hpath houtput), htarget]
  show exec (readBytes path >>= _) s = _
  rw [exec_bind_of_ok (exec_readBytes hpath.nullFree), hread]
  simp only [htext]
  rfl

/-- A text with a listing is translated to a file. -/
theorem exec_translate {listing : String} (houtput : NullFree output) {files : Tree}
    (hcompile : (compile text).1 = .ok listing)
    (hwrite : s.files.writeFile s.here output (Utf8.encode listing) = .ok files) :
    ∃ err, exec (translate text (some output) false) s = (.ok 0, { s with files, err }) := by
  rcases hresult : compile text with ⟨result, events⟩
  rw [hresult] at hcompile
  obtain rfl : result = .ok listing := hcompile
  obtain ⟨err, hlog⟩ := exec_logEvents s false events.toList
  have hwritten : exec (writeText output listing) { s with err }
      = (.ok (), { s with files, err }) :=
    exec_writeText_eq_ok.2 ⟨houtput, files, hwrite, rfl⟩
  refine ⟨err, ?_⟩
  unfold translate
  rw [hresult]
  dsimp only
  rw [exec_bind_of_ok hlog, exec_bind_of_ok hwritten]
  rfl

/-- A text with an error is reported, and no file is touched. -/
theorem exec_translate_of_error {e : CompileError} {d : Source.Diagnostic}
    (hcompile : (compile text).1 = .error e) (hd : e.diagnostic? = some d) :
    ∃ err, exec (translate text (some output) false) s = (.ok 1, { s with err }) := by
  rcases hresult : compile text with ⟨result, events⟩
  rw [hresult] at hcompile
  obtain rfl : result = .error e := hcompile
  obtain ⟨err, hlog⟩ := exec_logEvents s false events.toList
  refine ⟨err ++ (d.render text ++ "\n"), ?_⟩
  unfold translate
  rw [hresult]
  dsimp only
  rw [exec_bind_of_ok hlog, hd]
  rfl

end Translate

/-! ## The executor -/

namespace Execute

variable {s : Session} {path input listing : String} {values : List Int} {n : Int}

/-- The option for the path of the inputs. -/
def inputOption : OptionSpec Key :=
  ⟨.input, .text, ["--input"]⟩

/-- The option for the tick limit. -/
def ticksOption : OptionSpec Key :=
  ⟨.ticks, .number, ["--ticks"]⟩

theorem digitless : commandLine.Digitless := by
  unfold CommandLine.Digitless
  decide

theorem classify_command (hpath : PathArgument path) (hinput : PathArgument input) :
    commandLine.classifyAll [path, "--input", input, "--ticks", toString n]
      = .ok [.operand path, .option ⟨inputOption, "--input", none⟩, .operand input,
        .option ⟨ticksOption, "--ticks", none⟩, .operand (toString n)] := by
  rw [CommandLine.classifyAll_cons hpath.ne_separator
      (CommandLine.classify_operand hpath.no_option),
    CommandLine.classifyAll_cons (by decide) (CommandLine.classify_option rfl rfl),
    CommandLine.classifyAll_cons hinput.ne_separator
      (CommandLine.classify_operand hinput.no_option),
    CommandLine.classifyAll_cons (by decide) (CommandLine.classify_option rfl rfl),
    CommandLine.classifyAll_cons (CommandLine.toString_ne_separator n)
      (CommandLine.classify_toString digitless n)]
  rfl

theorem parse_command (hpath : PathArgument path) (hinput : PathArgument input)
    (hlen : (Nat.toDigits 10 n.natAbs).length ≤ Numeral.digitLimit) :
    commandLine.parse [path, "--input", input, "--ticks", toString n]
      = .ok [.operand path, .text .input (some input), .number .ticks (some n)] := by
  refine CommandLine.parse_eq_ok.2 ⟨_, classify_command hpath hinput, ?_⟩
  rw [CommandLine.consume_operand rfl (fun _ h => by cases h), CommandLine.consume_value rfl,
    CommandLine.applyValue_text rfl hinput.ne_separator]
  show commandLine.consume _ [.option ⟨ticksOption, "--ticks", none⟩, .operand (toString n)] = _
  rw [CommandLine.consume_value rfl, CommandLine.applyValue_number rfl hlen]
  rfl

/-- A tick limit with too many digits is refused. -/
theorem parse_of_long (hpath : PathArgument path) (hinput : PathArgument input)
    (hlen : Numeral.digitLimit < (Nat.toDigits 10 n.natAbs).length) :
    commandLine.parse [path, "--input", input, "--ticks", toString n]
      = .error (CommandLine.complaint ticksOption
        ("invalid int value: " ++ quoted (toString n))) := by
  refine CommandLine.parse_of_error (classify_command hpath hinput) ?_
  rw [CommandLine.consume_operand rfl (fun _ h => by cases h), CommandLine.consume_value rfl,
    CommandLine.applyValue_text rfl hinput.ne_separator]
  show commandLine.consume _ [.option ⟨ticksOption, "--ticks", none⟩, .operand (toString n)] = _
  rw [CommandLine.consume_value rfl, CommandLine.applyValue_number_of_long rfl hlen]
  rfl

/-- A tick limit with too many digits ends the executor before it reads a file. -/
theorem finishes_of_long (s : Session) (hpath : PathArgument path) (hinput : PathArgument input)
    (hlen : Numeral.digitLimit < (Nat.toDigits 10 n.natAbs).length) :
    ∃ s', Finishes (run [path, "--input", input, "--ticks", toString n]) s 2 "" s'
      ∧ s'.files = s.files :=
  finishes_of_invalid s (parse_of_long hpath hinput hlen)

/-- The executor reads its two files and runs the listing. -/
theorem exec_run (hpath : PathArgument path) (hinput : PathArgument input)
    (hlen : (Nat.toDigits 10 n.natAbs).length ≤ Numeral.digitLimit)
    (hvalues : exec (readInputs input) s = (.ok values, s))
    (hlisting : exec (readText path) s = (.ok listing, s)) :
    exec (run [path, "--input", input, "--ticks", toString n]) s
      = exec (execute listing values n false) s := by
  have hfrom : textOf? [.operand path, .text Key.input (some input), .number .ticks (some n)] .input
      = some input := by
    show Option.filter _ (some input) = some input
    rw [Option.filter_some, if_pos (by simpa using hinput.nonempty)]
  unfold run
  rw [withSettings_of_ok (parse_command hpath hinput hlen), hfrom]
  show exec (readInputs input >>= _) s = _
  rw [exec_bind_of_ok hvalues]
  show exec (readText path >>= _) s = _
  rw [exec_bind_of_ok hlisting]
  rfl

/-- A run that halts is printed. -/
theorem finishes_execute {printed : String} (h : (runListing listing values n).1 = .ok printed) :
    ∃ s', Finishes (execute listing values n false) s 0 printed s' ∧ s'.files = s.files := by
  rcases hrun : runListing listing values n with ⟨result, events⟩
  rw [hrun] at h
  obtain rfl : result = .ok printed := h
  obtain ⟨err, hlog⟩ := exec_logEvents s false events
  refine ⟨{ s with out := s.out ++ printed, err }, ⟨?_, rfl⟩, rfl⟩
  unfold execute
  rw [hrun]
  dsimp only
  rw [exec_bind_of_ok hlog]
  rfl

/-- A fault of the machine is reported, and nothing is printed. -/
theorem finishes_execute_of_fault {fault : Fault} (hfault : ∀ e, fault ≠ .badWord e)
    (h : (runListing listing values n).1 = .error (.running fault)) :
    ∃ s', Finishes (execute listing values n false) s 1 "" s' ∧ s'.files = s.files := by
  rcases hrun : runListing listing values n with ⟨result, events⟩
  rw [hrun] at h
  obtain rfl : result = .error (.running fault) := h
  obtain ⟨err, hlog⟩ := exec_logEvents s false events
  refine ⟨{ s with err := err ++ ("machine: " ++ fault.message ++ "\n") },
    ⟨?_, String.append_empty.symm⟩, rfl⟩
  unfold execute
  rw [hrun]
  dsimp only
  rw [exec_bind_of_ok hlog]
  cases fault with
  | badWord e => exact absurd rfl (hfault e)
  | _ => rfl

end Execute

/-! ## One after the other -/

section

variable {s : Session} {path output text : String} {bytes : List UInt8}

/-- The translator leaves a listing as the text of its output file, and the other files as they
were. -/
theorem exists_translated (hhere : s.files.node? s.here = some .dir) (hpath : PathArgument path)
    (houtput : PathArgument output) (hread : s.files.readFile s.here path = .ok bytes)
    (htext : decodeText bytes = .ok text) {listing : String}
    (hcompile : (compile text).1 = .ok listing) {files : Tree}
    (hwritable : s.files.writeFile s.here output [] = .ok files) :
    ∃ s', Finishes (Translate.run [path, "-o", output]) s 0 "" s'
      ∧ exec (readText output) s' = (.ok listing, s')
      ∧ ∀ input inputBytes, s.files.locate s.here input ≠ s.files.locate s.here output →
        s.files.readFile s.here input = .ok inputBytes →
        s'.files.readFile s'.here input = .ok inputBytes := by
  obtain ⟨files, hwrite⟩ := Tree.exists_writeFile hwritable (Utf8.encode listing)
  obtain ⟨err, htranslate⟩ := Translate.exec_translate houtput.nullFree hcompile hwrite
  obtain ⟨place, hplace, hnode, hsets⟩ := Tree.sets_of_writeFile hhere hwrite
  refine ⟨{ s with files, err }, ⟨?_, String.append_empty.symm⟩, ?_, ?_⟩
  · rw [Translate.exec_run hpath houtput hread htext]
    exact htranslate
  · exact exec_readText_eq_ok.2 ⟨houtput.nullFree, ⟨_, hsets.readFile_at hnode hplace,
      decodeText_encode (return_not_mem_of_compile hcompile)⟩, rfl⟩
  · intro input inputBytes hother hinput
    rw [hplace] at hother
    exact (hsets.readFile_elsewhere hnode hother).2 hinput

/-- The executor does on a file with a listing what a run of the listing does. -/
theorem finishes_executed {listing input : String} {inputBytes : List UInt8} {values : List Int}
    {n : Int} (houtput : PathArgument output) (hinput : PathArgument input)
    (hlisting : exec (readText output) s = (.ok listing, s))
    (hread : s.files.readFile s.here input = .ok inputBytes)
    (hvalues : InputFile.read inputBytes = .ok values)
    (hlen : (Nat.toDigits 10 n.natAbs).length ≤ Numeral.digitLimit) :
    (∀ printed, (runListing listing values n).1 = .ok printed →
      ∃ s', Finishes (Execute.run [output, "--input", input, "--ticks", toString n]) s 0 printed s')
    ∧ ∀ fault, (runListing listing values n).1 = .error (.running fault) →
      (∀ e, fault ≠ .badWord e) →
      ∃ s', Finishes (Execute.run [output, "--input", input, "--ticks", toString n]) s 1 "" s' := by
  have hinputs : exec (readInputs input) s = (.ok values, s) :=
    exec_readInputs_eq_ok.2 ⟨hinput.nullFree, ⟨inputBytes, hread, hvalues⟩, rfl⟩
  have hrun := Execute.exec_run houtput hinput hlen hinputs hlisting
  constructor
  · intro printed h
    obtain ⟨s', ⟨hresult, hout⟩, _⟩ := Execute.finishes_execute (s := s) h
    exact ⟨s', hrun.trans hresult, hout⟩
  · intro fault h hfault
    obtain ⟨s', ⟨hresult, hout⟩, _⟩ := Execute.finishes_execute_of_fault (s := s) hfault h
    exact ⟨s', hrun.trans hresult, hout⟩

/-- The translator and the executor, one after the other, do what `compile` and `runListing` do. A
source file in UTF-8 that has a listing is translated to a file that holds exactly this listing, all
of it in ASCII and without carriage returns. Run on the integers of an input file, with a tick limit
of not too many digits, the executor prints what the listing prints, or nothing if the machine
fails. A source file with an error is reported, and no file is touched. -/
theorem translated_then_executed (hhere : s.files.node? s.here = some .dir)
    (hpath : PathArgument path) (houtput : PathArgument output)
    (hread : s.files.readFile s.here path = .ok bytes) (htext : decodeText bytes = .ok text) :
    (∀ listing files, (compile text).1 = .ok listing →
      s.files.writeFile s.here output [] = .ok files →
      (∀ c ∈ listing.toList, c.toNat < 0x80 ∧ c ≠ '\r')
      ∧ ∃ s', Finishes (Translate.run [path, "-o", output]) s 0 "" s'
        ∧ exec (readText output) s' = (.ok listing, s')
        ∧ ∀ input inputBytes values n, PathArgument input →
          s.files.locate s.here input ≠ s.files.locate s.here output →
          s.files.readFile s.here input = .ok inputBytes → InputFile.read inputBytes = .ok values →
          ((Nat.toDigits 10 n.natAbs).length ≤ Numeral.digitLimit →
            (∀ printed, (runListing listing values n).1 = .ok printed → ∃ s'',
              Finishes (Execute.run [output, "--input", input, "--ticks", toString n]) s' 0 printed
                s'')
            ∧ ∀ fault, (runListing listing values n).1 = .error (.running fault) →
              (∀ e, fault ≠ .badWord e) → ∃ s'',
              Finishes (Execute.run [output, "--input", input, "--ticks", toString n]) s' 1 "" s'')
          ∧ (Numeral.digitLimit < (Nat.toDigits 10 n.natAbs).length → ∃ s'',
              Finishes (Execute.run [output, "--input", input, "--ticks", toString n]) s' 2 "" s''))
    ∧ ∀ e d, (compile text).1 = .error e → e.diagnostic? = some d →
      ∃ s', Finishes (Translate.run [path, "-o", output]) s 1 "" s' ∧ s'.files = s.files := by
  constructor
  · intro listing files hcompile hwritable
    refine ⟨?_, ?_⟩
    · intro c hc
      refine ⟨?_, fun heq => return_not_mem_of_compile hcompile (heq ▸ hc)⟩
      rcases graphic_of_compile hcompile c hc with rfl | hgraphic
      · decide
      · exact Nat.lt_succ_of_le (Nat.le_succ_of_le hgraphic.2)
    · obtain ⟨s', htranslated, hlisting, hother⟩ :=
        exists_translated hhere hpath houtput hread htext hcompile hwritable
      refine ⟨s', htranslated, hlisting, ?_⟩
      intro input inputBytes values n hinput hplace hinputBytes hvalues
      constructor
      · exact finishes_executed houtput hinput hlisting (hother input inputBytes hplace hinputBytes)
          hvalues
      · intro hlong
        obtain ⟨s'', hends, _⟩ := Execute.finishes_of_long s' houtput hinput hlong
        exact ⟨s'', hends⟩
  · intro e d hcompile hd
    obtain ⟨err, htranslate⟩ := Translate.exec_translate_of_error (s := s) hcompile hd
    refine ⟨{ s with err }, ⟨?_, String.append_empty.symm⟩, rfl⟩
    rw [Translate.exec_run hpath houtput hread htext]
    exact htranslate

end

/-! ## A directory with two files -/

/-- A session in a directory with a source file and an input file. -/
def workbench (source inputs : String) : Session where
  files := .dir [("p.mc", .file (Utf8.encode source)), ("in.txt", .file (Utf8.encode inputs))]
  here := []

theorem readFile_source (source inputs : String) :
    (workbench source inputs).files.readFile [] "p.mc" = .ok (Utf8.encode source) :=
  Tree.readFile_eq_ok.2 ⟨["p.mc"], Tree.locate_plain (by decide) rfl, rfl⟩

theorem readFile_inputs (source inputs : String) :
    (workbench source inputs).files.readFile [] "in.txt" = .ok (Utf8.encode inputs) :=
  Tree.readFile_eq_ok.2 ⟨["in.txt"], Tree.locate_plain (by decide) rfl, rfl⟩

theorem exists_writeFile_listing (source inputs : String) :
    ∃ files, (workbench source inputs).files.writeFile [] "p.s" [] = .ok files := by
  refine ⟨_, Tree.writeFile_eq_ok.2 ⟨["p.s"], Tree.locate_plain (by decide) rfl, ?_, .inr rfl, rfl⟩⟩
  rw [Tree.endsWith_slash_iff]
  decide

theorem locate_inputs_ne (source inputs : String) :
    (workbench source inputs).files.locate [] "in.txt"
      ≠ (workbench source inputs).files.locate [] "p.s" := by
  rw [Tree.locate_plain (by decide) rfl, Tree.locate_plain (by decide) rfl]
  intro h
  injection h with h
  exact absurd h (by decide)

/-- A sum is translated, run and printed. -/
theorem translated_then_executed_sum :
    ∃ listing s' s'', (compile "begin read(a); write(a + 2) end").1 = .ok listing
      ∧ Finishes (Translate.run ["p.mc", "-o", "p.s"])
        (workbench "begin read(a); write(a + 2) end" "40\n") 0 "" s'
      ∧ exec (readText "p.s") s' = (.ok listing, s')
      ∧ Finishes (Execute.run ["p.s", "--input", "in.txt", "--ticks", "200"]) s' 0 "42\n" s'' := by
  have hpath : PathArgument "p.mc" := by decide
  have houtput : PathArgument "p.s" := by decide
  obtain ⟨files, hwritable⟩ := exists_writeFile_listing "begin read(a); write(a + 2) end" "40\n"
  obtain ⟨listing, hcompile, hprinted⟩ :
      ∃ listing, (compile "begin read(a); write(a + 2) end").1 = .ok listing
        ∧ (runListing listing [40] 200).1 = .ok "42\n" :=
    Simulation.exists_printed (show Simulation.printsWithin 100 _ _ _ = true by decide +kernel)
      (by decide)
  obtain ⟨_, s', htranslated, hlisting, hexecuted⟩ := (translated_then_executed
    (s := workbench "begin read(a); write(a + 2) end" "40\n") rfl hpath houtput
    (readFile_source _ _) (decodeText_encode (by decide))).1 listing files hcompile hwritable
  obtain ⟨s'', hends⟩ := ((hexecuted "in.txt" _ [40] 200 (by decide) (locate_inputs_ne _ _)
    (readFile_inputs _ _) rfl).1 (by decide)).1 "42\n" hprinted
  exact ⟨listing, s', s'', hcompile, htranslated, hlisting, hends⟩

/-- The least tick limit with too many digits lets a listing run to its end, but the executor
refuses it. -/
theorem long_limit_refused :
    ∃ listing s' s'', (compile "begin write(1) end").1 = .ok listing
      ∧ Finishes (Translate.run ["p.mc", "-o", "p.s"]) (workbench "begin write(1) end" "") 0 "" s'
      ∧ s'.files.readFile s'.here "in.txt" = .ok [] ∧ InputFile.read [] = .ok []
      ∧ (runListing listing [] (10 ^ Numeral.digitLimit)).1 = .ok "1\n"
      ∧ Finishes (Execute.run ["p.s", "--input", "in.txt", "--ticks",
        toString (10 ^ Numeral.digitLimit : Int)]) s' 2 "" s'' := by
  have hpath : PathArgument "p.mc" := by decide
  have houtput : PathArgument "p.s" := by decide
  have hinput : PathArgument "in.txt" := by decide
  have hlimit : ((100 : Nat) : Int) ≤ 10 ^ Numeral.digitLimit := by
    calc ((100 : Nat) : Int) = 10 ^ 2 := rfl
      _ ≤ 10 ^ Numeral.digitLimit := pow_le_pow_right₀ (by decide) (by decide)
  have hlong := Nat.not_le.1 Numeral.not_isShort_pow
  obtain ⟨files, hwritable⟩ := exists_writeFile_listing "begin write(1) end" ""
  obtain ⟨listing, hcompile, hprinted⟩ : ∃ listing, (compile "begin write(1) end").1 = .ok listing
      ∧ (runListing listing [] (10 ^ Numeral.digitLimit)).1 = .ok "1\n" :=
    Simulation.exists_printed (show Simulation.printsWithin 100 _ _ _ = true by decide +kernel)
      hlimit
  obtain ⟨s', htranslated, _, hother⟩ := exists_translated
    (s := workbench "begin write(1) end" "") rfl hpath houtput (readFile_source _ _)
    (decodeText_encode (by decide)) hcompile hwritable
  obtain ⟨s'', hends, _⟩ := Execute.finishes_of_long s' houtput hinput hlong
  exact ⟨listing, s', s'', hcompile, htranslated,
    hother "in.txt" [] (locate_inputs_ne _ _) (readFile_inputs _ _), rfl, hprinted, hends⟩

end MicroLang.Tool
