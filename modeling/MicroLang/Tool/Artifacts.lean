import MicroLang.Text.LineDiff
import MicroLang.Tool.Basic

/-!
# Recorded artifacts

For each of three samples a directory records the source text, the inputs, the listing, the output
and a description. The tool makes these files, or verifies that the recorded source text still has
the recorded listing and output.
-/

namespace MicroLang.Tool.Artifacts

open MicroLang.Files
open MicroLang.Text

/-- The options of the tool. -/
inductive Key where
  | help
  | outDir
  | only
  | verify
deriving DecidableEq

/-- The arguments of the tool. -/
def commandLine : CommandLine Key where
  options := [
    ⟨.help, .help, ["-h", "--help"]⟩,
    ⟨.outDir, .text, ["--out-dir"]⟩,
    ⟨.only, .text, ["--only"]⟩,
    ⟨.verify, .flag, ["--verify"]⟩]
  operand := none

/-- What the tool says about its arguments. -/
def manual : Manual where
  program := "golden_tests.py"
  usage := ["usage: golden_tests.py [-h] [--out-dir OUT_DIR] [--only ONLY] [--verify]"]
  details := [
    "Generate golden test artifacts",
    "",
    "options:",
    "  -h, --help         show this help message and exit",
    "  --out-dir OUT_DIR  output directory for golden tests",
    "  --only ONLY        run only specified test(s) by name",
    "  --verify           compare against existing golden artifacts"]

/-- A program with inputs, given by paths from the working directory, and a tick limit. -/
structure Sample where
  name : String
  source : String
  input : Option String
  ticks : Nat

/-- The samples. -/
def samples : List Sample := [
  ⟨"a_plus_b", "examples/a_plus_b.mc", some "examples/a_plus_b.input", 200⟩,
  ⟨"chain", "examples/chain.mc", some "examples/chain.input", 200⟩,
  ⟨"comments", "examples/comments.mc", none, 200⟩]

/-- The samples with the given names, or all if there are none. -/
def selected (only : List String) : List Sample :=
  if only.isEmpty then samples else samples.filter fun sample => only.contains sample.name

/-- A text in a description. -/
def described (text : String) : String :=
  "\"" ++ text ++ "\""

/-- The description of a sample. -/
def Sample.description (sample : Sample) : String :=
  let input := match sample.input with
    | some path => described path
    | none => "null"
  Text.unlines [
    "\x7b",
    "  \"name\": " ++ described sample.name ++ ",",
    "  \"src\": " ++ described sample.source ++ ",",
    s!"  \"ticks\": {sample.ticks},",
    "  \"input\": " ++ input,
    "\x7d"]

/-- The path of an entry of a directory. -/
def entry (directory name : String) : String :=
  if directory.endsWith "/" then directory ++ name else directory ++ "/" ++ name

variable {m : Type → Type} [Monad m] [Host m]

/-- The listing of a source text. Warnings are printed as they are. -/
def listingOf (source : String) : ToolM m String := do
  let (result, events) := compile source
  let warnings := events.toList.filter fun event => event.level = .warning
  printError (Text.unlines (warnings.map Event.message))
  match result with
  | .ok listing => return listing
  | .error e => throw (.compiling e source)

/-- The output of a listing. -/
def outputOf (listing : String) (inputs : List Int) (ticks : Nat) : ToolM m String :=
  match (runListing listing inputs ticks).1 with
  | .ok output => return output
  | .error e => throw (.running e)

/-- Makes the files of a sample in a directory, which has the given names from the root. -/
def generate (root : String) (place : List String) (sample : Sample) : ToolM m Unit := do
  let directory := absolute place
  makeDirectories place.reverse
  let source ← readText (entry root sample.source)
  writeText (entry directory "program.mc") source
  let input := sample.input.map (entry root)
  if let some path := input then
    if ← ExceptT.lift (Host.fileExists path) then
      writeText (entry directory "input.txt") (← readText path)
  let listing ← listingOf source
  writeText (entry directory "program.s") listing
  let inputs ← match input with
    | some path => readInputs path
    | none => pure []
  writeText (entry directory "out.txt") (← outputOf listing inputs sample.ticks)
  writeText (entry directory "meta.json") sample.description

/-- The lines of a text. -/
def linesOf (text : String) : List String :=
  (splitLines text.toList).map String.ofList

/-- Compares the files of a sample in a directory with what its source text gives now. -/
def verify (directory : String) (sample : Sample) : ToolM m Bool := do
  let mismatch := "[mismatch][" ++ sample.name ++ "] "
  let listing ← listingOf (← readText (entry directory "program.mc"))
  let expected ← readText (entry directory "program.s")
  if listing ≠ expected then
    let diff :=
      LineDiff.unified "golden/program.s" "fresh/program.s" (linesOf expected) (linesOf listing)
    print (Text.unlines ((mismatch ++ "program.s differs") :: diff))
  let inputPath := entry directory "input.txt"
  let inputs ←
    if ← ExceptT.lift (Host.fileExists inputPath) then readInputs inputPath else pure []
  let output ← outputOf listing inputs sample.ticks
  let recorded ← readText (entry directory "out.txt")
  if output ≠ recorded then
    print (mismatch ++ "out.txt differs: " ++ quoted output ++ "\n")
  return listing = expected && output = recorded

/-- Makes the files of samples. -/
def generateAll (root : String) (outDir : List String) : List Sample → ToolM m Unit
  | [] => return ()
  | sample :: rest => do
    let place := outDir ++ [sample.name]
    print ("[golden] Generating " ++ sample.name ++ " -> " ++ absolute place ++ "\n")
    generate root place sample
    generateAll root outDir rest

/-- Verifies the files of samples; whether all are as recorded. -/
def verifyAll (outDir : List String) : List Sample → ToolM m Bool
  | [] => return true
  | sample :: rest => do
    print ("[verify] " ++ sample.name ++ "\n")
    let ok ← verify (absolute (outDir ++ [sample.name])) sample
    let allOk ← verifyAll outDir rest
    return ok && allOk

/-- Runs the tool. -/
def run (args : List String) : ToolM m Nat :=
  withSettings manual commandLine args fun settings => do
    let root ← ExceptT.lift Host.workingDirectory
    let outDir ← match (textsOf settings .outDir).getLast?.getD (some "golden") with
      | some path => pure path
      | none => throw .noDirectory
    checkPath outDir
    let outDir := resolve root outDir
    let only := textsOf settings .only
    if only.contains none then
      throw .noName
    let chosen := selected (only.filterMap id)
    if hasFlag settings .verify then
      if ← verifyAll outDir chosen then
        print "[verify] all tests OK\n"
        return 0
      else return 1
    else
      generateAll root outDir chosen
      return 0

end MicroLang.Tool.Artifacts
