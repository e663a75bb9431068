import MicroLang.Tool.Basic

/-!
# The translator

Translates a source file to a listing, in a file or printed.
-/

namespace MicroLang.Tool.Translate

open MicroLang.Files

/-- The options of the translator. -/
inductive Key where
  | help
  | output
  | verbose
deriving DecidableEq

/-- The arguments of the translator. -/
def commandLine : CommandLine Key where
  options := [
    ⟨.help, .help, ["-h", "--help"]⟩,
    ⟨.output, .text, ["-o", "--output"]⟩,
    ⟨.verbose, .flag, ["-v", "--verbose"]⟩]
  operand := some "source"

/-- What the translator says about its arguments. -/
def manual : Manual where
  program := "microc"
  usage := ["usage: microc [-h] [-o OUTPUT] [-v] source"]
  details := [
    "micro language -> MIPS assembly translator",
    "",
    "positional arguments:",
    "  source                input source file",
    "",
    "options:",
    "  -h, --help            show this help message and exit",
    "  -o OUTPUT, --output OUTPUT",
    "                        write the listing to file instead of stdout",
    "  -v, --verbose         debug logging"]

variable {m : Type → Type} [Monad m] [Host m]

/-- Reports that the source file cannot be read. -/
def refuse (path reason : String) : ToolM m Nat := do
  printError ("microc: cannot read " ++ path ++ ": " ++ reason ++ "\n")
  return 1

/-- Translates a source text. -/
def translate (source : String) (output : Option String) (verbose : Bool) : ToolM m Nat := do
  let (result, events) := compile source
  logEvents verbose events.toList
  match result with
  | .ok listing =>
    match output with
    | some path => writeText path listing
    | none => print listing
    return 0
  | .error e =>
    match e.diagnostic? with
    | some d =>
      printError (d.render source ++ "\n")
      return 1
    | none => throw (.compiling e source)

/-- Runs the translator. -/
def run (args : List String) : ToolM m Nat :=
  withSettings manual commandLine args fun settings => do
    let path := operandOf settings
    match ← readBytes path with
    | .error e => refuse path e.reason
    | .ok bytes =>
      match decodeText bytes with
      | .error fault => refuse path s!"not valid UTF-8 at byte {fault.start}"
      | .ok source => translate source (textOf? settings .output) (hasFlag settings .verbose)

end MicroLang.Tool.Translate
