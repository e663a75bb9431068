import MicroLang.Tool.Basic

/-!
# The executor

Runs a listing on inputs from a file, and prints its output. The run can be traced, to a file or in
front of the output.
-/

namespace MicroLang.Tool.Execute

open MicroLang.Files
open MicroLang.Machine

/-- The options of the executor. -/
inductive Key where
  | help
  | input
  | ticks
  | trace
  | traceFile
  | verbose
deriving DecidableEq

/-- The arguments of the executor. -/
def commandLine : CommandLine Key where
  options := [
    ⟨.help, .help, ["-h", "--help"]⟩,
    ⟨.input, .text, ["--input"]⟩,
    ⟨.ticks, .number, ["--ticks"]⟩,
    ⟨.trace, .flag, ["--trace"]⟩,
    ⟨.traceFile, .text, ["--trace-file"]⟩,
    ⟨.verbose, .flag, ["-v", "--verbose"]⟩]
  operand := some "program"

/-- What the executor says about its arguments. -/
def manual : Manual where
  program := "machine_cli.py"
  usage := [
    "usage: machine_cli.py [-h] [--input INPUT] [--ticks TICKS] [--trace]",
    "                      [--trace-file TRACE_FILE] [-v]",
    "                      program"]
  details := [
    "Run a generated listing",
    "",
    "positional arguments:",
    "  program               assembly listing path",
    "",
    "options:",
    "  -h, --help            show this help message and exit",
    "  --input INPUT         integers consumed by read(), whitespace separated",
    "  --ticks TICKS",
    "  --trace               dump one line per executed instruction",
    "  --trace-file TRACE_FILE",
    "                        write trace to file (default: stdout)",
    "  -v, --verbose         debug logging"]

/-- The tick limit of a run that gives none. -/
def defaultTicks : Int := 100000

variable {m : Type → Type} [Monad m] [Host m]

/-- Reports the result of a run. An operand that is no word ends the tool with a failure. -/
def finish : Except RunError String → ToolM m Nat
  | .ok output => do
    print output
    return 0
  | .error (.running (.badWord e)) => throw (.running (.running (.badWord e)))
  | .error (.running fault) => do
    printError ("machine: " ++ fault.message ++ "\n")
    return 1
  | .error e => throw (.running e)

/-- Runs a listing without a trace. -/
def execute (listing : String) (inputs : List Int) (ticks : Int) (verbose : Bool) :
    ToolM m Nat := do
  let (result, events) := runListing listing inputs ticks
  logEvents verbose events
  finish result

/-- Runs a listing with a trace. -/
def trace (listing : String) (inputs : List Int) (ticks : Int) (file : Option String) :
    ToolM m Nat :=
  match Machine.ofListing listing inputs ticks with
  | .error e => finish (.error e)
  | .ok machine => do
    let (final, lines) := machine.runTraced #[]
    let text := Text.unlines lines.toList
    match file with
    | some path => writeText path text
    | none => print text
    finish (Machine.outcome final)

/-- Makes the machine of a listing, and the trace file, but no step: that fails without a limit. -/
def stall (listing : String) (inputs : List Int) (file : Option String) : ToolM m Nat :=
  match Machine.ofListing listing inputs 0 with
  | .error e => finish (.error e)
  | .ok _ => do
    if let some path := file then
      writeText path ""
    throw .noTickLimit

/-- Runs the executor. -/
def run (args : List String) : ToolM m Nat :=
  withSettings manual commandLine args fun settings => do
    let inputs ← match textOf? settings .input with
      | some path => readInputs path
      | none => pure []
    let listing ← readText (operandOf settings)
    let traced := hasFlag settings .trace
    let file := textOf? settings .traceFile
    match (numberOf? settings .ticks).getD (some defaultTicks) with
    | none => stall listing inputs (if traced then file else none)
    | some ticks =>
      if traced then trace listing inputs ticks file
      else execute listing inputs ticks (hasFlag settings .verbose)

end MicroLang.Tool.Execute
