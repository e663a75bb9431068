import MicroLang.Compile
import MicroLang.Event
import MicroLang.Files.Host
import MicroLang.Machine.InputFile
import MicroLang.Machine.Run
import MicroLang.Tool.Options

/-!
# Tools

A tool turns its arguments into a status, and reads, writes and prints on its host on the way. What
a tool does not report itself ends it with a failure; what it did before stays done.
-/

namespace MicroLang.Tool

open MicroLang.Files
open MicroLang.Machine
open MicroLang.Text

/-- What ends a tool without a status. -/
inductive Failure where
  | file (error : FileError) (path : String)
  /-- A path with a null character. -/
  | nullInPath
  | encoding (fault : Utf8.Fault)
  | badInput (token path : String)
  | compiling (error : CompileError) (source : String)
  | running (error : RunError)
  /-- A step of a machine whose tick limit has no value. -/
  | noTickLimit
  /-- A directory that has no value. -/
  | noDirectory
  /-- A choice by names one of which has no value. -/
  | noName

/-- The message of a failure. -/
def Failure.message : Failure → String
  | file error path => error.message path
  | nullInPath => "embedded null byte"
  | encoding fault => s!"not valid UTF-8 at byte {fault.start}"
  | badInput token path => "bad input value " ++ quoted token ++ " in " ++ path
  | compiling error source =>
    match error, error.diagnostic? with
    | _, some d => d.render source
    | .lexical e, none => e.fault.message
    | _, none => ""
  | running error => error.message
  | noTickLimit => "'>=' not supported between instances of 'int' and 'list'"
  | noDirectory => "unsupported operand type(s) for /: 'PosixPath' and 'list'"
  | noName => "unhashable type: 'list'"

/-- A tool at work on a host. -/
abbrev ToolM (m : Type → Type) := ExceptT Failure m

variable {m : Type → Type} [Monad m] [Host m]

/-- Prints a text. -/
def print (text : String) : ToolM m Unit :=
  ExceptT.lift (Host.print text)

/-- Prints a text for errors. -/
def printError (text : String) : ToolM m Unit :=
  ExceptT.lift (Host.printError text)

/-- Fails at a path that no file can have on any host. -/
def checkPath (path : String) : ToolM m Unit :=
  if path.contains '\x00' then throw .nullInPath else return ()

/-- The bytes of a file, or why it cannot be read. -/
def readBytes (path : String) : ToolM m (Except FileError (List UInt8)) := do
  checkPath path
  ExceptT.lift (Host.readFile path)

/-- The text that bytes hold, with line ends made line feeds. -/
def decodeText (bytes : List UInt8) : Except Utf8.Fault String := do
  return String.ofList (unixNewlines (← Utf8.decode bytes))

/-- The result of using a file; an error there is a failure. -/
def orFail {α : Type} (path : String) (result : m (Except FileError α)) : ToolM m α := do
  checkPath path
  match ← ExceptT.lift result with
  | .ok a => return a
  | .error e => throw (.file e path)

/-- The text of a file. -/
def readText (path : String) : ToolM m String := do
  match decodeText (← orFail path (Host.readFile path)) with
  | .ok text => return text
  | .error fault => throw (.encoding fault)

/-- Writes a text to a file. -/
def writeText (path text : String) : ToolM m Unit :=
  orFail path (Host.writeFile path (Utf8.encode text))

/-- Makes the directory with the given names from the root, the last of them first, and those on the
way to it, where they are missing. -/
def makeDirectories : List String → ToolM m Unit
  | [] => return ()
  | name :: above => do
    let path := absolute (name :: above).reverse
    checkPath path
    match ← ExceptT.lift (Host.makeDirectory path) with
    | .ok () => return ()
    | .error .missing =>
      makeDirectories above
      orFail path (Host.makeDirectory path)
    | .error e => throw (.file e path)

/-- The integers of an input file. -/
def readInputs (path : String) : ToolM m (List Int) := do
  match InputFile.read (← orFail path (Host.readFile path)) with
  | .ok values => return values
  | .error (.badValue token) => throw (.badInput token path)
  | .error (.badEncoding fault) => throw (.encoding fault)

/-- What a tool says about its arguments. -/
structure Manual where
  program : String
  usage : List String
  details : List String

namespace Manual

/-- The answer to a request for help. -/
def help (manual : Manual) : String :=
  unlines (manual.usage ++ "" :: manual.details)

/-- The answer to arguments that are no command. -/
def refusal (manual : Manual) (message : String) : String :=
  unlines (manual.usage ++ [manual.program ++ ": error: " ++ message])

end Manual

/-- Runs a tool with the settings that its arguments stand for. -/
def withSettings {κ : Type} (manual : Manual) (line : CommandLine κ) (args : List String)
    (action : List (Setting κ) → ToolM m Nat) : ToolM m Nat :=
  match line.parse args with
  | .ok settings => action settings
  | .error .help => do
    print manual.help
    return 0
  | .error (.invalid message) => do
    printError (manual.refusal message)
    return 2

/-- Logs events: warnings always, and the others if the log is verbose. -/
def logEvents (verbose : Bool) (events : List Event) : ToolM m Unit :=
  let shown := events.filter fun event => verbose || event.level = .warning
  printError (unlines (shown.map Event.logLine))

end MicroLang.Tool
