import MicroLang.Tool.Artifacts
import MicroLang.Tool.Execute
import MicroLang.Tool.Translate

/-!
# The command line

Runs one of the three tools on the files of the system. The first argument names the tool.
-/

namespace MicroLang.Main

open MicroLang.Files
open MicroLang.Tool

/-- Whether a code of the system, which may come with its sign turned, is the given number. -/
def isCode (code number : UInt32) : Bool :=
  code == number || code + number == 0

/-- The file error that an error of the system stands for. -/
def fileError? : IO.Error → Option FileError
  | .noFileOrDirectory .. => some .missing
  | .alreadyExists .. => some .alreadyExists
  | .inappropriateType _ code _ => some (if isCode code 20 then .notDirectory else .isDirectory)
  | .invalidArgument _ code _ => if isCode code 36 then some .nameTooLong else none
  | _ => none

/-- Does something with files; errors that are not about files stay errors of the system. -/
def attempt {α : Type} (action : IO α) : IO (Except FileError α) := do
  match ← action.toBaseIO with
  | .ok a => return .ok a
  | .error e =>
    match fileError? e with
    | some error => return .error error
    | none => throw e

/-- The bytes of a file of the system. -/
def readSystemFile (path : String) : IO (Except FileError (List UInt8)) :=
  attempt do return (← IO.FS.readBinFile path).toList

/-- Makes a directory of the system, unless it is there already. -/
def makeSystemDirectory (path : String) : IO (Except FileError Unit) := do
  match ← attempt (IO.FS.createDir path) with
  | .ok () => return .ok ()
  | .error .missing => return .error .missing
  | .error e =>
    match ← readSystemFile path with
    | .error .isDirectory => return .ok ()
    | _ => return .error e

instance : Host IO where
  workingDirectory := do return (← IO.currentDir).toString
  readFile := readSystemFile
  writeFile path bytes := attempt (IO.FS.writeBinFile path ⟨bytes.toArray⟩)
  makeDirectory := makeSystemDirectory
  fileExists path := do
    match ← readSystemFile path with
    | .ok _ | .error .isDirectory => return true
    | .error _ => return false
  print := IO.print
  printError := IO.eprint

/-- Runs a tool to its status. -/
def runTool (tool : ToolM IO Nat) : IO UInt32 := do
  match ← tool.run with
  | .ok status => return status.toUInt32
  | .error failure =>
    IO.eprintln failure.message
    return 1

/-- Says how to name a tool. -/
def usage : String :=
  "usage: microlang (translate | execute | artifacts) ARGUMENT..."

end MicroLang.Main

open MicroLang.Main MicroLang.Tool in
def main : List String → IO UInt32
  | "translate" :: args => runTool (Translate.run args)
  | "execute" :: args => runTool (Execute.run args)
  | "artifacts" :: args => runTool (Artifacts.run args)
  | _ => do
    IO.eprintln usage
    return 2
