import MicroLang.Files.Tree

/-!
# Hosts

What a tool needs of the system it runs on: files, a working directory, and two texts to write to.
A session is a host whose files are a tree, so that what a tool does to it can be computed.
-/

namespace MicroLang.Files

/-- A system that tools run on. -/
class Host (m : Type → Type) where
  /-- The absolute path of the working directory. -/
  workingDirectory : m String
  readFile : String → m (Except FileError (List UInt8))
  writeFile : String → List UInt8 → m (Except FileError Unit)
  /-- Makes a directory, unless it is there already. -/
  makeDirectory : String → m (Except FileError Unit)
  fileExists : String → m Bool
  print : String → m Unit
  printError : String → m Unit

/-- The absolute path with the given names. -/
def absolute (names : List String) : String :=
  "/" ++ "/".intercalate names

/-- The names from the root that a written path stands for, whatever there is on the way. -/
def resolve (workingDirectory path : String) : List String :=
  let whole := if path.startsWith "/" then path else workingDirectory ++ "/" ++ path
  (Tree.names whole).foldl Tree.enter []

/-- All files, the place of the working directory among them, and what was printed. -/
structure Session where
  files : Tree
  here : List String
  out : String := ""
  err : String := ""

namespace Session

/-- Changes the files, or says why not. -/
def change (action : Session → Except FileError Tree) : StateM Session (Except FileError Unit) := do
  match action (← get) with
  | .error e => return .error e
  | .ok files =>
    modify fun s => { s with files }
    return .ok ()

instance : Host (StateM Session) where
  workingDirectory := return absolute (← get).here
  readFile path := do
    let s ← get
    return s.files.readFile s.here path
  writeFile path bytes := change fun s => s.files.writeFile s.here path bytes
  makeDirectory path := change fun s => s.files.makeDirectory s.here path
  fileExists path := do
    let s ← get
    return s.files.contains s.here path
  print text := modify fun s => { s with out := s.out ++ text }
  printError text := modify fun s => { s with err := s.err ++ text }

end Session

end MicroLang.Files
