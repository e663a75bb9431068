import MicroLang.Text.Lines
import MicroLang.Text.Quoted

/-!
# File trees

A file tree is a file with its bytes or a directory with its entries by name. A place in it is the
list of names from its root. A written path is a text: one that starts with a slash leads from the
root, any other from some directory.
-/

namespace MicroLang.Files

/-- Why a file cannot be used. -/
inductive FileError where
  | missing
  | alreadyExists
  | notDirectory
  | isDirectory
  | nameTooLong
deriving DecidableEq

namespace FileError

/-- The number of an error. -/
def number : FileError → Nat
  | missing => 2
  | alreadyExists => 17
  | notDirectory => 20
  | isDirectory => 21
  | nameTooLong => 36

/-- The reason that an error gives. -/
def reason : FileError → String
  | missing => "No such file or directory"
  | alreadyExists => "File exists"
  | notDirectory => "Not a directory"
  | isDirectory => "Is a directory"
  | nameTooLong => "File name too long"

/-- The message of an error at a path. -/
def message (e : FileError) (path : String) : String :=
  s!"[Errno {e.number}] " ++ e.reason ++ ": " ++ Text.quoted path

end FileError

/-- Files and directories. -/
inductive Tree where
  | file (bytes : List UInt8)
  | dir (entries : List (String × Tree))

namespace Tree

/-- The largest number of bytes in a name. -/
def nameLimit : Nat := 255

/-- The largest number of bytes in a written path. -/
def pathLimit : Nat := 4095

/-- What is at a place. -/
def find : Tree → List String → Except FileError Tree
  | t, [] => .ok t
  | .file _, _ :: _ => .error .notDirectory
  | .dir entries, name :: place =>
    if nameLimit < name.utf8ByteSize then .error .nameTooLong
    else match entries.lookup name with
      | some t => t.find place
      | none => .error .missing

/-- The entries of a directory with one of them set. -/
def setEntry (name : String) (t : Tree) : List (String × Tree) → List (String × Tree)
  | [] => [(name, t)]
  | entry :: entries =>
    if entry.1 = name then (name, t) :: entries else entry :: setEntry name t entries

/-- The tree with something put at a place, with the directories on the way to it. Nothing is put
below a file. -/
def put : Tree → List String → Tree → Tree
  | _, [], new => new
  | .file bytes, _ :: _, _ => .file bytes
  | .dir entries, name :: place, new =>
    .dir (setEntry name (((entries.lookup name).getD (.dir [])).put place new) entries)

/-- One step of a written path: to the directory itself, to its parent, or to an entry. The root is
its own parent. -/
def enter (here : List String) (name : String) : List String :=
  if name = "" || name = "." then here
  else if name = ".." then here.dropLast
  else here ++ [name]

/-- The place that names lead to from `here`. All but the last of them have to lead to
directories. -/
def follow (t : Tree) (here : List String) : List String → Except FileError (List String)
  | [] => .ok here
  | [name] => .ok (enter here name)
  | name :: names =>
    match t.find (enter here name) with
    | .ok (.dir _) => follow t (enter here name) names
    | .ok (.file _) => .error .notDirectory
    | .error e => .error e

/-- The names in a written path. -/
def names (path : String) : List String :=
  (Text.splitWhere (· == '/') path.toList).map String.ofList

/-- The directory from which a path that is written in the directory `here` leads. -/
def origin (here : List String) (path : String) : List String :=
  if path.startsWith "/" then [] else here

/-- A written path without the slashes at its end. -/
def withoutSlashes (path : String) : String :=
  String.ofList (Text.trimRight (· == '/') path.toList)

/-- Why a written path leads nowhere, whatever the tree. -/
def pathFault? (path : String) : Option FileError :=
  if path.isEmpty then some .missing
  else if pathLimit < path.utf8ByteSize then some .nameTooLong
  else none

/-- The place that a path stands for that is written in the directory `here`. -/
def locate (t : Tree) (here : List String) (path : String) : Except FileError (List String) :=
  match pathFault? path with
  | some e => .error e
  | none => t.follow (origin here path) (names path)

/-- The bytes of the file at a path that is written in the directory `here`. -/
def readFile (t : Tree) (here : List String) (path : String) : Except FileError (List UInt8) := do
  match ← t.find (← t.locate here path) with
  | .file bytes => return bytes
  | .dir _ => throw .isDirectory

/-- The tree with a file of the given bytes at a path that is written in the directory `here`. A
path that ends in a slash stands for a directory. -/
def writeFile (t : Tree) (here : List String) (path : String) (bytes : List UInt8) :
    Except FileError Tree :=
  match pathFault? path with
  | some e => .error e
  | none => do
    let place ← t.follow (origin here path) (names (withoutSlashes path))
    if path.endsWith "/" then throw .isDirectory
    match t.find place with
    | .ok (.dir _) => throw .isDirectory
    | .ok (.file _) | .error .missing => return t.put place (.file bytes)
    | .error e => throw e

/-- The tree with a directory at a path that is written in the directory `here`. One that is there
already stays as it is. -/
def makeDirectory (t : Tree) (here : List String) (path : String) : Except FileError Tree := do
  let place ← t.locate here path
  match t.find place with
  | .ok (.dir _) => return t
  | .ok (.file _) => throw .alreadyExists
  | .error .missing => return t.put place (.dir [])
  | .error e => throw e

/-- Whether something is at a path that is written in the directory `here`. -/
def contains (t : Tree) (here : List String) (path : String) : Bool :=
  match t.locate here path with
  | .ok place => (t.find place).isOk
  | .error _ => false

mutual

/-- All files of a tree that is at the given path, with their paths. -/
def files (path : String) : Tree → List (String × List UInt8)
  | .file bytes => [(path, bytes)]
  | .dir entries => entryFiles path entries

/-- All files of the entries of a directory at the given path. -/
def entryFiles (path : String) : List (String × Tree) → List (String × List UInt8)
  | [] => []
  | (name, t) :: entries =>
    files (if path.isEmpty then name else path ++ "/" ++ name) t ++ entryFiles path entries

end

end Tree

end MicroLang.Files
