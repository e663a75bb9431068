import MicroLang.Text.Blank
import MicroLang.Text.Lines
import MicroLang.Text.Numeral
import MicroLang.Text.Utf8

/-!
# Input files

An input file holds the integers that a run reads, with blanks between them; a number sign starts a
comment that ends with its line. A file is read block by block, and a line is read as soon as its
end has been seen: a value that is no integer is reported before bytes of a later block that are no
UTF-8.
-/

namespace MicroLang.Machine.InputFile

open MicroLang.Text

/-- Why an input file is not read. -/
inductive Error where
  /-- A value is no integer. -/
  | badValue (token : String)
  /-- Bytes are no UTF-8. -/
  | badEncoding (fault : Utf8.Fault)

/-- The number of bytes that are read at once. -/
def blockSize : Nat := 8192

/-- The number of bytes in the blocks before the one in which a fault is seen. A text that ends
inside a character is faulty only after all its blocks. -/
def readBefore (size : Nat) (fault : Utf8.Fault) : Nat :=
  if fault.seen = size then size else fault.seen / blockSize * blockSize

/-- The lines of a text whose ends have been seen when more is to come. A carriage return at the end
may still be half of a line end. -/
def finishedLines (text : List Char) : List (List Char) :=
  let seen := if text.getLast? = some '\r' then text.dropLast else text
  (splitWhere (· == '\n') (unixNewlines seen)).dropLast

/-- The lines that are read from bytes, and the fault after them if there is one. -/
def lines (bytes : List UInt8) : List (List Char) × Option Utf8.Fault :=
  match Utf8.decodeFrom 0 .fresh bytes with
  | (text, none) => (splitWhere (· == '\n') (unixNewlines text), none)
  | (_, some fault) =>
    let (text, _) := Utf8.decodeFrom 0 .fresh (bytes.take (readBefore bytes.length fault))
    (finishedLines text, some fault)

/-- The values that a line holds, as text. -/
def tokens (line : List Char) : List String :=
  (fieldsWhere isBlank (beforeComment line)).map String.ofList

/-- The integers that tokens stand for. -/
def readTokens : List String → Except Error (List Int)
  | [] => .ok []
  | token :: rest =>
    match Numeral.read token with
    | .error _ => .error (.badValue token)
    | .ok value => do return value :: (← readTokens rest)

/-- The integers in an input file. -/
def read (bytes : List UInt8) : Except Error (List Int) := do
  let (lines, fault) := lines bytes
  let values ← readTokens (lines.flatMap tokens)
  match fault with
  | none => return values
  | some fault => throw (.badEncoding fault)

end MicroLang.Machine.InputFile
