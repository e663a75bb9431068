import MicroLang.Assembly.Entry
import MicroLang.Assembly.Word
import Std.Data.TreeMap

/-!
# Images

An image is what a listing says, ready to run: the instructions in order, the labels of either
section, and the words of the data section, which lie one after the other from `dataBase` on. A
label that is defined again has its last meaning.
-/

namespace MicroLang.Assembly

open MicroLang.Text

/-- The address of the first data word. -/
def dataBase : Int := 0x10010000

/-- Instructions, the labels that count instructions, the labels that are addresses, and the data
words by address. Data words are kept as they are written. -/
structure Image where
  code : Array Instr := #[]
  textLabels : Std.TreeMap String Int := ∅
  dataLabels : Std.TreeMap String Int := ∅
  data : Std.TreeMap Int Int := ∅

/-- Why a listing is not read. -/
inductive ListingError where
  /-- A data word in the text section. -/
  | strayWord (line : Nat)
  /-- A line that starts with no mnemonic. -/
  | unknownMnemonic (line : Nat) (word : String)
  /-- A data word that cannot be read. -/
  | badWord (error : WordError)
deriving DecidableEq

/-- The message of an error. -/
def ListingError.message : ListingError → String
  | strayWord line => s!"line {line}: .word outside of .data"
  | unknownMnemonic line word => s!"line {line}: unknown mnemonic " ++ quoted word
  | badWord error => error.message

/-- The image of the lines so far, the section that the next line is in, and the address of the next
data word. -/
structure Loader where
  image : Image := {}
  current : Section := .text
  next : Int := dataBase

namespace Loader

/-- Defines a label at this place. -/
def define (l : Loader) (name : String) : Loader :=
  match l.current with
  | .text =>
    let textLabels := l.image.textLabels.insert name l.image.code.size
    { l with image := { l.image with textLabels } }
  | .data =>
    let dataLabels := l.image.dataLabels.insert name l.next
    { l with image := { l.image with dataLabels } }

/-- Adds a data word. -/
def addWord (l : Loader) (value : Int) : Loader :=
  { l with
    image := { l.image with data := l.image.data.insert l.next value }
    next := l.next + wordSize }

/-- Reads and adds data words. -/
def addWords (l : Loader) : List String → Except WordError Loader
  | [] => .ok l
  | item :: items => do
    let value ← readWord item
    (l.addWord value).addWords items

/-- Adds an instruction. -/
def addInstr (l : Loader) (i : Instr) : Loader :=
  { l with image := { l.image with code := l.image.code.push i } }

/-- Adds what the line with the given number says. -/
def add (l : Loader) (line : Nat) : Entry → Except ListingError Loader
  | .nothing | .global => .ok l
  | .label name => .ok (l.define name)
  | .opening s => .ok { l with current := s }
  | .words items =>
    if l.current = .data then
      match l.addWords items with
      | .ok l => .ok l
      | .error e => .error (.badWord e)
    else .error (.strayWord line)
  | .instr i => .ok (l.addInstr i)
  | .unknown word => .error (.unknownMnemonic line word)

/-- Adds lines, the first of which has the given number. -/
def addLines (l : Loader) (line : Nat) : List (List Char) → Except ListingError Loader
  | [] => .ok l
  | text :: texts => do
    let l ← l.add line (Entry.read text)
    l.addLines (line + 1) texts

end Loader

/-- The image of a listing. -/
def Image.ofListing (listing : String) : Except ListingError Image := do
  let l ← Loader.addLines {} 1 (splitLines listing.toList)
  return l.image

end MicroLang.Assembly
