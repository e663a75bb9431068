import MicroLang.Assembly.Listing
import MicroLang.Text.Blank
import MicroLang.Text.Lines
import MicroLang.Text.WordChar

/-!
# Reading the lines of a listing

What one line of a listing says, once its comment and the blanks around it are gone. This does not
depend on the lines before it.
-/

namespace MicroLang.Assembly

open MicroLang.Text

/-- What a line says. -/
inductive Entry where
  | nothing
  | label (name : String)
  | opening (s : Section)
  | global
  | words (items : List String)
  | instr (i : Instr)
  | unknown (mnemonic : String)

namespace Entry

/-- The characters that a label starts with. -/
def isLabelStart (c : Char) : Bool :=
  ('A' ≤ c && c ≤ 'Z') || ('a' ≤ c && c ≤ 'z') || c == '_' || c == '$' || c == '.'

/-- The further characters of a label. -/
def isLabelChar (c : Char) : Bool :=
  isWordChar c || c == '$' || c == '.'

/-- The label that a line defines: a name with a colon right after it, and nothing else. -/
def labelName? (line : List Char) : Option (List Char) :=
  if line.getLast? = some ':' then
    match line.dropLast with
    | c :: cs => if isLabelStart c && cs.all isLabelChar then some (c :: cs) else none
    | [] => none
  else none

/-- What separates operands. -/
def isSeparator (c : Char) : Bool :=
  c == ',' || isBlank c

/-- What stands after a directive, if a line starts with it. -/
def afterDirective? (directive : String) (line : List Char) : Option (List Char) :=
  if directive.toList.isPrefixOf line then some (line.drop directive.length) else none

/-- A line that starts with a mnemonic, or would have to. -/
def readInstr (line : List Char) : Entry :=
  let word := String.ofList (line.takeWhile fun c => !isBlank c)
  let rest := line.dropWhile fun c => !isBlank c
  match Opcode.ofMnemonic? word with
  | some opcode => instr ⟨opcode, (fieldsWhere isSeparator rest).map String.ofList⟩
  | none => unknown word

/-- What a line without comment and outer blanks says. -/
def readContent (line : List Char) : Entry :=
  if line.isEmpty then nothing
  else match labelName? line with
    | some name => label (String.ofList name)
    | none =>
      if line = Section.text.directive.toList then opening .text
      else if line = Section.data.directive.toList then opening .data
      else if (afterDirective? ".globl" line).isSome then global
      else match afterDirective? ".word" line with
        | some rest =>
          words ((splitWhere (· == ',') rest).map fun item => String.ofList (trim isBlank item))
        | none => readInstr line

/-- What a line says. -/
def read (line : List Char) : Entry :=
  readContent (trim isBlank (beforeComment line))

end Entry

end MicroLang.Assembly
