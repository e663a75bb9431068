/-!
# Instructions

An instruction is an opcode with operands that are kept as text: what an operand means is settled
when the instruction runs.
-/

namespace MicroLang.Assembly

/-- The operations of the machine. -/
inductive Opcode where
  | li | lw | sw | move
  | add | sub | addi
  | jal | jr | syscall
deriving DecidableEq

namespace Opcode

/-- The word for an operation in a listing. -/
def mnemonic : Opcode → String
  | li => "li"
  | lw => "lw"
  | sw => "sw"
  | move => "move"
  | add => "add"
  | sub => "sub"
  | addi => "addi"
  | jal => "jal"
  | jr => "jr"
  | syscall => "syscall"

/-- All operations. -/
def all : List Opcode :=
  [li, lw, sw, move, add, sub, addi, jal, jr, syscall]

/-- The operation that a word stands for. -/
def ofMnemonic? (word : String) : Option Opcode :=
  all.find? fun op => op.mnemonic == word

/-- Each operation is read back from its word. -/
theorem ofMnemonic?_mnemonic (op : Opcode) : ofMnemonic? op.mnemonic = some op := by
  cases op <;> decide +kernel

end Opcode

/-- An operation and its operands. -/
structure Instr where
  opcode : Opcode
  args : List String
deriving DecidableEq

/-- The text of an instruction: the mnemonic, and the operands with commas between them. -/
def Instr.text (i : Instr) : String :=
  if i.args.isEmpty then i.opcode.mnemonic
  else i.opcode.mnemonic ++ " " ++ ", ".intercalate i.args

/-- The operand for the word at an offset from the address in a register. -/
def memoryOperand (offset : Int) (base : String) : String :=
  toString offset ++ "(" ++ base ++ ")"

/-- Bytes in a word. -/
def wordSize : Nat := 4

end MicroLang.Assembly
