import MicroLang.Machine.Fault

/-!
# Registers and memory

The machine has eight registers of 32 bits, of which `$zero` is always zero, and a memory of words
at addresses that are multiples of four. Writing a register or a word keeps the signed residue of
the value.
-/

namespace MicroLang.Machine

open MicroLang.Assembly

/-- The number between `-2 ^ 31` and `2 ^ 31 - 1` with the same residue modulo `2 ^ 32`. -/
def wrap (value : Int) : Int :=
  value.bmod 0x100000000

/-- The address above the first stack frame. -/
def stackTop : Int := 0x7FFFEFFC

/-- The registers. -/
inductive Register where
  | zero | v0 | a0 | t0 | t1 | sp | fp | ra
deriving DecidableEq

namespace Register

/-- The name of a register in a listing. -/
def name : Register → String
  | zero => "$zero"
  | v0 => "$v0"
  | a0 => "$a0"
  | t0 => "$t0"
  | t1 => "$t1"
  | sp => "$sp"
  | fp => "$fp"
  | ra => "$ra"

/-- All registers. -/
def all : List Register :=
  [zero, v0, a0, t0, t1, sp, fp, ra]

/-- The register with a name. -/
def ofName? (text : String) : Option Register :=
  all.find? fun r => r.name == text

/-- Each register is found by its name. -/
theorem ofName?_name (r : Register) : ofName? r.name = some r := by
  cases r <;> decide +kernel

end Register

/-- The values of the registers other than `$zero`. -/
structure Registers where
  v0 : Int := 0
  a0 : Int := 0
  t0 : Int := 0
  t1 : Int := 0
  sp : Int := stackTop
  fp : Int := 0
  ra : Int := 0
deriving DecidableEq

namespace Registers

/-- The value of a register. -/
def get (regs : Registers) : Register → Int
  | .zero => 0
  | .v0 => regs.v0
  | .a0 => regs.a0
  | .t0 => regs.t0
  | .t1 => regs.t1
  | .sp => regs.sp
  | .fp => regs.fp
  | .ra => regs.ra

/-- Writes a register. -/
def set (regs : Registers) (r : Register) (value : Int) : Registers :=
  match r with
  | .zero => regs
  | .v0 => { regs with v0 := wrap value }
  | .a0 => { regs with a0 := wrap value }
  | .t0 => { regs with t0 := wrap value }
  | .t1 => { regs with t1 := wrap value }
  | .sp => { regs with sp := wrap value }
  | .fp => { regs with fp := wrap value }
  | .ra => { regs with ra := wrap value }

/-- A register reads as it was written last; `$zero` ignores writes. -/
theorem get_set (regs : Registers) (r q : Register) (value : Int) :
    (regs.set r value).get q = if q = r ∧ r ≠ .zero then wrap value else regs.get q := by
  cases r <;> cases q <;> rfl

end Registers

/-- The registers, and the words of the memory by address; a word that is missing is zero. -/
structure Storage where
  regs : Registers := {}
  memory : Std.TreeMap Int Int := ∅

namespace Storage

/-- The register that a text names. -/
def register (name : String) : Except Fault Register :=
  match Register.ofName? name with
  | some r => .ok r
  | none => .error (.unknownRegister name)

/-- The value of the register with a name. -/
def readRegister (d : Storage) (name : String) : Except Fault Int := do
  return d.regs.get (← register name)

/-- Writes the register with a name. -/
def writeRegister (d : Storage) (name : String) (value : Int) : Except Fault Storage := do
  return { d with regs := d.regs.set (← register name) value }

/-- Refuses an address that is no multiple of the word size. -/
def checkAligned (address : Int) : Except Fault Unit :=
  if address % wordSize = 0 then .ok () else .error (.unaligned address)

/-- The word at an address. -/
def loadWord (d : Storage) (address : Int) : Except Fault Int := do
  checkAligned address
  return d.memory.getD address 0

/-- Writes the word at an address. -/
def storeWord (d : Storage) (address value : Int) : Except Fault Storage := do
  checkAligned address
  return { d with memory := d.memory.insert address (wrap value) }

end Storage

end MicroLang.Machine
