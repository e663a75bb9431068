import MicroLang.Assembly.Image

/-!
# Faults of the machine

Why the machine does not start or does not finish an instruction. A fault that names an integer in
decimal holds one that can be written; where the integer is too long for that, this is the fault
instead (`Fault.naming`).
-/

namespace MicroLang.Machine

open MicroLang.Assembly
open MicroLang.Text

/-- Why the machine stops without halting. -/
inductive Fault where
  | noEntry (label : String)
  | tickLimit (limit : Numeral.Short)
  | pcOutOfRange (pc : Numeral.Short)
  | wrongArity (opcode : Opcode) (expected got : Nat)
  | unknownRegister (name : String)
  | badOperand (text : String)
  | unaligned (address : Int)
  | unknownLabel (name : String)
  | unsupportedCall (code : Numeral.Short)
  /-- An operand that has to be an integer or a character is none, or an integer that has to be
  shown is too long. -/
  | badWord (error : WordError)
deriving DecidableEq

/-- The message of a fault. -/
def Fault.message : Fault → String
  | noEntry label => "no entry label " ++ quoted label
  | tickLimit limit => s!"tick limit {limit.val} exceeded"
  | pcOutOfRange pc => s!"pc out of range: {pc.val}"
  | wrongArity opcode expected got =>
    opcode.mnemonic ++ s!" expects {expected} operands, got {got}"
  | unknownRegister name => "unknown register " ++ name
  | badOperand text => "bad memory operand " ++ quoted text
  | unaligned address => "unaligned word access at " ++ Numeral.hexadecimal address
  | unknownLabel name => "unknown label " ++ quoted name
  | unsupportedCall code => s!"unsupported syscall {code.val}"
  | badWord error => error.message

/-- An integer that has to be shown is too long. -/
abbrev Fault.unwritable : Fault :=
  badWord (.badInteger .unwritable)

/-- A fault that names an integer, if the integer can be written. -/
def Fault.naming (fault : Numeral.Short → Fault) (n : Int) : Fault :=
  if h : Numeral.IsShort n then fault ⟨n, h⟩ else unwritable

section

variable {fault : Numeral.Short → Fault} {n : Int}

theorem naming_of_short (h : Numeral.IsShort n) : Fault.naming fault n = fault ⟨n, h⟩ :=
  dif_pos h

theorem naming_of_long (h : ¬ Numeral.IsShort n) : Fault.naming fault n = .unwritable :=
  dif_neg h

end

/-- An integer in decimal, if it can be written. -/
def decimal (n : Int) : Except Fault String :=
  if Numeral.IsShort n then .ok (toString n) else .error .unwritable

end MicroLang.Machine
