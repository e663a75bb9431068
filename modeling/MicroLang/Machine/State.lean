import MicroLang.Machine.Console
import MicroLang.Machine.Storage
import MicroLang.Text.DecimalDigit

/-!
# The machine

A machine runs the instructions of an image. `step` runs the one at the program counter: it fetches
it, which counts a tick, and then executes it. An instruction that fails changes neither registers
nor memory nor console; it leaves the machine as fetching it did. `run` steps until the machine
halts or fails, which it does within its tick limit.
-/

namespace MicroLang

open MicroLang.Assembly
open MicroLang.Machine

/-- The state of a machine. -/
structure Machine where
  image : Image
  storage : Storage
  console : Console
  pc : Int
  tick : Nat := 0
  limit : Int
  halted : Bool := false
  /-- The instruction that was fetched last. -/
  last : Option Instr := none

namespace Machine

/-- The machine at the entry of an image. -/
def boot (image : Image) (inputs : List Int) (limit : Int) (entry : String) :
    Except Fault Machine :=
  match image.textLabels[entry]? with
  | some pc =>
    .ok { image, storage := { memory := image.data }, console := { input := inputs }, pc, limit }
  | none => .error (.noEntry entry)

/-- An offset and a register name in parentheses, which starts with a dollar sign. One line feed may
follow. -/
def indexed? (text : String) : Option (String × String) :=
  let cs := text.toList
  let cs := if cs.getLast? = some '\n' then cs.dropLast else cs
  let (sign, cs) := if cs.head? = some '-' then (['-'], cs.drop 1) else ([], cs)
  let digits := cs.takeWhile Text.isDecimalDigit
  match cs.dropWhile Text.isDecimalDigit with
  | '(' :: '$' :: rest =>
    let name := rest.dropLast
    if !digits.isEmpty && !name.isEmpty && name.all Text.isWordChar && rest.getLast? = some ')' then
      some (String.ofList (sign ++ digits), String.ofList ('$' :: name))
    else none
  | _ => none

/-- The address that a memory operand stands for: an offset from a register, or a data label. -/
def address (m : Machine) (operand : String) : Except Fault Int :=
  match indexed? operand with
  | some (offset, base) => do
    let start ← m.storage.readRegister base
    match Text.Numeral.readDecimal offset with
    | .ok offset => return start + offset
    | .error e => throw (.badWord (.badInteger e))
  | none =>
    match m.image.dataLabels[operand]? with
    | some address => .ok address
    | none => .error (.badOperand operand)

/-- The value of an operand that is a word. -/
def wordOperand (read : String → Except WordError Int) (text : String) : Except Fault Int :=
  match read text with
  | .ok value => .ok value
  | .error e => .error (.badWord e)

/-- The machine after a register was written. -/
def writeRegister (m : Machine) (name : String) (value : Int) : Except Fault Machine := do
  return { m with storage := ← m.storage.writeRegister name value }

/-- The system call that `$v0` asks for: 1 prints an integer, 5 reads one, 10 halts and 11 prints a
character. -/
def systemCall (m : Machine) : Except Fault Machine :=
  let regs := m.storage.regs
  if regs.v0 = 1 then do
    return { m with console := ← m.console.writeInt regs.a0 }
  else if regs.v0 = 5 then
    let (value, console) := m.console.readInt
    .ok { m with console, storage := { m.storage with regs := regs.set .v0 value } }
  else if regs.v0 = 10 then
    .ok { m with halted := true }
  else if regs.v0 = 11 then
    .ok { m with console := m.console.writeChar regs.a0 }
  else
    .error (.naming .unsupportedCall regs.v0)

/-- The number of operands that an operation takes; system calls ignore theirs. -/
def arity : Opcode → Nat
  | .li | .lw | .sw | .move => 2
  | .add | .sub | .addi => 3
  | .jal | .jr => 1
  | .syscall => 0

/-- Executes an instruction on a machine that has fetched it. -/
def execute (m : Machine) (i : Instr) : Except Fault Machine :=
  match i.opcode, i.args with
  | .li, [target, value] => do
    m.writeRegister target (← wordOperand readWord value)
  | .lw, [target, source] => do
    m.writeRegister target (← m.storage.loadWord (← m.address source))
  | .sw, [source, target] => do
    let address ← m.address target
    let value ← m.storage.readRegister source
    return { m with storage := ← m.storage.storeWord address value }
  | .move, [target, source] => do
    m.writeRegister target (← m.storage.readRegister source)
  | .add, [target, lhs, rhs] => do
    m.writeRegister target ((← m.storage.readRegister lhs) + (← m.storage.readRegister rhs))
  | .sub, [target, lhs, rhs] => do
    m.writeRegister target ((← m.storage.readRegister lhs) - (← m.storage.readRegister rhs))
  | .addi, [target, lhs, rhs] => do
    m.writeRegister target ((← m.storage.readRegister lhs) + (← wordOperand readInteger rhs))
  | .jal, [label] =>
    match m.image.textLabels[label]? with
    | some pc =>
      .ok { m with pc, storage := { m.storage with regs := m.storage.regs.set .ra m.pc } }
    | none => .error (.unknownLabel label)
  | .jr, [source] => do
    return { m with pc := ← m.storage.readRegister source }
  | .syscall, _ => m.systemCall
  | opcode, args => .error (.wrongArity opcode (arity opcode) args.length)

/-- The instruction at the program counter. -/
def fetch? (m : Machine) : Option Instr :=
  if 0 ≤ m.pc then m.image.code[m.pc.toNat]? else none

/-- Runs one instruction, unless the machine has halted. -/
def step (m : Machine) : Except Fault Unit × Machine :=
  if m.halted then (.ok (), m)
  else if m.limit ≤ m.tick then (.error (.naming .tickLimit m.limit), m)
  else match m.fetch? with
    | none => (.error (.naming .pcOutOfRange m.pc), m)
    | some i =>
      let fetched := { m with pc := m.pc + 1, tick := m.tick + 1, last := some i }
      match fetched.execute i with
      | .ok m' => (.ok (), m')
      | .error fault => (.error fault, fetched)

end Machine

end MicroLang
