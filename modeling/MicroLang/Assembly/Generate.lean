import MicroLang.Assembly.Frame
import MicroLang.Assembly.Listing
import MicroLang.CompileError
import MicroLang.Event

/-!
# Code generation

Code is generated statement by statement into one list, with slots from one frame. The value of an
expression is an operand: a literal as it is, or the slot of a variable or of an intermediate
result. Operators take their operands through `$t0` and `$t1`. A failing generator keeps the code
and the slots that it made before.

A chain of operators leans to the left and can be very long, so it is not followed by recursion on
its left operands: `spine` walks down to the leftmost operand, and collects the operators and right
operands that `combine` then applies one after the other.
-/

namespace MicroLang.Assembly

open MicroLang.Program (Expr Operator)

/-- Where the value of an expression is. -/
inductive Operand where
  | slot (offset : Int)
  | immediate (value : Int)
deriving DecidableEq

/-- The code and the frame so far, and the events reported. -/
structure Generator where
  code : Array Instr := #[]
  frame : Frame := {}
  log : Array Event := #[]

/-- A generating step: a result or an error, and the code and frame it leaves in either case. -/
abbrev Gen := EStateM GenError Generator

namespace Gen

/-- Adds an instruction. -/
def emit (opcode : Opcode) (args : List String) : Gen Unit :=
  modify fun g => { g with code := g.code.push ⟨opcode, args⟩ }

/-- Reports an event. -/
def report (event : Event) : Gen Unit :=
  modify fun g => { g with log := g.log.push event }

/-- A new slot. -/
def newSlot : Gen Nat :=
  modifyGet fun g =>
    let (offset, frame) := g.frame.grow
    (offset, { g with frame })

/-- The slot of a variable, which is made when the variable is met first. -/
def variableSlot (name : String) : Gen Nat := do
  match (← get).frame.slot? name with
  | some offset => return offset
  | none =>
    let offset ← modifyGet fun g =>
      let (offset, frame) := g.frame.bind name
      (offset, { g with frame })
    report (.allocated name offset)
    return offset

/-- The operand for a slot. -/
def slotOperand (offset : Int) : String :=
  memoryOperand offset "$fp"

/-- Loads an operand into a register. Any integer can be a literal, so it may be too long to be
written; offsets number the words of a frame. -/
def load (register : String) : Operand → Gen Unit
  | .slot offset => emit .lw [register, slotOperand offset]
  | .immediate value =>
    if Text.Numeral.IsShort value then emit .li [register, toString value]
    else throw .longLiteral

/-- The operation for an operator. -/
def opcodeOf : Operator → Opcode
  | .add => .add
  | .sub => .sub

/-- The result of an operator on two operands, in a new slot. -/
def apply (op : Operator) (lhs rhs : Operand) : Gen Operand := do
  load "$t0" lhs
  load "$t1" rhs
  emit (opcodeOf op) ["$t0", "$t0", "$t1"]
  let offset ← newSlot
  emit .sw ["$t0", slotOperand offset]
  return .slot offset

/-- The number of operands and operators in an expression. -/
def chainSize : Expr → Nat
  | .binary _ lhs rhs => chainSize lhs + chainSize rhs + 1
  | _ => 1

/-- An expression has an operand. -/
theorem chainSize_pos (e : Expr) : 0 < chainSize e := by
  cases e <;> simp [chainSize]

/-- The size of the right operands that wait to be combined. -/
def pendingSize : List (Operator × Expr) → Nat
  | [] => 0
  | (_, rhs) :: pending => chainSize rhs + pendingSize pending

mutual

/-- The value of an expression, combined with the operators and right operands that wait. -/
def spine : Expr → List (Operator × Expr) → Gen Operand
  | .binary op lhs rhs, pending => spine lhs ((op, rhs) :: pending)
  | .var name, pending => do
    let offset ← variableSlot name
    combine (.slot offset) pending
  | .int value, pending => combine (.immediate value) pending
  | .call routine _, _ => throw (.callAsValue routine)
  | .assign name value, _ => throw (.noValue (Expr.assign name value).form)
termination_by e pending => 2 * (chainSize e + pendingSize pending)
decreasing_by
  all_goals simp only [chainSize, pendingSize]
  all_goals omega

/-- A value combined with operators and right operands, the first of them first. -/
def combine : Operand → List (Operator × Expr) → Gen Operand
  | acc, [] => return acc
  | acc, (op, rhs) :: pending => do
    let operand ← spine rhs []
    let result ← apply op acc operand
    combine result pending
termination_by _ pending => 2 * pendingSize pending + 1
decreasing_by
  all_goals have := chainSize_pos rhs
  all_goals simp only [pendingSize]
  all_goals omega

end

/-- The value of an expression. -/
def expression (e : Expr) : Gen Operand :=
  spine e []

/-- Code that reads an input into a variable. -/
def readInto : Expr → Gen Unit
  | .var name => do
    let offset ← variableSlot name
    emit .jal ["read"]
    emit .sw ["$v0", slotOperand offset]
  | _ => throw .readIntoValue

/-- Code that writes the value of an expression. -/
def writeFrom (e : Expr) : Gen Unit := do
  load "$a0" (← expression e)
  emit .jal ["write"]

/-- Code for a statement. -/
def statement : Expr → Gen Unit
  | .call .read args => args.forM readInto
  | .call .write args => args.forM writeFrom
  | .assign name value => do
    let target ← variableSlot name
    load "$t0" (← expression value)
    emit .sw ["$t0", slotOperand target]
  | e => throw (.notStatement e.form)

/-- Code for a program. -/
def program (p : Program) : Gen Unit := do
  p.forM statement
  let g ← get
  report (.generated g.code.size g.frame.size)

end Gen

/-- The text of the listing with all code so far as its body. A frame that fits into the memory has
a size that can be written. -/
def Generator.listing (g : Generator) : String :=
  Listing.render g.code.toList g.frame.size

end MicroLang.Assembly
