import Mathlib.Algebra.Ring.Nat
import MicroLang.Program.Expr

/-!
# The meaning of programs

A reference interpreter that knows nothing of machines. Variables hold integers of any size, and are
zero until they are set. Statements run one after the other. Reading takes the next input, or zero
when there is none left, and writing prints the signed residue of a value modulo `2 ^ 32` on a line
of its own. Trees that are neither a statement nor a value have no meaning.

`runLength` is the number of instructions that a program takes on the machine. It does not depend on
inputs, as no statement does.
-/

namespace MicroLang.Program

/-- The result of an operator. -/
def Operator.apply : Operator → Int → Int → Int
  | add, lhs, rhs => lhs + rhs
  | sub, lhs, rhs => lhs - rhs

namespace Expr

/-- The value of an expression, where it has one. -/
def value (env : String → Int) : Expr → Option Int
  | int n => some n
  | var name => some (env name)
  | binary op lhs rhs => do return op.apply (← lhs.value env) (← rhs.value env)
  | call .. => none
  | assign .. => none

/-- The number of operators outside of calls and assignments. -/
def operators : Expr → Nat
  | binary _ lhs rhs => lhs.operators + rhs.operators + 1
  | _ => 0

end Expr

/-- The variables, the inputs that are left and the text printed so far. -/
structure World where
  env : String → Int := fun _ => 0
  input : List Int
  output : String := ""

namespace World

/-- Sets a variable. -/
def set (w : World) (name : String) (value : Int) : World :=
  { w with env := fun other => if other = name then value else w.env other }

/-- Reads the next input into a variable. -/
def read (w : World) : Expr → Option World
  | .var name =>
    match w.input with
    | [] => some (w.set name 0)
    | value :: rest => some ({ w with input := rest }.set name value)
  | _ => none

/-- Prints the value of an expression. -/
def write (w : World) (e : Expr) : Option World := do
  let value ← e.value w.env
  return { w with output := w.output ++ toString (value.bmod (2 ^ 32)) ++ "\n" }

/-- Runs a statement. -/
def execute (w : World) : Expr → Option World
  | .call .read args => args.foldlM read w
  | .call .write args => args.foldlM write w
  | .assign name e => do return w.set name (← e.value w.env)
  | _ => none

end World

/-- What a program prints. -/
def interpret (p : Program) (inputs : List Int) : Option String := do
  return (← p.foldlM World.execute { input := inputs }).output

/-- The number of instructions for a statement. A call of `read` takes five for each argument, and a
call of `write` nine besides those for the operators. -/
def statementLength : Expr → Nat
  | .call .read args => 5 * args.length
  | .call .write args => (args.map fun e => 4 * e.operators + 9).sum
  | .assign _ e => 4 * e.operators + 2
  | _ => 0

/-- The number of instructions for a program, with the ten that open and close its frame. -/
def runLength (p : Program) : Nat :=
  (p.map statementLength).sum + 10

end MicroLang.Program
