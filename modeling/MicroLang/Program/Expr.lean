/-!
# Programs

A program is a list of statements, and a statement is an expression: an assignment or a call of one
of the two routines. The type lets assignments and calls stand inside other expressions; which
programs have code is a question for code generation.

Only a variable can be assigned to, and the type says so: what stands on the left of an assignment
is a name. Everywhere else any expression can stand, the arguments of `read` included.
-/

namespace MicroLang.Program

/-- The two operators, which have one precedence and group to the left. -/
inductive Operator where
  | add
  | sub
deriving DecidableEq

/-- The routines that a program can call. -/
inductive Routine where
  | read
  | write
deriving DecidableEq

/-- The name of a routine, in programs and in listings. -/
def Routine.name : Routine → String
  | read => "read"
  | write => "write"

/-- Expressions and statements. -/
inductive Expr where
  | int (value : Int)
  | var (name : String)
  | binary (op : Operator) (lhs rhs : Expr)
  | call (routine : Routine) (args : List Expr)
  | assign (name : String) (value : Expr)

/-- How messages name the form of an expression. -/
def Expr.form : Expr → String
  | int _ => "IntLit"
  | var _ => "Var"
  | binary .. => "BinOp"
  | call .. => "Syscall"
  | assign .. => "Assign"

end MicroLang.Program

namespace MicroLang

/-- A program: its statements in order. -/
abbrev Program := List Program.Expr

end MicroLang
