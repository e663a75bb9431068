import MicroLang.Program.Expr
import MicroLang.Source.Diagnostic

/-!
# Errors of compilation

A source text can fail to compile because some of it is no token, because its tokens do not follow
the grammar, or because the program they form has no code. A literal that is too long to be written
into a listing is no part of a source text, but can be part of a program that was made otherwise.
-/

namespace MicroLang

open MicroLang.Source
open MicroLang.Program (Routine)

/-- Why a token is refused by the grammar. -/
inductive ParseFault where
  /-- Something else has to stand here. -/
  | expected (what : String)
  /-- An expression has to stand here. -/
  | noExpression
  /-- The expression that starts here is no statement. -/
  | noStatement
  /-- Too many expressions are open here. -/
  | tooDeep (levels : Nat)
  /-- A name is used like a routine. -/
  | unknownRoutine (name : String)
deriving DecidableEq

/-- The message of a fault, without the token that was found. -/
def ParseFault.message : ParseFault → String
  | expected what => "expected " ++ what
  | noExpression => "expected an expression"
  | noStatement => "expected an assignment or a read/write call"
  | tooDeep levels => s!"expression nested deeper than {levels} levels"
  | unknownRoutine name => "unknown syscall " ++ Text.quoted name

/-- A token that the grammar refuses. -/
structure ParseError where
  fault : ParseFault
  token : Token
deriving DecidableEq

/-- The diagnostic of a refused token. -/
def ParseError.diagnostic (e : ParseError) : Diagnostic :=
  .ofFound e.fault.message e.token.lexeme e.token.line e.token.col e.token.length

/-- Why a program has no code. -/
inductive GenError where
  /-- A call stands where a value is needed. -/
  | callAsValue (routine : Routine)
  /-- Another statement stands where a value is needed. -/
  | noValue (form : String)
  /-- Something other than a variable is to be read into. -/
  | readIntoValue
  /-- An expression stands where a statement is needed. -/
  | notStatement (form : String)
  /-- A literal has too many digits to be written. -/
  | longLiteral
deriving DecidableEq

/-- The message of a generation error. -/
def GenError.message : GenError → String
  | callAsValue routine => routine.name ++ "() cannot be used as a value"
  | noValue form => "cannot generate code for " ++ form
  | readIntoValue => "read() arguments must be variables"
  | notStatement form => "unexpected top-level statement " ++ form
  | longLiteral => Text.Numeral.Error.unwritable.message

/-- The diagnostic of a generation error, which has no place. -/
def GenError.diagnostic (e : GenError) : Diagnostic :=
  .ofPlace .generating e.message 0 0 1

/-- The diagnostic of a generation error, if it has one. -/
def GenError.diagnostic? : GenError → Option Diagnostic
  | longLiteral => none
  | e => some e.diagnostic

/-- Why a source text does not compile. -/
inductive CompileError where
  | lexical (error : LexError)
  | syntactic (error : ParseError)
  | generation (error : GenError)
deriving DecidableEq

/-- The diagnostic of an error, if it has one. -/
def CompileError.diagnostic? : CompileError → Option Diagnostic
  | lexical e => e.diagnostic?
  | syntactic e => some e.diagnostic
  | generation e => e.diagnostic?

end MicroLang
