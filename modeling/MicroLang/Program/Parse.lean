import MicroLang.CompileError
import MicroLang.Source.TokenStream

/-!
# Parsing

Parsers read the significant tokens of a source text with one token of lookahead. A parser that
fails leaves the tokens where it stopped, so that others can go on from there.

An expression is a chain of primaries between operators, folded to the left. At most `maxNesting`
expressions are open at once: `expressionWithin` counts down the levels that are left, and the
parsers of primaries and arguments take the parser for the expressions inside them. A loop runs at
most once for each token ahead, as every turn of it consumes one.
-/

namespace MicroLang.Program

open MicroLang.Source

/-- The tokens ahead, the current one first, what is met after them, the token that was consumed
last, and the events reported so far. -/
structure ParseState where
  ahead : List Token
  ending : Ending
  last : Option Token := none
  log : Array Event := #[]

/-- The current token; past the last one it is the end of the input. -/
def ParseState.current (s : ParseState) : Token :=
  s.ahead.head?.getD (.eofAfter s.last)

/-- The state before the first token of a stream, which is pulled at once. -/
def ParseState.start (stream : TokenStream) : Except LexError ParseState :=
  match stream.tokens with
  | [] => do
    let events ← TokenStream.close stream.ending
    return { ahead := [], ending := .closed, log := events.toArray }
  | tokens => .ok { ahead := tokens, ending := stream.ending }

/-- A parser: a result or an error, and the state it leaves in either case. -/
abbrev Parse := EStateM CompileError ParseState

namespace Parse

/-- The deepest nesting of expressions. -/
def maxNesting : Nat := 200

/-- The current token. -/
def current : Parse Token := do
  return (← get).current

/-- The number of tokens ahead. -/
def tokensAhead : Parse Nat := do
  return (← get).ahead.length

/-- Consumes the current token. If a fault follows it, the token stays and the stream is closed. -/
def advance : Parse Token := fun s =>
  match s.ahead with
  | [] => .ok s.current s
  | [t] =>
    match TokenStream.close s.ending with
    | .error e => .error (.lexical e) { s with ending := .closed }
    | .ok events =>
      .ok t { ahead := [], ending := .closed, last := some t, log := s.log ++ events }
  | t :: rest => .ok t { s with ahead := rest, last := some t }

/-- Fails at a token. -/
def fail {α : Type} (fault : ParseFault) (token : Token) : Parse α :=
  throw (.syntactic ⟨fault, token⟩)

/-- Reports an event. -/
def report (event : Event) : Parse Unit :=
  modify fun s => { s with log := s.log.push event }

/-- Consumes a token of the given kind; `what` says in a message what has to stand here. -/
def expect (kind : TokenKind) (what : String) : Parse Token := do
  let t ← current
  if t.kind = kind then advance else fail (.expected what) t

/-- Consumes a token of the given kind, for which a message gives its spelling. -/
def expectKind (kind : TokenKind) : Parse Token :=
  expect kind (Text.quoted kind.spelling)

/-- The operator that a token stands for. -/
def operator? : Lexeme → Option Operator
  | .plus => some .add
  | .minus => some .sub
  | _ => none

/-- Operators and operands that follow a left operand, at most `n` of them. -/
def chainLoop (operand : Parse Expr) : Nat → Expr → Parse Expr
  | 0, lhs => return lhs
  | n + 1, lhs => do
    match operator? (← current).lexeme with
    | none => return lhs
    | some op =>
      let _ ← advance
      let rhs ← operand
      chainLoop operand n (.binary op lhs rhs)

/-- All operators and operands that follow a left operand. -/
def chain (operand : Parse Expr) (lhs : Expr) : Parse Expr := do
  chainLoop operand (← tokensAhead) lhs

/-- At most `n` arguments, with commas between them and the closing parenthesis after them. -/
def argumentLoop (expression : Parse Expr) : Nat → Parse (List Expr)
  | 0 => do fail .noExpression (← current)
  | n + 1 => do
    let arg ← expression
    if (← current).kind = .rightParen then
      let _ ← advance
      return [arg]
    else
      let _ ← expect .comma "',' or ')'"
      return arg :: (← argumentLoop expression n)

/-- The arguments of a call after its opening parenthesis. -/
def argumentsWith (expression : Parse Expr) : Parse (List Expr) := do
  if (← current).kind = .rightParen then
    let _ ← advance
    return []
  else
    argumentLoop expression ((← tokensAhead) + 1)

/-- A call of a routine whose name is the current token. -/
def callWith (expression : Parse Expr) (routine : Routine) : Parse Expr := do
  let _ ← advance
  let _ ← expectKind .leftParen
  return .call routine (← argumentsWith expression)

/-- A literal, a variable, a call or an expression in parentheses. -/
def primaryWith (expression : Parse Expr) : Parse Expr := do
  let t ← current
  match t.lexeme with
  | .identifier name =>
    let _ ← advance
    if (← current).kind = .leftParen then fail (.unknownRoutine name) t else return .var name
  | .readKw => callWith expression .read
  | .writeKw => callWith expression .write
  | .literal value =>
    let _ ← advance
    return .int value
  | .leftParen =>
    let _ ← advance
    let e ← expression
    let _ ← expect .rightParen "')'"
    return e
  | _ => fail .noExpression t

/-- An expression inside which at most `levels` expressions are open, itself included. -/
def expressionWithin : (levels : Nat) → Parse Expr
  | 0 => do fail (.tooDeep maxNesting) (← current)
  | levels + 1 => do
    let primary := primaryWith (expressionWithin levels)
    chain primary (← primary)

/-- An expression. -/
def expression : Parse Expr :=
  expressionWithin maxNesting

/-- A primary that is not inside an expression. -/
def primary : Parse Expr :=
  primaryWith expression

/-- The arguments of a call that is not inside an expression. -/
def arguments : Parse (List Expr) :=
  argumentsWith expression

/-- An assignment. -/
def assignment : Parse Expr := do
  let t ← current
  match t.lexeme with
  | .identifier name =>
    let _ ← advance
    let _ ← expectKind .assign
    return .assign name (← expression)
  | _ => fail (.expected "identifier") t

/-- A statement: an assignment if it starts with an identifier, and a call otherwise. -/
def statement : Parse Expr := do
  let start ← current
  if start.kind = .identifier then assignment
  else
    match ← expression with
    | .call routine args => return .call routine args
    | _ => fail .noStatement start

/-- Skips at most `n` tokens before the opening word; gives their number, or nothing at the end of
the input. -/
def skipLoop : (n skipped : Nat) → Parse (Option Nat)
  | 0, _ => return none
  | n + 1, skipped => do
    match (← current).kind with
    | .beginKw => return some skipped
    | .eof => return none
    | _ =>
      let _ ← advance
      skipLoop n (skipped + 1)

/-- Statements and semicolons, at most `n` of them, up to the closing word or the end of the input,
which stay. -/
def statementLoop : (n : Nat) → Parse (List Expr)
  | 0 => return []
  | n + 1 => do
    match (← current).kind with
    | .endKw | .eof => return []
    | .semicolon =>
      let _ ← advance
      statementLoop n
    | _ =>
      let s ← statement
      return s :: (← statementLoop n)

/-- The program between the first opening word and the closing word after it. Without an opening
word it is empty, and without a closing word it ends with the input. -/
def program : Parse Program := do
  match ← skipLoop ((← tokensAhead) + 1) 0 with
  | none =>
    report .noBegin
    return []
  | some skipped =>
    if skipped ≠ 0 then report (.skipped skipped)
    let _ ← expectKind .beginKw
    let statements ← statementLoop ((← tokensAhead) + 1)
    if (← current).kind = .eof then report .noEnd else report (.parsed statements.length)
    return statements

end Parse

/-- The program of a source text, or the first error in it, and the events reported on the way. -/
def parse (source : String) : Except CompileError Program × Array Event :=
  match ParseState.start (.ofSource source) with
  | .error e => (.error (.lexical e), #[])
  | .ok s =>
    match Parse.program s with
    | .ok program s => (.ok program, s.log)
    | .error e s => (.error e, s.log)

end MicroLang.Program
