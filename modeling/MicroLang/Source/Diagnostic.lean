import MicroLang.Source.Scanner

/-!
# Diagnostics

What is said about a fault of a source text: the stage that found it, a message, and the place, from
which an excerpt with a marked line is written. A line that is zero or negative means that the fault
has no place.
-/

namespace MicroLang.Source

open MicroLang.Text

/-- The stages that find faults. -/
inductive Stage where
  | general
  | lexing
  | parsing
  | generating
deriving DecidableEq

/-- The word for a stage in an excerpt. -/
def Stage.label : Stage → String
  | general => "compile"
  | lexing => "syntax"
  | parsing => "parse"
  | generating => "codegen"

/-- A fault of a source text and its place. -/
structure Diagnostic where
  stage : Stage
  message : String
  line : Int
  col : Int
  length : Int

namespace Diagnostic

/-- A diagnostic marks at least one character. -/
def ofPlace (stage : Stage) (message : String) (line col length : Int) : Diagnostic :=
  ⟨stage, message, line, col, max 1 length⟩

/-- A diagnostic about a lexeme that stands where another was expected. -/
def ofFound (message : String) (found : Lexeme) (line col length : Int) : Diagnostic :=
  ofPlace .parsing (message ++ ", found " ++ found.describe) line col length

/-- The message, with the place if there is one. -/
def summary (d : Diagnostic) : String :=
  if 0 < d.line then d.message ++ s!" at {d.line}:{d.col}" else d.message

/-- The line of the source text that a diagnostic points at. -/
def sourceLine? (d : Diagnostic) (source : String) : Option (List Char) :=
  if 0 < d.line then
    (splitWhere (· == '\n') source.toList)[d.line.toNat - 1]?.map (trimRight (· == '\r'))
  else none

/-- A number at the right end of a field of five characters. -/
def alignRight (n : Int) : List Char :=
  let digits := (toString n).toList
  List.replicate (5 - digits.length) ' ' ++ digits

/-- The message with its stage and, if it points at a line of the source text, that line with the
place marked. -/
def render (d : Diagnostic) (source : String) : String :=
  let head := "microc: " ++ d.stage.label ++ " error: " ++ d.message
  match d.sourceLine? source with
  | none => head
  | some text =>
    let indent := List.replicate (d.col - 1).toNat ' '
    let marks := List.replicate d.length.toNat '^'
    "\n".intercalate [
      head,
      s!"    --> {d.line}:{d.col}",
      "      |",
      String.ofList (alignRight d.line) ++ " | " ++ String.ofList text,
      "      | " ++ String.ofList (indent ++ marks)]

end Diagnostic

/-- The message of a fault. -/
def LexFault.message : LexFault → String
  | unexpected text => "unexpected " ++ quoted text
  | loneColon => "expected '=' after ':'"
  | outOfRange => "integer literal out of range"
  | tooLong digits => (Numeral.Error.tooLong digits).message

namespace LexError

/-- The token that a run of unexpected characters would be. -/
def token? (e : LexError) : Option Token :=
  match e.fault with
  | .unexpected text => some ⟨.unknown text, e.line, e.col, e.length⟩
  | _ => none

/-- The diagnostic of a lexical error. A literal with too many digits is refused without one. -/
def diagnostic? (e : LexError) : Option Diagnostic :=
  match e.fault with
  | .tooLong _ => none
  | fault => some (.ofPlace .lexing fault.message e.line e.col e.length)

end LexError

end MicroLang.Source
