import MicroLang.Text.Numeral

/-!
# Words as text

A word of a listing is an integer in any radix or a character between single quotes, which may be
one of six escapes.
-/

namespace MicroLang.Assembly

open MicroLang.Text

/-- Why a text is no word. -/
inductive WordError where
  /-- More or less than one character stands between the quotes. -/
  | badCharacter (text : String)
  /-- The text is no integer. -/
  | badInteger (error : Numeral.Error)
deriving DecidableEq

/-- The message of an error. -/
def WordError.message : WordError → String
  | badCharacter text => "bad character literal " ++ text
  | badInteger error => error.message

/-- The code of the character that stands for itself, or of an escape, between quotes. -/
def characterCode? : List Char → Option Nat
  | [c] => some c.toNat
  | ['\\', 'n'] => some 10
  | ['\\', 't'] => some 9
  | ['\\', 'r'] => some 13
  | ['\\', '0'] => some 0
  | ['\\', '\\'] => some 92
  | ['\\', '\''] => some 39
  | _ => none

/-- What stands between the quotes of a text that starts and ends with one and has more than
that. -/
def unquoted? : List Char → Option (List Char)
  | '\'' :: c :: cs => if cs.getLast? = some '\'' then some (c :: cs.dropLast) else none
  | _ => none

/-- An integer of a listing, as `Numeral.read` reads it. -/
def readInteger (text : String) : Except WordError Int :=
  match Numeral.read text with
  | .ok value => .ok value
  | .error e => .error (.badInteger e)

/-- The value of a word. -/
def readWord (text : String) : Except WordError Int :=
  match unquoted? text.toList with
  | none => readInteger text
  | some inner =>
    match characterCode? inner with
    | some code => .ok code
    | none => .error (.badCharacter text)

end MicroLang.Assembly
