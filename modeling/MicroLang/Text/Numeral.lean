import MicroLang.Text.Blank
import MicroLang.Text.DecimalDigit
import MicroLang.Text.Lines
import MicroLang.Text.Quoted

/-!
# Integers as text

An integer is written with an optional sign and digits of any script, which single low lines may
divide, and may stand between blanks. `read` takes the radix from the beginning (`0x`, `0o` and `0b`
in either case, decimal otherwise) and refuses a decimal that starts with a needless zero;
`readDecimal` always reads decimal. A decimal of more than `digitLimit` digits is refused, whatever
follows it, and so an integer of more digits is not written in decimal either (`IsShort`).
-/

namespace MicroLang.Text.Numeral

/-- Why a text is not read as an integer, or an integer not written as a text. -/
inductive Error where
  /-- The text is not an integer of the form asked for. -/
  | malformed (text : String)
  /-- The text has more decimal digits than are read. -/
  | tooLong (digits : Nat)
  /-- The integer has more decimal digits than are written. -/
  | unwritable
deriving DecidableEq

/-- The most decimal digits that are read, leading zeros included, or written. -/
def digitLimit : Nat := 4300

/-- Integers that can be written in decimal. -/
def IsShort (n : Int) : Prop :=
  (Nat.toDigits 10 n.natAbs).length ≤ digitLimit

instance : DecidablePred IsShort :=
  fun n => inferInstanceAs (Decidable ((Nat.toDigits 10 n.natAbs).length ≤ digitLimit))

/-- An integer together with the proof that it can be written in decimal. -/
abbrev Short := { n : Int // IsShort n }

/-- The most characters of a malformed text, quotes included, that a message shows. -/
def shownLimit : Nat := 200

/-- The message of an error. -/
def Error.message : Error → String
  | .malformed text =>
    "invalid literal for int() with base 0: "
      ++ String.ofList ((quoted text).toList.take shownLimit)
  | .tooLong digits =>
    s!"Exceeds the limit ({digitLimit} digits) for integer string conversion: value has {digits} "
      ++ "digits; use sys.set_int_max_str_digits() to increase the limit"
  | .unwritable =>
    s!"Exceeds the limit ({digitLimit} digits) for integer string conversion; "
      ++ "use sys.set_int_max_str_digits() to increase the limit"

/-- A character as the digits, signs and blanks of ASCII see it: a digit of another script is its
ASCII digit, a blank of another script a space, and any other foreign character a question mark. -/
def plain (c : Char) : Char :=
  if c.toNat < 0x7F then c
  else if isBlank c then ' '
  else match digitValue? c with
    | some value => Nat.digitChar value
    | none => '?'

/-- The blanks that may stand around an integer. -/
def isPadding (c : Char) : Bool :=
  c == ' ' || (0x09 ≤ c.toNat && c.toNat ≤ 0x0D)

/-- The value of an ASCII digit in a radix of at most 16. -/
def digitIn? (radix : Nat) (c : Char) : Option Nat :=
  let value :=
    if '0' ≤ c && c ≤ '9' then c.toNat - 0x30
    else if 'a' ≤ c && c ≤ 'f' then c.toNat - 0x61 + 10
    else if 'A' ≤ c && c ≤ 'F' then c.toNat - 0x41 + 10
    else radix
  if value < radix then some value else none

/-- The number that digits stand for, the most significant one first. -/
def ofDigits (radix : Nat) (digits : List Nat) : Nat :=
  digits.foldl (fun n d => n * radix + d) 0

/-- A number without its sign, and whether the sign is a minus. -/
def dropSign : List Char → Bool × List Char
  | '-' :: cs => (true, cs)
  | '+' :: cs => (false, cs)
  | cs => (false, cs)

/-- The radix that the letter after a leading zero stands for. -/
def markedRadix? (c : Char) : Option Nat :=
  if c == 'x' || c == 'X' then some 16
  else if c == 'o' || c == 'O' then some 8
  else if c == 'b' || c == 'B' then some 2
  else none

/-- The radix that an unsigned number announces, and the number without the announcement; one low
line may follow it. -/
def dropRadix : List Char → Nat × List Char
  | '0' :: mark :: cs =>
    match markedRadix? mark with
    | some radix => (radix, if cs.head? == some '_' then cs.tail else cs)
    | none => (10, '0' :: mark :: cs)
  | cs => (10, cs)

/-- The value of the digits at the front of an unsigned number, and what follows them. Low lines
stand between two digits only. -/
def readDigits (text : String) (radix : Nat) (cs : List Char) : Except Error (Nat × List Char) :=
  let isPart := fun c => c == '_' || (digitIn? radix c).isSome
  let run := cs.takeWhile isPart
  let digits := run.filterMap (digitIn? radix)
  if (splitWhere (· == '_') run).any List.isEmpty then .error (.malformed text)
  else if radix == 10 && digitLimit < digits.length then .error (.tooLong digits.length)
  else .ok (ofDigits radix digits, cs.dropWhile isPart)

/-- The number with the given sign whose digits are all of `cs` but blanks at its end. -/
def readUnsigned (text : String) (negative : Bool) (radix : Nat) (cs : List Char) :
    Except Error Int := do
  let (value, rest) ← readDigits text radix cs
  if rest.all isPadding then
    return if negative then -(value : Int) else value
  else
    throw (.malformed text)

/-- The integer that a text holds in decimal; leading zeros are fine. -/
def readDecimal (text : String) : Except Error Int :=
  let (negative, cs) := dropSign ((text.toList.map plain).dropWhile isPadding)
  readUnsigned text negative 10 cs

/-- The integer that a text holds in the radix that its beginning announces. A decimal has no
leading zero, unless it is zero. -/
def read (text : String) : Except Error Int := do
  let (negative, cs) := dropSign ((text.toList.map plain).dropWhile isPadding)
  let (radix, cs) := dropRadix cs
  let value ← readUnsigned text negative radix cs
  if radix == 10 && cs.head? == some '0' && value != 0 then throw (.malformed text)
  return value

/-- An integer in hexadecimal, with its sign in front of the mark. -/
def hexadecimal (n : Int) : String :=
  (if n < 0 then "-0x" else "0x") ++ String.ofList (Nat.toDigits 16 n.natAbs)

end MicroLang.Text.Numeral
