import MicroLang.Machine.Fault

/-!
# The console

The integers still to be read and the text written so far.
-/

namespace MicroLang.Machine

/-- Input and output of a run. -/
structure Console where
  input : List Int := []
  output : String := ""

namespace Console

/-- The next input, and zero when there is none left. -/
def readInt (c : Console) : Int × Console :=
  match c.input with
  | [] => (0, c)
  | value :: rest => (value, { c with input := rest })

/-- Writes a text. -/
def write (c : Console) (text : String) : Console :=
  { c with output := c.output ++ text }

/-- Writes an integer in decimal. -/
def writeInt (c : Console) (value : Int) : Except Fault Console := do
  return c.write (← decimal value)

/-- Writes the character whose code is the lowest byte of a value. -/
def writeChar (c : Console) (code : Int) : Console :=
  { c with output := c.output.push (Char.ofNat (code % 256).toNat) }

end Console

end MicroLang.Machine
