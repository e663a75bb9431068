import MicroLang.Assembly.Instr

/-!
# Stack frames

A frame starts with the words for the saved registers; each further word is the slot of a variable
or of an intermediate result. Slots are given out in order and never given back.
-/

namespace MicroLang.Assembly

/-- The variables that have slots, in the order in which they got them, with their offsets, and the
size of the frame, which is the offset of the next slot. -/
structure Frame where
  slots : List (String × Nat) := []
  size : Nat := 32

namespace Frame

/-- The offset of a variable's slot. -/
def slot? (frame : Frame) (name : String) : Option Nat :=
  frame.slots.lookup name

/-- A new slot: its offset and the frame with it. -/
def grow (frame : Frame) : Nat × Frame :=
  (frame.size, { frame with size := frame.size + wordSize })

/-- A new slot for a variable. -/
def bind (frame : Frame) (name : String) : Nat × Frame :=
  let (offset, frame) := frame.grow
  (offset, { frame with slots := frame.slots ++ [(name, offset)] })

end Frame

end MicroLang.Assembly
