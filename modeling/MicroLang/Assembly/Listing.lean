import MicroLang.Assembly.Instr
import MicroLang.Text.Lines
import MicroLang.Text.Numeral

/-!
# Listings

A listing is a list of items, one a line: remarks, directives, labels, data words and instructions.
A program's listing is its body between a prologue, which opens the stack frame, and an epilogue,
which closes it and exits, followed by the two routines that programs call.
-/

namespace MicroLang.Assembly

/-- The two sections of a listing. -/
inductive Section where
  | text
  | data
deriving DecidableEq

/-- The directive that opens a section. -/
def Section.directive : Section → String
  | text => ".text"
  | data => ".data"

/-- One line of a listing. -/
inductive Item where
  | title (text : String)
  | remark (text : String)
  | opening (s : Section)
  | global (name : String)
  | label (name : String)
  | word (value : String)
  | instr (i : Instr)

/-- What every line but titles and labels starts with. -/
def indent : String := "    "

/-- The text of an item. -/
def Item.line : Item → String
  | title text => "# " ++ text
  | remark text => indent ++ "# " ++ text
  | opening s => indent ++ s.directive
  | global name => indent ++ ".globl " ++ name
  | label name => name ++ ":"
  | word value => indent ++ ".word " ++ value
  | instr i => indent ++ i.text

namespace Listing

/-- Opens a frame of the given size, and saves the return address and the caller's frame in it. -/
def prologue (frameSize : Int) : List Item := [
  .opening .text,
  .global "main",
  .label "main",
  .remark "prologue area",
  .instr ⟨.addi, ["$sp", "$sp", "-" ++ toString frameSize]⟩,
  .instr ⟨.sw, ["$ra", "20($sp)"]⟩,
  .instr ⟨.sw, ["$fp", "28($sp)"]⟩,
  .instr ⟨.move, ["$fp", "$sp"]⟩]

/-- Closes the frame and exits. -/
def epilogue (frameSize : Int) : List Item := [
  .remark "epilogue area",
  .instr ⟨.move, ["$sp", "$fp"]⟩,
  .instr ⟨.lw, ["$fp", "28($sp)"]⟩,
  .instr ⟨.lw, ["$ra", "20($sp)"]⟩,
  .instr ⟨.addi, ["$sp", "$sp", toString frameSize]⟩,
  .instr ⟨.li, ["$v0", "10"]⟩,
  .instr ⟨.syscall, []⟩]

/-- The routines: `read` returns the next input in `$v0`, and `write` prints `$a0` and ends the
line. -/
def routines : List Item := [
  .opening .text,
  .global "read",
  .label "read",
  .remark "call read integer",
  .instr ⟨.li, ["$v0", "5"]⟩,
  .instr ⟨.syscall, []⟩,
  .instr ⟨.jr, ["$ra"]⟩,
  .opening .data,
  .label "newline",
  .word "'\\n'",
  .opening .text,
  .global "write",
  .label "write",
  .instr ⟨.lw, ["$t0", "newline"]⟩,
  .instr ⟨.li, ["$v0", "1"]⟩,
  .instr ⟨.syscall, []⟩,
  .instr ⟨.move, ["$a0", "$t0"]⟩,
  .instr ⟨.li, ["$v0", "11"]⟩,
  .instr ⟨.syscall, []⟩,
  .instr ⟨.jr, ["$ra"]⟩]

/-- The listing of a program with the given body and frame size. -/
def items (body : List Instr) (frameSize : Int) : List Item :=
  .title "Module : main" ::
    prologue frameSize ++ body.map .instr ++ epilogue frameSize ++ routines

/-- The text of a listing. -/
def text (listing : List Item) : String :=
  Text.unlines (listing.map Item.line)

/-- The text of the listing of a program. -/
def render (body : List Instr) (frameSize : Int) : String :=
  text (items body frameSize)

/-- The text of the listing of a program, if the size of its frame can be written. -/
def render? (body : List Instr) (frameSize : Int) : Option String :=
  if Text.Numeral.IsShort frameSize then some (render body frameSize) else none

end Listing

end MicroLang.Assembly
