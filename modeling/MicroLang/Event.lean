/-!
# Events

What the stages report while they work, besides their results. Each event has a level, the part of
the toolchain that reports it, and a message.
-/

namespace MicroLang

/-- How much attention an event asks for. -/
inductive Level where
  | debug
  | warning
deriving DecidableEq

/-- The name of a level. -/
def Level.name : Level → String
  | .debug => "DEBUG"
  | .warning => "WARNING"

/-- Something that a stage reports. -/
inductive Event where
  /-- The whole source text was cut into this many significant tokens. -/
  | lexed (tokens lines : Nat)
  /-- The source text has no opening word. -/
  | noBegin
  /-- This many tokens stand before the opening word. -/
  | skipped (tokens : Nat)
  /-- The source text has no closing word. -/
  | noEnd
  /-- This many statements stand before the closing word. -/
  | parsed (statements : Nat)
  /-- A variable was given a frame slot. -/
  | allocated (name : String) (offset : Nat)
  /-- All code was generated. -/
  | generated (instructions frameSize : Nat)
  /-- The machine halted. -/
  | halted (ticks : Nat)
deriving DecidableEq

namespace Event

/-- The level of an event. -/
def level : Event → Level
  | noBegin | noEnd => .warning
  | _ => .debug

/-- The part of the toolchain that an event comes from. -/
def channel : Event → String
  | lexed .. => "microc.lexer"
  | noBegin | skipped _ | noEnd | parsed _ => "microc.parser"
  | allocated .. | generated .. => "microc.codegen"
  | halted _ => "emulator.cpu"

/-- The message of an event. -/
def message : Event → String
  | lexed tokens lines => s!"lexed {tokens} tokens, {lines} lines"
  | noBegin => "no 'begin' found, nothing to compile"
  | skipped tokens => s!"skipped {tokens} tokens before 'begin'"
  | noEnd => "input ended before 'end'"
  | parsed statements => s!"parsed {statements} statements"
  | allocated name offset => s!"variable {name} -> {offset}($fp)"
  | generated instructions frameSize => s!"{instructions} instructions, frame size {frameSize}"
  | halted ticks => s!"halted after {ticks} ticks"

/-- The line that a log shows for an event. -/
def logLine (event : Event) : String :=
  event.level.name ++ " " ++ event.channel ++ ": " ++ event.message

end Event

end MicroLang
