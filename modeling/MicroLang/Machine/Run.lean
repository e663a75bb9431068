import MicroLang.Event
import MicroLang.Machine.State

/-!
# Runs

A run steps a machine until it halts or fails. Every step but one of a halted machine counts a tick
below the limit, so a run ends. A traced run shows a line for each step that succeeds.
-/

namespace MicroLang

open MicroLang.Assembly
open MicroLang.Machine

namespace Machine

/-- Writing a register keeps tick and limit. -/
theorem writeRegister_keeps {m m' : Machine} {name : String} {value : Int}
    (h : m.writeRegister name value = .ok m') : m'.tick = m.tick ∧ m'.limit = m.limit := by
  simp only [writeRegister, bind, Except.bind, pure, Except.pure] at h
  split at h
  · simp at h
  · simp only [Except.ok.injEq] at h
    subst h
    exact ⟨rfl, rfl⟩

/-- A system call keeps tick and limit. -/
theorem systemCall_keeps {m m' : Machine} (h : m.systemCall = .ok m') :
    m'.tick = m.tick ∧ m'.limit = m.limit := by
  simp only [systemCall, bind, Except.bind, pure, Except.pure] at h
  grind

/-- Executing an instruction keeps tick and limit. -/
theorem execute_keeps {m m' : Machine} {i : Instr} (h : m.execute i = .ok m') :
    m'.tick = m.tick ∧ m'.limit = m.limit := by
  simp only [execute, bind, Except.bind, pure, Except.pure] at h
  grind [writeRegister_keeps, systemCall_keeps]

/-- A step that succeeds counts a tick below the limit. -/
theorem tick_of_step {m m' : Machine} (hhalted : m.halted = false) (h : m.step = (.ok (), m')) :
    m'.tick = m.tick + 1 ∧ m'.limit = m.limit ∧ (m.tick : Int) < m.limit := by
  simp only [step, hhalted] at h
  split at h
  · contradiction
  · split at h
    · simp at h
    · split at h
      · simp at h
      · split at h
        · next hlimit _ _ _ _ _ hexec =>
          simp only [Prod.mk.injEq, true_and] at h
          subst h
          have hkeeps := execute_keeps hexec
          exact ⟨hkeeps.1, hkeeps.2, by omega⟩
        · simp at h

/-- The ticks that a machine has left. -/
def ticksLeft (m : Machine) : Nat :=
  (m.limit - m.tick).toNat

/-- A step that succeeds leaves fewer ticks. -/
theorem ticksLeft_lt_of_step {m m' : Machine} (hhalted : ¬ m.halted = true)
    (h : m.step = (.ok (), m')) : m'.ticksLeft < m.ticksLeft := by
  obtain ⟨htick, hlimit, hlt⟩ := tick_of_step (by simpa using hhalted) h
  simp only [ticksLeft, hlimit, htick]
  omega

/-- Steps a machine until it halts or fails. -/
def run (m : Machine) : Except Fault Unit × Machine :=
  if _ : m.halted = true then (.ok (), m)
  else match _ : m.step with
    | (.ok (), m') => run m'
    | (.error fault, m') => (.error fault, m')
termination_by m.ticksLeft
decreasing_by exact ticksLeft_lt_of_step ‹_› ‹_›

/-- Steps a machine up to `n` times, until a step fails. -/
def steps : (n : Nat) → Machine → Except Fault Unit × Machine
  | 0, m => (.ok (), m)
  | n + 1, m =>
    match m.step with
    | (.ok (), m') => steps n m'
    | (.error fault, m') => (.error fault, m')

/-- What a run reports: that the machine halted, if it did. -/
def runEvents : Except Fault Unit × Machine → List Event
  | (.ok (), m) => [.halted m.tick]
  | (.error _, _) => []

/-- The line for a step from a program counter to a machine: the tick, the program counter before
the step, the instruction, and registers after it. -/
def traceLine (pc : Int) (m : Machine) : String :=
  let regs := m.storage.regs
  let instruction := match m.last with
    | some i => i.text
    | none => ""
  s!"t={m.tick} pc={pc} " ++ instruction
    ++ s!" v0={regs.v0} a0={regs.a0} t0={regs.t0} t1={regs.t1}"
    ++ " sp=" ++ Text.Numeral.hexadecimal regs.sp ++ " fp=" ++ Text.Numeral.hexadecimal regs.fp

/-- Steps a machine until it halts or fails, and adds the line of each step that succeeds. -/
def runTraced (m : Machine) (lines : Array String) : (Except Fault Unit × Machine) × Array String :=
  if _ : m.halted = true then ((.ok (), m), lines)
  else match _ : m.step with
    | (.ok (), m') => runTraced m' (lines.push (traceLine m.pc m'))
    | (.error fault, m') => ((.error fault, m'), lines)
termination_by m.ticksLeft
decreasing_by exact ticksLeft_lt_of_step ‹_› ‹_›

/-- The label at which a program starts. -/
def entryLabel : String := "main"

end Machine

/-- Why a listing does not run to its end. -/
inductive RunError where
  | loading (error : ListingError)
  | running (fault : Fault)
deriving DecidableEq

/-- The message of an error. -/
def RunError.message : RunError → String
  | loading error => error.message
  | running fault => fault.message

/-- The machine that runs a listing. -/
def Machine.ofListing (listing : String) (inputs : List Int) (limit : Int) :
    Except RunError Machine :=
  match Image.ofListing listing with
  | .error e => .error (.loading e)
  | .ok image =>
    match Machine.boot image inputs limit Machine.entryLabel with
    | .error fault => .error (.running fault)
    | .ok m => .ok m

/-- The output of a finished run. -/
def Machine.outcome : Except Fault Unit × Machine → Except RunError String
  | (.ok (), m) => .ok m.console.output
  | (.error fault, _) => .error (.running fault)

/-- Runs a listing: its output or an error, and the events reported. -/
def runListing (listing : String) (inputs : List Int) (limit : Int) :
    Except RunError String × List Event :=
  match Machine.ofListing listing inputs limit with
  | .error e => (.error e, [])
  | .ok m =>
    let final := m.run
    (Machine.outcome final, Machine.runEvents final)

/-- Runs a listing: its output or an error, and the line of each step that succeeded. -/
def traceListing (listing : String) (inputs : List Int) (limit : Int) :
    Except RunError String × Array String :=
  match Machine.ofListing listing inputs limit with
  | .error e => (.error e, #[])
  | .ok m =>
    let (final, lines) := m.runTraced #[]
    (Machine.outcome final, lines)

end MicroLang
