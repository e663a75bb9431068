import MicroLang.Proofs.Execution

/-!
# Steps that fail

`Machine.execute` gives a new machine or a fault, so by its form it cannot leave half of its work
behind. A machine with registers and a memory of its own has no such form: it makes one access after
the other, and what it has changed before a failure stays changed. This is `Work`, in which every
instruction is written as the sequence of its accesses. The two agree (`Work.step_eq`): an access
that can fail only looks at the machine (`Work.look`), and all of them come before the first change.

> `step_error_keeps_data`: a step that fails leaves registers, memory, console and the halted flag
> as they were. If nothing was fetched the machine is the same; otherwise it has only fetched.
-/

namespace MicroLang.Machine

open MicroLang.Assembly
open MicroLang.Sequencing

/-- The place of a text label. -/
def findLabel (m : Machine) (label : String) : Except Fault Int :=
  match m.image.textLabels[label]? with
  | some pc => .ok pc
  | none => .error (.unknownLabel label)

theorem execute_jal_eq (m : Machine) (label : String) :
    m.execute ⟨.jal, [label]⟩
      = (m.findLabel label >>= fun pc => .ok ((m.setReg .ra m.pc).jump pc)) := by
  unfold execute findLabel
  dsimp only
  cases m.image.textLabels[label]? with
  | some pc => rfl
  | none => rfl

/-! ## Instructions in place -/

/-- Work on a machine that changes it in place. What was changed before a failure stays changed. -/
abbrev Work := EStateM Fault Machine

namespace Work

/-- Looks at the machine, which may fail. -/
def look {α : Type} (f : Machine → Except Fault α) : Work α := fun m =>
  match f m with
  | .ok a => .ok a m
  | .error fault => .error fault m

/-- The value of the register with a name. -/
def readRegister (name : String) : Work Int :=
  look fun m => m.storage.readRegister name

/-- Finds the register with a name, and changes it. -/
def writeRegister (name : String) (value : Int) : Work Unit := do
  let r ← look fun _ => Storage.register name
  modify fun m => m.setReg r value

/-- Checks an address, and changes the word there. -/
def storeWord (address value : Int) : Work Unit := do
  look fun _ => Storage.checkAligned address
  modify fun m => m.setWord address value

/-- Takes the next input away. -/
def takeInput : Work Int :=
  modifyGet fun m => (m.console.readInt.1, m.withConsole m.console.readInt.2)

/-- The system call that `$v0` asks for. -/
def systemCall : Work Unit := do
  let code ← readRegister "$v0"
  if code = 1 then
    let value ← readRegister "$a0"
    let text ← look fun _ => decimal value
    modify fun m => m.withConsole (m.console.write text)
  else if code = 5 then
    let value ← takeInput
    writeRegister "$v0" value
  else if code = 10 then
    modify fun m => { m with halted := true }
  else if code = 11 then
    let value ← readRegister "$a0"
    modify fun m => m.withConsole (m.console.writeChar value)
  else
    throw (.naming .unsupportedCall code)

/-- Executes an instruction, one access after the other. -/
def execute (i : Instr) : Work Unit :=
  match i.opcode, i.args with
  | .li, [target, value] => do
    let value ← look fun _ => wordOperand readWord value
    writeRegister target value
  | .lw, [target, source] => do
    let address ← look fun m => m.address source
    let value ← look fun m => m.storage.loadWord address
    writeRegister target value
  | .sw, [source, target] => do
    let address ← look fun m => m.address target
    let value ← readRegister source
    storeWord address value
  | .move, [target, source] => do
    let value ← readRegister source
    writeRegister target value
  | .add, [target, lhs, rhs] => do
    let lhs ← readRegister lhs
    let rhs ← readRegister rhs
    writeRegister target (lhs + rhs)
  | .sub, [target, lhs, rhs] => do
    let lhs ← readRegister lhs
    let rhs ← readRegister rhs
    writeRegister target (lhs - rhs)
  | .addi, [target, lhs, rhs] => do
    let lhs ← readRegister lhs
    let rhs ← look fun _ => wordOperand readInteger rhs
    writeRegister target (lhs + rhs)
  | .jal, [label] => do
    let pc ← look fun m => m.findLabel label
    writeRegister "$ra" (← get).pc
    modify fun m => m.jump pc
  | .jr, [source] => do
    let pc ← readRegister source
    modify fun m => m.jump pc
  | .syscall, _ => systemCall
  | opcode, args => throw (.wrongArity opcode (arity opcode) args.length)

/-- Fetches an instruction and executes it. -/
def fetchAndExecute (i : Instr) : Work Unit := do
  modify fun m => { m with last := some i }
  modify fun m => { m with pc := m.pc + 1 }
  modify fun m => { m with tick := m.tick + 1 }
  execute i

/-- Runs one instruction, unless the machine has halted. -/
def step : Work Unit := do
  let m ← get
  if m.halted then return
  else if m.limit ≤ m.tick then throw (.naming .tickLimit m.limit)
  else match m.fetch? with
    | none => throw (.naming .pcOutOfRange m.pc)
    | some i => fetchAndExecute i

/-! ## No work is left half done -/

/-- What in place comes out of a new machine or a fault: after a fault nothing has changed. -/
def outcome (m : Machine) : Except Fault Machine → EStateM.Result Fault Machine Unit
  | .ok m' => .ok () m'
  | .error fault => .error fault m

section

variable {α : Type} {m : Machine}

/-- Work that first looks at a machine fails without a change, or goes on from the same machine. -/
theorem look_bind {f : Machine → Except Fault α} {g : α → Work Unit}
    {h : α → Except Fault Machine} (hg : ∀ a, g a m = outcome m (h a)) :
    (look f >>= g) m = outcome m (f m >>= h) := by
  cases hf : f m with
  | ok a =>
    have hlook : look f m = .ok a m := by
      unfold look
      rw [hf]
    rw [bind_of_ok hlook, hg]
    rfl
  | error fault =>
    have hlook : look f m = .error fault m := by
      unfold look
      rw [hf]
    rw [bind_of_error hlook]
    rfl

theorem writeRegister_eq (name : String) (value : Int) :
    writeRegister name value m = outcome m (m.writeRegister name value) := by
  have hwrite : m.writeRegister name value
      = (Storage.register name >>= fun r => .ok (m.setReg r value)) := by
    unfold Machine.writeRegister Storage.writeRegister
    cases Storage.register name with
    | ok r => rfl
    | error fault => rfl
  rw [hwrite]
  exact look_bind fun r => rfl

theorem storeWord_eq (address value : Int) :
    storeWord address value m
      = outcome m
        (m.storage.storeWord address value >>= fun storage => pure { m with storage }) := by
  have hstore : (m.storage.storeWord address value >>= fun storage => pure { m with storage })
      = (Storage.checkAligned address >>= fun _ => .ok (m.setWord address value)) := by
    unfold Storage.storeWord
    cases Storage.checkAligned address with
    | ok _ => rfl
    | error fault => rfl
  rw [hstore]
  exact look_bind fun _ => rfl

theorem readRegister_of_name (r : Register) : readRegister r.name m = .ok (m.reg r) m := by
  unfold readRegister look
  dsimp only
  rw [readRegister_name]

theorem writeRegister_of_name (r : Register) (value : Int) :
    writeRegister r.name value m = .ok () (m.setReg r value) := by
  rw [writeRegister_eq, writeRegister_name]
  rfl

theorem systemCall_eq : systemCall m = outcome m m.systemCall := by
  have hv0 : readRegister "$v0" m = .ok m.storage.regs.v0 m := readRegister_of_name .v0
  have ha0 : readRegister "$a0" m = .ok m.storage.regs.a0 m := readRegister_of_name .a0
  unfold systemCall Machine.systemCall
  rw [bind_of_ok hv0]
  dsimp only
  split
  · rw [bind_of_ok ha0, printInt_eq]
    exact look_bind fun text => rfl
  split
  · -- the input is gone before `$v0` is written, but that cannot fail
    have htake : takeInput m = .ok m.console.readInt.1 (m.withConsole m.console.readInt.2) := rfl
    rw [bind_of_ok htake]
    exact writeRegister_of_name .v0 m.console.readInt.1
  split
  · rfl
  split
  · rw [bind_of_ok ha0]
    rfl
  · rfl

theorem jal_eq (label : String) :
    execute ⟨.jal, [label]⟩ m = outcome m (m.execute ⟨.jal, [label]⟩) := by
  rw [execute_jal_eq]
  refine look_bind fun pc => ?_
  -- `$ra` is written before the jump, but that cannot fail
  have hra : writeRegister "$ra" m.pc m = .ok () (m.setReg .ra m.pc) :=
    writeRegister_of_name .ra m.pc
  rw [get_bind, bind_of_ok hra]
  rfl

/-- An instruction in place does what it does as a whole, or fails without a change. -/
theorem execute_eq (i : Instr) : execute i m = outcome m (m.execute i) := by
  obtain ⟨opcode, args⟩ := i
  have hjal : ∀ label, execute ⟨.jal, [label]⟩ m = outcome m (m.execute ⟨.jal, [label]⟩) := jal_eq
  have hthrow : ∀ fault : Fault, (throw fault : Work Unit) m = outcome m (.error fault) :=
    fun _ => rfl
  unfold execute at hjal ⊢
  dsimp only at hjal ⊢
  split
  · exact look_bind fun value => writeRegister_eq _ value
  · exact look_bind fun address => look_bind fun value => writeRegister_eq _ value
  · exact look_bind fun address => look_bind fun value => storeWord_eq address value
  · exact look_bind fun value => writeRegister_eq _ value
  · exact look_bind fun lhs => look_bind fun rhs => writeRegister_eq _ _
  · exact look_bind fun lhs => look_bind fun rhs => writeRegister_eq _ _
  · exact look_bind fun lhs => look_bind fun rhs => writeRegister_eq _ _
  · exact hjal _
  · exact look_bind fun pc => rfl
  · exact systemCall_eq
  · -- the operands fit no operation on either side
    unfold Machine.execute
    dsimp only
    split
    all_goals grind

/-- A step that gave a result or a fault, and a machine in either case, as work. -/
def ofStep : Except Fault Unit × Machine → EStateM.Result Fault Machine Unit
  | (.ok (), m) => .ok () m
  | (.error fault, m) => .error fault m

theorem fetchAndExecute_eq (i : Instr) :
    fetchAndExecute i m = outcome (m.fetched i) ((m.fetched i).execute i) :=
  execute_eq i

/-- A step in place leaves the same machine as a step, also where it fails. -/
theorem step_eq (m : Machine) : step m = ofStep m.step := by
  have hcases := step_cases m
  generalize m.step = result at hcases ⊢
  unfold step
  rw [get_bind]
  cases hcases with
  | halted hhalted =>
    rw [if_pos hhalted]
    rfl
  | atLimit hrunning hlimit =>
    rw [if_neg (by rw [hrunning]; exact Bool.false_ne_true), if_pos hlimit]
    rfl
  | outside hrunning hlimit hfetch =>
    rw [if_neg (by rw [hrunning]; exact Bool.false_ne_true), if_neg (Int.not_le.mpr hlimit), hfetch]
    rfl
  | done hrunning hlimit hfetch hexecute =>
    rw [if_neg (by rw [hrunning]; exact Bool.false_ne_true), if_neg (Int.not_le.mpr hlimit), hfetch]
    dsimp only
    rw [fetchAndExecute_eq, hexecute]
    rfl
  | failed hrunning hlimit hfetch hexecute =>
    rw [if_neg (by rw [hrunning]; exact Bool.false_ne_true), if_neg (Int.not_le.mpr hlimit), hfetch]
    dsimp only
    rw [fetchAndExecute_eq, hexecute]
    rfl

end

end Work

/-! ## Faults of an instruction -/

/-- Whether a fault is met before an instruction is fetched: at the tick limit, or outside of the
code. -/
def Fault.isUnfetched : Fault → Bool
  | tickLimit _ | pcOutOfRange _ => true
  | _ => false

/-- A result, or a fault that is met after an instruction was fetched. -/
def Fetched {α : Type} (x : Except Fault α) : Prop :=
  ∀ fault, x = .error fault → fault.isUnfetched = false

section

variable {α β : Type} {x : Except Fault α} {f : α → Except Fault β}

theorem fetched_ok (a : α) : Fetched (.ok a) := by
  intro fault h
  cases h

theorem fetched_error {fault : Fault} (h : fault.isUnfetched = false) :
    Fetched (.error fault : Except Fault α) := by
  intro fault' heq
  cases heq
  exact h

theorem Fetched.bind (hx : Fetched x) (hf : ∀ a, Fetched (f a)) : Fetched (x >>= f) := by
  intro fault h
  cases x with
  | ok a => exact hf a fault h
  | error fault' =>
    cases h
    exact hx fault rfl

end

section

variable (m : Machine) (d : Storage) (name text : String) (address value : Int)
variable {fault : Text.Numeral.Short → Fault}

theorem fetched_register : Fetched (Storage.register name) := by
  unfold Storage.register
  split
  · exact fetched_ok _
  · exact fetched_error rfl

theorem fetched_readRegister : Fetched (d.readRegister name) :=
  (fetched_register name).bind fun _ => fetched_ok _

theorem fetched_writeRegister : Fetched (m.writeRegister name value) :=
  ((fetched_register name).bind fun _ => fetched_ok _).bind fun _ => fetched_ok _

theorem fetched_checkAligned : Fetched (Storage.checkAligned address) := by
  unfold Storage.checkAligned
  split
  · exact fetched_ok _
  · exact fetched_error rfl

theorem fetched_loadWord : Fetched (d.loadWord address) :=
  (fetched_checkAligned address).bind fun _ => fetched_ok _

theorem fetched_storeWord : Fetched (d.storeWord address value) :=
  (fetched_checkAligned address).bind fun _ => fetched_ok _

theorem fetched_address : Fetched (m.address text) := by
  unfold Machine.address
  split
  · refine (fetched_readRegister _ _).bind fun start => ?_
    split
    · exact fetched_ok _
    · exact fetched_error rfl
  · split
    · exact fetched_ok _
    · exact fetched_error rfl

theorem fetched_wordOperand (read : String → Except WordError Int) :
    Fetched (wordOperand read text) := by
  unfold wordOperand
  split
  · exact fetched_ok _
  · exact fetched_error rfl

theorem fetched_decimal : Fetched (decimal value) := by
  unfold decimal
  split
  · exact fetched_ok _
  · exact fetched_error rfl

theorem isUnfetched_naming (h : ∀ n, (fault n).isUnfetched = false) :
    (Fault.naming fault value).isUnfetched = false := by
  by_cases hshort : Text.Numeral.IsShort value
  · rw [naming_of_short hshort]
    exact h _
  · rw [naming_of_long hshort]
    rfl

theorem fetched_systemCall : Fetched m.systemCall := by
  unfold systemCall
  dsimp only
  split
  · exact ((fetched_decimal _).bind fun _ => fetched_ok _).bind fun _ => fetched_ok _
  split
  · exact fetched_ok _
  split
  · exact fetched_ok _
  split
  · exact fetched_ok _
  · exact fetched_error (isUnfetched_naming _ fun _ => rfl)

/-- The limit and the code have been looked at before an instruction is executed. -/
theorem fetched_execute (i : Instr) : Fetched (m.execute i) := by
  have hread := fetched_readRegister m.storage
  have hwrite := fetched_writeRegister m
  unfold execute
  split
  · exact (fetched_wordOperand _ _).bind fun _ => hwrite _ _
  · exact (fetched_address m _).bind fun _ => (fetched_loadWord _ _).bind fun _ => hwrite _ _
  · refine (fetched_address m _).bind fun _ => (hread _).bind fun _ => ?_
    exact (fetched_storeWord _ _ _).bind fun _ => fetched_ok _
  · exact (hread _).bind fun _ => hwrite _ _
  · exact (hread _).bind fun _ => (hread _).bind fun _ => hwrite _ _
  · exact (hread _).bind fun _ => (hread _).bind fun _ => hwrite _ _
  · exact (hread _).bind fun _ => (fetched_wordOperand _ _).bind fun _ => hwrite _ _
  · split
    · exact fetched_ok _
    · exact fetched_error rfl
  · exact (hread _).bind fun _ => fetched_ok _
  · exact fetched_systemCall m
  · exact fetched_error rfl

end

/-! ## Failed steps -/

/-- A step that fails, whether its instruction is executed as a whole or in place, leaves registers,
memory, inputs, output and the halted flag as they were. At the tick limit and outside of the code
it leaves everything as it was, and its fault names the limit or the program counter, or says that
this cannot be written. Otherwise its fault is another one, the program counter and the ticks have
grown by one, and the last instruction is the one that was at the program counter. -/
theorem step_error_keeps_data {m m' : Machine} {fault : Fault} (h : m.step = (.error fault, m')) :
    Work.step m = .error fault m'
      ∧ m'.storage.regs = m.storage.regs ∧ m'.storage.memory = m.storage.memory
      ∧ m'.console.input = m.console.input ∧ m'.console.output = m.console.output
      ∧ m'.halted = m.halted
      ∧ (fault.isUnfetched = true → m'.pc = m.pc ∧ m'.tick = m.tick ∧ m'.last = m.last)
      ∧ (m.limit ≤ m.tick → fault = .naming .tickLimit m.limit
        ∧ m'.pc = m.pc ∧ m'.tick = m.tick ∧ m'.last = m.last)
      ∧ ((m.tick : Int) < m.limit → m.fetch? = none → fault = .naming .pcOutOfRange m.pc
        ∧ m'.pc = m.pc ∧ m'.tick = m.tick ∧ m'.last = m.last)
      ∧ ((m.tick : Int) < m.limit → ∀ i, m.fetch? = some i → fault.isUnfetched = false
        ∧ m'.pc = m.pc + 1 ∧ m'.tick = m.tick + 1
        ∧ 0 ≤ m.pc ∧ m.image.code[m.pc.toNat]? = some i ∧ m'.last = some i) := by
  have hwork : Work.step m = .error fault m' := by
    rw [Work.step_eq, h]
    rfl
  have hcases := step_cases m
  rw [h] at hcases
  cases hcases with
  | atLimit _ hlimit =>
    refine ⟨hwork, rfl, rfl, rfl, rfl, rfl, fun _ => ⟨rfl, rfl, rfl⟩,
      fun _ => ⟨rfl, rfl, rfl, rfl⟩, ?_, ?_⟩
    · intro hlt
      omega
    · intro hlt
      omega
  | outside _ hlimit hfetch =>
    refine ⟨hwork, rfl, rfl, rfl, rfl, rfl, fun _ => ⟨rfl, rfl, rfl⟩, ?_,
      fun _ _ => ⟨rfl, rfl, rfl, rfl⟩, ?_⟩
    · intro hle
      omega
    · intro _ i hi
      cases hfetch.symm.trans hi
  | @failed i _ _ hlimit hfetch hexecute =>
    have hfault := fetched_execute _ i fault hexecute
    refine ⟨hwork, rfl, rfl, rfl, rfl, rfl, ?_, ?_, ?_, ?_⟩
    · intro hunfetched
      rw [hfault] at hunfetched
      cases hunfetched
    · intro hle
      omega
    · intro _ hnone
      cases hfetch.symm.trans hnone
    · intro _ i' hi'
      cases hfetch.symm.trans hi'
      obtain ⟨hpc, hcode⟩ := fetch?_eq_some hfetch
      exact ⟨hfault, rfl, rfl, hpc, hcode, rfl⟩

/-- A machine before an instruction that loads a word into a register that there is not. -/
def strayMachine (limit : Int) : Machine where
  image := { code := #[⟨.lw, ["$t9", "4($sp)"]⟩] }
  storage := {}
  console := { input := [7] }
  pc := 0
  limit := limit

/-- The last access of an instruction fails, and the step at the tick limit after it. -/
theorem step_error_keeps_data_stray :
    ∃ m m', (strayMachine 1).step = (.error (.unknownRegister "$t9"), m)
      ∧ m.step = (.error (.tickLimit ⟨1, by decide⟩), m')
      ∧ m'.storage.regs = (strayMachine 1).storage.regs ∧ m'.console.input = [7]
      ∧ m'.pc = 1 ∧ m'.tick = 1 ∧ m'.last = some ⟨.lw, ["$t9", "4($sp)"]⟩ := by
  have hfirst : (strayMachine 1).step
      = (.error (.unknownRegister "$t9"), (strayMachine 1).step.2) :=
    Prod.ext (by decide +kernel) rfl
  have hsecond : (strayMachine 1).step.2.step
      = (.error (.tickLimit ⟨1, by decide⟩), (strayMachine 1).step.2.step.2) :=
    Prod.ext (by decide +kernel) rfl
  obtain ⟨_, hregs, _, hinput, _, _, _, _, _, hfetched⟩ := step_error_keeps_data hfirst
  obtain ⟨_, hregs', _, hinput', _, _, hunfetched, _⟩ := step_error_keeps_data hsecond
  obtain ⟨_, hpc, htick, _, _, hlast⟩ := hfetched (by decide) _ rfl
  obtain ⟨hpc', htick', hlast'⟩ := hunfetched rfl
  exact ⟨_, _, hfirst, hsecond, hregs'.trans hregs, hinput'.trans hinput, hpc'.trans hpc,
    htick'.trans htick, hlast'.trans hlast⟩

/-- At a limit that cannot be written a step fails without moving on, and its fault is not the tick
limit. -/
theorem step_of_long_limit :
    (strayMachine (-10 ^ Text.Numeral.digitLimit)).step
        = (.error .unwritable, strayMachine (-10 ^ Text.Numeral.digitLimit))
      ∧ Fault.unwritable.isUnfetched = false
      ∧ (strayMachine (-10 ^ Text.Numeral.digitLimit)).pc = 0 := by
  have hlong : ¬ Text.Numeral.IsShort (strayMachine (-10 ^ Text.Numeral.digitLimit)).limit :=
    Text.Numeral.not_isShort_neg_pow
  refine ⟨?_, rfl, rfl⟩
  rw [step_of_limit_le rfl (by exact Text.Numeral.neg_pow_nonpos), naming_of_long hlong]

end MicroLang.Machine
