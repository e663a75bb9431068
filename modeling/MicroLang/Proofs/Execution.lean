import Mathlib.Algebra.Group.Int.Defs
import MicroLang.Machine.Run
import MicroLang.Proofs.Operands
import MicroLang.Proofs.Sequencing

/-!
# Executing instructions

What each instruction does to a machine, in terms of registers (`Machine.reg`) and words
(`Machine.word`), when its operands are spelled as generated code spells them. The operands are
texts, so each lemma here rests on the reading lemmas of `Operands`; nothing after this module looks
at the text of an operand again.

`Reaches m n m'` says that `n` instructions lead from `m` to `m'`, the tick limit aside. A run whose
limit allows these instructions goes on from `m'`:

> `Reaches.run_eq`: `m.run = m'.run`, if `m.limit` is at least `m.tick + n`.
-/

namespace MicroLang.Machine

open MicroLang.Assembly
open MicroLang.Sequencing
open MicroLang.Text

/-! ## Residues -/

/-- Integers of 32 bits are kept as they are. -/
theorem wrap_eq_self {v : Int} (h : -2 ^ 31 ≤ v) (h' : v < 2 ^ 31) : wrap v = v := by
  unfold wrap
  rw [Int.bmod_eq_of_le_mul_two] <;> omega

theorem wrap_wrap (v : Int) : wrap (wrap v) = wrap v := by
  unfold wrap
  exact Int.bmod_bmod

theorem wrap_add_wrap (v w : Int) : wrap (wrap v + wrap w) = wrap (v + w) := by
  unfold wrap
  rw [Int.add_bmod_bmod, Int.bmod_add_bmod]

theorem wrap_sub_wrap (v w : Int) : wrap (wrap v - wrap w) = wrap (v - w) := by
  unfold wrap
  rw [Int.sub_bmod_bmod, Int.bmod_sub_bmod]

/-- The integers of 32 bits. -/
def IsWord (v : Int) : Prop :=
  -2 ^ 31 ≤ v ∧ v < 2 ^ 31

theorem isWord_wrap (v : Int) : IsWord (wrap v) := by
  have hle : -((0x100000000 : Int) / 2) ≤ v.bmod 0x100000000 := Int.le_bmod (by decide)
  have hlt : v.bmod 0x100000000 < ((0x100000000 : Int) + 1) / 2 := Int.bmod_lt (by decide)
  unfold IsWord wrap
  omega

theorem IsWord.isShort {v : Int} (h : IsWord v) : Numeral.IsShort v := by
  obtain ⟨hle, hlt⟩ := h
  exact Numeral.isShort_of_lt (by omega)

theorem isWord_set {regs : Registers} (h : ∀ q, IsWord (regs.get q)) (r : Register) (v : Int) :
    ∀ q, IsWord ((regs.set r v).get q) := by
  intro q
  rw [Registers.get_set]
  split
  · exact isWord_wrap v
  · exact h q

/-- At first the registers hold words. -/
theorem isWord_initial (r : Register) : IsWord (({} : Registers).get r) := by
  cases r
  all_goals exact ⟨by decide, by decide⟩

/-! ## Registers and words -/

/-- The value of a register. -/
def reg (m : Machine) (r : Register) : Int :=
  m.storage.regs.get r

/-- The word at an address; a word that was never written is zero. -/
def word (m : Machine) (address : Int) : Int :=
  m.storage.memory.getD address 0

/-- The machine with a register written. -/
def setReg (m : Machine) (r : Register) (value : Int) : Machine :=
  { m with storage := { m.storage with regs := m.storage.regs.set r value } }

/-- The machine with a word written. -/
def setWord (m : Machine) (address value : Int) : Machine :=
  { m with storage := { m.storage with memory := m.storage.memory.insert address (wrap value) } }

/-- The machine at another place of its code. -/
def jump (m : Machine) (pc : Int) : Machine :=
  { m with pc }

/-- The machine with another console. -/
def withConsole (m : Machine) (console : Console) : Machine :=
  { m with console }

/-- The machine that has fetched an instruction. -/
def fetched (m : Machine) (i : Instr) : Machine :=
  { m with pc := m.pc + 1, tick := m.tick + 1, last := some i }

section Projections

variable (m : Machine) (r q : Register) (a b v : Int) (i : Instr)

theorem reg_setReg : (m.setReg r v).reg q = if q = r ∧ r ≠ .zero then wrap v else m.reg q :=
  Registers.get_set m.storage.regs r q v

theorem word_setWord : (m.setWord a v).word b = if a = b then wrap v else m.word b := by
  unfold word setWord
  rw [Std.TreeMap.getD_insert]
  simp only [Std.LawfulEqCmp.compare_eq_iff_eq]

theorem reg_fetched : (m.fetched i).reg r = m.reg r := rfl
theorem word_fetched : (m.fetched i).word a = m.word a := rfl
theorem address_fetched (text : String) : (m.fetched i).address text = m.address text := rfl

end Projections

/-! ## Instructions -/

/-- A register is found by its name. -/
theorem register_name (r : Register) : Storage.register r.name = .ok r := by
  unfold Storage.register
  rw [Register.ofName?_name]

theorem readRegister_name (m : Machine) (r : Register) :
    m.storage.readRegister r.name = .ok (m.reg r) := by
  unfold Storage.readRegister
  rw [register_name]
  rfl

theorem writeRegister_name (m : Machine) (r : Register) (value : Int) :
    m.writeRegister r.name value = .ok (m.setReg r value) := by
  unfold Machine.writeRegister Storage.writeRegister
  rw [register_name]
  rfl

/-- `li` writes a literal. -/
theorem execute_li (m : Machine) (r : Register) {text : String} {n : Int}
    (hread : readWord text = .ok n) :
    m.execute ⟨.li, [r.name, text]⟩ = .ok (m.setReg r n) := by
  show (wordOperand readWord text >>= m.writeRegister r.name) = _
  unfold wordOperand
  rw [hread]
  exact writeRegister_name m r n

/-- `lw` loads the word at an address, or fails as loading it does. -/
theorem execute_lw_eq_bind (m : Machine) (r : Register) {text : String} {address : Int}
    (haddress : m.address text = .ok address) :
    m.execute ⟨.lw, [r.name, text]⟩
      = m.storage.loadWord address >>= m.writeRegister r.name := by
  show (m.address text >>= fun address => m.storage.loadWord address >>= m.writeRegister r.name) = _
  rw [haddress]
  rfl

/-- `lw` loads the word at an aligned address. -/
theorem execute_lw (m : Machine) (r : Register) {text : String} {address : Int}
    (haddress : m.address text = .ok address) (haligned : address % 4 = 0) :
    m.execute ⟨.lw, [r.name, text]⟩ = .ok (m.setReg r (m.word address)) := by
  have hload : m.storage.loadWord address = .ok (m.word address) := by
    unfold Storage.loadWord Storage.checkAligned
    rw [if_pos (by exact haligned)]
    rfl
  rw [execute_lw_eq_bind m r haddress, hload]
  exact writeRegister_name m r _

/-- `sw` stores a register at an address. -/
theorem execute_sw (m : Machine) (r : Register) {text : String} {address : Int}
    (haddress : m.address text = .ok address) (haligned : address % 4 = 0) :
    m.execute ⟨.sw, [r.name, text]⟩ = .ok (m.setWord address (m.reg r)) := by
  have hstore : ∀ value,
      m.storage.storeWord address value = .ok (m.setWord address value).storage := by
    intro value
    unfold Storage.storeWord Storage.checkAligned
    rw [if_pos (by exact haligned)]
    rfl
  show (m.address text >>= fun address => m.storage.readRegister r.name >>= fun value =>
    m.storage.storeWord address value >>= fun storage => pure { m with storage }) = _
  rw [haddress, readRegister_name]
  show (m.storage.storeWord address (m.reg r) >>= fun storage => pure { m with storage }) = _
  rw [hstore]
  rfl

/-- `move` copies a register. -/
theorem execute_move (m : Machine) (r s : Register) :
    m.execute ⟨.move, [r.name, s.name]⟩ = .ok (m.setReg r (m.reg s)) := by
  show (m.storage.readRegister s.name >>= m.writeRegister r.name) = _
  rw [readRegister_name]
  exact writeRegister_name m r _

/-- `add` adds two registers. -/
theorem execute_add (m : Machine) (r s t : Register) :
    m.execute ⟨.add, [r.name, s.name, t.name]⟩ = .ok (m.setReg r (m.reg s + m.reg t)) := by
  show (m.storage.readRegister s.name >>= fun a => m.storage.readRegister t.name >>= fun b =>
    m.writeRegister r.name (a + b)) = _
  rw [readRegister_name, readRegister_name]
  exact writeRegister_name m r _

/-- `sub` subtracts two registers. -/
theorem execute_sub (m : Machine) (r s t : Register) :
    m.execute ⟨.sub, [r.name, s.name, t.name]⟩ = .ok (m.setReg r (m.reg s - m.reg t)) := by
  show (m.storage.readRegister s.name >>= fun a => m.storage.readRegister t.name >>= fun b =>
    m.writeRegister r.name (a - b)) = _
  rw [readRegister_name, readRegister_name]
  exact writeRegister_name m r _

/-- `addi` adds a literal to a register. -/
theorem execute_addi (m : Machine) (r s : Register) {text : String} {n : Int}
    (hread : readInteger text = .ok n) :
    m.execute ⟨.addi, [r.name, s.name, text]⟩ = .ok (m.setReg r (m.reg s + n)) := by
  show (m.storage.readRegister s.name >>= fun a => wordOperand readInteger text >>= fun b =>
    m.writeRegister r.name (a + b)) = _
  unfold wordOperand
  rw [readRegister_name, hread]
  exact writeRegister_name m r _

/-- The `addi` of a prologue lowers the stack pointer by the size of the frame. -/
theorem execute_openFrame (m : Machine) {size : Int} (hsize : 0 ≤ size)
    (hdigits : (Nat.toDigits 10 size.natAbs).length ≤ Numeral.digitLimit) :
    m.execute ⟨.addi, ["$sp", "$sp", "-" ++ toString size]⟩
      = .ok (m.setReg .sp (m.reg .sp - size)) := by
  rw [Int.sub_eq_add_neg]
  exact execute_addi m .sp .sp (readInteger_minus hsize hdigits)

/-- `jal` jumps to a label and leaves the place behind it in `$ra`. -/
theorem execute_jal (m : Machine) {label : String} {pc : Int}
    (hlabel : m.image.textLabels[label]? = some pc) :
    m.execute ⟨.jal, [label]⟩ = .ok ((m.setReg .ra m.pc).jump pc) := by
  unfold execute
  dsimp only
  rw [hlabel]
  rfl

/-- `jr` jumps to the place in a register. -/
theorem execute_jr (m : Machine) (r : Register) :
    m.execute ⟨.jr, [r.name]⟩ = .ok (m.jump (m.reg r)) := by
  show (m.storage.readRegister r.name >>= fun pc => pure { m with pc }) = _
  rw [readRegister_name]
  rfl

/-- Only the text of an integer can be missing when it is printed. -/
theorem printInt_eq (m : Machine) (value : Int) :
    (m.console.writeInt value >>= fun console => pure { m with console })
      = (decimal value >>= fun text => .ok (m.withConsole (m.console.write text))) := by
  unfold Console.writeInt
  cases decimal value with
  | ok text => rfl
  | error fault => rfl

/-- System call 1 prints an integer. -/
theorem execute_printInt (m : Machine) (hcode : m.reg .v0 = 1)
    (hshort : Numeral.IsShort (m.reg .a0)) :
    m.execute ⟨.syscall, []⟩ = .ok (m.withConsole (m.console.write (toString (m.reg .a0)))) := by
  show m.systemCall = _
  have htext : decimal m.storage.regs.a0 = .ok (toString (m.reg .a0)) := if_pos hshort
  unfold systemCall
  rw [if_pos (by exact hcode), printInt_eq, htext]
  rfl

/-- System call 5 reads an integer. -/
theorem execute_readInt (m : Machine) (hcode : m.reg .v0 = 5) :
    m.execute ⟨.syscall, []⟩
      = .ok ((m.setReg .v0 m.console.readInt.1).withConsole m.console.readInt.2) := by
  show m.systemCall = _
  have hv0 : m.storage.regs.v0 = 5 := hcode
  unfold systemCall
  rw [if_neg (by omega), if_pos hv0]
  rfl

/-- System call 10 halts. -/
theorem execute_exit (m : Machine) (hcode : m.reg .v0 = 10) :
    m.execute ⟨.syscall, []⟩ = .ok { m with halted := true } := by
  show m.systemCall = _
  have hv0 : m.storage.regs.v0 = 10 := hcode
  unfold systemCall
  rw [if_neg (by omega), if_neg (by omega), if_pos hv0]

/-- System call 11 prints a character. -/
theorem execute_printChar (m : Machine) (hcode : m.reg .v0 = 11) :
    m.execute ⟨.syscall, []⟩ = .ok (m.withConsole (m.console.writeChar (m.reg .a0))) := by
  show m.systemCall = _
  have hv0 : m.storage.regs.v0 = 11 := hcode
  unfold systemCall
  rw [if_neg (by omega), if_neg (by omega), if_neg (by omega), if_pos hv0]
  rfl

/-! ## Any instruction -/

/-- What an instruction, with any operands, can do to a machine that has fetched it. -/
inductive Effect (m : Machine) (i : Instr) : Machine → Prop where
  | sets (r : Register) (v : Int) (h : i.opcode ∉ [Opcode.sw, .jal, .jr, .syscall]) :
      Effect m i (m.setReg r v)
  | stores (address v : Int) (h : i.opcode = .sw) : Effect m i (m.setWord address v)
  | calls (pc : Int) (h : i.opcode = .jal) : Effect m i ((m.setReg .ra m.pc).jump pc)
  | returns (pc : Int) (h : i.opcode = .jr) : Effect m i (m.jump pc)
  | printsInt (h : i.opcode = .syscall) :
      Effect m i (m.withConsole (m.console.write (toString (m.reg .a0))))
  | reads (h : i.opcode = .syscall) :
      Effect m i ((m.setReg .v0 m.console.readInt.1).withConsole m.console.readInt.2)
  | exits (h : i.opcode = .syscall) : Effect m i { m with halted := true }
  | printsChar (h : i.opcode = .syscall) :
      Effect m i (m.withConsole (m.console.writeChar (m.reg .a0)))

theorem writeRegister_eq_ok {m m' : Machine} {name : String} {value : Int}
    (h : m.writeRegister name value = .ok m') : ∃ r, m' = m.setReg r value := by
  obtain ⟨storage, hstorage, h⟩ := except_bind_eq_ok.1 h
  obtain ⟨r, _, hregs⟩ := except_bind_eq_ok.1 hstorage
  cases hregs
  cases h
  exact ⟨r, rfl⟩

theorem storeWord_eq_ok {d d' : Storage} {address value : Int}
    (h : d.storeWord address value = .ok d') :
    d' = { d with memory := d.memory.insert address (wrap value) } := by
  obtain ⟨_, _, h⟩ := except_bind_eq_ok.1 h
  cases h
  rfl

theorem decimal_eq_ok {n : Int} {text : String} (h : decimal n = .ok text) :
    text = toString n := by
  unfold decimal at h
  split at h
  · cases h
    rfl
  · cases h

theorem effect_of_systemCall {m m' : Machine} {i : Instr} (hi : i.opcode = .syscall)
    (h : m.systemCall = .ok m') : Effect m i m' := by
  unfold systemCall at h
  dsimp only at h
  split at h
  · rw [printInt_eq] at h
    obtain ⟨text, htext, h⟩ := except_bind_eq_ok.1 h
    cases h
    cases decimal_eq_ok htext
    exact .printsInt hi
  split at h
  · cases h
    exact .reads hi
  split at h
  · cases h
    exact .exits hi
  split at h
  · cases h
    exact .printsChar hi
  · cases h

theorem effect_of_execute {m m' : Machine} {i : Instr} (h : m.execute i = .ok m') :
    Effect m i m' := by
  -- an instruction that writes a register, once its operands are read
  have hsets : ∀ (target : String) (value : Int), i.opcode ∉ [Opcode.sw, .jal, .jr, .syscall] →
      m.writeRegister target value = .ok m' → Effect m i m' := by
    intro target value hi hwrite
    obtain ⟨r, rfl⟩ := writeRegister_eq_ok hwrite
    exact .sets r value hi
  unfold execute at h
  split at h
  · rename_i hop _
    obtain ⟨_, _, h⟩ := except_bind_eq_ok.1 h
    exact hsets _ _ (by rw [hop]; decide) h
  · rename_i hop _
    obtain ⟨_, _, h⟩ := except_bind_eq_ok.1 h
    obtain ⟨_, _, h⟩ := except_bind_eq_ok.1 h
    exact hsets _ _ (by rw [hop]; decide) h
  · rename_i hop _
    obtain ⟨address, _, h⟩ := except_bind_eq_ok.1 h
    obtain ⟨value, _, h⟩ := except_bind_eq_ok.1 h
    obtain ⟨storage, hstore, h⟩ := except_bind_eq_ok.1 h
    cases h
    cases storeWord_eq_ok hstore
    exact .stores address value hop
  · rename_i hop _
    obtain ⟨_, _, h⟩ := except_bind_eq_ok.1 h
    exact hsets _ _ (by rw [hop]; decide) h
  · rename_i hop _
    obtain ⟨_, _, h⟩ := except_bind_eq_ok.1 h
    obtain ⟨_, _, h⟩ := except_bind_eq_ok.1 h
    exact hsets _ _ (by rw [hop]; decide) h
  · rename_i hop _
    obtain ⟨_, _, h⟩ := except_bind_eq_ok.1 h
    obtain ⟨_, _, h⟩ := except_bind_eq_ok.1 h
    exact hsets _ _ (by rw [hop]; decide) h
  · rename_i hop _
    obtain ⟨_, _, h⟩ := except_bind_eq_ok.1 h
    obtain ⟨_, _, h⟩ := except_bind_eq_ok.1 h
    exact hsets _ _ (by rw [hop]; decide) h
  · rename_i hop _
    split at h
    · cases h
      exact .calls _ hop
    · cases h
  · rename_i hop _
    obtain ⟨pc, _, h⟩ := except_bind_eq_ok.1 h
    cases h
    exact .returns pc hop
  · rename_i hop
    exact effect_of_systemCall hop h
  · cases h

/-! ## Runs of instructions -/

/-- `n` instructions lead from one machine to another, the tick limit aside. -/
inductive Reaches : Machine → Nat → Machine → Prop where
  | refl (m : Machine) : Reaches m 0 m
  | step {m next last : Machine} {i : Instr} {n : Nat} (hhalted : m.halted = false)
      (hfetch : m.fetch? = some i) (hexecute : (m.fetched i).execute i = .ok next)
      (hrest : Reaches next n last) : Reaches m (n + 1) last

/-- An instruction within the limit is a step. -/
theorem step_eq_ok {m next : Machine} {i : Instr} (hhalted : m.halted = false)
    (hlimit : (m.tick : Int) < m.limit) (hfetch : m.fetch? = some i)
    (hexecute : (m.fetched i).execute i = .ok next) : m.step = (.ok (), next) := by
  unfold Machine.step
  rw [if_neg (by rw [hhalted]; decide), if_neg (Int.not_le.mpr hlimit), hfetch]
  dsimp only
  split
  · next m' heq =>
    cases hexecute.symm.trans heq
    rfl
  · next fault heq => cases hexecute.symm.trans heq

/-- At the limit nothing is fetched. -/
theorem step_of_limit_le {m : Machine} (hhalted : m.halted = false) (hlimit : m.limit ≤ m.tick) :
    m.step = (.error (.naming .tickLimit m.limit), m) := by
  unfold Machine.step
  rw [if_neg (by rw [hhalted]; exact Bool.false_ne_true), if_pos hlimit]

/-- Outside of the code nothing is fetched. -/
theorem step_of_fetch_none {m : Machine} (hhalted : m.halted = false)
    (hlimit : (m.tick : Int) < m.limit) (hfetch : m.fetch? = none) :
    m.step = (.error (.naming .pcOutOfRange m.pc), m) := by
  unfold Machine.step
  rw [if_neg (by rw [hhalted]; exact Bool.false_ne_true), if_neg (Int.not_le.mpr hlimit), hfetch]

/-- An instruction that fails leaves the machine that has fetched it. -/
theorem step_eq_error {m : Machine} {i : Instr} {fault : Fault} (hhalted : m.halted = false)
    (hlimit : (m.tick : Int) < m.limit) (hfetch : m.fetch? = some i)
    (hexecute : (m.fetched i).execute i = .error fault) : m.step = (.error fault, m.fetched i) := by
  unfold Machine.step
  rw [if_neg (by rw [hhalted]; exact Bool.false_ne_true), if_neg (Int.not_le.mpr hlimit), hfetch]
  dsimp only
  split
  · next m' heq => cases hexecute.symm.trans heq
  · next fault' heq =>
    cases hexecute.symm.trans heq
    rfl

/-- A step that succeeds leads a run on. -/
theorem run_of_step {m next : Machine} (hrunning : m.halted = false)
    (hstep : m.step = (.ok (), next)) : m.run = next.run := by
  rw [Machine.run, dif_neg (by rw [hrunning]; exact Bool.false_ne_true)]
  split
  · rename_i heq
    rw [hstep] at heq
    rw [(Prod.mk.inj heq).2]
  · rename_i heq
    rw [hstep] at heq
    cases heq

/-- A step that fails ends a run. -/
theorem run_of_step_error {m last : Machine} {fault : Fault} (hrunning : m.halted = false)
    (hstep : m.step = (.error fault, last)) : m.run = (.error fault, last) := by
  rw [Machine.run, dif_neg (by rw [hrunning]; exact Bool.false_ne_true)]
  split
  · rename_i heq
    rw [hstep] at heq
    cases heq
  · rename_i heq
    rw [hstep] at heq
    cases heq
    rfl

namespace Reaches

variable {m mid last : Machine} {n k : Nat}

/-- One instruction. -/
theorem single {i : Instr} (hhalted : m.halted = false) (hfetch : m.fetch? = some i)
    (hexecute : (m.fetched i).execute i = .ok last) : Reaches m 1 last :=
  .step hhalted hfetch hexecute (.refl last)

theorem trans (hfirst : Reaches m n mid) (hsecond : Reaches mid k last) :
    Reaches m (n + k) last := by
  induction hfirst with
  | refl m => rw [Nat.zero_add]; exact hsecond
  | step hhalted hfetch hexecute _ ih =>
    rw [Nat.add_right_comm]
    exact .step hhalted hfetch hexecute (ih hsecond)

/-- Each instruction counts a tick, and none changes the limit. -/
theorem tick_eq (h : Reaches m n last) : last.tick = m.tick + n ∧ last.limit = m.limit := by
  induction h with
  | refl m => exact ⟨rfl, rfl⟩
  | @step m next last i n _ _ hexecute _ ih =>
    have hkeeps := execute_keeps hexecute
    refine ⟨?_, ih.2.trans hkeeps.2⟩
    rw [ih.1, hkeeps.1]
    show m.tick + 1 + n = m.tick + (n + 1)
    omega

/-- A run whose limit allows the instructions goes on where they lead. -/
theorem run_eq (h : Reaches m n last) (hlimit : (m.tick + n : Int) ≤ m.limit) :
    m.run = last.run := by
  induction h with
  | refl m => rfl
  | @step m next last i n hhalted hfetch hexecute _ ih =>
    have hkeeps := execute_keeps hexecute
    have htick : next.tick = m.tick + 1 := hkeeps.1
    have hlim : next.limit = m.limit := hkeeps.2
    have hstep : m.step = (.ok (), next) :=
      step_eq_ok hhalted (by push_cast at hlimit; omega) hfetch hexecute
    rw [run_of_step hhalted hstep]
    exact ih (by rw [htick, hlim]; push_cast at hlimit ⊢; omega)

end Reaches

/-- One instruction within the limit is a step. -/
theorem Reaches.step_eq {m m' : Machine} (h : Reaches m 1 m') (hlimit : (m.tick : Int) < m.limit) :
    m.step = (.ok (), m') := by
  cases h with
  | step hhalted hfetch hexecute hrest =>
    cases hrest
    exact step_eq_ok hhalted hlimit hfetch hexecute

/-- A halted machine stays as it is. -/
theorem step_of_halted {m : Machine} (h : m.halted = true) : m.step = (.ok (), m) := by
  unfold step
  rw [if_pos h]

/-- A halted machine runs no more. -/
theorem run_of_halted {m : Machine} (h : m.halted = true) : m.run = (.ok (), m) := by
  rw [Machine.run, dif_pos h]

/-! ## Any step -/

theorem fetch?_eq_some {m : Machine} {i : Instr} (h : m.fetch? = some i) :
    0 ≤ m.pc ∧ m.image.code[m.pc.toNat]? = some i := by
  unfold fetch? at h
  split at h
  · rename_i hpc
    exact ⟨hpc, h⟩
  · cases h

/-- All that a step can do: nothing on a halted machine, fail without fetching, or fetch an
instruction and execute it. -/
inductive StepCase (m : Machine) : Except Fault Unit × Machine → Prop where
  | halted (hhalted : m.halted = true) : StepCase m (.ok (), m)
  | atLimit (hrunning : m.halted = false) (hlimit : m.limit ≤ m.tick) :
      StepCase m (.error (.naming .tickLimit m.limit), m)
  | outside (hrunning : m.halted = false) (hlimit : (m.tick : Int) < m.limit)
      (hfetch : m.fetch? = none) : StepCase m (.error (.naming .pcOutOfRange m.pc), m)
  | done {i : Instr} {next : Machine} (hrunning : m.halted = false)
      (hlimit : (m.tick : Int) < m.limit) (hfetch : m.fetch? = some i)
      (hexecute : (m.fetched i).execute i = .ok next) : StepCase m (.ok (), next)
  | failed {i : Instr} {fault : Fault} (hrunning : m.halted = false)
      (hlimit : (m.tick : Int) < m.limit) (hfetch : m.fetch? = some i)
      (hexecute : (m.fetched i).execute i = .error fault) : StepCase m (.error fault, m.fetched i)

theorem step_cases (m : Machine) : StepCase m m.step := by
  by_cases hhalted : m.halted = true
  · rw [step_of_halted hhalted]
    exact .halted hhalted
  have hrunning : m.halted = false := Bool.eq_false_iff.mpr hhalted
  rcases Int.lt_or_le m.tick m.limit with hlimit | hlimit
  · cases hfetch : m.fetch? with
    | none =>
      rw [step_of_fetch_none hrunning hlimit hfetch]
      exact .outside hrunning hlimit hfetch
    | some i =>
      cases hexecute : (m.fetched i).execute i with
      | ok next =>
        rw [step_eq_ok hrunning hlimit hfetch hexecute]
        exact .done hrunning hlimit hfetch hexecute
      | error fault =>
        rw [step_eq_error hrunning hlimit hfetch hexecute]
        exact .failed hrunning hlimit hfetch hexecute
  · rw [step_of_limit_le hrunning hlimit]
    exact .atLimit hrunning hlimit

end MicroLang.Machine
