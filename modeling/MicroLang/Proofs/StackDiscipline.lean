import MicroLang.Proofs.CompilerCorrectness
import MicroLang.Proofs.EmittedCode

/-!
# Stack discipline

A compiled program opens its frame, works in it, calls routines that come back, and closes it again.
Nothing of this depends on what the program computes, so it is proved for every body of emitted code
in the template, one instruction at a time.

`Stands` says where a machine can be, and what its pointers and the saved registers are there: in
the prologue, between two instructions of the body, in one of the routines, in the epilogue, or at
its end. Every instruction leads from such a place to such a place (`Stands.goesOn`). On the way it
stores nothing but what its place allows (`MayStore`), and a return goes behind the call that was
executed last (`lastCall`).

> `steps_disciplined`: all states of a run of a compiled program are in order.
-/

namespace MicroLang.Machine

open MicroLang.Assembly
open MicroLang.Program (Operator Routine)

/-! ## Calls -/

/-- The place of the last call, once a machine has gone on: its own place if it executes a call. -/
def called (m : Machine) (call : Option Int) : Option Int :=
  if m.halted then call
  else if m.fetch?.any (fun i => i.opcode = .jal) then some m.pc
  else call

/-- The place of the call that is executed last within `k` steps, or `call` if there is none. -/
def lastCall : (k : Nat) → Machine → (call : Option Int) → Option Int
  | 0, _, call => call
  | k + 1, m, call => lastCall k m.step.2 (m.called call)

/-! ## Places -/

/-- A body of emitted code and the size of its frame, which lies above the data. -/
structure Fitting (body : List Instr) (size : Nat) : Prop where
  code : ∀ i ∈ body, Emitted (fun n => n.natAbs < 2 ^ 31) size i
  aligned : size % 4 = 0
  frame : (size : Int) ≤ stackTop - dataBase
  length : body.length + 20 < 2 ^ 31

/-- Before instruction `j` of the prologue. The registers at entry are zero, and are saved one after
the other. -/
structure Entering (body : List Instr) (size j : Nat) (m : Machine) : Prop where
  loaded : m.Loaded body size
  pc : m.pc = j
  sp : m.reg .sp = if j = 0 then stackTop else stackTop - size
  fp : m.reg .fp = 0
  ra : m.reg .ra = 0
  savedRa : 2 ≤ j → m.word (stackTop - size + 20) = 0
  savedFp : 3 ≤ j → m.word (stackTop - size + 28) = 0
  newline : m.word dataBase = 10

/-- Between prologue and epilogue, `$sp` and `$fp` are at the bottom of the frame, and the registers
at entry are saved in it. -/
structure Framed (body : List Instr) (size : Nat) (m : Machine) : Prop where
  loaded : m.Loaded body size
  sp : m.reg .sp = stackTop - size
  fp : m.reg .fp = stackTop - size
  savedRa : m.word (stackTop - size + 20) = 0
  savedFp : m.word (stackTop - size + 28) = 0
  newline : m.word dataBase = 10

/-- In a routine, `$ra` leads behind the call in the body that was executed last. -/
def Returns (body : List Instr) (call : Option Int) (m : Machine) : Prop :=
  ∃ c : Nat, c < body.length ∧ call = some (4 + (c : Int)) ∧ m.reg .ra = 4 + c + 1

/-- Before instruction `j` of the epilogue, the first one apart. The saved registers are loaded one
after the other. -/
structure Leaving (body : List Instr) (size j : Nat) (m : Machine) : Prop where
  loaded : m.Loaded body size
  pc : m.pc = 4 + body.length + j
  sp : m.reg .sp = if j < 4 then stackTop - size else stackTop
  fp : 2 ≤ j → m.reg .fp = 0
  ra : 3 ≤ j → m.reg .ra = 0
  savedRa : m.word (stackTop - size + 20) = 0
  savedFp : m.word (stackTop - size + 28) = 0
  v0 : j = 5 → m.reg .v0 = 10
  newline : m.word dataBase = 10

/-- At the end, the registers are as they were at entry. -/
structure Closed (m : Machine) : Prop where
  halted : m.halted = true
  sp : m.reg .sp = stackTop
  fp : m.reg .fp = 0
  ra : m.reg .ra = 0
  newline : m.word dataBase = 10

/-- The places of a run, with the call that was executed last. -/
inductive Stands (body : List Instr) (size : Nat) (call : Option Int) (m : Machine) : Prop where
  | prologue (j : Nat) (hj : j < 4) (hm : Entering body size j m)
  | inside (j : Nat) (hj : j ≤ body.length) (hpc : m.pc = 4 + j) (hm : Framed body size m)
  | read (j : Nat) (hj : j < 3) (hpc : m.pc = body.length + 10 + j) (hm : Framed body size m)
      (hra : Returns body call m) (hv0 : j = 1 → m.reg .v0 = 5)
  | write (j : Nat) (hj : j < 7) (hpc : m.pc = body.length + 13 + j) (hm : Framed body size m)
      (hra : Returns body call m) (hv0 : j = 2 → m.reg .v0 = 1) (hv0' : j = 5 → m.reg .v0 = 11)
  | epilogue (j : Nat) (hj : 1 ≤ j) (hj' : j < 6) (hm : Leaving body size j m)
  | halted (hm : Closed m)

/-- The addresses that the instruction at a place may store to: the prologue saves two registers and
the body stores to slots of the frame. -/
def MayStore (body : List Instr) (size : Nat) (pc address : Int) : Prop :=
  (pc = 1 ∧ address = stackTop - size + 20) ∨ (pc = 2 ∧ address = stackTop - size + 28)
    ∨ (4 ≤ pc ∧ pc < 4 + body.length ∧ address % 4 = 0 ∧ stackTop - size + 32 ≤ address
      ∧ address < stackTop)

/-- An instruction that keeps to the discipline: only `sw` changes the memory, at an address that
its place allows, and a return goes behind the last call. -/
structure Orderly (body : List Instr) (size : Nat) (call : Option Int) (m m' : Machine) : Prop where
  keeps : ∀ i, m.fetch? = some i → i.opcode ≠ .sw → m'.storage.memory = m.storage.memory
  stores : ∀ i, m.fetch? = some i → i.opcode = .sw → ∃ target text address value,
    i.args = [target, text] ∧ m.address text = .ok address ∧ MayStore body size m.pc address
      ∧ m'.storage.memory = m.storage.memory.insert address value
  returns : ∀ i, m.fetch? = some i → i.opcode = .jr → ∃ c, call = some c ∧ m'.pc = c + 1

/-- One instruction leads to another place, and keeps to the discipline. -/
def GoesOn (body : List Instr) (size : Nat) (call : Option Int) (m : Machine) : Prop :=
  ∃ m', Reaches m 1 m' ∧ Stands body size (m.called call) m' ∧ Orderly body size call m m'

section

variable {body : List Instr} {size : Nat} {call : Option Int} {m m' : Machine} {op : Opcode}
  {args : List String} {r : Register} {v pc address : Int} {console : Console}

theorem called_of_jal (hrunning : m.halted = false) (hfetch : m.fetch? = some ⟨.jal, args⟩) :
    m.called call = some m.pc := by
  unfold called
  rw [if_neg (by rw [hrunning]; decide), hfetch]
  rfl

theorem called_of_other (hfetch : m.fetch? = some ⟨op, args⟩) (hop : op ≠ .jal) :
    m.called call = call := by
  unfold called
  rw [hfetch, Option.any_some, decide_eq_false hop]
  exact ite_self call

/-- An instruction that stores nothing. -/
theorem Orderly.of_memory (hfetch : m.fetch? = some ⟨op, args⟩) (hop : op ≠ .sw)
    (hmemory : m'.storage.memory = m.storage.memory)
    (hreturns : op = .jr → ∃ c, call = some c ∧ m'.pc = c + 1) : Orderly body size call m m' where
  keeps := fun _ _ _ => hmemory
  stores := by
    intro i hfetch' hsw
    cases hfetch.symm.trans hfetch'
    exact absurd hsw hop
  returns := by
    intro i hfetch' hjr
    cases hfetch.symm.trans hfetch'
    exact hreturns hjr

/-- An instruction that stores nothing, and neither calls nor returns. -/
theorem GoesOn.of_does (hfetch : m.fetch? = some ⟨op, args⟩) (hop : op ∉ [Opcode.sw, .jal, .jr])
    (h : Does body size r v pc console m m') (hstands : Stands body size call m') :
    GoesOn body size call m := by
  simp only [List.mem_cons, List.not_mem_nil, or_false, not_or] at hop
  refine ⟨m', h.reaches, ?_, .of_memory hfetch hop.1 h.memory fun hjr => absurd hjr hop.2.2⟩
  rw [called_of_other hfetch hop.2.1]
  exact hstands

theorem GoesOn.of_stores {text : String} (hfetch : m.fetch? = some ⟨.sw, [r.name, text]⟩)
    (haddress : m.address text = .ok address) (h : Stores body size address v m m')
    (hmay : MayStore body size m.pc address) (hstands : Stands body size call m') :
    GoesOn body size call m := by
  refine ⟨m', h.reaches, ?_, ?_, ?_, ?_⟩
  · rw [called_of_other hfetch (by decide)]
    exact hstands
  · intro i hfetch' hsw
    cases hfetch.symm.trans hfetch'
    exact absurd rfl hsw
  · intro i hfetch' _
    cases hfetch.symm.trans hfetch'
    exact ⟨_, text, address, _, rfl, haddress, hmay, h.memory⟩
  · intro i hfetch' hjr
    cases hfetch.symm.trans hfetch'
    cases hjr

/-! ## Prologue -/

theorem Entering.goesOn (hfit : Fitting body size) {j : Nat} (hj : j < 4)
    (hm : Entering body size j m) : GoesOn body size call m := by
  have htop : stackTop = 0x7FFFEFFC := rfl
  have hdata : dataBase = 0x10010000 := rfl
  have hframe := hfit.frame
  have haligned := hfit.aligned
  obtain rfl | rfl | rfl | rfl : j = 0 ∨ j = 1 ∨ j = 2 ∨ j = 3 := by omega
  · have hfetch := hm.loaded.fetch?_prologue (j := 0) hm.pc rfl
    obtain ⟨m', h⟩ := hm.loaded.sets hfetch (execute_openFrame _ (Int.natCast_nonneg size)
      (Text.Numeral.length_toDigits_le (by omega)))
    refine .of_does hfetch (by decide) h (.prologue 1 (by decide) ⟨h.loaded, ?_, ?_, ?_, ?_,
      by omega, by omega, ?_⟩)
    · rw [h.pc, hm.pc]
      rfl
    · rw [h.reg, reg_fetched, hm.sp]
      exact wrap_eq_self (by rw [if_pos rfl]; omega) (by rw [if_pos rfl]; omega)
    · rw [h.reg]
      exact hm.fp
    · rw [h.reg]
      exact hm.ra
    · rw [h.word, hm.newline]
  · have hsp : m.reg .sp = stackTop - size := hm.sp
    have hfetch := hm.loaded.fetch?_prologue (j := 1) hm.pc rfl
    have haddress : m.address (memoryOperand 20 "$sp") = .ok (stackTop - size + 20) := by
      rw [← hsp]
      exact address_offset (n := 20) m .sp (by decide)
    obtain ⟨m', h⟩ := hm.loaded.stores (r := .ra) hfetch haddress (by omega)
    rw [hm.ra] at h
    refine .of_stores (r := .ra) hfetch haddress h (.inl ⟨hm.pc, rfl⟩)
      (.prologue 2 (by decide) ⟨h.loaded, ?_, (h.reg _).trans hsp, (h.reg _).trans hm.fp,
        (h.reg _).trans hm.ra, fun _ => ?_, by omega, ?_⟩)
    · rw [h.pc, hm.pc]
      rfl
    · rw [h.word]
      exact if_pos rfl
    · rw [h.word, if_neg (by omega), hm.newline]
  · have hsp : m.reg .sp = stackTop - size := hm.sp
    have hfetch := hm.loaded.fetch?_prologue (j := 2) hm.pc rfl
    have haddress : m.address (memoryOperand 28 "$sp") = .ok (stackTop - size + 28) := by
      rw [← hsp]
      exact address_offset (n := 28) m .sp (by decide)
    obtain ⟨m', h⟩ := hm.loaded.stores (r := .fp) hfetch haddress (by omega)
    rw [hm.fp] at h
    refine .of_stores (r := .fp) hfetch haddress h (.inr (.inl ⟨hm.pc, rfl⟩))
      (.prologue 3 (by decide) ⟨h.loaded, ?_, (h.reg _).trans hsp, (h.reg _).trans hm.fp,
        (h.reg _).trans hm.ra, fun _ => ?_, fun _ => ?_, ?_⟩)
    · rw [h.pc, hm.pc]
      rfl
    · rw [h.word, if_neg (by omega), hm.savedRa (by decide)]
    · rw [h.word]
      exact if_pos rfl
    · rw [h.word, if_neg (by omega), hm.newline]
  · have hsp : m.reg .sp = stackTop - size := hm.sp
    have hfetch := hm.loaded.fetch?_prologue (j := 3) hm.pc rfl
    obtain ⟨m', h⟩ := hm.loaded.sets hfetch (execute_move _ .fp .sp)
    refine .of_does hfetch (by decide) h (.inside 0 (Nat.zero_le _) ?_ ⟨h.loaded, ?_, ?_, ?_, ?_,
      ?_⟩)
    · rw [h.pc, hm.pc]
      rfl
    · rw [h.reg]
      exact hsp
    · rw [h.reg, reg_fetched, hsp]
      exact wrap_eq_self (by omega) (by omega)
    · rw [h.word, hm.savedRa (by decide)]
    · rw [h.word, hm.savedFp (by decide)]
    · rw [h.word, hm.newline]

/-! ## Routines -/

theorem Framed.of_does (hm : Framed body size m) (h : Does body size r v pc console m m')
    (hr : r ≠ .sp ∧ r ≠ .fp) : Framed body size m' where
  loaded := h.loaded
  sp := by rw [h.reg, if_neg (fun heq => hr.1 heq.1.symm), hm.sp]
  fp := by rw [h.reg, if_neg (fun heq => hr.2 heq.1.symm), hm.fp]
  savedRa := by rw [h.word, hm.savedRa]
  savedFp := by rw [h.word, hm.savedFp]
  newline := by rw [h.word, hm.newline]

theorem Returns.of_does (hm : Returns body call m) (h : Does body size r v pc console m m')
    (hr : r ≠ .ra) : Returns body call m' := by
  obtain ⟨c, hc, hcall, hra⟩ := hm
  refine ⟨c, hc, hcall, ?_⟩
  rw [h.reg, if_neg (fun heq => hr heq.1.symm), hra]

/-- The last instruction of a routine goes back into the body. -/
theorem Framed.goesOn_return (hm : Framed body size m) (hra : Returns body call m)
    (hfetch : m.fetch? = some ⟨.jr, ["$ra"]⟩) : GoesOn body size call m := by
  obtain ⟨c, hc, hcall, hra⟩ := hra
  obtain ⟨m', h⟩ := hm.loaded.returns hfetch
  have hpc : m'.pc = 4 + c + 1 := h.pc.trans hra
  refine ⟨m', h.reaches, ?_,
    .of_memory hfetch (by decide) h.memory fun _ => ⟨4 + c, hcall, hpc⟩⟩
  rw [called_of_other hfetch (by decide)]
  refine .inside (c + 1) hc ?_ (hm.of_does h (by decide))
  rw [hpc, Int.natCast_add, Int.add_assoc]
  rfl

theorem Framed.goesOn_read (hm : Framed body size m) {j : Nat} (hj : j < 3)
    (hpc : m.pc = body.length + 10 + j) (hra : Returns body call m) (hv0 : j = 1 → m.reg .v0 = 5) :
    GoesOn body size call m := by
  obtain rfl | rfl | rfl : j = 0 ∨ j = 1 ∨ j = 2 := by omega
  · have hfive : readWord "5" = .ok 5 := rfl
    have hfetch := hm.loaded.fetch?_read (j := 0) hpc rfl
    obtain ⟨m', h⟩ := hm.loaded.sets hfetch (execute_li _ .v0 hfive)
    refine .of_does hfetch (by decide) h (.read 1 (by decide) ?_ (hm.of_does h (by decide))
      (hra.of_does h (by decide)) fun _ => ?_)
    · rw [h.pc, hpc]
      rfl
    · rw [h.reg]
      rfl
  · have hfetch := hm.loaded.fetch?_read (j := 1) hpc rfl
    obtain ⟨m', h⟩ := hm.loaded.reads hfetch (hv0 rfl)
    refine .of_does hfetch (by decide) h (.read 2 (by decide) ?_ (hm.of_does h (by decide))
      (hra.of_does h (by decide)) (by omega))
    rw [h.pc, hpc]
    rfl
  · exact hm.goesOn_return hra (hm.loaded.fetch?_read (j := 2) hpc rfl)

/-- An instruction of `write` that writes none of the pointers leads to the next one. -/
theorem Framed.goesOn_within_write (hm : Framed body size m) {j : Nat} (hj : j < 6)
    (hpc : m.pc = body.length + 13 + j) (hra : Returns body call m)
    (hfetch : m.fetch? = some ⟨op, args⟩) (hop : op ∉ [Opcode.sw, .jal, .jr])
    (h : Does body size r v (m.pc + 1) console m m') (hr : r ∉ [Register.sp, .fp, .ra])
    (hv0 : j = 1 → m'.reg .v0 = 1) (hv0' : j = 4 → m'.reg .v0 = 11) : GoesOn body size call m := by
  simp only [List.mem_cons, List.not_mem_nil, or_false, not_or] at hr
  refine .of_does hfetch hop h (.write (j + 1) (Nat.succ_lt_succ hj) ?_
    (hm.of_does h ⟨hr.1, hr.2.1⟩) (hra.of_does h hr.2.2) (fun heq => hv0 (Nat.succ.inj heq))
    (fun heq => hv0' (Nat.succ.inj heq)))
  rw [h.pc, hpc, Int.natCast_add, Int.add_assoc]
  rfl

theorem Framed.goesOn_write (hm : Framed body size m) {j : Nat} (hj : j < 7)
    (hpc : m.pc = body.length + 13 + j) (hra : Returns body call m) (hv0 : j = 2 → m.reg .v0 = 1)
    (hv0' : j = 5 → m.reg .v0 = 11) : GoesOn body size call m := by
  have hone : readWord "1" = .ok 1 := rfl
  have heleven : readWord "11" = .ok 11 := rfl
  obtain rfl | rfl | rfl | rfl | rfl | rfl | rfl :
    j = 0 ∨ j = 1 ∨ j = 2 ∨ j = 3 ∨ j = 4 ∨ j = 5 ∨ j = 6 := by omega
  · have hfetch := hm.loaded.fetch?_write (j := 0) hpc rfl
    obtain ⟨m', h⟩ := hm.loaded.sets hfetch (execute_lw _ .t0
      (Loaded.address_newline ⟨hm.loaded.image, hm.loaded.running, hm.loaded.words⟩) (by decide))
    exact hm.goesOn_within_write (by decide) hpc hra hfetch (by decide) h (by decide) (by omega)
      (by omega)
  · have hfetch := hm.loaded.fetch?_write (j := 1) hpc rfl
    obtain ⟨m', h⟩ := hm.loaded.sets hfetch (execute_li _ .v0 hone)
    exact hm.goesOn_within_write (by decide) hpc hra hfetch (by decide) h (by decide)
      (fun _ => h.reg .v0) (by omega)
  · have hfetch := hm.loaded.fetch?_write (j := 2) hpc rfl
    obtain ⟨m', h⟩ := hm.loaded.printsInt hfetch (hv0 rfl)
    exact hm.goesOn_within_write (by decide) hpc hra hfetch (by decide) h (by decide) (by omega)
      (by omega)
  · have hfetch := hm.loaded.fetch?_write (j := 3) hpc rfl
    obtain ⟨m', h⟩ := hm.loaded.sets hfetch (execute_move _ .a0 .t0)
    exact hm.goesOn_within_write (by decide) hpc hra hfetch (by decide) h (by decide) (by omega)
      (by omega)
  · have hfetch := hm.loaded.fetch?_write (j := 4) hpc rfl
    obtain ⟨m', h⟩ := hm.loaded.sets hfetch (execute_li _ .v0 heleven)
    exact hm.goesOn_within_write (by decide) hpc hra hfetch (by decide) h (by decide) (by omega)
      (fun _ => h.reg .v0)
  · have hfetch := hm.loaded.fetch?_write (j := 5) hpc rfl
    obtain ⟨m', h⟩ := hm.loaded.printsChar hfetch (hv0' rfl)
    exact hm.goesOn_within_write (by decide) hpc hra hfetch (by decide) h (by decide) (by omega)
      (by omega)
  · exact hm.goesOn_return hra (hm.loaded.fetch?_write (j := 6) hpc rfl)

/-! ## Body -/

/-- Slots are words above the saved registers and below the top of the stack. -/
theorem Fitting.slot (hfit : Fitting body size) {offset : Nat} (h : IsSlot size offset) :
    (stackTop - size + offset) % 4 = 0 ∧ stackTop - size + 32 ≤ stackTop - size + (offset : Int)
      ∧ stackTop - size + offset < stackTop ∧ dataBase < stackTop - size + (offset : Int)
      ∧ offset < 2 ^ 32 := by
  have htop : stackTop = 0x7FFFEFFC := rfl
  have hdata : dataBase = 0x10010000 := rfl
  have hframe := hfit.frame
  have haligned := hfit.aligned
  obtain ⟨hoffset, habove, hbelow⟩ := h
  omega

theorem ne_of_mem_scratch (hr : r ∈ scratch) : r ≠ .sp ∧ r ≠ .fp := by
  simp only [scratch, List.mem_cons, List.not_mem_nil, or_false] at hr
  rcases hr with rfl | rfl | rfl | rfl <;> decide

/-- A word stored into a slot leaves the saved registers and the newline alone. -/
theorem Framed.of_stores (hfit : Fitting body size) (hm : Framed body size m) {offset : Nat}
    (hoffset : IsSlot size offset) (h : Stores body size (stackTop - size + offset) v m m') :
    Framed body size m' := by
  obtain ⟨_, habove, _, hdata, _⟩ := hfit.slot hoffset
  refine ⟨h.loaded, (h.reg _).trans hm.sp, (h.reg _).trans hm.fp, ?_, ?_, ?_⟩
  · rw [h.word, if_neg (by omega), hm.savedRa]
  · rw [h.word, if_neg (by omega), hm.savedFp]
  · rw [h.word, if_neg (by omega), hm.newline]

/-- A call leads to a routine, with its own place behind in `$ra`. -/
theorem Framed.goesOn_call (hfit : Fitting body size) (hm : Framed body size m) {j : Nat}
    (hj : j < body.length) (hpc : m.pc = 4 + j) (routine : Routine)
    (hfetch : m.fetch? = some ⟨.jal, [routine.name]⟩) : GoesOn body size call m := by
  have hlength := hfit.length
  have hcalled : m.called call = some (4 + (j : Int)) := by
    rw [called_of_jal hm.loaded.running hfetch, hpc]
  -- the place to return to is a 32-bit integer, so it fits into `$ra`
  have hreturns : ∀ {target m'}, Does body size .ra (m.pc + 1) target m.console m m' →
      Returns body (m.called call) m' := by
    intro target m' h
    refine ⟨j, hj, hcalled, ?_⟩
    rw [h.reg, if_pos (by decide), hpc]
    exact wrap_eq_self (by omega) (by omega)
  have horderly : ∀ {target m'}, Does body size .ra (m.pc + 1) target m.console m m' →
      Orderly body size call m m' := by
    intro target m' h
    exact .of_memory hfetch (by decide) h.memory nofun
  cases routine with
  | read =>
    have hlabel : m.image.textLabels["read"]? = some ((body.length : Int) + 10) := by
      rw [hm.loaded.image]
      rfl
    obtain ⟨m', h⟩ := hm.loaded.calls hfetch hlabel
    exact ⟨m', h.reaches, .read 0 (by decide) (h.pc.trans (Int.add_zero _).symm)
      (hm.of_does h (by decide)) (hreturns h) (by omega), horderly h⟩
  | write =>
    have hlabel : m.image.textLabels["write"]? = some ((body.length : Int) + 13) := by
      rw [hm.loaded.image]
      rfl
    obtain ⟨m', h⟩ := hm.loaded.calls hfetch hlabel
    exact ⟨m', h.reaches, .write 0 (by decide) (h.pc.trans (Int.add_zero _).symm)
      (hm.of_does h (by decide)) (hreturns h) (by omega) (by omega), horderly h⟩

theorem Framed.goesOn_code (hfit : Fitting body size) (hm : Framed body size m) {j : Nat}
    {i : Instr} (hj : j < body.length) (hpc : m.pc = 4 + j) (hfetch : m.fetch? = some i)
    (hcode : Emitted (fun n => n.natAbs < 2 ^ 31) size i) : GoesOn body size call m := by
  have hplace : ∀ {m' : Machine}, m'.pc = m.pc + 1 → m'.pc = 4 + (j + 1 : Nat) := by
    intro m' h
    rw [h, hpc, Int.natCast_add, Int.add_assoc]
    rfl
  cases hcode with
  | @loadSlot r hr offset hoffset =>
    obtain ⟨haligned, _, _, _, hlt⟩ := hfit.slot hoffset
    obtain ⟨m', h⟩ := hm.loaded.sets hfetch (execute_lw _ r (address_offset _ .fp hlt)
      (by rw [reg_fetched, hm.fp]; exact haligned))
    exact .of_does hfetch (by decide) h
      (.inside (j + 1) hj (hplace h.pc) (hm.of_does h (ne_of_mem_scratch hr)))
  | @loadLiteral r hr n hn =>
    have hdigits := Text.Numeral.length_toDigits_le (Nat.lt_trans hn (by decide))
    obtain ⟨m', h⟩ := hm.loaded.sets hfetch (execute_li _ r (readWord_toString n hdigits))
    exact .of_does hfetch (by decide) h
      (.inside (j + 1) hj (hplace h.pc) (hm.of_does h (ne_of_mem_scratch hr)))
  | operator op =>
    cases op with
    | add =>
      obtain ⟨m', h⟩ := hm.loaded.sets hfetch (execute_add _ .t0 .t0 .t1)
      exact .of_does hfetch (by decide) h
        (.inside (j + 1) hj (hplace h.pc) (hm.of_does h (by decide)))
    | sub =>
      obtain ⟨m', h⟩ := hm.loaded.sets hfetch (execute_sub _ .t0 .t0 .t1)
      exact .of_does hfetch (by decide) h
        (.inside (j + 1) hj (hplace h.pc) (hm.of_does h (by decide)))
  | @store r hr offset hoffset =>
    obtain ⟨haligned, habove, hbelow, _, hlt⟩ := hfit.slot hoffset
    have haddress : m.address (Gen.slotOperand offset) = .ok (stackTop - size + offset) := by
      rw [← hm.fp]
      exact address_offset m .fp hlt
    obtain ⟨m', h⟩ := hm.loaded.stores hfetch ((address_fetched ..).trans haddress) haligned
    exact .of_stores hfetch haddress h
      (.inr (.inr ⟨by omega, by omega, haligned, habove, hbelow⟩))
      (.inside (j + 1) hj (hplace h.pc) (hm.of_stores hfit hoffset h))
  | call routine => exact hm.goesOn_call hfit hj hpc routine hfetch

theorem Framed.goesOn_inside (hfit : Fitting body size) (hm : Framed body size m) {j : Nat}
    (hj : j ≤ body.length) (hpc : m.pc = 4 + j) : GoesOn body size call m := by
  by_cases hlt : j < body.length
  · exact hm.goesOn_code hfit hlt hpc (hm.loaded.fetch?_body hpc (List.getElem?_eq_getElem hlt))
      (hfit.code _ (List.getElem_mem hlt))
  · -- behind the body, the epilogue starts
    obtain rfl : j = body.length := by omega
    have htop : stackTop = 0x7FFFEFFC := rfl
    have hdata : dataBase = 0x10010000 := rfl
    have hframe := hfit.frame
    have hfetch := hm.loaded.fetch?_epilogue (j := 0) (by rw [hpc]; rfl) rfl
    obtain ⟨m', h⟩ := hm.loaded.sets hfetch (execute_move _ .sp .fp)
    refine .of_does hfetch (by decide) h (.epilogue 1 (by decide) (by decide) ⟨h.loaded, ?_, ?_,
      by omega, by omega, ?_, ?_, by omega, ?_⟩)
    · rw [h.pc, hpc]
      rfl
    · rw [h.reg, reg_fetched, hm.fp]
      exact wrap_eq_self (by omega) (by omega)
    · rw [h.word, hm.savedRa]
    · rw [h.word, hm.savedFp]
    · rw [h.word, hm.newline]

/-! ## Epilogue -/

/-- An instruction of the epilogue that leads to the next one; the saved registers stay saved. -/
theorem Leaving.of_does {j : Nat} (hm : Leaving body size j m)
    (h : Does body size r v (m.pc + 1) console m m')
    (hsp : m'.reg .sp = if j + 1 < 4 then stackTop - size else stackTop)
    (hfp : 2 ≤ j + 1 → m'.reg .fp = 0) (hra : 3 ≤ j + 1 → m'.reg .ra = 0)
    (hv0 : j + 1 = 5 → m'.reg .v0 = 10) : Leaving body size (j + 1) m' where
  loaded := h.loaded
  pc := by rw [h.pc, hm.pc, Int.natCast_add, Int.add_assoc]; rfl
  sp := hsp
  fp := hfp
  ra := hra
  savedRa := (h.word _).trans hm.savedRa
  savedFp := (h.word _).trans hm.savedFp
  v0 := hv0
  newline := (h.word _).trans hm.newline

theorem Leaving.goesOn (hfit : Fitting body size) {j : Nat} (hj : 1 ≤ j) (hj' : j < 6)
    (hm : Leaving body size j m) : GoesOn body size call m := by
  have htop : stackTop = 0x7FFFEFFC := rfl
  have hdata : dataBase = 0x10010000 := rfl
  have hframe := hfit.frame
  have haligned := hfit.aligned
  obtain rfl | rfl | rfl | rfl | rfl : j = 1 ∨ j = 2 ∨ j = 3 ∨ j = 4 ∨ j = 5 := by omega
  · have hsp : m.reg .sp = stackTop - size := hm.sp
    have hfetch := hm.loaded.fetch?_epilogue (j := 1) hm.pc rfl
    obtain ⟨m', h⟩ := hm.loaded.sets hfetch (execute_lw _ .fp
      (address_offset (n := 28) _ .sp (by decide)) (by rw [reg_fetched, hsp]; omega))
    refine .of_does hfetch (by decide) h (.epilogue 2 (by decide) (by decide)
      (hm.of_does h ?_ (fun _ => ?_) (by omega) (by omega)))
    · rw [h.reg]
      exact hsp
    · rw [h.reg, reg_fetched, hsp, word_fetched]
      exact congrArg wrap hm.savedFp
  · have hsp : m.reg .sp = stackTop - size := hm.sp
    have hfetch := hm.loaded.fetch?_epilogue (j := 2) hm.pc rfl
    obtain ⟨m', h⟩ := hm.loaded.sets hfetch (execute_lw _ .ra
      (address_offset (n := 20) _ .sp (by decide)) (by rw [reg_fetched, hsp]; omega))
    refine .of_does hfetch (by decide) h (.epilogue 3 (by decide) (by decide)
      (hm.of_does h ?_ (fun _ => ?_) (fun _ => ?_) (by omega)))
    · rw [h.reg]
      exact hsp
    · rw [h.reg]
      exact hm.fp (by decide)
    · rw [h.reg, reg_fetched, hsp, word_fetched]
      exact congrArg wrap hm.savedRa
  · -- the frame is closed by what it was opened by
    have hsp : m.reg .sp = stackTop - size := hm.sp
    have hclose : readInteger (toString (size : Int)) = .ok (size : Int) :=
      readInteger_toString size (Text.Numeral.length_toDigits_le (by omega))
    have hfetch := hm.loaded.fetch?_epilogue (j := 3) hm.pc rfl
    obtain ⟨m', h⟩ := hm.loaded.sets hfetch (execute_addi _ .sp .sp hclose)
    refine .of_does hfetch (by decide) h (.epilogue 4 (by decide) (by decide)
      (hm.of_does h ?_ (fun _ => ?_) (fun _ => ?_) (by omega)))
    · rw [h.reg, reg_fetched, hsp, Int.sub_add_cancel]
      rfl
    · rw [h.reg]
      exact hm.fp (by decide)
    · rw [h.reg]
      exact hm.ra (by decide)
  · have hten : readWord "10" = .ok 10 := rfl
    have hfetch := hm.loaded.fetch?_epilogue (j := 4) hm.pc rfl
    obtain ⟨m', h⟩ := hm.loaded.sets hfetch (execute_li _ .v0 hten)
    refine .of_does hfetch (by decide) h (.epilogue 5 (by decide) (by decide)
      (hm.of_does h ?_ (fun _ => ?_) (fun _ => ?_) (fun _ => h.reg .v0)))
    · rw [h.reg]
      exact hm.sp
    · rw [h.reg]
      exact hm.fp (by decide)
    · rw [h.reg]
      exact hm.ra (by decide)
  · have hfetch := hm.loaded.fetch?_epilogue (j := 5) hm.pc rfl
    exact ⟨_, .single hm.loaded.running hfetch (execute_exit _ (hm.v0 rfl)),
      .halted ⟨rfl, hm.sp, hm.fp (by decide), hm.ra (by decide), hm.newline⟩,
      .of_memory hfetch (by decide) rfl nofun⟩

/-! ## Runs -/

/-- Wherever a machine is, its next instruction is in order. -/
theorem Stands.goesOn (hfit : Fitting body size) (hm : Stands body size call m)
    (hrunning : m.halted = false) : GoesOn body size call m := by
  cases hm with
  | prologue j hj hm => exact hm.goesOn hfit hj
  | inside j hj hpc hm => exact hm.goesOn_inside hfit hj hpc
  | read j hj hpc hm hra hv0 => exact hm.goesOn_read hj hpc hra hv0
  | write j hj hpc hm hra hv0 hv0' => exact hm.goesOn_write hj hpc hra hv0 hv0'
  | epilogue j hj hj' hm => exact hm.goesOn hfit hj hj'
  | halted hm =>
    rw [hm.halted] at hrunning
    cases hrunning

theorem called_of_halted (h : m.halted = true) : m.called call = call := by
  unfold called
  rw [if_pos h]

/-- A step leads from place to place. -/
theorem Stands.step (hfit : Fitting body size) (hm : Stands body size call m)
    (hstep : m.step = (.ok (), m')) : Stands body size (m.called call) m' := by
  by_cases hhalted : m.halted = true
  · rw [step_of_halted hhalted] at hstep
    cases hstep
    rw [called_of_halted hhalted]
    exact hm
  · have hrunning : m.halted = false := Bool.eq_false_iff.mpr hhalted
    obtain ⟨next, hreach, hstands, _⟩ := hm.goesOn hfit hrunning
    rw [hreach.step_eq (tick_of_step hrunning hstep).2.2] at hstep
    cases hstep
    exact hstands

/-- So do all steps of a run, and the call executed last goes along. -/
theorem Stands.of_steps (hfit : Fitting body size) {k : Nat} (hm : Stands body size call m)
    (h : m.steps k = (.ok (), m')) : Stands body size (lastCall k m call) m' := by
  induction k generalizing m call with
  | zero =>
    cases h
    exact hm
  | succ k ih =>
    unfold steps at h
    split at h
    · rename_i next hstep
      unfold lastCall
      rw [hstep]
      exact ih (hm.step hfit hstep) h
    · cases h

/-- Only the tick limit ends the steps. -/
theorem Stands.exists_steps (hfit : Fitting body size) {k : Nat} (hm : Stands body size call m)
    (hlimit : (m.tick + k : Int) ≤ m.limit) : ∃ m', m.steps k = (.ok (), m') := by
  induction k generalizing m call with
  | zero => exact ⟨m, rfl⟩
  | succ k ih =>
    push_cast at hlimit
    obtain ⟨next, hstep, hnext⟩ : ∃ next, m.step = (.ok (), next)
        ∧ (next.tick + k : Int) ≤ next.limit := by
      by_cases hhalted : m.halted = true
      · exact ⟨m, step_of_halted hhalted, by omega⟩
      · obtain ⟨next, hreach, _⟩ := hm.goesOn hfit (Bool.eq_false_iff.mpr hhalted)
        obtain ⟨htick, hkept⟩ := hreach.tick_eq
        exact ⟨next, hreach.step_eq (by omega), by omega⟩
    obtain ⟨m', h⟩ := ih (hm.step hfit hstep) hnext
    refine ⟨m', ?_⟩
    unfold steps
    rw [hstep]
    exact h

/-! ## Discipline -/

/-- A state of a run is in order: the next instruction is in the code and keeps to the discipline,
the pointers are where they belong, and the newline is untouched. -/
structure Disciplined (body : List Instr) (size : Nat) (call : Option Int) (m : Machine) :
    Prop where
  inCode : m.halted = false → 0 ≤ m.pc ∧ m.pc < m.image.code.size
  -- behind the prologue, and not behind the first instruction of the epilogue
  pointers : m.halted = false → 4 ≤ m.pc → m.pc ≤ 4 + body.length ∨ body.length + 10 ≤ m.pc →
    m.reg .sp = stackTop - size ∧ m.reg .fp = stackTop - size
  orderly : m.halted = false → ∀ m', m.step = (.ok (), m') → Orderly body size call m m'
  newline : m.word dataBase = 10
  closed : m.halted = true → m.reg .sp = stackTop ∧ m.reg .fp = 0 ∧ m.reg .ra = 0

theorem Loaded.size_code (hm : m.Loaded body size) : m.image.code.size = body.length + 20 := by
  rw [hm.image, Simulation.size_image]

theorem Stands.inCode (hm : Stands body size call m) (hrunning : m.halted = false) :
    0 ≤ m.pc ∧ m.pc < m.image.code.size := by
  cases hm with
  | prologue j hj hm =>
    rw [hm.loaded.size_code, hm.pc]
    omega
  | inside j hj hpc hm =>
    rw [hm.loaded.size_code, hpc]
    omega
  | read j hj hpc hm =>
    rw [hm.loaded.size_code, hpc]
    omega
  | write j hj hpc hm =>
    rw [hm.loaded.size_code, hpc]
    omega
  | epilogue j hj hj' hm =>
    rw [hm.loaded.size_code, hm.pc]
    omega
  | halted hm =>
    rw [hm.halted] at hrunning
    cases hrunning

theorem Stands.pointers (hm : Stands body size call m) (hrunning : m.halted = false)
    (hopened : 4 ≤ m.pc) (hopen : m.pc ≤ 4 + body.length ∨ body.length + 10 ≤ m.pc) :
    m.reg .sp = stackTop - size ∧ m.reg .fp = stackTop - size := by
  cases hm with
  | prologue j hj hm =>
    rw [hm.pc] at hopened
    omega
  | inside j hj hpc hm => exact ⟨hm.sp, hm.fp⟩
  | read j hj hpc hm => exact ⟨hm.sp, hm.fp⟩
  | write j hj hpc hm => exact ⟨hm.sp, hm.fp⟩
  | epilogue j hj hj' hm =>
    rw [hm.pc] at hopen
    omega
  | halted hm =>
    rw [hm.halted] at hrunning
    cases hrunning

theorem Stands.newline (hm : Stands body size call m) : m.word dataBase = 10 := by
  cases hm with
  | prologue j hj hm => exact hm.newline
  | inside j hj hpc hm => exact hm.newline
  | read j hj hpc hm => exact hm.newline
  | write j hj hpc hm => exact hm.newline
  | epilogue j hj hj' hm => exact hm.newline
  | halted hm => exact hm.newline

theorem Stands.closed (hm : Stands body size call m) (hhalted : m.halted = true) : Closed m := by
  have hrunning : ¬ m.Loaded body size := by
    intro h
    rw [h.running] at hhalted
    cases hhalted
  cases hm with
  | prologue j hj hm => exact absurd hm.loaded hrunning
  | inside j hj hpc hm => exact absurd hm.loaded hrunning
  | read j hj hpc hm => exact absurd hm.loaded hrunning
  | write j hj hpc hm => exact absurd hm.loaded hrunning
  | epilogue j hj hj' hm => exact absurd hm.loaded hrunning
  | halted hm => exact hm

theorem Stands.disciplined (hfit : Fitting body size) (hm : Stands body size call m) :
    Disciplined body size call m where
  inCode := hm.inCode
  pointers := hm.pointers
  orderly := by
    intro hrunning m' hstep
    obtain ⟨next, hreach, _, horderly⟩ := hm.goesOn hfit hrunning
    rw [hreach.step_eq (tick_of_step hrunning hstep).2.2] at hstep
    cases hstep
    exact horderly
  newline := hm.newline
  closed := fun hhalted => ⟨(hm.closed hhalted).sp, (hm.closed hhalted).fp, (hm.closed hhalted).ra⟩

end

end MicroLang.Machine

namespace MicroLang.Simulation

open MicroLang.Assembly
open MicroLang.Machine

/-! ## Compiled programs -/

theorem fitting_of_parse {source : String} {p : Program} {g : Generator}
    (hparse : (Program.parse source).1 = .ok p) (hgen : Gen.program p {} = .ok () g)
    (hfits : Fits g) : Fitting g.code.toList g.frame.size where
  code := by
    intro i hi
    refine (Gen.emitted_of_program hgen i hi).imp ?_
    rintro n ⟨s, hs, hn⟩
    exact literal_of_parse hparse hs hn
  aligned := hfits.valid.aligned
  frame := hfits.frame
  length := hfits.code

theorem entering_start (g : Generator) (inputs : List Int) (limit : Int) :
    Entering g.code.toList g.frame.size 0 (start g inputs limit) where
  loaded := loaded_start g inputs limit
  pc := rfl
  sp := rfl
  fp := rfl
  ra := rfl
  savedRa := by omega
  savedFp := by omega
  newline := by rw [word_start, if_pos rfl]

/-- The listing of a source text, run on any inputs, takes as many steps as the tick limit allows,
and all states on the way are in order, provided that its frame stays above the data and places in
its code are 32-bit integers. -/
theorem steps_disciplined {source listing : String} (hcompile : (compile source).1 = .ok listing) :
    ∃ p g, (Program.parse source).1 = .ok p ∧ Gen.program p {} = .ok () g ∧ g.listing = listing
      ∧ ((g.frame.size : Int) ≤ stackTop - dataBase →
        (∀ image, Image.ofListing listing = .ok image → image.code.size < 2 ^ 31) →
        ∀ (inputs : List Int) (limit : Int), ∃ m₀, Machine.ofListing listing inputs limit = .ok m₀
          ∧ m₀.reg .sp = stackTop ∧ m₀.reg .fp = 0 ∧ m₀.reg .ra = 0
          ∧ ∀ k : Nat, (k ≤ limit → ∃ m, m₀.steps k = (.ok (), m))
            ∧ ∀ m, m₀.steps k = (.ok (), m) →
              Disciplined g.code.toList g.frame.size (lastCall k m₀ none) m) := by
  obtain ⟨p, g, hparse, hgen, rfl⟩ := compile_eq_ok hcompile
  refine ⟨p, g, hparse, hgen, rfl, ?_⟩
  intro hframe himage inputs limit
  have hfit := fitting_of_parse hparse hgen (fits_of_program hgen hframe himage)
  have hstart : Stands g.code.toList g.frame.size none (start g inputs limit) :=
    .prologue 0 (by decide) (entering_start g inputs limit)
  refine ⟨_, ofListing_eq_start hgen inputs limit, rfl, rfl, rfl, ?_⟩
  intro k
  refine ⟨fun hk => hstart.exists_steps hfit ?_, fun m hm => ?_⟩
  · show ((0 : Nat) + k : Int) ≤ limit
    omega
  · exact (hstart.of_steps hfit hm).disciplined hfit

/-- A program of ten instructions with a frame of two slots, which calls both routines. -/
theorem steps_disciplined_difference :
    ∃ (g : Generator) (m₀ : Machine),
      (compile "begin read(a); write(a, a - 5) end").1 = .ok g.listing
      ∧ g.code.size = 10 ∧ g.frame.size = 40 ∧ Machine.ofListing g.listing [7] 37 = .ok m₀
      ∧ ∀ k : Nat, k ≤ 37 → ∃ m, m₀.steps k = (.ok (), m)
        ∧ Disciplined g.code.toList 40 (lastCall k m₀ none) m := by
  obtain ⟨p, g, hparse, hgen, hfacts⟩ := exists_of_compiles "begin read(a); write(a, a - 5) end"
    (fun _ g => g.code.size = 10 ∧ g.frame.size = 40) (by decide +kernel)
  obtain ⟨hcode, hsize⟩ := of_decide_eq_true hfacts
  have hcompile := compile_of_program hparse hgen
  obtain ⟨p', g', hparse', hgen', _, hruns⟩ := steps_disciplined hcompile
  cases hparse.symm.trans hparse'
  cases hgen.symm.trans hgen'
  rw [hsize] at hruns
  obtain ⟨m₀, hstart, _, _, _, hsteps⟩ :=
    hruns (by decide) (size_of_ofListing hgen (by omega)) [7] 37
  refine ⟨g, m₀, hcompile, hcode, hsize, hstart, ?_⟩
  intro k hk
  obtain ⟨hexists, hdisciplined⟩ := hsteps k
  obtain ⟨m, hm⟩ := hexists (by omega)
  exact ⟨m, hm, hdisciplined m hm⟩

end MicroLang.Simulation
