import MicroLang.Machine.Storage
import MicroLang.Proofs.Generation
import MicroLang.Proofs.Grammar

/-!
# The code of a body

What generated code consists of, whatever the program: a body loads slots and literals into the
registers for intermediate values, applies operators to `$t0` and `$t1`, stores into slots and calls
the two routines (`Emitted`). It never names `$sp` or `$ra`, and `$fp` only as the base of a slot.

Slots are words of the frame above the saved registers. The frame still grows while code is
generated, and a slot that lies in it stays in it; so `Tidy` says of a generator that all code so
far is such code for the frame so far, and each generating step keeps this.

> `emitted_of_program`: the code of a program is such code for the frame at its end, with no
> literals but those of the program.
-/

namespace MicroLang.Assembly

open MicroLang.Machine (Register)
open MicroLang.Program (Expr Operator Routine)
open MicroLang.Program.Grammar (HasLiteral)
open MicroLang.Sequencing

/-- The offset of a word for a variable or an intermediate result, in a frame of some size. -/
def IsSlot (size offset : Nat) : Prop :=
  offset % 4 = 0 ∧ 32 ≤ offset ∧ offset < size

/-- The registers that generated code writes. -/
def scratch : List Register :=
  [.v0, .a0, .t0, .t1]

/-- The instructions of a body with a frame of some size. -/
inductive Emitted (literal : Int → Prop) (size : Nat) : Instr → Prop where
  | loadSlot {r : Register} (hr : r ∈ scratch) {offset : Nat} (h : IsSlot size offset) :
      Emitted literal size ⟨.lw, [r.name, Gen.slotOperand offset]⟩
  | loadLiteral {r : Register} (hr : r ∈ scratch) {value : Int} (h : literal value) :
      Emitted literal size ⟨.li, [r.name, toString value]⟩
  | operator (op : Operator) : Emitted literal size ⟨Gen.opcodeOf op, ["$t0", "$t0", "$t1"]⟩
  | store {r : Register} (hr : r ∈ scratch) {offset : Nat} (h : IsSlot size offset) :
      Emitted literal size ⟨.sw, [r.name, Gen.slotOperand offset]⟩
  | call (routine : Routine) : Emitted literal size ⟨.jal, [routine.name]⟩

section

variable {literal : Int → Prop} {g g' : Generator} {i : Instr}

theorem IsSlot.mono {size size' offset : Nat} (h : IsSlot size offset) (hle : size ≤ size') :
    IsSlot size' offset :=
  ⟨h.1, h.2.1, Nat.lt_of_lt_of_le h.2.2 hle⟩

theorem Emitted.mono {size size' : Nat} (h : Emitted literal size i) (hle : size ≤ size') :
    Emitted literal size' i := by
  cases h with
  | loadSlot hr h => exact .loadSlot hr (h.mono hle)
  | loadLiteral hr h => exact .loadLiteral hr h
  | operator op => exact .operator op
  | store hr h => exact .store hr (h.mono hle)
  | call routine => exact .call routine

theorem Emitted.imp {literal' : Int → Prop} {size : Nat} (h : Emitted literal size i)
    (himp : ∀ n, literal n → literal' n) : Emitted literal' size i := by
  cases h with
  | loadSlot hr h => exact .loadSlot hr h
  | loadLiteral hr h => exact .loadLiteral hr (himp _ h)
  | operator op => exact .operator op
  | store hr h => exact .store hr h
  | call routine => exact .call routine

/-- All code so far is code for the frame so far. -/
structure Generator.Tidy (literal : Int → Prop) (g : Generator) : Prop where
  valid : g.frame.Valid
  code : ∀ i ∈ g.code.toList, Emitted literal g.frame.size i

/-- An operand that can be loaded: a slot of the frame so far, or one of the literals. -/
def Operand.Loadable (literal : Int → Prop) (size : Nat) : Operand → Prop
  | .slot offset => ∃ k : Nat, offset = k ∧ IsSlot size k
  | .immediate value => literal value

theorem Operand.Loadable.mono {operand : Operand} {size size' : Nat}
    (h : operand.Loadable literal size) (hle : size ≤ size') : operand.Loadable literal size' := by
  cases operand with
  | slot offset =>
    obtain ⟨k, hoffset, hk⟩ := h
    exact ⟨k, hoffset, hk.mono hle⟩
  | immediate value => exact h

theorem emitted_loadInstr {r : Register} (hr : r ∈ scratch) {operand : Operand} {size : Nat}
    (h : operand.Loadable literal size) : Emitted literal size (Gen.loadInstr r.name operand) := by
  cases operand with
  | slot offset =>
    obtain ⟨k, rfl, hk⟩ := h
    exact .loadSlot hr hk
  | immediate value => exact .loadLiteral hr h

namespace Generator

theorem Tidy.push (hg : g.Tidy literal) (hi : Emitted literal g.frame.size i) :
    (g.push i).Tidy literal := by
  refine ⟨hg.valid, ?_⟩
  intro j hj
  rw [toList_push] at hj
  rcases List.mem_append.mp hj with hj | hj
  · exact hg.code j hj
  · rw [List.mem_singleton.mp hj]
    exact hi

/-- A larger frame keeps the code so far in order. -/
theorem Tidy.of_frame (hg : g.Tidy literal) (hcode : g'.code = g.code) (hvalid : g'.frame.Valid)
    (hsize : g.frame.size ≤ g'.frame.size) : g'.Tidy literal := by
  refine ⟨hvalid, ?_⟩
  rw [hcode]
  exact fun i hi => (hg.code i hi).mono hsize

end Generator

namespace Gen

theorem tidy_variableSlot {name : String} {offset : Nat}
    (h : variableSlot name g = .ok offset g') (hg : g.Tidy literal) :
    g'.Tidy literal ∧ IsSlot g'.frame.size offset := by
  have hext := (grows_variableSlot name).extends_of_ok h
  have hvalid := hext.valid hg.valid
  cases hslot : g.frame.slot? name with
  | some known =>
    rw [variableSlot_of_some hslot] at h
    cases h
    exact ⟨hg, hvalid.slot _ (Frame.mem_slots_of_slot? hslot)⟩
  | none =>
    rw [variableSlot_of_none hslot] at h
    cases h
    refine ⟨hg.of_frame rfl hvalid hext.size, ?_⟩
    exact ⟨hg.valid.aligned, hg.valid.above, Nat.lt_add_of_pos_right (by decide)⟩

theorem tidy_apply {op : Operator} {lhs rhs operand : Operand}
    (h : apply op lhs rhs g = .ok operand g') (hg : g.Tidy literal)
    (hlhs : lhs.Loadable literal g.frame.size) (hrhs : rhs.Loadable literal g.frame.size) :
    g'.Tidy literal ∧ operand.Loadable literal g'.frame.size := by
  obtain ⟨_, _, rfl, rfl⟩ := apply_eq_ok h
  have hnew : IsSlot g.frame.grow.2.size g.frame.size :=
    ⟨hg.valid.aligned, hg.valid.above, Nat.lt_add_of_pos_right (by decide)⟩
  have hoperands := ((hg.push (emitted_loadInstr (r := .t0) (by decide) hlhs)).push
    (emitted_loadInstr (r := .t1) (by decide) hrhs)).push (.operator op)
  refine ⟨?_, g.frame.size, rfl, hnew⟩
  refine Generator.Tidy.push ?_ (.store (r := .t0) (by decide) hnew)
  exact hoperands.of_frame rfl hg.valid.grow (Nat.le_add_right _ _)

/-- The code of an expression, and the operand with its value. -/
theorem tidy_expression (e : Expr) {operand : Operand} (h : expression e g = .ok operand g')
    (hg : g.Tidy literal) (hliterals : ∀ n, HasLiteral n e → literal n) :
    g'.Tidy literal ∧ operand.Loadable literal g'.frame.size := by
  induction e using chainInduction generalizing g g' operand with
  | int value =>
    rw [expression_int] at h
    cases h
    exact ⟨hg, hliterals value .int⟩
  | var name =>
    rw [expression_var] at h
    obtain ⟨offset, mid, hslot, h⟩ := bind_eq_ok.mp h
    cases h
    obtain ⟨htidy, hoffset⟩ := tidy_variableSlot hslot hg
    exact ⟨htidy, offset, rfl, hoffset⟩
  | binary op lhs rhs ihl ihr =>
    rw [expression_binary] at h
    obtain ⟨a, g₁, hlhs, h⟩ := bind_eq_ok.mp h
    obtain ⟨b, g₂, hrhs, h⟩ := bind_eq_ok.mp h
    obtain ⟨htidy₁, ha⟩ := ihl hlhs hg fun n hn => hliterals n (.left op rhs hn)
    obtain ⟨htidy₂, hb⟩ := ihr hrhs htidy₁ fun n hn => hliterals n (.right op lhs hn)
    -- the slot of the left operand is still there behind the right one
    have hext := (grows_expression rhs).extends_of_ok hrhs
    exact tidy_apply h htidy₂ (ha.mono hext.size) hb
  | call routine args =>
    rw [expression_call] at h
    cases h
  | assign name value =>
    rw [expression_assign] at h
    cases h

theorem tidy_readInto {e : Expr} (h : readInto e g = .ok () g') (hg : g.Tidy literal) :
    g'.Tidy literal := by
  cases e with
  | var name =>
    obtain ⟨offset, mid, hslot, h⟩ := bind_eq_ok.mp h
    obtain ⟨htidy, hoffset⟩ := tidy_variableSlot hslot hg
    cases h
    exact (htidy.push (.call .read)).push (.store (r := .v0) (by decide) hoffset)
  | _ => cases h

theorem tidy_writeFrom {e : Expr} (h : writeFrom e g = .ok () g') (hg : g.Tidy literal)
    (hliterals : ∀ n, HasLiteral n e → literal n) : g'.Tidy literal := by
  obtain ⟨operand, mid, hexpression, _, rfl⟩ := writeFrom_eq_ok h
  obtain ⟨htidy, hoperand⟩ := tidy_expression e hexpression hg hliterals
  exact (htidy.push (emitted_loadInstr (r := .a0) (by decide) hoperand)).push (.call .write)

theorem tidy_forM {f : Expr → Gen Unit} {l : List Expr}
    (hf : ∀ e ∈ l, ∀ g g', f e g = .ok () g' → g.Tidy literal → g'.Tidy literal)
    (h : l.forM f g = .ok () g') (hg : g.Tidy literal) : g'.Tidy literal := by
  induction l generalizing g with
  | nil =>
    cases h
    exact hg
  | cons e l ih =>
    obtain ⟨_, mid, hfirst, hrest⟩ := bind_eq_ok.mp h
    exact ih (fun e he => hf e (List.mem_cons_of_mem _ he)) hrest
      (hf e List.mem_cons_self g mid hfirst hg)

theorem tidy_statement {e : Expr} (h : statement e g = .ok () g') (hg : g.Tidy literal)
    (hliterals : ∀ n, HasLiteral n e → literal n) : g'.Tidy literal := by
  cases e with
  | call routine args =>
    cases routine with
    | read => exact tidy_forM (fun e _ g g' => tidy_readInto) h hg
    | write =>
      refine tidy_forM (fun e he g g' hwrite htidy => tidy_writeFrom hwrite htidy ?_) h hg
      exact fun n hn => hliterals n (.argument .write he hn)
  | assign name value =>
    obtain ⟨target, g₁, operand, g₂, hslot, hexpression, _, rfl⟩ := assign_eq_ok h
    obtain ⟨htidy₁, htarget⟩ := tidy_variableSlot hslot hg
    obtain ⟨htidy₂, hoperand⟩ :=
      tidy_expression value hexpression htidy₁ fun n hn => hliterals n (.assign name hn)
    have hext := (grows_expression value).extends_of_ok hexpression
    exact (htidy₂.push (emitted_loadInstr (r := .t0) (by decide) hoperand)).push
      (.store (r := .t0) (by decide) (htarget.mono hext.size))
  | _ => cases h

/-- Generated code works on the slots of the frame and on the literals of the program. -/
theorem emitted_of_program {p : Program} (h : program p {} = .ok () g) :
    ∀ i ∈ g.code.toList, Emitted (fun n => ∃ s ∈ p, HasLiteral n s) g.frame.size i := by
  obtain ⟨_, mid, hstatements, h⟩ := bind_eq_ok.mp h
  have hempty : Generator.Tidy (fun n => ∃ s ∈ p, HasLiteral n s) {} :=
    ⟨Frame.valid_empty, fun i hi => absurd hi List.not_mem_nil⟩
  have htidy := tidy_forM (fun s hs g g' hs' hg => tidy_statement hs' hg fun n hn => ⟨s, hs, hn⟩)
    hstatements hempty
  cases h
  exact htidy.code

end Gen

end

end MicroLang.Assembly
