import Mathlib.Data.List.Nodup
import MicroLang.Assembly.Generate
import MicroLang.Proofs.ListingRoundTrip
import MicroLang.Proofs.Sequencing

/-!
# What generating code does

A generating step adds to the generator it starts from, and takes nothing back, whether it succeeds
or fails. `Generator.Extends` says what that means: the code gets longer by plain instructions,
variables keep their slots, the frame does not shrink, and its slots stay apart (`Frame.Valid`).
Every step `Grows` in this sense, so any sequence of steps does.

An operator chain is generated along its left spine, with an accumulator. The value of an expression
can be described without it:

> `expression_binary`: the code of a binary expression is the code of its left operand, that of its
> right operand, and the instructions that combine the two results.
-/

namespace MicroLang.Assembly

open MicroLang.Program (Expr Operator Routine)
open MicroLang.Sequencing

/-- Induction along operators: an expression of any other form is a leaf. -/
@[elab_as_elim]
theorem chainInduction {motive : Expr → Prop} (int : ∀ value, motive (.int value))
    (var : ∀ name, motive (.var name))
    (binary : ∀ op lhs rhs, motive lhs → motive rhs → motive (.binary op lhs rhs))
    (call : ∀ routine args, motive (.call routine args))
    (assign : ∀ name value, motive (.assign name value)) (e : Expr) : motive e :=
  match e with
  | .int value => int value
  | .var name => var name
  | .binary op lhs rhs =>
    binary op lhs rhs (chainInduction int var binary call assign lhs)
      (chainInduction int var binary call assign rhs)
  | .call routine args => call routine args
  | .assign name value => assign name value

/-! ## Frames -/

/-- The slots of a frame lie apart, above the words for the saved registers and below its size. -/
structure Frame.Valid (f : Frame) : Prop where
  aligned : f.size % wordSize = 0
  above : 32 ≤ f.size
  slot : ∀ p ∈ f.slots, p.2 % wordSize = 0 ∧ 32 ≤ p.2 ∧ p.2 < f.size
  apart : (f.slots.map Prod.snd).Nodup

namespace Frame

/-- The empty frame is valid. -/
theorem valid_empty : Valid {} :=
  ⟨by decide, by decide, by decide, by decide⟩

theorem Valid.grow {f : Frame} (h : f.Valid) : f.grow.2.Valid where
  aligned := by
    show (f.size + wordSize) % wordSize = 0
    rw [Nat.add_mod_right]
    exact h.aligned
  above := Nat.le_trans h.above (Nat.le_add_right _ _)
  slot := by
    intro p hp
    obtain ⟨haligned, habove, hbelow⟩ := h.slot p hp
    exact ⟨haligned, habove, Nat.lt_of_lt_of_le hbelow (Nat.le_add_right _ _)⟩
  apart := h.apart

theorem Valid.bind {f : Frame} (h : f.Valid) (name : String) : (f.bind name).2.Valid where
  aligned := h.grow.aligned
  above := h.grow.above
  slot := by
    intro p hp
    rcases List.mem_append.mp hp with hold | hnew
    · exact h.grow.slot p hold
    · -- the new slot is the word that the frame grew by
      rw [List.mem_singleton.mp hnew]
      exact ⟨h.aligned, h.above, Nat.lt_add_of_pos_right (by decide)⟩
  apart := by
    show ((f.slots ++ [(name, f.size)]).map Prod.snd).Nodup
    rw [List.map_append, List.nodup_append]
    refine ⟨h.apart, by simp, ?_⟩
    intro a ha b hb hab
    obtain ⟨p, hp, rfl⟩ := List.mem_map.mp ha
    have hbelow := (h.slot p hp).2.2
    rw [List.map_singleton, List.mem_singleton] at hb
    omega

/-- A variable's slot is one of the slots. -/
theorem mem_slots_of_slot? {f : Frame} {name : String} {offset : Nat}
    (h : f.slot? name = some offset) : (name, offset) ∈ f.slots := by
  unfold slot? at h
  rw [List.lookup_eq_some_iff] at h
  obtain ⟨front, back, hslots, _⟩ := h
  rw [hslots]
  simp

/-- No two variables share a slot. -/
theorem Valid.slot?_inj {f : Frame} (h : f.Valid) {a b : String} {offset : Nat}
    (ha : f.slot? a = some offset) (hb : f.slot? b = some offset) : a = b := by
  have hpair := List.inj_on_of_nodup_map h.apart (mem_slots_of_slot? ha) (mem_slots_of_slot? hb) rfl
  exact (Prod.mk.inj hpair).1

/-- A variable keeps its slot when slots are added behind. -/
theorem slot?_of_prefix {f g : Frame} (h : f.slots <+: g.slots) {name : String} {offset : Nat}
    (hslot : f.slot? name = some offset) : g.slot? name = some offset := by
  obtain ⟨more, hmore⟩ := h
  unfold slot? at hslot ⊢
  rw [← hmore, List.lookup_append, hslot]
  rfl

/-- The slot of a variable in a frame where it got one. -/
theorem slot?_bind (f : Frame) {name : String} (hnone : f.slot? name = none) (other : String) :
    (f.bind name).2.slot? other = if other = name then some f.size else f.slot? other := by
  show (f.slots ++ [(name, f.size)]).lookup other = _
  rw [List.lookup_append]
  by_cases hname : other = name
  · rw [if_pos hname, hname]
    unfold slot? at hnone
    rw [hnone]
    simp
  · rw [if_neg hname]
    have hlast : [(name, f.size)].lookup other = none := by
      rw [List.lookup_cons, beq_false_of_ne hname]
      rfl
    rw [hlast, Option.or_none]
    rfl

end Frame

/-! ## Generators only grow -/

/-- Nothing that a generator has is lost in another, and what is new there is well formed. -/
structure Generator.Extends (g g' : Generator) : Prop where
  code : ∃ more : List Instr, g'.code.toList = g.code.toList ++ more ∧ ∀ i ∈ more, i.Plain
  slots : g.frame.slots <+: g'.frame.slots
  size : g.frame.size ≤ g'.frame.size
  valid : g.frame.Valid → g'.frame.Valid

namespace Generator

theorem Extends.refl (g : Generator) : g.Extends g :=
  ⟨⟨[], by simp, by simp⟩, List.prefix_rfl, Nat.le_refl _, id⟩

theorem Extends.trans {g₁ g₂ g₃ : Generator} (h : g₁.Extends g₂) (h' : g₂.Extends g₃) :
    g₁.Extends g₃ where
  code := by
    obtain ⟨more, hmore, hplain⟩ := h.code
    obtain ⟨more', hmore', hplain'⟩ := h'.code
    refine ⟨more ++ more', ?_, ?_⟩
    · rw [hmore', hmore, List.append_assoc]
    · intro i hi
      rcases List.mem_append.mp hi with hi | hi
      · exact hplain i hi
      · exact hplain' i hi
  slots := h.slots.trans h'.slots
  size := Nat.le_trans h.size h'.size
  valid := fun hvalid => h'.valid (h.valid hvalid)

theorem Extends.code_prefix {g g' : Generator} (h : g.Extends g') :
    g.code.toList <+: g'.code.toList := by
  obtain ⟨more, hmore, _⟩ := h.code
  exact ⟨more, hmore.symm⟩

theorem Extends.code_size {g g' : Generator} (h : g.Extends g') : g.code.size ≤ g'.code.size := by
  have hlength := h.code_prefix.length_le
  rwa [Array.length_toList, Array.length_toList] at hlength

/-- The generator with one more instruction. -/
def push (g : Generator) (i : Instr) : Generator :=
  { g with code := g.code.push i }

@[simp] theorem size_push (g : Generator) (i : Instr) :
    (g.push i).code.size = g.code.size + 1 :=
  Array.size_push i

@[simp] theorem toList_push (g : Generator) (i : Instr) :
    (g.push i).code.toList = g.code.toList ++ [i] :=
  Array.toList_push

theorem extends_push (g : Generator) {i : Instr} (h : i.Plain) : g.Extends (g.push i) where
  code := by
    refine ⟨[i], toList_push g i, ?_⟩
    intro j hj
    rw [List.mem_singleton.mp hj]
    exact h
  slots := List.prefix_rfl
  size := Nat.le_refl _
  valid := id

end Generator

namespace Gen

/-- A step that only adds to the generator, whether it succeeds or fails. -/
def Grows {α : Type} (x : Gen α) : Prop :=
  Always Generator.Extends x

section

variable {α β : Type} {x : Gen α}

theorem Grows.extends_of_ok {g g' : Generator} {a : α} (hx : Grows x) (h : x g = .ok a g') :
    g.Extends g' := by
  have := hx g
  rwa [after_of_ok h] at this

theorem Grows.bind {f : α → Gen β} (hx : Grows x) (hf : ∀ a, Grows (f a)) : Grows (x >>= f) :=
  Always.bind Generator.Extends.trans hx hf

theorem grows_pure (a : α) : Grows (pure a) :=
  fun g => .refl g

theorem grows_throw (e : GenError) : Grows (throw e : Gen α) :=
  fun g => .refl g

theorem grows_forM {f : β → Gen Unit} (hf : ∀ b, Grows (f b)) (l : List β) :
    Grows (l.forM f) := by
  induction l with
  | nil => exact grows_pure ()
  | cons b l ih => exact (hf b).bind fun _ => ih

end

theorem grows_emit {op : Opcode} {args : List String} (h : (Instr.mk op args).Plain) :
    Grows (emit op args) :=
  fun g => g.extends_push h

theorem grows_report (event : Event) : Grows (report event) :=
  fun g => ⟨⟨[], (List.append_nil g.code.toList).symm, by simp⟩, List.prefix_rfl, Nat.le_refl _, id⟩

/-- A report about the generator. -/
theorem grows_reportOn (event : Generator → Event) :
    Grows (do let g ← get; report (event g)) :=
  Grows.bind (fun g => .refl g) fun g => grows_report (event g)

theorem grows_newSlot : Grows newSlot :=
  fun g => ⟨⟨[], (List.append_nil g.code.toList).symm, by simp⟩, List.prefix_rfl,
    Nat.le_add_right _ _, Frame.Valid.grow⟩

/-- A variable with a slot keeps it, and nothing is generated. -/
theorem variableSlot_of_some {g : Generator} {name : String} {offset : Nat}
    (h : g.frame.slot? name = some offset) : variableSlot name g = .ok offset g := by
  unfold variableSlot
  rw [get_bind, h]
  rfl

/-- A variable without a slot gets the next one. -/
theorem variableSlot_of_none {g : Generator} {name : String} (h : g.frame.slot? name = none) :
    variableSlot name g = .ok g.frame.size { g with
      frame := (g.frame.bind name).2
      log := g.log.push (.allocated name g.frame.size) } := by
  unfold variableSlot
  rw [get_bind, h]
  rfl

theorem grows_variableSlot (name : String) : Grows (variableSlot name) := by
  intro g
  cases hslot : g.frame.slot? name with
  | some offset =>
    rw [after_of_ok (variableSlot_of_some hslot)]
    exact .refl g
  | none =>
    rw [after_of_ok (variableSlot_of_none hslot)]
    exact ⟨⟨[], (List.append_nil g.code.toList).symm, by simp⟩, List.prefix_append _ _,
      Nat.le_add_right _ _, fun h => h.bind name⟩

theorem plain_slotOperand (offset : Int) : PlainOperand (slotOperand offset) :=
  plain_memoryOperand offset (by decide)

theorem plain_pair (op : Opcode) {arg arg' : String} (h : PlainOperand arg)
    (h' : PlainOperand arg') : (Instr.mk op [arg, arg']).Plain := by
  intro a ha
  rcases List.mem_cons.mp ha with rfl | ha
  · exact h
  · rw [List.mem_singleton.mp ha]
    exact h'

theorem load_of_short (register : String) {value : Int} (h : Text.Numeral.IsShort value) :
    load register (.immediate value) = emit .li [register, toString value] :=
  if_pos h

theorem load_of_long (register : String) {value : Int} (h : ¬ Text.Numeral.IsShort value) :
    load register (.immediate value) = throw .longLiteral :=
  if_neg h

theorem grows_load {register : String} (h : PlainOperand register) (operand : Operand) :
    Grows (load register operand) := by
  cases operand with
  | slot offset => exact grows_emit (plain_pair _ h (plain_slotOperand offset))
  | immediate value =>
    by_cases hvalue : Text.Numeral.IsShort value
    · rw [load_of_short register hvalue]
      exact grows_emit (plain_pair _ h (plain_toString value))
    · rw [load_of_long register hvalue]
      exact grows_throw _

theorem grows_apply (op : Operator) (lhs rhs : Operand) : Grows (apply op lhs rhs) := by
  refine (grows_load (by decide) lhs).bind fun _ => ?_
  refine (grows_load (by decide) rhs).bind fun _ => ?_
  have hregisters : (Instr.mk (opcodeOf op) ["$t0", "$t0", "$t1"]).Plain := by cases op <;> decide
  refine (grows_emit hregisters).bind fun _ => ?_
  refine grows_newSlot.bind fun offset => ?_
  exact (grows_emit (plain_pair _ (by decide) (plain_slotOperand offset))).bind fun _ =>
    grows_pure _

/-- The instruction that loads an operand. -/
def loadInstr (register : String) : Operand → Instr
  | .slot offset => ⟨.lw, [register, slotOperand offset]⟩
  | .immediate value => ⟨.li, [register, toString value]⟩

/-- Operands that can be loaded: slots, and literals that can be written. -/
def Writable : Operand → Prop
  | .slot _ => True
  | .immediate value => Text.Numeral.IsShort value

section

variable {register : String} {op : Operator} {operand lhs rhs result : Operand} {g g' : Generator}

theorem load_of_writable (register : String) (h : Writable operand) (g : Generator) :
    load register operand g = .ok () (g.push (loadInstr register operand)) := by
  cases operand with
  | slot offset => rfl
  | immediate value =>
    rw [load_of_short register h]
    rfl

theorem load_of_not_writable (register : String) (h : ¬ Writable operand) (g : Generator) :
    load register operand g = .error .longLiteral g := by
  cases operand with
  | slot offset => exact absurd trivial h
  | immediate value =>
    rw [load_of_long register h]
    rfl

theorem load_eq_ok (h : load register operand g = .ok () g') :
    Writable operand ∧ g' = g.push (loadInstr register operand) := by
  by_cases hoperand : Writable operand
  · rw [load_of_writable register hoperand] at h
    cases h
    exact ⟨hoperand, rfl⟩
  · rw [load_of_not_writable register hoperand] at h
    cases h

/-- The generator after an operator was applied. -/
abbrev applied (op : Operator) (lhs rhs : Operand) (g : Generator) : Generator :=
  Generator.push { ((g.push (loadInstr "$t0" lhs)).push (loadInstr "$t1" rhs)).push
    ⟨opcodeOf op, ["$t0", "$t0", "$t1"]⟩ with frame := g.frame.grow.2 }
    ⟨.sw, ["$t0", slotOperand g.frame.size]⟩

theorem apply_of_writable (op : Operator) (hlhs : Writable lhs) (hrhs : Writable rhs)
    (g : Generator) : apply op lhs rhs g = .ok (.slot g.frame.size) (applied op lhs rhs g) := by
  unfold apply
  rw [bind_of_ok (load_of_writable "$t0" hlhs g), bind_of_ok (load_of_writable "$t1" hrhs _)]
  rfl

theorem apply_eq_ok (h : apply op lhs rhs g = .ok result g') :
    Writable lhs ∧ Writable rhs ∧ result = .slot g.frame.size ∧ g' = applied op lhs rhs g := by
  obtain ⟨_, g₁, hload, h₁⟩ := bind_eq_ok.mp h
  obtain ⟨_, g₂, hload', _⟩ := bind_eq_ok.mp h₁
  have hlhs := (load_eq_ok hload).1
  have hrhs := (load_eq_ok hload').1
  rw [apply_of_writable op hlhs hrhs] at h
  cases h
  exact ⟨hlhs, hrhs, rfl, rfl⟩

end

/-! ## Expressions without the spine -/

/-- What waits to be combined is combined after the value is there. -/
theorem spine_eq_bind (e : Expr) (pending : List (Operator × Expr)) :
    spine e pending = spine e [] >>= fun operand => combine operand pending := by
  induction e using chainInduction generalizing pending with
  | int value => simp only [spine, combine, pure_bind]
  | var name => simp only [spine, combine, bind_assoc, pure_bind]
  | binary op lhs rhs ihl ihr =>
    simp only [spine]
    rw [ihl, ihl [(op, rhs)], bind_assoc]
    simp only [combine, bind_assoc, bind_pure]
  | call routine args => simp only [spine]; rfl
  | assign name value => simp only [spine]; rfl

theorem expression_int (value : Int) : expression (.int value) = pure (.immediate value) := by
  simp only [expression, spine, combine]

theorem expression_var (name : String) :
    expression (.var name) = (do return .slot (← variableSlot name)) := by
  simp only [expression, spine, combine]

/-- Code for both operands, the left one first, and then for the operator. -/
theorem expression_binary (op : Operator) (lhs rhs : Expr) :
    expression (.binary op lhs rhs) =
      (do apply op (← expression lhs) (← expression rhs)) := by
  simp only [expression, spine]
  rw [spine_eq_bind]
  simp only [combine, bind_pure]

theorem expression_call (routine : Routine) (args : List Expr) :
    expression (.call routine args) = throw (.callAsValue routine) := by
  simp only [expression, spine]

theorem expression_assign (name : String) (value : Expr) :
    expression (.assign name value) = throw (.noValue (Expr.assign name value).form) := by
  simp only [expression, spine]

/-- Whether the value of an expression can be loaded: a literal has to be one that can be written,
and all other values are in slots. -/
def isWritable : Expr → Bool
  | .int value => decide (Text.Numeral.IsShort value)
  | _ => true

/-- The operand of an expression can be loaded if the expression is no literal that is too long. -/
theorem writable_of_expression {e : Expr} {operand : Operand} {g g' : Generator}
    (h : expression e g = .ok operand g') : Writable operand ↔ isWritable e = true := by
  cases e with
  | int value =>
    rw [expression_int] at h
    cases h
    show Text.Numeral.IsShort value ↔ decide (Text.Numeral.IsShort value) = true
    rw [decide_eq_true_iff]
  | var name =>
    rw [expression_var] at h
    obtain ⟨offset, _, _, h⟩ := bind_eq_ok.mp h
    cases h
    exact iff_of_true trivial rfl
  | binary op lhs rhs =>
    rw [expression_binary] at h
    obtain ⟨a, _, _, h⟩ := bind_eq_ok.mp h
    obtain ⟨b, _, _, h⟩ := bind_eq_ok.mp h
    obtain ⟨_, _, rfl, _⟩ := apply_eq_ok h
    exact iff_of_true trivial rfl
  | call routine args =>
    rw [expression_call] at h
    cases h
  | assign name value =>
    rw [expression_assign] at h
    cases h

/-! ## Statements that have code -/

section

variable {g g' : Generator}

/-- The code of a value that is written: the value is computed, loaded and handed over. -/
theorem writeFrom_eq_ok {e : Expr} (h : writeFrom e g = .ok () g') :
    ∃ operand mid, expression e g = .ok operand mid ∧ Writable operand
      ∧ g' = (mid.push (loadInstr "$a0" operand)).push ⟨.jal, ["write"]⟩ := by
  obtain ⟨operand, mid, hexpression, h⟩ := bind_eq_ok.mp h
  obtain ⟨_, _, hload, h⟩ := bind_eq_ok.mp h
  obtain ⟨hwritable, rfl⟩ := load_eq_ok hload
  cases h
  exact ⟨operand, mid, hexpression, hwritable, rfl⟩

/-- The code of an assignment: the variable gets its slot before the value is computed. -/
theorem assign_eq_ok {name : String} {value : Expr}
    (h : statement (.assign name value) g = .ok () g') :
    ∃ target g₁ operand g₂, variableSlot name g = .ok target g₁
      ∧ expression value g₁ = .ok operand g₂ ∧ Writable operand
      ∧ g' = (g₂.push (loadInstr "$t0" operand)).push ⟨.sw, ["$t0", slotOperand target]⟩ := by
  obtain ⟨target, g₁, hslot, h⟩ := bind_eq_ok.mp h
  obtain ⟨operand, g₂, hexpression, h⟩ := bind_eq_ok.mp h
  obtain ⟨_, _, hload, h⟩ := bind_eq_ok.mp h
  obtain ⟨hwritable, rfl⟩ := load_eq_ok hload
  cases h
  exact ⟨target, g₁, operand, g₂, hslot, hexpression, hwritable, rfl⟩

end

/-! ## Every step grows -/

theorem grows_expression (e : Expr) : Grows (expression e) := by
  induction e using chainInduction with
  | int value =>
    rw [expression_int]
    exact grows_pure _
  | var name =>
    rw [expression_var]
    exact (grows_variableSlot name).bind fun _ => grows_pure _
  | binary op lhs rhs ihl ihr =>
    rw [expression_binary]
    exact ihl.bind fun a => ihr.bind fun b => grows_apply op a b
  | call routine args =>
    rw [expression_call]
    exact grows_throw _
  | assign name value =>
    rw [expression_assign]
    exact grows_throw _

theorem grows_readInto (e : Expr) : Grows (readInto e) := by
  cases e with
  | var name =>
    refine (grows_variableSlot name).bind fun offset => ?_
    exact (grows_emit (by decide)).bind fun _ =>
      grows_emit (plain_pair _ (by decide) (plain_slotOperand offset))
  | _ => exact grows_throw _

theorem grows_writeFrom (e : Expr) : Grows (writeFrom e) :=
  (grows_expression e).bind fun operand =>
    (grows_load (by decide) operand).bind fun _ => grows_emit (by decide)

theorem grows_statement (e : Expr) : Grows (statement e) := by
  cases e with
  | call routine args =>
    cases routine with
    | read => exact grows_forM grows_readInto args
    | write => exact grows_forM grows_writeFrom args
  | assign name value =>
    refine (grows_variableSlot name).bind fun target => ?_
    refine (grows_expression value).bind fun operand => ?_
    exact (grows_load (by decide) operand).bind fun _ =>
      grows_emit (plain_pair _ (by decide) (plain_slotOperand target))
  | _ => exact grows_throw _

theorem grows_program (p : Program) : Grows (program p) :=
  (grows_forM grows_statement p).bind fun _ =>
    grows_reportOn fun g => .generated g.code.size g.frame.size

/-- Generated code is plain, whatever the program. -/
theorem plain_of_program {p : Program} {g : Generator} (h : program p {} = .ok () g) :
    ∀ i ∈ g.code.toList, i.Plain := by
  obtain ⟨more, hmore, hplain⟩ := ((grows_program p).extends_of_ok h).code
  rw [hmore]
  exact hplain

/-- The frame of a program is valid. -/
theorem valid_of_program {p : Program} {g : Generator} (h : program p {} = .ok () g) :
    g.frame.Valid :=
  ((grows_program p).extends_of_ok h).valid Frame.valid_empty

end Gen

/-! ## Reading rendered listings -/

namespace Listing

/-- Reading a rendered listing gives back its body, between the code of the template, with the
labels where the length of the body puts them. The code that any program has is such a body, and a
listing is rendered exactly if the size of the frame can be written. -/
theorem ofListing_render_exact :
    (∀ (body : List Instr) (frameSize : Int), (∀ i ∈ body, i.Plain) →
      ∃ image, Image.ofListing (render body frameSize) = .ok image
        ∧ image.code.toList
          = prologueCode frameSize ++ body ++ epilogueCode frameSize ++ (readCode ++ writeCode)
        ∧ image.textLabels.toList
          = [("main", 0), ("read", (body.length : Int) + 10), ("write", (body.length : Int) + 13)]
        ∧ image.dataLabels.toList = [("newline", dataBase)]
        ∧ image.data.toList = [(dataBase, 10)])
    ∧ (∀ (program : Program) (g : Generator), Gen.program program {} = .ok () g →
        ∀ i ∈ g.code.toList, i.Plain)
    ∧ ∀ (body : List Instr) (frameSize : Int),
        render? body frameSize = some (render body frameSize) ↔ Text.Numeral.IsShort frameSize := by
  refine ⟨?_, ?_, ?_⟩
  · intro body frameSize hbody
    exact ⟨image body frameSize, ofListing_render frameSize hbody, rfl, rfl, rfl, rfl⟩
  · intro program g hprogram
    exact Gen.plain_of_program hprogram
  · intro body frameSize
    unfold render?
    by_cases hshort : Text.Numeral.IsShort frameSize
    · rw [if_pos hshort]
      exact iff_of_true rfl hshort
    · rw [if_neg hshort]
      exact iff_of_false (Option.some_ne_none _).symm hshort

/-- A program that prints `x + 7` has code, and its listing is read back with that code. -/
theorem ofListing_render_exact_sum :
    ∃ g, Gen.program [.call .write [.binary .add (.var "x") (.int 7)]] {} = .ok () g
      ∧ ∃ image, Image.ofListing (render g.code.toList g.frame.size) = .ok image
        ∧ (image.code.toList.drop 4).head? = some ⟨.lw, ["$t0", "32($fp)"]⟩
        ∧ image.textLabels.toList = [("main", 0), ("read", 16), ("write", 19)] := by
  have hprogram : Gen.program [.call .write [.binary .add (.var "x") (.int 7)]] {} = .ok ()
      { code := #[⟨.lw, ["$t0", "32($fp)"]⟩, ⟨.li, ["$t1", "7"]⟩, ⟨.add, ["$t0", "$t0", "$t1"]⟩,
          ⟨.sw, ["$t0", "36($fp)"]⟩, ⟨.lw, ["$a0", "36($fp)"]⟩, ⟨.jal, ["write"]⟩]
        frame := ⟨[("x", 32)], 40⟩
        log := #[.allocated "x" 32, .generated 6 40] } := by
    simp only [Gen.program, Gen.statement, Gen.writeFrom, List.forM,
      Gen.expression_binary, Gen.expression_var, Gen.expression_int]
    rfl
  refine ⟨_, hprogram, ?_⟩
  obtain ⟨hexact, hplain, _⟩ := ofListing_render_exact
  obtain ⟨image, hread, hcode, hlabels, _⟩ := hexact _ 40 (hplain _ _ hprogram)
  refine ⟨image, hread, ?_, hlabels⟩
  rw [hcode]
  rfl

end Listing

end MicroLang.Assembly
