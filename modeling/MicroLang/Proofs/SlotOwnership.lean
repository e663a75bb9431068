import Mathlib.Data.List.Dedup
import Mathlib.Data.List.Forall2
import MicroLang.Proofs.Allocation

/-!
# Slots and their owners

`Allocation` says which slots are given; this file says what generated code does with them. The slot
of an intermediate result is stored to once, right behind the instruction of its operator, and
loaded from once, later on; so each operator node of a program owns a slot (`Owned`).

The store and the load of a slot lie apart: the result of a left operand waits while the code of the
right operand runs, and that of a whole expression until the statement around it loads it. `Yields`
is therefore about code whose load is still to come, with any code in between that leaves the slots
alone, and `Owns` about code after the load. What makes this work is that code has no other slots as
operands than those of variables and those it owns, and that all of them lie apart (`Fresh`).

> `slots_never_shared`: no slot is shared, whatever calls are made of a generator, and in the code
> of a program every operator node owns a slot that is no variable's.
-/

namespace MicroLang.Assembly

open MicroLang.Machine (Register indexed?)
open MicroLang.Program (Expr Operator Routine)
open MicroLang.Sequencing

/-! ## Trees -/

mutual

/-- The parts of a tree that are trees themselves, each behind those inside it. -/
def subtrees : Expr → List Expr
  | .int value => [.int value]
  | .var name => [.var name]
  | .binary op lhs rhs => subtrees lhs ++ subtrees rhs ++ [.binary op lhs rhs]
  | .call routine args => subtreesAll args ++ [.call routine args]
  | .assign name value => subtrees value ++ [.assign name value]

/-- The parts of several trees. -/
def subtreesAll : List Expr → List Expr
  | [] => []
  | e :: es => subtrees e ++ subtreesAll es

end

/-- Whether a tree is an operator with its operands. -/
def isNode : Expr → Bool
  | .binary .. => true
  | _ => false

/-- The operator nodes of trees. -/
def nodesIn (parts : List Expr) : List Expr :=
  parts.filter isNode

/-- The variable that stands at the top of a tree. -/
def ownName : Expr → List String
  | .var name => [name]
  | .assign name _ => [name]
  | _ => []

/-- The names of variables in trees. -/
def namesIn (parts : List Expr) : List String :=
  parts.flatMap ownName

/-! ## Slot operands -/

namespace Gen

theorem indexed?_slotOperand (offset : Int) :
    indexed? (slotOperand offset) = some (toString offset, "$fp") :=
  Machine.indexed?_memoryOperand offset .fp

/-- Different slots are written differently. -/
theorem slotOperand_inj {offset offset' : Int} (h : slotOperand offset = slotOperand offset') :
    offset = offset' := by
  have hread := congrArg indexed? h
  rw [indexed?_slotOperand, indexed?_slotOperand] at hread
  exact Text.Numeral.toString_inj (Prod.mk.inj (Option.some.inj hread)).1

theorem slotOperand_ne {arg : String} (h : indexed? arg = none) (offset : Int) :
    slotOperand offset ≠ arg := by
  rintro rfl
  rw [indexed?_slotOperand] at h
  cases h

/-- An operand with a base has a parenthesis. -/
theorem indexed?_eq_none {arg : String} (h : '(' ∉ arg.toList) : indexed? arg = none := by
  have hsub : ∀ cs : List Char, '(' ∉ cs →
      ∀ rest, cs.dropWhile Text.isDecimalDigit ≠ '(' :: rest := by
    intro cs hcs rest hdrop
    exact hcs ((List.dropWhile_sublist Text.isDecimalDigit).mem (hdrop ▸ List.mem_cons_self))
  have hline : '(' ∉
      (if arg.toList.getLast? = some '\n' then arg.toList.dropLast else arg.toList) := by
    split
    · exact fun hmem => h ((List.dropLast_sublist _).mem hmem)
    · exact h
  unfold indexed?
  dsimp only
  generalize (if arg.toList.getLast? = some '\n' then arg.toList.dropLast else arg.toList) = cs
    at hline ⊢
  have hsign : '(' ∉ (if cs.head? = some '-' then (['-'], cs.drop 1) else ([], cs)).2 := by
    split
    · exact fun hmem => hline (List.mem_of_mem_drop hmem)
    · exact hline
  split
  · rename_i rest heq
    exact absurd heq (hsub _ hsign _)
  · rfl

theorem indexed?_register (r : Register) : indexed? r.name = none := by
  refine indexed?_eq_none ?_
  cases r <;> decide

theorem indexed?_toString (value : Int) : indexed? (toString value) = none := by
  refine indexed?_eq_none ?_
  rw [Text.Numeral.toList_toString]
  intro hmem
  rcases List.mem_append.mp hmem with hmem | hmem
  · split at hmem <;> simp at hmem
  · exact absurd (Text.Numeral.isDigit_of_mem_toDigits _ hmem) (by decide)

/-- Only slots are addressed from the frame pointer. -/
theorem slot_of_emitted {literal : Int → Prop} {size : Nat} {i : Instr}
    (h : Emitted literal size i) {arg : String} (harg : arg ∈ i.args) {target : String × String}
    (hindexed : indexed? arg = some target) : ∃ k, IsSlot size k ∧ arg = slotOperand k := by
  have hno : ∀ {r : Register} {other : String}, arg ∈ [r.name, other] → arg = other := by
    intro r other hmem
    rcases List.mem_cons.mp hmem with rfl | hmem
    · rw [indexed?_register] at hindexed
      cases hindexed
    · exact List.mem_singleton.mp hmem
  cases h with
  | loadSlot hr hslot => exact ⟨_, hslot, hno harg⟩
  | store hr hslot => exact ⟨_, hslot, hno harg⟩
  | loadLiteral hr hliteral =>
    rw [hno harg, indexed?_toString] at hindexed
    cases hindexed
  | operator op =>
    have hregister : arg = Register.t0.name ∨ arg = Register.t1.name := by
      have hmem : arg ∈ ["$t0", "$t0", "$t1"] := harg
      rcases List.mem_cons.mp hmem with h | hmem
      · exact .inl h
      rcases List.mem_cons.mp hmem with h | hmem
      · exact .inl h
      · exact .inr (List.mem_singleton.mp hmem)
    rcases hregister with rfl | rfl
    · rw [indexed?_register] at hindexed
      cases hindexed
    · rw [indexed?_register] at hindexed
      cases hindexed
  | call routine =>
    have hname : arg = routine.name := List.mem_singleton.mp harg
    rw [hname, indexed?_eq_none (by cases routine <;> decide)] at hindexed
    cases hindexed

end Gen

/-! ## Uses of a slot -/

open Gen (slotOperand loadInstr opcodeOf)

/-- The instructions of some code that have the slot at an offset as an operand. -/
def usesOf (code : List Instr) (offset : Nat) : List Instr :=
  code.filter fun i => slotOperand offset ∈ i.args

/-- The instruction that stores an intermediate result. -/
def storeInstr (offset : Nat) : Instr :=
  ⟨.sw, ["$t0", slotOperand offset]⟩

/-- The instruction of an operator. -/
def operatorInstr (op : Operator) : Instr :=
  ⟨opcodeOf op, ["$t0", "$t0", "$t1"]⟩

/-- An operator node owns a slot: its result is stored there, by one instruction, and loaded from
there, by one instruction behind it, and no other instruction has this slot as an operand. -/
structure Owned (code : List Instr) (node : Expr) (offset : Nat) : Prop where
  uses : ∃ r : Register, usesOf code offset = [storeInstr offset, loadInstr r.name (.slot offset)]
  result : ∃ op lhs rhs, node = .binary op lhs rhs
    ∧ [operatorInstr op, storeInstr offset] <:+: code

section

variable {code code' before behind : List Instr} {node : Expr} {offset other : Nat}

theorem usesOf_append :
    usesOf (code ++ code') offset = usesOf code offset ++ usesOf code' offset :=
  List.filter_append ..

theorem usesOf_cons (i : Instr) :
    usesOf (i :: code) offset = usesOf [i] offset ++ usesOf code offset := by
  show usesOf ([i] ++ code) offset = _
  exact usesOf_append

theorem usesOf_loadInstr (register : Register) (operand : Operand) :
    usesOf [loadInstr register.name operand] offset
      = if operand = .slot offset then [loadInstr register.name operand] else [] := by
  have hregister : slotOperand offset ≠ register.name :=
    Gen.slotOperand_ne (Gen.indexed?_register register) offset
  cases operand with
  | slot target =>
    have hmem : slotOperand offset ∈ (loadInstr register.name (.slot target)).args
        ↔ (.slot target : Operand) = .slot offset := by
      simp only [loadInstr, List.mem_cons, hregister, List.not_mem_nil, or_false, false_or,
        Operand.slot.injEq]
      exact ⟨fun h => (Gen.slotOperand_inj h).symm, fun h => h ▸ rfl⟩
    unfold usesOf
    simp only [List.filter_singleton, hmem, Bool.cond_decide]
  | immediate value =>
    have hvalue : slotOperand offset ≠ toString value :=
      Gen.slotOperand_ne (Gen.indexed?_toString value) offset
    have hmem : slotOperand offset ∉ (loadInstr register.name (.immediate value)).args := by
      simp only [loadInstr, List.mem_cons, hregister, hvalue, List.not_mem_nil, or_false,
        not_false_eq_true]
    unfold usesOf
    simp only [List.filter_singleton, hmem, Bool.cond_decide, if_false, reduceCtorEq]

theorem Owned.extend (h : Owned code node offset) (hbefore : usesOf before offset = [])
    (hbehind : usesOf behind offset = []) : Owned (before ++ code ++ behind) node offset where
  uses := by
    rw [usesOf_append, usesOf_append, hbefore, hbehind, List.nil_append, List.append_nil]
    exact h.uses
  result := by
    obtain ⟨op, lhs, rhs, hnode, hinfix⟩ := h.result
    exact ⟨op, lhs, rhs, hnode, hinfix.trans (List.infix_append before code behind)⟩

theorem usesOf_store (r : Register) (target : Nat) :
    usesOf [⟨.sw, [r.name, slotOperand target]⟩] offset
      = if target = offset then [⟨.sw, [r.name, slotOperand target]⟩] else [] := by
  have hregister : slotOperand offset ≠ r.name :=
    Gen.slotOperand_ne (Gen.indexed?_register r) offset
  have hmem : slotOperand offset ∈ [r.name, slotOperand target] ↔ target = offset := by
    simp only [List.mem_cons, hregister, List.not_mem_nil, or_false, false_or]
    exact ⟨fun h => (Int.ofNat.inj (Gen.slotOperand_inj h)).symm, fun h => h ▸ rfl⟩
  unfold usesOf
  simp only [List.filter_singleton, hmem, Bool.cond_decide]

theorem usesOf_storeInstr (target : Nat) :
    usesOf [storeInstr target] offset = if target = offset then [storeInstr target] else [] :=
  usesOf_store .t0 target

theorem usesOf_call (routine : Routine) : usesOf [⟨.jal, [routine.name]⟩] offset = [] := by
  have hname : slotOperand offset ≠ routine.name :=
    Gen.slotOperand_ne (Gen.indexed?_eq_none (by cases routine <;> decide)) offset
  unfold usesOf
  simp only [List.filter_singleton, List.mem_singleton, hname, Bool.cond_decide, if_false]

theorem usesOf_operatorInstr (op : Operator) : usesOf [operatorInstr op] offset = [] := by
  have ht0 : slotOperand offset ≠ "$t0" := Gen.slotOperand_ne (Gen.indexed?_register .t0) offset
  have ht1 : slotOperand offset ≠ "$t1" := Gen.slotOperand_ne (Gen.indexed?_register .t1) offset
  have hmem : slotOperand offset ∉ (operatorInstr op).args := by
    simp only [operatorInstr, List.mem_cons, ht0, ht1, List.not_mem_nil, or_false,
      not_false_eq_true]
  unfold usesOf
  simp only [List.filter_singleton, hmem, Bool.cond_decide, if_false]

end

/-! ## Code and the slots it owns -/

/-- Offsets for intermediate results: no two are the same, and none belongs to a variable. -/
structure Fresh (isVariable : Nat → Prop) (temps : List Nat) : Prop where
  distinct : temps.Nodup
  apart : ∀ offset ∈ temps, ¬ isVariable offset

/-- Code whose operators own slots, and that has no other slots as operands but those of
variables. -/
structure Owns (isVariable : Nat → Prop) (code : List Instr) (nodes : List Expr)
    (temps : List Nat) : Prop where
  owned : List.Forall₂ (Owned code) nodes temps
  confined : ∀ offset, offset ∉ temps → ¬ isVariable offset → usesOf code offset = []

/-- Code for an operand: its operators own slots once the operand is loaded, whatever other code
stands in between. -/
structure Yields (isVariable : Nat → Prop) (code : List Instr) (nodes : List Expr)
    (temps : List Nat) (operand : Operand) : Prop where
  owned : ∀ between (r : Register), (∀ offset ∈ temps, usesOf between offset = []) →
    List.Forall₂ (Owned (code ++ between ++ [loadInstr r.name operand])) nodes temps
  confined : ∀ offset, offset ∉ temps → ¬ isVariable offset → usesOf code offset = []
  operand : ∀ offset : Nat, operand = .slot offset → offset ∈ temps ∨ isVariable offset

section

variable {isVariable : Nat → Prop} {code code' : List Instr} {nodes nodes' : List Expr}
  {temps temps' : List Nat} {operand operand' : Operand}

theorem Fresh.left (h : Fresh isVariable (temps ++ temps')) : Fresh isVariable temps :=
  ⟨(List.nodup_append.mp h.distinct).1, fun o ho => h.apart o (List.mem_append_left _ ho)⟩

theorem Fresh.right (h : Fresh isVariable (temps ++ temps')) : Fresh isVariable temps' :=
  ⟨(List.nodup_append.mp h.distinct).2.1, fun o ho => h.apart o (List.mem_append_right _ ho)⟩

theorem Fresh.not_mem_right (h : Fresh isVariable (temps ++ temps')) {offset : Nat}
    (hmem : offset ∈ temps) : offset ∉ temps' :=
  fun hmem' => (List.nodup_append.mp h.distinct).2.2 offset hmem offset hmem' rfl

theorem Fresh.not_mem_left (h : Fresh isVariable (temps ++ temps')) {offset : Nat}
    (hmem : offset ∈ temps') : offset ∉ temps :=
  fun hmem' => h.not_mem_right hmem' hmem

/-- Owned slots stay owned in larger code that does not use them elsewhere. -/
theorem owned_extend (before behind : List Instr) (h : List.Forall₂ (Owned code) nodes temps)
    (hbefore : ∀ offset ∈ temps, usesOf before offset = [])
    (hbehind : ∀ offset ∈ temps, usesOf behind offset = []) :
    List.Forall₂ (Owned (before ++ code ++ behind)) nodes temps := by
  induction h with
  | nil => exact .nil
  | cons hfirst _ ih =>
    refine .cons (hfirst.extend (hbefore _ List.mem_cons_self) (hbehind _ List.mem_cons_self)) ?_
    exact ih (fun o ho => hbefore o (List.mem_cons_of_mem _ ho))
      fun o ho => hbehind o (List.mem_cons_of_mem _ ho)

theorem Owns.append (h : Owns isVariable code nodes temps)
    (h' : Owns isVariable code' nodes' temps') (hfresh : Fresh isVariable (temps ++ temps')) :
    Owns isVariable (code ++ code') (nodes ++ nodes') (temps ++ temps') where
  owned := by
    refine List.rel_append ?_ ?_
    · refine owned_extend [] code' h.owned (fun _ _ => rfl) ?_
      intro offset hmem
      exact h'.confined offset (hfresh.not_mem_right hmem) (hfresh.left.apart offset hmem)
    · have howned := owned_extend code [] h'.owned ?_ fun _ _ => rfl
      · rwa [List.append_nil] at howned
      · intro offset hmem
        exact h.confined offset (hfresh.not_mem_left hmem) (hfresh.right.apart offset hmem)
  confined := by
    intro offset hmem hvariable
    rw [List.mem_append, not_or] at hmem
    rw [usesOf_append, h.confined offset hmem.1 hvariable, h'.confined offset hmem.2 hvariable]
    rfl

/-- Code without operators. -/
theorem owns_plain (h : ∀ offset, ¬ isVariable offset → usesOf code offset = []) :
    Owns isVariable code [] [] :=
  ⟨.nil, fun offset _ => h offset⟩

/-- Code without operators may follow. -/
theorem Owns.append_plain (h : Owns isVariable code nodes temps) (hfresh : Fresh isVariable temps)
    (hplain : ∀ offset, ¬ isVariable offset → usesOf code' offset = []) :
    Owns isVariable (code ++ code') nodes temps := by
  rw [← List.append_nil temps] at hfresh
  have howns := h.append (owns_plain hplain) hfresh
  rwa [List.append_nil, List.append_nil] at howns

theorem yields_immediate (value : Int) : Yields isVariable [] [] [] (.immediate value) :=
  ⟨fun _ _ _ => .nil, fun _ _ _ => rfl, fun _ h => nomatch h⟩

theorem yields_variable {offset : Nat} (h : isVariable offset) :
    Yields isVariable [] [] [] (.slot offset) := by
  refine ⟨fun _ _ _ => .nil, fun _ _ _ => rfl, ?_⟩
  intro other heq
  cases heq
  exact .inr h

/-- A loaded operand uses the slot that it is in, and no other. -/
theorem Yields.usesOf_load (h : Yields isVariable code nodes temps operand) (r : Register)
    {offset : Nat} (hmem : offset ∉ temps) (hvariable : ¬ isVariable offset) :
    usesOf [loadInstr r.name operand] offset = [] := by
  rw [usesOf_loadInstr, if_neg]
  intro heq
  rcases h.operand offset heq with hmem' | hvariable'
  · exact hmem hmem'
  · exact hvariable hvariable'

/-- Code for an operand and its only load. -/
theorem Yields.load (h : Yields isVariable code nodes temps operand) (r : Register) :
    Owns isVariable (code ++ [loadInstr r.name operand]) nodes temps where
  owned := by
    have howned := h.owned [] r fun _ _ => rfl
    rwa [List.append_nil] at howned
  confined := by
    intro offset hmem hvariable
    rw [usesOf_append, h.confined offset hmem hvariable, h.usesOf_load r hmem hvariable]
    rfl

/-- An operator and the store of its result use the slot of the result only. -/
theorem usesOf_operator (op : Operator) {target offset : Nat} (h : offset ≠ target) :
    usesOf [operatorInstr op, storeInstr target] offset = [] := by
  rw [usesOf_cons, usesOf_operatorInstr, usesOf_storeInstr, if_neg h.symm]
  rfl

theorem usesOf_slot_load (r : Register) {target offset : Nat} (h : offset ≠ target) :
    usesOf [loadInstr r.name (.slot target)] offset = [] := by
  rw [usesOf_loadInstr, if_neg]
  intro heq
  cases heq
  exact h rfl

end

section

variable {isVariable : Nat → Prop} {code code' between : List Instr} {nodes nodes' : List Expr}
  {temps temps' : List Nat} {operand operand' : Operand} {op : Operator} {target : Nat}

/-- The code of an operator behind that of its operands. -/
def operatorCode (op : Operator) (operand operand' : Operand) (target : Nat) : List Instr :=
  [loadInstr "$t0" operand] ++ ([loadInstr "$t1" operand']
    ++ [operatorInstr op, storeInstr target])

/-- The left operand waits while the code of the right one runs. -/
theorem Yields.owned_left (h : Yields isVariable code nodes temps operand)
    (h' : Yields isVariable code' nodes' temps' operand')
    (hfresh : Fresh isVariable (temps ++ (temps' ++ [target])))
    (hbetween : ∀ offset ∈ temps, usesOf between offset = []) (r : Register) :
    List.Forall₂ (Owned (code ++ (code' ++ operatorCode op operand operand' target) ++ between
      ++ [loadInstr r.name (.slot target)])) nodes temps := by
  have howned : List.Forall₂ (Owned (code ++ code' ++ [loadInstr "$t0" operand])) nodes temps :=
    h.owned code' .t0 fun offset hmem => h'.confined offset
      (fun hmem' => hfresh.not_mem_right hmem (List.mem_append_left _ hmem'))
      (hfresh.left.apart offset hmem)
  have hrest : ∀ offset ∈ temps, usesOf ([loadInstr "$t1" operand']
      ++ [operatorInstr op, storeInstr target] ++ between
      ++ [loadInstr r.name (.slot target)]) offset = [] := by
    intro offset hmem
    have hnot := hfresh.not_mem_right hmem
    have hne : offset ≠ target := fun heq =>
      hnot (List.mem_append_right _ (List.mem_singleton.mpr heq))
    have hload : usesOf [loadInstr "$t1" operand'] offset = [] :=
      h'.usesOf_load .t1 (fun hmem' => hnot (List.mem_append_left _ hmem'))
        (hfresh.left.apart offset hmem)
    rw [usesOf_append, usesOf_append, usesOf_append, usesOf_operator op hne,
      usesOf_slot_load r hne, hbetween offset hmem, hload]
    rfl
  have hwhole := owned_extend [] _ howned (fun _ _ => rfl) hrest
  simpa only [operatorCode, List.nil_append, List.append_assoc] using hwhole

theorem Yields.owned_right (h : Yields isVariable code nodes temps operand)
    (h' : Yields isVariable code' nodes' temps' operand')
    (hfresh : Fresh isVariable (temps ++ (temps' ++ [target])))
    (hbetween : ∀ offset ∈ temps', usesOf between offset = []) (r : Register) :
    List.Forall₂ (Owned (code ++ (code' ++ operatorCode op operand operand' target) ++ between
      ++ [loadInstr r.name (.slot target)])) nodes' temps' := by
  have hother : ∀ offset ∈ temps', offset ∉ temps ∧ ¬ isVariable offset := fun offset hmem =>
    ⟨hfresh.not_mem_left (List.mem_append_left _ hmem), hfresh.right.left.apart offset hmem⟩
  have howned : List.Forall₂ (Owned (code' ++ [loadInstr "$t0" operand]
      ++ [loadInstr "$t1" operand'])) nodes' temps' :=
    h'.owned [loadInstr "$t0" operand] .t1 fun offset hmem =>
      h.usesOf_load .t0 (hother offset hmem).1 (hother offset hmem).2
  have hbefore : ∀ offset ∈ temps', usesOf code offset = [] := fun offset hmem =>
    h.confined offset (hother offset hmem).1 (hother offset hmem).2
  have hrest : ∀ offset ∈ temps', usesOf ([operatorInstr op, storeInstr target] ++ between
      ++ [loadInstr r.name (.slot target)]) offset = [] := by
    intro offset hmem
    have hne : offset ≠ target := fun heq =>
      hfresh.right.not_mem_right hmem (List.mem_singleton.mpr heq)
    rw [usesOf_append, usesOf_append, usesOf_operator op hne, usesOf_slot_load r hne,
      hbetween offset hmem]
    rfl
  have hwhole := owned_extend code _ howned hbefore hrest
  simpa only [operatorCode, List.append_assoc] using hwhole

/-- The new slot is used by the store of the result and by its load. -/
theorem owned_operator (lhs rhs : Expr) (hcode : usesOf code target = [])
    (hload : usesOf [loadInstr "$t0" operand] target = [])
    (hload' : usesOf [loadInstr "$t1" operand'] target = [])
    (hbetween : usesOf between target = []) (r : Register) :
    Owned (code ++ operatorCode op operand operand' target ++ between
      ++ [loadInstr r.name (.slot target)]) (.binary op lhs rhs) target where
  uses := by
    have hown : usesOf [operatorInstr op, storeInstr target] target = [storeInstr target] := by
      rw [usesOf_cons, usesOf_operatorInstr, usesOf_storeInstr, if_pos rfl]
      rfl
    refine ⟨r, ?_⟩
    rw [operatorCode, usesOf_append, usesOf_append, usesOf_append, usesOf_append, usesOf_append,
      hcode, hload, hload', hown, hbetween, usesOf_loadInstr, if_pos rfl]
    rfl
  result := by
    refine ⟨op, lhs, rhs, rfl, code ++ [loadInstr "$t0" operand] ++ [loadInstr "$t1" operand'],
      between ++ [loadInstr r.name (.slot target)], ?_⟩
    simp only [operatorCode, List.append_assoc]

/-- The code of an operator: that of the operands, their loads, and the result in a new slot. -/
theorem Yields.apply (h : Yields isVariable code nodes temps operand)
    (h' : Yields isVariable code' nodes' temps' operand') (op : Operator) (lhs rhs : Expr)
    (hfresh : Fresh isVariable (temps ++ (temps' ++ [target]))) :
    Yields isVariable (code ++ (code' ++ operatorCode op operand operand' target))
      (nodes ++ (nodes' ++ [.binary op lhs rhs])) (temps ++ (temps' ++ [target]))
      (.slot target) := by
  have huses : ∀ {offset}, offset ∉ temps → offset ∉ temps' → ¬ isVariable offset →
      usesOf code offset = [] ∧ usesOf code' offset = []
        ∧ usesOf [loadInstr "$t0" operand] offset = []
        ∧ usesOf [loadInstr "$t1" operand'] offset = [] :=
    fun hleft hright hvariable => ⟨h.confined _ hleft hvariable, h'.confined _ hright hvariable,
      h.usesOf_load .t0 hleft hvariable, h'.usesOf_load .t1 hright hvariable⟩
  refine ⟨?_, ?_, ?_⟩
  · intro between r hbetween
    refine List.rel_append ?_ (List.rel_append ?_ (.cons ?_ .nil))
    · exact h.owned_left h' hfresh
        (fun offset hmem => hbetween offset (List.mem_append_left _ hmem)) r
    · exact h.owned_right h' hfresh (fun offset hmem =>
        hbetween offset (List.mem_append_right _ (List.mem_append_left _ hmem))) r
    · have hlast : target ∈ temps' ++ [target] :=
        List.mem_append_right _ (List.mem_singleton.mpr rfl)
      obtain ⟨hcode, hcode', hload, hload'⟩ := huses (hfresh.not_mem_left hlast)
        (hfresh.right.not_mem_left (List.mem_singleton.mpr rfl)) (hfresh.right.apart target hlast)
      have hboth : usesOf (code ++ code') target = [] := by
        rw [usesOf_append, hcode, hcode']
        rfl
      rw [← List.append_assoc code]
      exact owned_operator lhs rhs hboth hload hload'
        (hbetween target (List.mem_append_right _ hlast)) r
  · intro offset hmem hvariable
    simp only [List.mem_append, List.mem_singleton, not_or] at hmem
    obtain ⟨hleft, hright, hne⟩ := hmem
    obtain ⟨hcode, hcode', hload, hload'⟩ := huses hleft hright hvariable
    rw [operatorCode, usesOf_append, usesOf_append, usesOf_append, usesOf_append, hcode, hcode',
      hload, hload', usesOf_operator op hne]
    rfl
  · intro offset heq
    cases heq
    exact .inl (List.mem_append_right _ (List.mem_append_right _ List.mem_cons_self))

end

/-! ## Generated code -/

/-- The slots for intermediate results that requests get from a frame. -/
def Frame.temporariesFor (f : Frame) (rs : List Request) : List Nat :=
  temporaries (f.serve rs).1

theorem Frame.temporariesFor_append (f : Frame) (rs rs' : List Request) :
    f.temporariesFor (rs ++ rs')
      = f.temporariesFor rs ++ (f.serve rs).2.temporariesFor rs' := by
  unfold temporariesFor
  rw [serve_append, temporaries_append]

theorem nodesIn_append (parts parts' : List Expr) :
    nodesIn (parts ++ parts') = nodesIn parts ++ nodesIn parts' :=
  List.filter_append ..

namespace Gen

variable {isVariable : Nat → Prop} {g g' : Generator}

theorem variableSlot_eq_ok {name : String} {offset : Nat}
    (h : variableSlot name g = .ok offset g') :
    g'.code = g.code ∧ (name, offset) ∈ g'.frame.slots := by
  cases hslot : g.frame.slot? name with
  | some known =>
    rw [variableSlot_of_some hslot] at h
    cases h
    exact ⟨rfl, Frame.mem_slots_of_slot? hslot⟩
  | none =>
    rw [variableSlot_of_none hslot] at h
    cases h
    exact ⟨rfl, List.mem_append_right _ (List.mem_singleton.mpr rfl)⟩

/-- What an expression adds to the code yields its operand. -/
theorem yields_expression (e : Expr) {operand : Operand} (h : expression e g = .ok operand g')
    (hvariables : ∀ entry ∈ g'.frame.slots, isVariable entry.2)
    (hfresh : Fresh isVariable (g.frame.temporariesFor (valueRequests e))) :
    ∃ code, g'.code.toList = g.code.toList ++ code
      ∧ Yields isVariable code (nodesIn (subtrees e)) (g.frame.temporariesFor (valueRequests e))
        operand := by
  induction e using chainInduction generalizing g g' operand with
  | int value =>
    rw [expression_int] at h
    cases h
    exact ⟨[], (List.append_nil _).symm, yields_immediate value⟩
  | var name =>
    rw [expression_var] at h
    obtain ⟨offset, mid, hslot, h⟩ := bind_eq_ok.mp h
    cases h
    obtain ⟨hcode, hmem⟩ := variableSlot_eq_ok hslot
    refine ⟨[], ?_, yields_variable (hvariables _ hmem)⟩
    rw [hcode, List.append_nil]
  | binary op lhs rhs ihl ihr =>
    have hvalue := ((asks_expression (.binary op lhs rhs)).succeeds g).mp ⟨operand, g', h⟩
    obtain ⟨_, _, hrequests⟩ := requests_of_hasValue hvalue
    rw [expression_binary] at h
    obtain ⟨a, g₁, hlhs, h⟩ := bind_eq_ok.mp h
    obtain ⟨b, g₂, hrhs, h⟩ := bind_eq_ok.mp h
    have hframe₁ := (asks_expression lhs).frame_of_ok hlhs
    have hframe₂ := (asks_expression rhs).frame_of_ok hrhs
    have htemps : g.frame.temporariesFor (valueRequests (.binary op lhs rhs))
        = g.frame.temporariesFor (valueRequests lhs)
          ++ (g₁.frame.temporariesFor (valueRequests rhs) ++ [g₂.frame.size]) := by
      rw [hrequests, Frame.temporariesFor_append, ← hframe₁, Frame.temporariesFor_append,
        ← hframe₂]
      rfl
    -- the variables so far are variables at the end, and the slots of the two sides lie apart
    rw [htemps] at hfresh ⊢
    have hext₂ := (grows_expression rhs).extends_of_ok hrhs
    have hext := (grows_apply op a b).extends_of_ok h
    obtain ⟨code, hcode, hyields⟩ := ihl hlhs (fun entry hentry =>
      hvariables entry ((hext₂.slots.trans hext.slots).mem hentry)) hfresh.left
    obtain ⟨code', hcode', hyields'⟩ := ihr hrhs (fun entry hentry =>
      hvariables entry (hext.slots.mem hentry)) hfresh.right.left
    obtain ⟨_, _, rfl, rfl⟩ := apply_eq_ok h
    refine ⟨code ++ (code' ++ operatorCode op a b g₂.frame.size), ?_, ?_⟩
    · simp only [Generator.toList_push, hcode', hcode, List.append_assoc]
      rfl
    · have hnodes : nodesIn (subtrees (.binary op lhs rhs))
          = nodesIn (subtrees lhs) ++ (nodesIn (subtrees rhs) ++ [.binary op lhs rhs]) := by
        rw [subtrees, nodesIn_append, nodesIn_append, List.append_assoc]
        rfl
      rw [hnodes]
      exact hyields.apply hyields' op lhs rhs hfresh
  | call routine args =>
    rw [expression_call] at h
    cases h
  | assign name value =>
    rw [expression_assign] at h
    cases h

/-- What a successful step adds to the code owns slots for some operator nodes. -/
def Owning (isVariable : Nat → Prop) (x : Gen Unit) (requests : List Request)
    (nodes : List Expr) : Prop :=
  ∀ g g', x g = .ok () g' → (∀ entry ∈ g'.frame.slots, isVariable entry.2) →
    Fresh isVariable (g.frame.temporariesFor requests) →
    ∃ code, g'.code.toList = g.code.toList ++ code
      ∧ Owns isVariable code nodes (g.frame.temporariesFor requests)

theorem owning_readInto (e : Expr) :
    Owning isVariable (readInto e) (readRequests e) (nodesIn (subtrees e)) := by
  intro g g' h hvariables _
  cases e with
  | var name =>
    obtain ⟨offset, mid, hslot, h⟩ := bind_eq_ok.mp h
    obtain ⟨hcode, hmem⟩ := variableSlot_eq_ok hslot
    cases h
    refine ⟨[⟨.jal, ["read"]⟩, ⟨.sw, ["$v0", slotOperand offset]⟩], ?_, owns_plain ?_⟩
    · show ((mid.push ⟨.jal, ["read"]⟩).push ⟨.sw, ["$v0", slotOperand offset]⟩).code.toList = _
      rw [Generator.toList_push, Generator.toList_push, hcode, List.append_assoc]
      rfl
    · intro other hother
      have hne : offset ≠ other := fun heq => hother (heq ▸ hvariables _ hmem)
      have hcall : usesOf [⟨.jal, ["read"]⟩] other = [] := usesOf_call .read
      have hstore : usesOf [⟨.sw, ["$v0", slotOperand offset]⟩] other = [] :=
        (usesOf_store .v0 offset).trans (if_neg hne)
      rw [usesOf_cons, hcall, hstore]
      rfl
  | _ => cases h

theorem owning_writeFrom (e : Expr) :
    Owning isVariable (writeFrom e) (valueRequests e) (nodesIn (subtrees e)) := by
  intro g g' h hvariables hfresh
  obtain ⟨operand, mid, hexpression, _, rfl⟩ := writeFrom_eq_ok h
  obtain ⟨code, hcode, hyields⟩ := yields_expression e hexpression hvariables hfresh
  refine ⟨code ++ [loadInstr "$a0" operand] ++ [⟨.jal, ["write"]⟩], ?_, ?_⟩
  · rw [Generator.toList_push, Generator.toList_push, hcode]
    simp only [List.append_assoc]
  · exact (hyields.load .a0).append_plain hfresh fun _ _ => usesOf_call .write

theorem owning_forM {x : Expr → Gen Unit} {requests : Expr → List Request}
    {succeeds : Expr → Bool} (hasks : ∀ e, Asks (x e) (requests e) (succeeds e))
    (hgrows : ∀ e, Grows (x e))
    (hx : ∀ e, Owning isVariable (x e) (requests e) (nodesIn (subtrees e))) (es : List Expr) :
    Owning isVariable (es.forM x) (inTurn requests succeeds es) (nodesIn (subtreesAll es)) := by
  intro g g' h hvariables hfresh
  induction es generalizing g with
  | nil =>
    cases h
    exact ⟨[], (List.append_nil _).symm, owns_plain fun _ _ => rfl⟩
  | cons e es ih =>
    obtain ⟨_, mid, hfirst, hrest⟩ := bind_eq_ok.mp h
    -- the step did not fail, so what follows it asks in turn
    have hsucceeds : succeeds e = true := ((hasks e).succeeds g).mp ⟨_, mid, hfirst⟩
    have hframe := (hasks e).frame_of_ok hfirst
    have htemps : g.frame.temporariesFor (inTurn requests succeeds (e :: es))
        = g.frame.temporariesFor (requests e)
          ++ mid.frame.temporariesFor (inTurn requests succeeds es) := by
      rw [inTurn, hsucceeds, cond_true, Frame.temporariesFor_append, ← hframe]
    rw [htemps] at hfresh ⊢
    have hext := (grows_forM hgrows es).extends_of_ok hrest
    obtain ⟨code, hcode, howns⟩ := hx e g mid hfirst (fun entry hentry =>
      hvariables entry (hext.slots.mem hentry)) hfresh.left
    obtain ⟨code', hcode', howns'⟩ := ih mid hrest hfresh.right
    refine ⟨code ++ code', ?_, ?_⟩
    · rw [hcode', hcode, List.append_assoc]
    · rw [subtreesAll, nodesIn_append]
      exact howns.append howns' hfresh

theorem owning_statement (e : Expr) :
    Owning isVariable (statement e) (statementRequests e) (nodesIn (subtrees e)) := by
  intro g g' h hvariables hfresh
  cases e with
  | call routine args =>
    have hnodes : nodesIn (subtrees (.call routine args)) = nodesIn (subtreesAll args) := by
      rw [subtrees, nodesIn_append]
      exact List.append_nil _
    rw [hnodes]
    cases routine with
    | read =>
      exact owning_forM asks_readInto grows_readInto owning_readInto args g g' h hvariables hfresh
    | write =>
      exact owning_forM asks_writeFrom grows_writeFrom owning_writeFrom args g g' h hvariables
        hfresh
  | assign name value =>
    obtain ⟨target, g₁, operand, g₂, hslot, hexpression, _, rfl⟩ := assign_eq_ok h
    obtain ⟨hcode₁, hmem⟩ := variableSlot_eq_ok hslot
    have hframe := (asks_variableSlot name).frame_of_ok hslot
    have htemps : g.frame.temporariesFor (statementRequests (.assign name value))
        = g₁.frame.temporariesFor (valueRequests value) := by
      rw [hframe]
      rfl
    rw [htemps] at hfresh ⊢
    obtain ⟨code, hcode, hyields⟩ := yields_expression value hexpression hvariables hfresh
    have hnodes : nodesIn (subtrees (.assign name value)) = nodesIn (subtrees value) := by
      rw [subtrees, nodesIn_append]
      exact List.append_nil _
    have hext := (grows_expression value).extends_of_ok hexpression
    rw [hnodes]
    refine ⟨code ++ [loadInstr "$t0" operand] ++ [storeInstr target], ?_, ?_⟩
    · rw [Generator.toList_push, Generator.toList_push, hcode, hcode₁]
      simp only [List.append_assoc, storeInstr]
    · refine (hyields.load .t0).append_plain hfresh ?_
      intro other hother
      rw [usesOf_storeInstr, if_neg]
      rintro rfl
      exact hother (hvariables _ (hext.slots.mem hmem))
  | _ => cases h

end Gen

/-! ## Names -/

namespace Frame

theorem mem_names_give (f : Frame) (r : Request) (name : String) :
    name ∈ (f.give r).2.slots.map Prod.fst ↔ name ∈ f.slots.map Prod.fst ∨ r = .named name := by
  cases r with
  | temporary =>
    show name ∈ f.slots.map Prod.fst ↔ _
    simp
  | named other =>
    cases hslot : f.slot? other with
    | some offset =>
      rw [give_of_some hslot]
      constructor
      · exact .inl
      · rintro (hmem | heq)
        · exact hmem
        · cases heq
          exact List.mem_map.mpr ⟨_, mem_slots_of_slot? hslot, rfl⟩
    | none =>
      rw [give_of_none hslot]
      show name ∈ (f.slots ++ [(other, f.size)]).map Prod.fst ↔ _
      rw [List.map_append, List.mem_append, List.map_singleton, List.mem_singleton,
        Request.named.injEq]
      exact or_congr_right eq_comm

/-- The variables with slots are those that were asked for. -/
theorem mem_names_serve (f : Frame) (rs : List Request) (name : String) :
    name ∈ (f.serve rs).2.slots.map Prod.fst
      ↔ name ∈ f.slots.map Prod.fst ∨ .named name ∈ rs := by
  induction rs generalizing f with
  | nil =>
    show name ∈ f.slots.map Prod.fst ↔ _
    simp
  | cons r rs ih =>
    show name ∈ ((f.give r).2.serve rs).2.slots.map Prod.fst ↔ _
    rw [ih, mem_names_give, List.mem_cons, or_assoc, eq_comm]

end Frame

theorem namesIn_append (parts parts' : List Expr) :
    namesIn (parts ++ parts') = namesIn parts ++ namesIn parts' :=
  List.flatMap_append

/-- An expression with a value asks for the variables in it. -/
theorem named_mem_valueRequests {e : Expr} (h : hasValue e = true) (name : String) :
    .named name ∈ valueRequests e ↔ name ∈ namesIn (subtrees e) := by
  induction e using chainInduction with
  | int value => simp [valueRequests, namesIn, subtrees, ownName]
  | var other => simp [valueRequests, namesIn, subtrees, ownName]
  | binary op lhs rhs ihl ihr =>
    obtain ⟨hlhs, hrhs, hrequests⟩ := requests_of_hasValue h
    rw [hrequests, subtrees, namesIn_append, namesIn_append, List.mem_append, List.mem_append,
      List.mem_append, List.mem_append, ihl hlhs, ihr hrhs]
    simp [namesIn, ownName]
  | call routine args => cases h
  | assign other value => cases h

theorem named_mem_inTurn {requests : Expr → List Request} {succeeds : Expr → Bool} {name : String}
    (hrequests : ∀ e, succeeds e = true → (.named name ∈ requests e ↔ name ∈ namesIn (subtrees e)))
    {es : List Expr} (h : es.all succeeds = true) :
    .named name ∈ inTurn requests succeeds es ↔ name ∈ namesIn (subtreesAll es) := by
  induction es with
  | nil => simp [inTurn, subtreesAll, namesIn]
  | cons e es ih =>
    rw [List.all_cons, Bool.and_eq_true] at h
    rw [inTurn, h.1, cond_true, subtreesAll, namesIn_append, List.mem_append, List.mem_append,
      hrequests e h.1, ih h.2]

theorem named_mem_statementRequests {e : Expr} (h : hasCode e = true) (name : String) :
    .named name ∈ statementRequests e ↔ name ∈ namesIn (subtrees e) := by
  cases e with
  | call routine args =>
    have hnames : namesIn (subtrees (.call routine args)) = namesIn (subtreesAll args) := by
      rw [subtrees, namesIn_append]
      exact List.append_nil _
    rw [hnames]
    cases routine with
    | read =>
      refine named_mem_inTurn ?_ h
      intro e he
      cases e with
      | var other => simp [readRequests, namesIn, subtrees, ownName]
      | _ => cases he
    | write =>
      refine named_mem_inTurn (fun e he => named_mem_valueRequests ?_ name) h
      exact (Bool.and_eq_true_iff.mp he).1
  | assign other value =>
    have hvalue := (Bool.and_eq_true_iff.mp h).1
    rw [statementRequests, List.mem_cons, named_mem_valueRequests hvalue, subtrees, namesIn_append,
      List.mem_append, Request.named.injEq]
    simp [namesIn, ownName, or_comm]
  | int value => cases h
  | var other => cases h
  | binary op lhs rhs => cases h

/-! ## Programs -/

namespace Gen

/-- What a program asks for. -/
theorem asks_program (p : Program) :
    Asks (program p) (inTurn statementRequests hasCode p) (p.all hasCode) :=
  (asks_forM asks_statement p).bind_quiet fun _ =>
    asks_of_ok fun _ => ⟨_, _, rfl, rfl⟩

variable {p : Program} {g : Generator}

/-- The frame of a program has a slot for each variable in it. -/
theorem length_slots_of_program (h : program p {} = .ok () g)
    (hnames : (g.frame.slots.map Prod.fst).Nodup) :
    g.frame.slots.length = (namesIn (subtreesAll p)).dedup.length := by
  have hall : p.all hasCode = true := ((asks_program p).succeeds {}).mp ⟨_, g, h⟩
  have hmem : ∀ name, name ∈ g.frame.slots.map Prod.fst
      ↔ name ∈ (namesIn (subtreesAll p)).dedup := by
    intro name
    rw [(asks_program p).frame_of_ok h, Frame.mem_names_serve, List.mem_dedup]
    show name ∈ [] ∨ _ ↔ _
    rw [named_mem_inTurn (fun e he => named_mem_statementRequests he name) hall]
    simp
  rw [← List.length_map (f := Prod.fst)]
  exact ((List.perm_ext_iff_of_nodup hnames (List.nodup_dedup _)).mpr hmem).length_eq

theorem accounted_of_program (h : program p {} = .ok () g) :
    g.frame.Accounted (Frame.temporariesFor {} (inTurn statementRequests hasCode p)) := by
  rw [(asks_program p).frame_of_ok h]
  exact Frame.accounted_empty.serve _

/-- The operators of a program own slots in its code. -/
theorem owned_of_program (h : program p {} = .ok () g) :
    List.Forall₂ (Owned g.code.toList) (nodesIn (subtreesAll p))
      (Frame.temporariesFor {} (inTurn statementRequests hasCode p)) := by
  have hbooks := accounted_of_program h
  obtain ⟨_, mid, hstatements, h⟩ := bind_eq_ok.mp h
  cases h
  have hfresh : Fresh (fun offset => ∃ entry ∈ mid.frame.slots, entry.2 = offset)
      (Frame.temporariesFor {} (inTurn statementRequests hasCode p)) := by
    refine ⟨hbooks.distinct, ?_⟩
    rintro offset hmem ⟨entry, hentry, heq⟩
    exact hbooks.apart offset hmem entry hentry heq
  obtain ⟨code, hcode, howns⟩ := owning_forM asks_statement grows_statement owning_statement p {}
    mid hstatements (fun entry hentry => ⟨entry, hentry, rfl⟩) hfresh
  have hempty : mid.code.toList = code := hcode
  rw [← hempty] at howns
  exact howns.owned

end Gen

/-- Frame slots are never shared. A generator that was reached by any calls, failing ones included,
has given a slot of its own to each variable and each intermediate result, in the frame above the
saved registers, and variables keep theirs. The frame of a program has a word for each variable and
each operator in it; its code has no operands relative to the frame pointer but slots, and each
operator node owns one, which is no variable's. -/
theorem slots_never_shared :
    (∀ (r : Request) (g : Generator), ∃ g', r.perform g = .ok (g.frame.give r).1 g'
        ∧ g'.frame = (g.frame.give r).2)
    ∧ (∀ calls : List Call,
        (Call.performAll calls {}).frame = (Frame.serve {} (calls.flatMap Call.requests)).2
        ∧ (Call.performAll calls {}).frame.Accounted
          (Frame.temporariesFor {} (calls.flatMap Call.requests))
        ∧ ∀ more, (Call.performAll calls {}).frame.slots
          <+: (Call.performAll (calls ++ more) {}).frame.slots)
    ∧ ∀ (p : Program) (g : Generator), Gen.program p {} = .ok () g →
        g.frame.size = 32 + 4 * ((namesIn (subtreesAll p)).dedup.length
          + (nodesIn (subtreesAll p)).length)
        ∧ (∀ i ∈ g.code.toList, ∀ arg ∈ i.args, ∀ offset, indexed? arg = some (offset, "$fp") →
          ∃ k, IsSlot g.frame.size k ∧ arg = slotOperand k)
        ∧ ∃ temps : List Nat, temps.Nodup
          ∧ (∀ offset ∈ temps, IsSlot g.frame.size offset
            ∧ ∀ entry ∈ g.frame.slots, entry.2 ≠ offset)
          ∧ List.Forall₂ (Owned g.code.toList) (nodesIn (subtreesAll p)) temps := by
  refine ⟨?_, ?_, ?_⟩
  · intro r g
    obtain ⟨g', hok, hframe, _⟩ := Frame.perform_eq_ok r g
    exact ⟨g', hok, hframe⟩
  · intro calls
    have hframe := Call.frame_performAll calls {}
    refine ⟨hframe, ?_, ?_⟩
    · rw [hframe]
      exact Frame.accounted_empty.serve _
    · intro more
      rw [hframe, Call.frame_performAll, List.flatMap_append, Frame.serve_append]
      exact Frame.slots_prefix_serve _ _
  · intro p g h
    have hbooks := Gen.accounted_of_program h
    have howned := Gen.owned_of_program h
    refine ⟨?_, ?_, _, hbooks.distinct, ?_, howned⟩
    · rw [hbooks.size, Gen.length_slots_of_program h hbooks.names, howned.length_eq]
    · intro i hi arg harg offset hindexed
      exact Gen.slot_of_emitted (Gen.emitted_of_program h i hi) harg hindexed
    · intro offset hmem
      exact ⟨hbooks.slot offset hmem, hbooks.apart offset hmem⟩

/-- `x := 1 + y - x` has two variables and two operators, and the difference comes second. -/
theorem slots_never_shared_difference :
    ∃ g, Gen.program [.assign "x" (.binary .sub (.binary .add (.int 1) (.var "y")) (.var "x"))] {}
        = .ok () g
      ∧ g.frame.size = 48
      ∧ ∃ temps : List Nat, temps.Nodup ∧ List.Forall₂ (Owned g.code.toList)
        [.binary .add (.int 1) (.var "y"),
          .binary .sub (.binary .add (.int 1) (.var "y")) (.var "x")] temps := by
  obtain ⟨_, g, h⟩ := ((Gen.asks_program
    [.assign "x" (.binary .sub (.binary .add (.int 1) (.var "y")) (.var "x"))]).succeeds {}).mpr rfl
  obtain ⟨hsize, _, temps, hdistinct, _, howned⟩ := slots_never_shared.2.2 _ g h
  exact ⟨g, h, hsize, temps, hdistinct, howned⟩

end MicroLang.Assembly
