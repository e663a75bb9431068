import Mathlib.Data.List.Find
import MicroLang.Proofs.Printing
import MicroLang.Proofs.SlotOwnership

/-!
# Programs that have code

Not every tree has code. A statement has to be an assignment or a call; what is read into has to be
a variable; a value may have no calls and no assignments in it; and a literal has to be one that can
be written. A generator does not look for such faults beforehand: it goes on until it meets one, and
stops there.

Which one it meets first depends on the order in which it visits the trees. The values of a chain of
operators are generated along its left spine, but this is the order of the plain recursion
(`expression_eq_direct`), so leaves are met from left to right. A literal is written when it is
loaded, which an operator does once both of its operands have their values. `visited` lists the
nodes of a statement at which generating can fail, in this order, and a step is `Judged` by a list
of nodes if it fails exactly at the first of them that cannot be used. Where all literals can be
written, only the nodes in `checked` are left.

> `program_iff_wellFormed`: the programs that have code are the well-formed ones with literals that
> can be written; any other fails with the error of its first offending node, behind the code of the
> statements before it.
-/

namespace MicroLang.Assembly

open MicroLang.Program (Expr Operator Routine)
open MicroLang.Program.Grammar (HasLiteral)
open MicroLang.Sequencing

/-! ## Plain recursion -/

namespace Gen

/-- The value of an expression by plain recursion: an operator takes the value of its left operand,
then that of its right operand, loads both, and stores its result in a new slot. -/
def direct : Expr → Gen Operand
  | .int value => return .immediate value
  | .var name => return .slot (← variableSlot name)
  | .binary op lhs rhs => do
    let left ← direct lhs
    let right ← direct rhs
    load "$t0" left
    load "$t1" right
    emit (opcodeOf op) ["$t0", "$t0", "$t1"]
    let offset ← newSlot
    emit .sw ["$t0", slotOperand offset]
    return .slot offset
  | .call routine _ => throw (.callAsValue routine)
  | .assign name value => throw (.noValue (Expr.assign name value).form)

/-- Following the left spine of an expression and combining its operands on the way back does what
plain recursion does: from every generator, the same operand or error, and the same code, slots and
events are left in either case. -/
theorem expression_eq_direct (e : Expr) (g : Generator) : expression e g = direct e g := by
  suffices hsame : expression e = direct e from congrFun hsame g
  induction e using chainInduction with
  | int value => exact expression_int value
  | var name => exact expression_var name
  | binary op lhs rhs ihl ihr =>
    rw [expression_binary, ihl, ihr]
    rfl
  | call routine args => exact expression_call routine args
  | assign name value => exact expression_assign name value

end Gen

/-! ## Nodes that can be out of place -/

/-- What a node is needed for. -/
inductive Role where
  /-- To be carried out. -/
  | statement
  /-- To be read into. -/
  | target
  /-- To have a value. -/
  | operand
  /-- To be loaded into a register. -/
  | loaded
deriving DecidableEq

/-- A node of a tree, with what it is needed for. -/
structure Node where
  role : Role
  tree : Expr

namespace Node

/-- Whether a node can be used for what it is needed for. -/
def isAccepted : Node → Bool
  | ⟨.statement, .call ..⟩ | ⟨.statement, .assign ..⟩ => true
  | ⟨.target, .var _⟩ => true
  | ⟨.operand, .int _⟩ | ⟨.operand, .var _⟩ => true
  | ⟨.loaded, tree⟩ => Gen.isWritable tree
  | _ => false

/-- The error about a node that cannot be used. -/
def error : Node → GenError
  | ⟨.statement, tree⟩ => .notStatement tree.form
  | ⟨.target, _⟩ => .readIntoValue
  | ⟨.operand, .call routine _⟩ => .callAsValue routine
  | ⟨.operand, tree⟩ => .noValue tree.form
  | ⟨.loaded, _⟩ => .longLiteral

end Node

/-- What stands between the operators of an expression, from left to right. -/
def leaves : Expr → List Expr
  | .binary _ lhs rhs => leaves lhs ++ leaves rhs
  | e => [e]

/-- The nodes of a value that can be out of place. -/
def checkedValue (e : Expr) : List Node :=
  (leaves e).map (Node.mk .operand)

/-- The nodes of a statement that can be out of place, in the order of its arguments and of their
leaves. -/
def checked : Expr → List Node
  | .call .read args => args.map (Node.mk .target)
  | .call .write args => args.flatMap checkedValue
  | .assign _ value => checkedValue value
  | e => [⟨.statement, e⟩]

/-- The nodes of a value in the order in which they are used: an operator loads its operands once
both have their values. -/
def visitedValue : Expr → List Node
  | .binary _ lhs rhs =>
    visitedValue lhs ++ (visitedValue rhs ++ ([⟨.loaded, lhs⟩] ++ [⟨.loaded, rhs⟩]))
  | e => [⟨.operand, e⟩]

/-- The nodes of a value that is loaded itself. -/
def visitedLoad (e : Expr) : List Node :=
  visitedValue e ++ [⟨.loaded, e⟩]

/-- The nodes of a statement in the order in which they are used. -/
def visited : Expr → List Node
  | .call .read args => args.map (Node.mk .target)
  | .call .write args => args.flatMap visitedLoad
  | .assign _ value => visitedLoad value
  | e => [⟨.statement, e⟩]

/-- The first node that cannot be used for what it is needed for. -/
def firstOffence? (nodes : List Node) : Option Node :=
  nodes.find? fun node => !node.isAccepted

theorem firstOffence?_append (nodes nodes' : List Node) :
    firstOffence? (nodes ++ nodes') = (firstOffence? nodes).or (firstOffence? nodes') :=
  List.find?_append

theorem firstOffence?_eq_none {nodes : List Node} :
    firstOffence? nodes = none ↔ ∀ node ∈ nodes, node.isAccepted = true := by
  simp only [firstOffence?, List.find?_eq_none, Bool.not_eq_true', Bool.not_eq_false]

theorem firstOffence?_eq_some {nodes : List Node} {node : Node}
    (h : firstOffence? nodes = some node) : node ∈ nodes ∧ node.isAccepted = false := by
  unfold firstOffence? at h
  have hrefused := List.find?_some h
  exact ⟨List.mem_of_find?_eq_some h, (Bool.not_eq_true' _).mp hrefused⟩

/-! ## Steps that fail at the first offending node -/

/-- From every generator, a step succeeds if all nodes can be used, and fails with the error about
the first one that cannot. -/
structure Judged {α : Type} (x : Gen α) (nodes : List Node) : Prop where
  ok : firstOffence? nodes = none → ∀ g, ∃ a g', x g = .ok a g'
  error : ∀ {node}, firstOffence? nodes = some node → ∀ g, ∃ g', x g = .error node.error g'

section

variable {α β : Type} {x : Gen α} {nodes nodes' : List Node}

/-- Steps one after the other are judged by their nodes one after the other. The nodes of the
second one may depend on something that is known about every result of the first. -/
theorem Judged.bind_of {k : α → Gen β} {P : α → Prop} (hx : Judged x nodes)
    (hresult : ∀ {g a g'}, x g = .ok a g' → P a) (hk : ∀ a, P a → Judged (k a) nodes') :
    Judged (x >>= k) (nodes ++ nodes') where
  ok := by
    intro hnone g
    rw [firstOffence?_append, Option.or_eq_none_iff] at hnone
    obtain ⟨a, mid, hok⟩ := hx.ok hnone.1 g
    rw [bind_of_ok hok]
    exact (hk a (hresult hok)).ok hnone.2 mid
  error := by
    intro node hsome g
    rw [firstOffence?_append] at hsome
    cases hfirst : firstOffence? nodes with
    | some first =>
      -- the second step does not run
      rw [hfirst, Option.some_or] at hsome
      obtain ⟨g', herror⟩ := hx.error hfirst g
      rw [bind_of_error herror, Option.some.inj hsome]
      exact ⟨g', rfl⟩
    | none =>
      rw [hfirst, Option.none_or] at hsome
      obtain ⟨a, mid, hok⟩ := hx.ok hfirst g
      rw [bind_of_ok hok]
      exact (hk a (hresult hok)).error hsome mid

theorem Judged.bind {k : α → Gen β} (hx : Judged x nodes) (hk : ∀ a, Judged (k a) nodes') :
    Judged (x >>= k) (nodes ++ nodes') :=
  hx.bind_of (P := fun _ => True) (fun _ => trivial) fun a _ => hk a

/-- A step that always succeeds may follow. -/
theorem Judged.bind_quiet {k : α → Gen β} (hx : Judged x nodes) (hk : ∀ a, Judged (k a) []) :
    Judged (x >>= k) nodes := by
  have hboth := hx.bind hk
  rwa [List.append_nil] at hboth

theorem judged_of_ok (h : ∀ g, ∃ a g', x g = .ok a g') : Judged x [] :=
  ⟨fun _ => h, fun hsome => nomatch hsome⟩

/-- A step that always succeeds, at a node that can be used. -/
theorem judged_accepted (h : ∀ g, ∃ a g', x g = .ok a g') {node : Node}
    (hnode : node.isAccepted = true) : Judged x [node] := by
  have hnone : firstOffence? [node] = none := firstOffence?_eq_none.mpr (by simpa using hnode)
  refine ⟨fun _ => h, fun hsome => ?_⟩
  rw [hnone] at hsome
  cases hsome

theorem judged_throw (node : Node) (hnode : node.isAccepted = false) :
    Judged (throw node.error : Gen α) [node] := by
  have hsome : firstOffence? [node] = some node := by simp [firstOffence?, hnode]
  refine ⟨fun hnone => ?_, fun hother g => ?_⟩
  · rw [hsome] at hnone
    cases hnone
  · rw [hsome] at hother
    cases hother
    exact ⟨g, rfl⟩

end

namespace Gen

theorem judged_emit (op : Opcode) (args : List String) : Judged (emit op args) [] :=
  judged_of_ok fun _ => ⟨_, _, rfl⟩

/-- Loading the operand of an expression. -/
theorem judged_load (register : String) {e : Expr} {operand : Operand}
    (h : Writable operand ↔ isWritable e = true) :
    Judged (load register operand) [⟨.loaded, e⟩] := by
  cases hwritable : isWritable e with
  | true =>
    exact judged_accepted (fun g => ⟨_, _, load_of_writable register (h.mpr hwritable) g⟩) hwritable
  | false =>
    have hlong : ¬ Writable operand := by
      rw [h, hwritable]
      exact Bool.false_ne_true
    have hthrow : load register operand = throw .longLiteral :=
      funext fun g => load_of_not_writable register hlong g
    rw [hthrow]
    exact judged_throw ⟨.loaded, e⟩ hwritable

theorem judged_apply (op : Operator) {lhs rhs : Expr} {a b : Operand}
    (ha : Writable a ↔ isWritable lhs = true) (hb : Writable b ↔ isWritable rhs = true) :
    Judged (apply op a b) ([⟨.loaded, lhs⟩] ++ [⟨.loaded, rhs⟩]) := by
  refine (judged_load "$t0" ha).bind fun _ => (judged_load "$t1" hb).bind_quiet fun _ => ?_
  exact judged_of_ok fun _ => ⟨_, _, rfl⟩

theorem judged_variableSlot (name : String) : Judged (variableSlot name) [] :=
  judged_of_ok fun g => by
    obtain ⟨g', hok, _⟩ := Frame.perform_eq_ok (.named name) g
    exact ⟨_, g', hok⟩

/-- The value of an expression fails at the first node that cannot be used. -/
theorem judged_expression (e : Expr) : Judged (expression e) (visitedValue e) := by
  induction e using chainInduction with
  | int value =>
    rw [expression_int]
    exact judged_accepted (fun _ => ⟨_, _, rfl⟩) rfl
  | var name =>
    have hslot := (judged_variableSlot name).bind fun offset =>
      judged_of_ok fun g => ⟨Operand.slot offset, g, rfl⟩
    rw [expression_var]
    exact judged_accepted (hslot.ok rfl) rfl
  | binary op lhs rhs ihl ihr =>
    rw [expression_binary]
    refine ihl.bind_of writable_of_expression fun a ha => ?_
    exact ihr.bind_of writable_of_expression fun b hb => judged_apply op ha hb
  | call routine args =>
    rw [expression_call]
    exact judged_throw ⟨.operand, .call routine args⟩ rfl
  | assign name value =>
    rw [expression_assign]
    exact judged_throw ⟨.operand, .assign name value⟩ rfl

theorem judged_forM {x : Expr → Gen Unit} {nodes : Expr → List Node}
    (hx : ∀ e, Judged (x e) (nodes e)) (es : List Expr) :
    Judged (es.forM x) (es.flatMap nodes) := by
  induction es with
  | nil => exact judged_of_ok fun g => ⟨(), g, rfl⟩
  | cons e es ih =>
    rw [List.flatMap_cons]
    exact (hx e).bind fun _ => ih

theorem judged_readInto (e : Expr) : Judged (readInto e) [⟨.target, e⟩] := by
  cases e with
  | var name =>
    have hread := (judged_variableSlot name).bind_quiet fun offset =>
      (judged_emit .jal ["read"]).bind_quiet fun _ =>
        judged_emit .sw ["$v0", slotOperand offset]
    exact judged_accepted (hread.ok rfl) rfl
  | int value => exact judged_throw ⟨.target, .int value⟩ rfl
  | binary op lhs rhs => exact judged_throw ⟨.target, .binary op lhs rhs⟩ rfl
  | call routine args => exact judged_throw ⟨.target, .call routine args⟩ rfl
  | assign name value => exact judged_throw ⟨.target, .assign name value⟩ rfl

/-- The value of an expression, loaded for what follows. -/
theorem judged_loaded (e : Expr) (register : String) {x : Gen Unit} (hx : Judged x []) :
    Judged (do load register (← expression e); x) (visitedLoad e) :=
  (judged_expression e).bind_of writable_of_expression fun _ hoperand =>
    (judged_load register hoperand).bind_quiet fun _ => hx

theorem judged_writeFrom (e : Expr) : Judged (writeFrom e) (visitedLoad e) :=
  judged_loaded e "$a0" (judged_emit _ _)

theorem judged_statement (e : Expr) : Judged (statement e) (visited e) := by
  cases e with
  | call routine args =>
    cases routine with
    | read =>
      rw [visited, List.map_eq_flatMap]
      exact judged_forM judged_readInto args
    | write => exact judged_forM judged_writeFrom args
  | assign name value =>
    exact (judged_variableSlot name).bind fun target => judged_loaded value "$t0" (judged_emit _ _)
  | int value => exact judged_throw ⟨.statement, .int value⟩ rfl
  | var name => exact judged_throw ⟨.statement, .var name⟩ rfl
  | binary op lhs rhs => exact judged_throw ⟨.statement, .binary op lhs rhs⟩ rfl

theorem judged_program (p : Program) : Judged (program p) (p.flatMap visited) :=
  (judged_forM judged_statement p).bind_quiet fun _ => judged_of_ok fun _ => ⟨_, _, rfl⟩

end Gen

/-! ## Well-formed programs -/

/-- Literals, variables and operators. -/
def isArithmetic : Expr → Bool
  | .int _ | .var _ | .binary .. => true
  | .call .. | .assign .. => false

/-- A value without calls and assignments anywhere in it. -/
def Arithmetic (e : Expr) : Prop :=
  ∀ part ∈ subtrees e, isArithmetic part = true

/-- Statements with code: calls that read into variables, and calls and assignments that use only
literals, variables and operators. -/
inductive WellFormed : Expr → Prop where
  | read {args : List Expr} (h : ∀ arg ∈ args, ∃ name, arg = .var name) :
    WellFormed (.call .read args)
  | write {args : List Expr} (h : ∀ arg ∈ args, Arithmetic arg) : WellFormed (.call .write args)
  | assign (name : String) {value : Expr} (h : Arithmetic value) : WellFormed (.assign name value)

theorem self_mem_subtrees {e : Expr} : e ∈ subtrees e := by
  cases e <;> simp [subtrees]

theorem arithmetic_binary {op : Operator} {lhs rhs : Expr} :
    Arithmetic (.binary op lhs rhs) ↔ Arithmetic lhs ∧ Arithmetic rhs := by
  unfold Arithmetic
  rw [subtrees, List.forall_mem_append, List.forall_mem_append, List.forall_mem_singleton]
  exact and_iff_left rfl

/-- A value is arithmetic if its leaves are literals and variables. -/
theorem arithmetic_iff (e : Expr) : Arithmetic e ↔ firstOffence? (checkedValue e) = none := by
  rw [firstOffence?_eq_none, checkedValue, List.forall_mem_map]
  induction e using chainInduction with
  | int value => simp [Arithmetic, subtrees, leaves, isArithmetic, Node.isAccepted]
  | var name => simp [Arithmetic, subtrees, leaves, isArithmetic, Node.isAccepted]
  | binary op lhs rhs ihl ihr => rw [arithmetic_binary, ihl, ihr, leaves, List.forall_mem_append]
  | call routine args =>
    refine iff_of_false (fun h => ?_) (fun h => ?_)
    · exact Bool.false_ne_true (h _ self_mem_subtrees)
    · exact Bool.false_ne_true (h _ List.mem_cons_self)
  | assign name value =>
    refine iff_of_false (fun h => ?_) (fun h => ?_)
    · exact Bool.false_ne_true (h _ self_mem_subtrees)
    · exact Bool.false_ne_true (h _ List.mem_cons_self)

theorem isAccepted_target (e : Expr) :
    (Node.mk .target e).isAccepted = true ↔ ∃ name, e = .var name := by
  cases e <;> simp [Node.isAccepted]

/-- A statement is well formed if none of its nodes is out of place. -/
theorem wellFormed_iff (s : Expr) : WellFormed s ↔ firstOffence? (checked s) = none := by
  rw [firstOffence?_eq_none]
  constructor
  · intro h
    cases h with
    | read h =>
      refine List.forall_mem_map.mpr fun arg harg => ?_
      exact (isAccepted_target arg).mpr (h arg harg)
    | write h =>
      intro node hnode
      obtain ⟨arg, harg, hnode⟩ := List.mem_flatMap.mp hnode
      exact firstOffence?_eq_none.mp ((arithmetic_iff arg).mp (h arg harg)) node hnode
    | assign name h => exact firstOffence?_eq_none.mp ((arithmetic_iff _).mp h)
  · intro h
    cases s with
    | call routine args =>
      cases routine with
      | read =>
        exact .read fun arg harg => (isAccepted_target arg).mp (List.forall_mem_map.mp h arg harg)
      | write =>
        refine .write fun arg harg => (arithmetic_iff arg).mpr (firstOffence?_eq_none.mpr ?_)
        exact fun node hnode => h node (List.mem_flatMap.mpr ⟨arg, harg, hnode⟩)
    | assign name value =>
      exact .assign name ((arithmetic_iff value).mpr (firstOffence?_eq_none.mpr h))
    | int value => exact nomatch h _ List.mem_cons_self
    | var name => exact nomatch h _ List.mem_cons_self
    | binary op lhs rhs => exact nomatch h _ List.mem_cons_self

/-! ## Literals that can be written -/

/-- A tree with literals that can be written. -/
def ShortLiterals (e : Expr) : Prop :=
  ∀ value, HasLiteral value e → Text.Numeral.IsShort value

/-- The visited nodes that are not just loaded are those that can be out of place. -/
theorem filter_visitedValue (e : Expr) :
    (visitedValue e).filter (fun node => node.role ≠ .loaded) = checkedValue e := by
  induction e using chainInduction with
  | int value => rfl
  | var name => rfl
  | binary op lhs rhs ihl ihr =>
    have hnodes : checkedValue (.binary op lhs rhs) = checkedValue lhs ++ checkedValue rhs :=
      List.map_append
    rw [visitedValue, List.filter_append, List.filter_append, ihl, ihr, hnodes]
    exact congrArg (_ ++ ·) (List.append_nil _)
  | call routine args => rfl
  | assign name value => rfl

theorem filter_visitedLoad (e : Expr) :
    (visitedLoad e).filter (fun node => node.role ≠ .loaded) = checkedValue e := by
  rw [visitedLoad, List.filter_append, filter_visitedValue]
  exact List.append_nil _

theorem filter_visited (s : Expr) :
    (visited s).filter (fun node => node.role ≠ .loaded) = checked s := by
  cases s with
  | call routine args =>
    cases routine with
    | read => exact List.filter_eq_self.mpr (List.forall_mem_map.mpr fun _ _ => rfl)
    | write =>
      rw [visited, checked, List.filter_flatMap]
      exact congrArg args.flatMap (funext filter_visitedLoad)
  | assign name value => exact filter_visitedLoad value
  | int value => rfl
  | var name => rfl
  | binary op lhs rhs => rfl

/-- A literal that is loaded for a value is in it. -/
theorem hasLiteral_of_mem_visitedLoad {e : Expr} {value : Int}
    (h : ⟨.loaded, .int value⟩ ∈ visitedLoad e) : HasLiteral value e := by
  induction e using chainInduction with
  | int other =>
    obtain rfl : value = other := by simpa [visitedLoad, visitedValue] using h
    exact .int
  | binary op lhs rhs ihl ihr =>
    have hside : ⟨.loaded, .int value⟩ ∈ visitedLoad lhs
        ∨ ⟨.loaded, .int value⟩ ∈ visitedLoad rhs := by
      simp only [visitedLoad, visitedValue, List.mem_append, List.mem_singleton, Node.mk.injEq,
        reduceCtorEq, and_false, or_false] at h ⊢
      tauto
    rcases hside with hside | hside
    · exact .left op rhs (ihl hside)
    · exact .right op lhs (ihr hside)
  | var name => simp [visitedLoad, visitedValue] at h
  | call routine args => simp [visitedLoad, visitedValue] at h
  | assign name inner => simp [visitedLoad, visitedValue] at h

/-- Each literal of an arithmetic value is loaded, by its operator or as a whole. -/
theorem mem_visitedLoad_of_hasLiteral {e : Expr} {value : Int} (he : Arithmetic e)
    (h : HasLiteral value e) : ⟨.loaded, .int value⟩ ∈ visitedLoad e := by
  induction h with
  | int => exact List.mem_append_right _ (List.mem_singleton.mpr rfl)
  | @left op lhs rhs _ ih =>
    have hmem := ih (arithmetic_binary.mp he).1
    simp only [visitedLoad, visitedValue, List.mem_append] at hmem ⊢
    tauto
  | @right op lhs rhs _ ih =>
    have hmem := ih (arithmetic_binary.mp he).2
    simp only [visitedLoad, visitedValue, List.mem_append] at hmem ⊢
    tauto
  | argument routine _ _ _ => exact absurd (he _ self_mem_subtrees) Bool.false_ne_true
  | assign name _ _ => exact absurd (he _ self_mem_subtrees) Bool.false_ne_true

theorem hasLiteral_of_mem_visited {s : Expr} {value : Int}
    (h : ⟨.loaded, .int value⟩ ∈ visited s) : HasLiteral value s := by
  cases s with
  | call routine args =>
    cases routine with
    | read =>
      obtain ⟨arg, _, harg⟩ := List.mem_map.mp h
      cases harg
    | write =>
      obtain ⟨arg, harg, hmem⟩ := List.mem_flatMap.mp h
      exact .argument .write harg (hasLiteral_of_mem_visitedLoad hmem)
  | assign name inner => exact .assign name (hasLiteral_of_mem_visitedLoad h)
  | int other => cases List.mem_singleton.mp h
  | var name => cases List.mem_singleton.mp h
  | binary op lhs rhs => cases List.mem_singleton.mp h

theorem mem_visited_of_hasLiteral {s : Expr} {value : Int} (hs : WellFormed s)
    (h : HasLiteral value s) : ⟨.loaded, .int value⟩ ∈ visited s := by
  cases hs with
  | read hargs =>
    cases h with
    | argument _ harg h =>
      obtain ⟨name, rfl⟩ := hargs _ harg
      cases h
  | write hargs =>
    cases h with
    | argument _ harg h =>
      exact List.mem_flatMap.mpr ⟨_, harg, mem_visitedLoad_of_hasLiteral (hargs _ harg) h⟩
  | assign name hvalue =>
    cases h with
    | assign _ h => exact mem_visitedLoad_of_hasLiteral hvalue h

/-- If all literals can be written, loading one is no offence. -/
theorem isAccepted_of_shortLiterals {s : Expr} (hs : ShortLiterals s) {node : Node}
    (hnode : node ∈ visited s) (hrole : node.role = .loaded) : node.isAccepted = true := by
  obtain ⟨role, tree⟩ := node
  cases hrole
  cases tree with
  | int value => exact decide_eq_true (hs value (hasLiteral_of_mem_visited hnode))
  | _ => rfl

theorem firstOffence?_visited {s : Expr} (hs : ShortLiterals s) :
    firstOffence? (visited s) = firstOffence? (checked s) := by
  unfold firstOffence?
  rw [← filter_visited, List.find?_filter]
  refine List.find?_congr fun node hnode => ?_
  by_cases hrole : node.role = .loaded
  · simp [hrole, isAccepted_of_shortLiterals hs hnode hrole]
  · simp [hrole]

/-- Generating fails at no node of a statement that is well formed and has literals that can be
written, and only of such a statement. -/
theorem firstOffence?_visited_eq_none (s : Expr) :
    firstOffence? (visited s) = none ↔ WellFormed s ∧ ShortLiterals s := by
  constructor
  · intro h
    have hall := firstOffence?_eq_none.mp h
    have hwell : WellFormed s := by
      rw [wellFormed_iff, firstOffence?_eq_none, ← filter_visited]
      exact fun node hnode => hall node (List.mem_of_mem_filter hnode)
    refine ⟨hwell, fun value hvalue => ?_⟩
    exact of_decide_eq_true (hall _ (mem_visited_of_hasLiteral hwell hvalue))
  · rintro ⟨hwell, hshort⟩
    rw [firstOffence?_visited hshort]
    exact (wellFormed_iff s).mp hwell

theorem firstOffence?_all_eq_none (p : Program) :
    firstOffence? (p.flatMap visited) = none ↔ ∀ s ∈ p, WellFormed s ∧ ShortLiterals s := by
  simp only [← firstOffence?_visited_eq_none, firstOffence?_eq_none, List.mem_flatMap]
  constructor
  · intro h s hs node hnode
    exact h node ⟨s, hs, hnode⟩
  · rintro h node ⟨s, hs, hnode⟩
    exact h s hs node hnode

/-- The first offending node is in the first statement that has one. -/
theorem exists_first_statement {p : Program} {node : Node}
    (h : firstOffence? (p.flatMap visited) = some node) :
    ∃ before s behind, p = before ++ s :: behind
      ∧ (∀ t ∈ before, WellFormed t ∧ ShortLiterals t)
      ∧ firstOffence? (visited s) = some node := by
  induction p with
  | nil => cases h
  | cons s p ih =>
    rw [List.flatMap_cons, firstOffence?_append] at h
    cases hfirst : firstOffence? (visited s) with
    | some first =>
      rw [hfirst, Option.some_or] at h
      exact ⟨[], s, p, rfl, fun t ht => absurd ht List.not_mem_nil, hfirst.trans h⟩
    | none =>
      rw [hfirst, Option.none_or] at h
      obtain ⟨before, t, behind, rfl, hbefore, ht⟩ := ih h
      exact ⟨s :: before, t, behind, rfl,
        List.forall_mem_cons.mpr ⟨(firstOffence?_visited_eq_none s).mp hfirst, hbefore⟩, ht⟩

namespace Gen

theorem forM_append (x : Expr → Gen Unit) (es es' : List Expr) :
    (es ++ es').forM x = es.forM x >>= fun _ => es'.forM x := by
  simp only [List.forM_eq_forM, List.forM_append]

/-- The code of a program that fails starts with that of any statements before the failure. -/
theorem code_prefix_of_error {before behind : Program} {e : GenError} {g g' : Generator}
    (hbefore : ∀ s ∈ before, WellFormed s ∧ ShortLiterals s)
    (h : program (before ++ behind) g = .error e g') :
    ∃ g₀, program before g = .ok () g₀ ∧ g₀.code.toList <+: g'.code.toList := by
  have hnone := (firstOffence?_all_eq_none before).mpr hbefore
  obtain ⟨_, mid, hmid⟩ := (judged_forM judged_statement before).ok hnone g
  have hgrows : Grows (do
      behind.forM statement
      let g ← get
      report (.generated g.code.size g.frame.size)) :=
    (grows_forM grows_statement behind).bind fun _ =>
      grows_reportOn fun g => .generated g.code.size g.frame.size
  have hext := hgrows mid
  unfold program at h ⊢
  rw [forM_append, bind_assoc, bind_of_ok hmid] at h
  rw [after_of_error h] at hext
  rw [bind_of_ok hmid]
  exact ⟨_, rfl, hext.code_prefix⟩

end Gen

/-! ## Parsed programs -/

/-- A value that was parsed has no assignments and no long literals in it, so only a call can be out
of place. -/
theorem error_of_isValue {e : Expr} (h : e.IsValue) {node : Node} (hmem : node ∈ visitedLoad e)
    (hrefused : node.isAccepted = false) : ∃ routine, node.error = .callAsValue routine := by
  induction h with
  | @int value hvalue =>
    have hshort : Text.Numeral.IsShort value := Text.Numeral.isShort_of_lt (by omega)
    rcases List.mem_append.mp hmem with hmem | hmem
    · cases List.mem_singleton.mp hmem
      cases hrefused
    · cases List.mem_singleton.mp hmem
      exact absurd hshort (of_decide_eq_false hrefused)
  | @var name _ =>
    rcases List.mem_append.mp hmem with hmem | hmem
    · cases List.mem_singleton.mp hmem
      cases hrefused
    · cases List.mem_singleton.mp hmem
      cases hrefused
  | @binary op lhs rhs _ _ ihl ihr =>
    have hside : node ∈ visitedLoad lhs ∨ node ∈ visitedLoad rhs
        ∨ node = ⟨.loaded, .binary op lhs rhs⟩ := by
      simp only [visitedLoad, visitedValue, List.mem_append, List.mem_singleton] at hmem ⊢
      tauto
    rcases hside with hside | hside | rfl
    · exact ihl hside
    · exact ihr hside
    · cases hrefused
  | @call routine args _ _ =>
    rcases List.mem_append.mp hmem with hmem | hmem
    · cases List.mem_singleton.mp hmem
      exact ⟨routine, rfl⟩
    · cases List.mem_singleton.mp hmem
      cases hrefused

theorem error_of_isStatement {s : Expr} (h : s.IsStatement) {node : Node}
    (hoffence : firstOffence? (visited s) = some node) :
    (∃ routine, node.error = .callAsValue routine) ∨ node.error = .readIntoValue := by
  obtain ⟨hmem, hrefused⟩ := firstOffence?_eq_some hoffence
  cases h with
  | assign hname hvalue => exact .inl (error_of_isValue hvalue hmem hrefused)
  | call routine hargs =>
    cases routine with
    | read =>
      obtain ⟨arg, _, rfl⟩ := List.mem_map.mp hmem
      exact .inr rfl
    | write =>
      obtain ⟨arg, harg, hmem⟩ := List.mem_flatMap.mp hmem
      exact .inl (error_of_isValue (hargs arg harg) hmem hrefused)

/-- What went wrong in a program that has no code: its first offending node. -/
theorem offence_of_error {p : Program} {e : GenError} {g g' : Generator}
    (h : Gen.program p g = .error e g') :
    ∃ node, firstOffence? (p.flatMap visited) = some node ∧ e = node.error := by
  cases hoffence : firstOffence? (p.flatMap visited) with
  | none =>
    obtain ⟨_, g'', hok⟩ := (Gen.judged_program p).ok hoffence g
    rw [h] at hok
    cases hok
  | some node =>
    obtain ⟨g'', herror⟩ := (Gen.judged_program p).error hoffence g
    rw [h] at herror
    cases herror
    exact ⟨node, rfl, rfl⟩

/-- What can be wrong in a program that was parsed. -/
theorem error_of_parse {source : String} {p : Program} {e : GenError} {g g' : Generator}
    (hparse : (Program.parse source).1 = .ok p) (h : Gen.program p g = .error e g') :
    (∃ routine, e = .callAsValue routine) ∨ e = .readIntoValue := by
  obtain ⟨node, hoffence, rfl⟩ := offence_of_error h
  obtain ⟨before, s, behind, rfl, _, hs⟩ := exists_first_statement hoffence
  have hprintable := (Program.written_of_parse hparse).printable
    Source.TokenStream.writable_of_mem_lexemes
  have hstatement := hprintable.statement s (List.mem_append_right _ List.mem_cons_self)
  exact error_of_isStatement hstatement hs

/-- Exactly the well-formed programs with literals that can be written have code, whatever generator
they start from. The error of any other program is the one about its first offending node, and the
code that is left then starts with that of the statements before the one with this node. Where the
literals of this statement can be written, the node is the first that is out of place, with the
leaves of values from left to right. In a program that was parsed from a source text, only calls
among values and arguments of `read` can be out of place. -/
theorem program_iff_wellFormed :
    (∀ (p : Program) (g : Generator),
      ((∃ g', Gen.program p g = .ok () g') ↔ ∀ s ∈ p, WellFormed s ∧ ShortLiterals s)
      ∧ ∀ e g', Gen.program p g = .error e g' →
        ∃ before s behind node, p = before ++ s :: behind
          ∧ (∀ t ∈ before, WellFormed t ∧ ShortLiterals t)
          ∧ firstOffence? (visited s) = some node ∧ e = node.error
          ∧ (ShortLiterals s → firstOffence? (checked s) = some node)
          ∧ ∃ g₀, Gen.program before g = .ok () g₀ ∧ g₀.code.toList <+: g'.code.toList)
    ∧ ∀ (source : String) (p : Program) (e : GenError) (g g' : Generator),
      (Program.parse source).1 = .ok p → Gen.program p g = .error e g' →
        (∃ routine : Routine, e.message = routine.name ++ "() cannot be used as a value")
          ∨ e.message = "read() arguments must be variables" := by
  refine ⟨fun p g => ⟨?_, ?_⟩, ?_⟩
  · rw [← firstOffence?_all_eq_none]
    constructor
    · rintro ⟨g', hok⟩
      cases hoffence : firstOffence? (p.flatMap visited) with
      | none => rfl
      | some node =>
        obtain ⟨g'', herror⟩ := (Gen.judged_program p).error hoffence g
        rw [hok] at herror
        cases herror
    · intro hnone
      obtain ⟨_, g', hok⟩ := (Gen.judged_program p).ok hnone g
      exact ⟨g', hok⟩
  · intro e g' h
    obtain ⟨node, hoffence, rfl⟩ := offence_of_error h
    obtain ⟨before, s, behind, rfl, hbefore, hs⟩ := exists_first_statement hoffence
    exact ⟨before, s, behind, node, rfl, hbefore, hs, rfl,
      fun hshort => (firstOffence?_visited hshort).symm.trans hs,
      Gen.code_prefix_of_error hbefore h⟩
  · intro source p e g g' hparse h
    rcases error_of_parse hparse h with ⟨routine, rfl⟩ | rfl
    · exact .inl ⟨routine, rfl⟩
    · exact .inr rfl

/-- In `x := 1; write(2 + (read() - (y := 3)))` a call and an assignment are out of place, and the
call comes first. In `read(1)`, which can be parsed, a literal is. -/
theorem program_iff_wellFormed_nested :
    let p : Program := [.assign "x" (.int 1), .call .write [.binary .add (.int 2)
      (.binary .sub (.call .read []) (.assign "y" (.int 3)))]]
    let q : Program := [.call .read [.int 1]]
    (∃ g', Gen.program p {} = .error (.callAsValue .read) g'
      ∧ ∃ before s behind node, p = before ++ s :: behind
        ∧ (∀ t ∈ before, WellFormed t ∧ ShortLiterals t)
        ∧ firstOffence? (visited s) = some node ∧ .callAsValue .read = node.error
        ∧ (ShortLiterals s → firstOffence? (checked s) = some node)
        ∧ ∃ g₀, Gen.program before {} = .ok () g₀ ∧ g₀.code.toList <+: g'.code.toList)
    ∧ (Program.parse "begin read ( 1 ) end").1 = .ok q
      ∧ Gen.program q {} = .error .readIntoValue {}
      ∧ ((∃ routine : Routine,
          GenError.readIntoValue.message = routine.name ++ "() cannot be used as a value")
        ∨ GenError.readIntoValue.message = "read() arguments must be variables") := by
  intro p q
  have hoffence : firstOffence? (p.flatMap visited) = some ⟨.operand, .call .read []⟩ := rfl
  obtain ⟨g', herror⟩ := (Gen.judged_program p).error hoffence {}
  have hone : (Expr.int (1 : Nat)).IsValue := .int (by decide)
  have hq : Program.Printable q :=
    ⟨List.forall_mem_singleton.mpr (.call .read (List.forall_mem_singleton.mpr hone)),
      List.forall_mem_singleton.mpr (by decide)⟩
  have hprint : Program.print q = "begin read ( 1 ) end" := by decide +kernel
  have hparse := Program.parse_of_printable hq
  rw [hprint] at hparse
  have hread : Gen.program q {} = .error .readIntoValue {} := rfl
  exact ⟨⟨g', herror, (program_iff_wellFormed.1 p {}).2 _ g' herror⟩, hparse, hread,
    program_iff_wellFormed.2 _ q _ {} {} hparse hread⟩

theorem program_of_long {value : Int} (h : ¬ Text.Numeral.IsShort value) (name : String) :
    ∃ g', Gen.program [.assign name (.int value)] {} = .error .longLiteral g' := by
  have hwritable : Gen.isWritable (.int value) = false := decide_eq_false h
  have hoffence : firstOffence? ([Expr.assign name (.int value)].flatMap visited)
      = some ⟨.loaded, .int value⟩ := by
    simp [firstOffence?, visited, visitedLoad, visitedValue, Node.isAccepted, hwritable]
  exact (Gen.judged_program _).error hoffence {}

/-- An assignment of the least literal that cannot be written is well formed and has no code. -/
theorem no_code_of_long_literal :
    WellFormed (.assign "x" (.int (10 ^ Text.Numeral.digitLimit)))
      ∧ ∃ g', Gen.program [.assign "x" (.int (10 ^ Text.Numeral.digitLimit))] {}
        = .error .longLiteral g' := by
  refine ⟨.assign "x" ?_, program_of_long Text.Numeral.not_isShort_pow "x"⟩
  intro part hpart
  cases List.mem_singleton.mp hpart
  rfl

end MicroLang.Assembly
