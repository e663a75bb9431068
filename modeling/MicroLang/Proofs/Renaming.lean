import Mathlib.Data.Set.Function
import MicroLang.Compile
import MicroLang.Proofs.SlotOwnership

/-!
# Names of variables

A generator does one thing with the name of a variable: it looks for a slot under this name, and
puts down a new one if there is none. Another choice of names finds the same slots, as long as it
keeps different variables apart.

A step from a renamed generator is therefore the renamed step from the generator itself, whether it
succeeds or fails (`Follows`). The names that matter are those of the program and those that the
frame already has, so a set with all of them in it goes along, and no step leaves this set.

> `listing_rename`: renaming the variables of a program, with different names for different
> variables, changes neither its listing nor its error, and renames the slots in place.
-/

namespace MicroLang.Program

/-! ## Renamed programs -/

mutual

/-- An expression or a statement with other names for its variables. -/
def Expr.rename (f : String → String) : Expr → Expr
  | .int value => .int value
  | .var name => .var (f name)
  | .binary op lhs rhs => .binary op (lhs.rename f) (rhs.rename f)
  | .call routine args => .call routine (renameAll f args)
  | .assign name value => .assign (f name) (value.rename f)

/-- Several expressions with other names for their variables. -/
def renameAll (f : String → String) : List Expr → List Expr
  | [] => []
  | e :: es => e.rename f :: renameAll f es

end

/-- A program with other names for its variables. -/
def rename (f : String → String) (p : Program) : Program :=
  renameAll f p

end MicroLang.Program

namespace MicroLang.Assembly

open MicroLang.Program (Expr Operator Routine renameAll)
open MicroLang.Sequencing

/-! ## Renamed generators -/

/-- An event with another name for the variable that it speaks of. -/
def renameEvent (f : String → String) : Event → Event
  | .allocated name offset => .allocated (f name) offset
  | event => event

/-- A frame with other names for its variables, in the same order. -/
def Frame.rename (f : String → String) (frame : Frame) : Frame :=
  { frame with slots := frame.slots.map fun entry => (f entry.1, entry.2) }

/-- A generator with other names for its variables. -/
def Generator.rename (f : String → String) (g : Generator) : Generator :=
  { g with frame := g.frame.rename f, log := g.log.map (renameEvent f) }

/-- The variables of a frame have names of a set. -/
def Frame.Within (names : Set String) (frame : Frame) : Prop :=
  ∀ entry ∈ frame.slots, entry.1 ∈ names

section

variable {f : String → String} {names : Set String} {frame : Frame} {name : String}

/-- The slot of a renamed variable is that of the variable. -/
theorem Frame.slot?_rename (hf : Set.InjOn f names) (hframe : frame.Within names)
    (hname : name ∈ names) : (frame.rename f).slot? (f name) = frame.slot? name := by
  show (frame.slots.map fun entry => (f entry.1, entry.2)).lookup (f name)
    = frame.slots.lookup name
  unfold Frame.Within at hframe
  generalize frame.slots = slots at hframe ⊢
  induction slots with
  | nil => rfl
  | cons entry slots ih =>
    rw [List.forall_mem_cons] at hframe
    have hsame : (f name == f entry.1) = (name == entry.1) := by
      rw [Bool.eq_iff_iff, beq_iff_eq, beq_iff_eq]
      exact hf.eq_iff hname hframe.1
    rw [List.map_cons, List.lookup_cons, List.lookup_cons, ih hframe.2, hsame]

theorem Frame.Within.bind (h : frame.Within names) (hname : name ∈ names) :
    (frame.bind name).2.Within names := by
  intro entry hentry
  rcases List.mem_append.mp hentry with hentry | hentry
  · exact h entry hentry
  · rw [List.mem_singleton.mp hentry]
    exact hname

theorem Frame.rename_bind (f : String → String) (frame : Frame) (name : String) :
    ((frame.rename f).bind (f name)).2 = (frame.bind name).2.rename f := by
  have hslots : (frame.slots ++ [(name, frame.size)]).map (fun entry => (f entry.1, entry.2))
      = frame.slots.map (fun entry => (f entry.1, entry.2)) ++ [(f name, frame.size)] :=
    List.map_append
  exact congrArg (Frame.mk · (frame.size + wordSize)) hslots.symm

end

/-! ## Steps from renamed generators -/

namespace Gen

/-- What a step gives, with other names for the variables in the generator that it leaves. -/
def renameResult {α : Type} (f : String → String) :
    EStateM.Result GenError Generator α → EStateM.Result GenError Generator α
  | .ok a g => .ok a (g.rename f)
  | .error e g => .error e (g.rename f)

/-- A step `x'` does from a renamed generator what `x` does from the generator, and `x` gives slots
to variables of a set of names only. -/
structure Follows {α : Type} (f : String → String) (names : Set String) (x x' : Gen α) : Prop where
  within : ∀ g, g.frame.Within names → (after x g).frame.Within names
  renamed : ∀ g, g.frame.Within names → x' (g.rename f) = renameResult f (x g)

section

variable {α β : Type} {f : String → String} {names : Set String}

theorem Follows.bind {x x' : Gen α} {k k' : α → Gen β} (hx : Follows f names x x')
    (hk : ∀ a, Follows f names (k a) (k' a)) : Follows f names (x >>= k) (x' >>= k') where
  within := by
    intro g hg
    have hmid := hx.within g hg
    cases hxg : x g with
    | ok a mid =>
      rw [after_of_ok hxg] at hmid
      have hnext := (hk a).within mid hmid
      unfold after at hnext ⊢
      rwa [bind_of_ok hxg]
    | error e mid =>
      rw [after_of_error hxg] at hmid
      rwa [after_of_error (bind_of_error hxg)]
  renamed := by
    intro g hg
    have hmid := hx.within g hg
    have hfirst := hx.renamed g hg
    cases hxg : x g with
    | ok a mid =>
      rw [after_of_ok hxg] at hmid
      rw [hxg] at hfirst
      rw [bind_of_ok hfirst, bind_of_ok hxg]
      exact (hk a).renamed mid hmid
    | error e mid =>
      rw [hxg] at hfirst
      rw [bind_of_error hfirst, bind_of_error hxg]
      rfl

theorem follows_pure (a : α) : Follows f names (pure a : Gen α) (pure a) :=
  ⟨fun _ hg => hg, fun _ _ => rfl⟩

theorem follows_throw (e : GenError) : Follows f names (throw e : Gen α) (throw e) :=
  ⟨fun _ hg => hg, fun _ _ => rfl⟩

theorem follows_emit (op : Opcode) (args : List String) :
    Follows f names (emit op args) (emit op args) :=
  ⟨fun _ hg => hg, fun _ _ => rfl⟩

theorem follows_newSlot : Follows f names newSlot newSlot :=
  ⟨fun _ hg => hg, fun _ _ => rfl⟩

/-- A report about the code and the size of the frame, which have no names in them. -/
theorem follows_reportSize : Follows f names
    (do let g ← get; report (.generated g.code.size g.frame.size))
    (do let g ← get; report (.generated g.code.size g.frame.size)) where
  within := fun _ hg => hg
  renamed := by
    intro g _
    let event : Event := .generated g.code.size g.frame.size
    have hlog : (g.log.push event).map (renameEvent f) = (g.log.map (renameEvent f)).push event :=
      Array.map_push
    exact congrArg (fun log => EStateM.Result.ok () (Generator.mk g.code (g.frame.rename f) log))
      hlog.symm

/-- The only step that looks at a name. -/
theorem follows_variableSlot (hf : Set.InjOn f names) {name : String} (hname : name ∈ names) :
    Follows f names (variableSlot name) (variableSlot (f name)) where
  within := by
    intro g hg
    cases hslot : g.frame.slot? name with
    | some offset => rwa [after_of_ok (variableSlot_of_some hslot)]
    | none =>
      rw [after_of_ok (variableSlot_of_none hslot)]
      exact hg.bind hname
  renamed := by
    intro g hg
    have hsame := Frame.slot?_rename hf hg hname
    cases hslot : g.frame.slot? name with
    | some offset =>
      rw [hslot] at hsame
      rw [variableSlot_of_some hslot, variableSlot_of_some (g := g.rename f) hsame]
      rfl
    | none =>
      rw [hslot] at hsame
      rw [variableSlot_of_none hslot, variableSlot_of_none (g := g.rename f) hsame]
      show EStateM.Result.ok g.frame.size (Generator.mk g.code _ _) = .ok g.frame.size
        (Generator.mk g.code _ _)
      rw [Array.map_push]
      exact congrArg (fun frame => EStateM.Result.ok _ (Generator.mk g.code frame _))
        (Frame.rename_bind f g.frame name)

theorem follows_load (register : String) (operand : Operand) :
    Follows f names (load register operand) (load register operand) := by
  cases operand with
  | slot offset => exact follows_emit _ _
  | immediate value =>
    by_cases hvalue : Text.Numeral.IsShort value
    · rw [load_of_short register hvalue]
      exact follows_emit _ _
    · rw [load_of_long register hvalue]
      exact follows_throw _

theorem follows_apply (op : Operator) (lhs rhs : Operand) :
    Follows f names (apply op lhs rhs) (apply op lhs rhs) := by
  refine (follows_load _ lhs).bind fun _ => (follows_load _ rhs).bind fun _ => ?_
  refine (follows_emit _ _).bind fun _ => follows_newSlot.bind fun offset => ?_
  exact (follows_emit _ _).bind fun _ => follows_pure _

/-! ## Expressions and statements -/

/-- The names of the variables in an expression are in a set. -/
def NamedIn (names : Set String) (e : Expr) : Prop :=
  ∀ name ∈ namesIn (subtrees e), name ∈ names

theorem namedIn_binary {op : Operator} {lhs rhs : Expr} (h : NamedIn names (.binary op lhs rhs)) :
    NamedIn names lhs ∧ NamedIn names rhs := by
  unfold NamedIn at h
  rw [subtrees, namesIn_append, namesIn_append] at h
  exact ⟨fun name hname => h name (List.mem_append_left _ (List.mem_append_left _ hname)),
    fun name hname => h name (List.mem_append_left _ (List.mem_append_right _ hname))⟩

theorem namedIn_assign {target : String} {value : Expr}
    (h : NamedIn names (.assign target value)) : target ∈ names ∧ NamedIn names value := by
  unfold NamedIn at h
  rw [subtrees, namesIn_append] at h
  exact ⟨h target (List.mem_append_right _ List.mem_cons_self),
    fun name hname => h name (List.mem_append_left _ hname)⟩

theorem namedIn_of_all {es : List Expr} (h : ∀ name ∈ namesIn (subtreesAll es), name ∈ names) :
    ∀ e ∈ es, NamedIn names e := by
  induction es with
  | nil => exact fun e he => nomatch he
  | cons first es ih =>
    rw [subtreesAll, namesIn_append] at h
    exact List.forall_mem_cons.mpr ⟨fun name hname => h name (List.mem_append_left _ hname),
      ih fun name hname => h name (List.mem_append_right _ hname)⟩

theorem namedIn_call {routine : Routine} {args : List Expr}
    (h : NamedIn names (.call routine args)) : ∀ arg ∈ args, NamedIn names arg := by
  unfold NamedIn at h
  rw [subtrees, namesIn_append] at h
  exact namedIn_of_all fun name hname => h name (List.mem_append_left _ hname)

theorem follows_expression (hf : Set.InjOn f names) {e : Expr} (he : NamedIn names e) :
    Follows f names (expression e) (expression (e.rename f)) := by
  induction e using chainInduction with
  | int value =>
    rw [Expr.rename, expression_int]
    exact follows_pure _
  | var name =>
    have hname : name ∈ names := he name List.mem_cons_self
    rw [Expr.rename, expression_var, expression_var]
    exact (follows_variableSlot hf hname).bind fun _ => follows_pure _
  | binary op lhs rhs ihl ihr =>
    obtain ⟨hlhs, hrhs⟩ := namedIn_binary he
    rw [Expr.rename, expression_binary, expression_binary]
    exact (ihl hlhs).bind fun a => (ihr hrhs).bind fun b => follows_apply op a b
  | call routine args =>
    rw [Expr.rename, expression_call, expression_call]
    exact follows_throw _
  | assign name value =>
    rw [Expr.rename, expression_assign, expression_assign]
    exact follows_throw _

theorem follows_forM {x : Expr → Gen Unit} {es : List Expr}
    (hx : ∀ e ∈ es, Follows f names (x e) (x (e.rename f))) :
    Follows f names (es.forM x) ((renameAll f es).forM x) := by
  induction es with
  | nil => exact follows_pure ()
  | cons e es ih =>
    rw [List.forall_mem_cons] at hx
    exact hx.1.bind fun _ => ih hx.2

theorem follows_readInto (hf : Set.InjOn f names) {e : Expr} (he : NamedIn names e) :
    Follows f names (readInto e) (readInto (e.rename f)) := by
  cases e with
  | var name =>
    have hname : name ∈ names := he name List.mem_cons_self
    refine (follows_variableSlot hf hname).bind fun offset => ?_
    exact (follows_emit _ _).bind fun _ => follows_emit _ _
  | _ => exact follows_throw _

theorem follows_writeFrom (hf : Set.InjOn f names) {e : Expr} (he : NamedIn names e) :
    Follows f names (writeFrom e) (writeFrom (e.rename f)) := by
  refine (follows_expression hf he).bind fun operand => ?_
  exact (follows_load _ operand).bind fun _ => follows_emit _ _

theorem follows_statement (hf : Set.InjOn f names) {e : Expr} (he : NamedIn names e) :
    Follows f names (statement e) (statement (e.rename f)) := by
  cases e with
  | call routine args =>
    have hargs := namedIn_call he
    cases routine with
    | read => exact follows_forM fun arg harg => follows_readInto hf (hargs arg harg)
    | write => exact follows_forM fun arg harg => follows_writeFrom hf (hargs arg harg)
  | assign name value =>
    obtain ⟨hname, hvalue⟩ := namedIn_assign he
    refine (follows_variableSlot hf hname).bind fun target => ?_
    refine (follows_expression hf hvalue).bind fun operand => ?_
    exact (follows_load _ operand).bind fun _ => follows_emit _ _
  | _ => exact follows_throw _

theorem follows_program (hf : Set.InjOn f names) {p : Program} (hp : ∀ e ∈ p, NamedIn names e) :
    Follows f names (program p) (program (p.rename f)) := by
  have hstatements : Follows f names (p.forM statement) ((renameAll f p).forM statement) :=
    follows_forM fun e he => follows_statement hf (hp e he)
  exact hstatements.bind fun _ => follows_reportSize

end

end Gen

/-! ## Programs -/

/-- The listing does not depend on the names of variables. With other names that keep the variables
of a program apart, the listing or the error is the same, the events and the slots have the new
names in the places of the old ones, and nothing else changes. -/
theorem listing_rename (p : Program) (f : String → String)
    (hf : Set.InjOn f {name | name ∈ namesIn (subtreesAll p)}) :
    (p.rename f).listing = (p.listing.1, p.listing.2.map (renameEvent f))
      ∧ (after (Gen.program (p.rename f)) {}).frame.slots
        = (after (Gen.program p) {}).frame.slots.map (fun entry => (f entry.1, entry.2))
      ∧ (after (Gen.program (p.rename f)) {}).frame.size = (after (Gen.program p) {}).frame.size
      ∧ (after (Gen.program (p.rename f)) {}).code = (after (Gen.program p) {}).code := by
  have hnames : ∀ s ∈ p, Gen.NamedIn {name | name ∈ namesIn (subtreesAll p)} s :=
    Gen.namedIn_of_all fun _ hname => hname
  have hempty : Frame.Within {name | name ∈ namesIn (subtreesAll p)} {} :=
    fun entry hentry => nomatch hentry
  have hrenamed := (Gen.follows_program hf hnames).renamed {} hempty
  have hstart : Generator.rename f {} = {} := congrArg (Generator.mk #[] {}) Array.map_empty
  rw [hstart] at hrenamed
  unfold Program.listing after
  rw [hrenamed]
  cases Gen.program p {} with
  | ok a g => exact ⟨rfl, rfl, rfl, rfl⟩
  | error e g => exact ⟨rfl, rfl, rfl, rfl⟩

/-- In `x := x - y` the names can be swapped, also by a choice of names that gives one name to all
other variables. -/
theorem listing_rename_swapped :
    Set.InjOn (fun name => if name = "x" then "y" else "x") {name | name = "x" ∨ name = "y"}
      ∧ (Program.listing [.assign "y" (.binary .sub (.var "y") (.var "x"))]).1
        = (Program.listing [.assign "x" (.binary .sub (.var "x") (.var "y"))]).1 := by
  have hswap : Set.InjOn (fun name => if name = "x" then "y" else "x")
      {name | name = "x" ∨ name = "y"} := by
    rintro a (rfl | rfl) b (rfl | rfl) h
    · rfl
    · exact absurd h (by decide)
    · exact absurd h (by decide)
    · rfl
  refine ⟨hswap, ?_⟩
  have hswapped : Program.rename (fun name => if name = "x" then "y" else "x")
      [.assign "x" (.binary .sub (.var "x") (.var "y"))]
      = [.assign "y" (.binary .sub (.var "y") (.var "x"))] := rfl
  have hlisting := listing_rename [.assign "x" (.binary .sub (.var "x") (.var "y"))]
    (fun name => if name = "x" then "y" else "x") (hswap.mono ?_)
  · rw [← hswapped, hlisting.1]
  · intro name hname
    have hmem : name ∈ ["x", "y", "x"] := hname
    simpa [or_comm, or_assoc] using hmem

end MicroLang.Assembly
