import MicroLang.Proofs.EmittedCode

/-!
# Requests for slots

All slots come from one counter, for variables when they are met first and for intermediate results
each time. What a generating step does to the frame is therefore a list of requests, served one
after the other (`Request`, `Frame.serve`): one for each variable and each operator on the way, up
to the point where the step fails, if it does (`Asks`).

`Accounted` keeps the books: beside the slots of variables, which the frame has, it lists the slots
that were given for intermediate results, which the frame forgets. One request keeps it, and so does
every list of them.

> `frame_performAll`: the frame after any calls, failing ones included, is the one after their
> requests.
> `Accounted.serve`: no two variables or intermediate results share a slot, and every word of the
> frame above the saved registers belongs to one of them.
-/

namespace MicroLang.Assembly

open MicroLang.Program (Expr Operator Routine)
open MicroLang.Sequencing

/-! ## Serving requests -/

/-- What a slot is asked for. -/
inductive Request where
  | named (name : String)
  | temporary
deriving DecidableEq

/-- The generating step for a request. -/
def Request.perform : Request → Gen Nat
  | named name => Gen.variableSlot name
  | temporary => Gen.newSlot

namespace Frame

/-- The slot for a request, and the frame with it. -/
def give (f : Frame) : Request → Nat × Frame
  | .named name => ((f.slot? name).map fun offset => (offset, f)).getD (f.bind name)
  | .temporary => f.grow

/-- Requests served one after the other, each with the slot that it got. -/
def serve : Frame → List Request → List (Request × Nat) × Frame
  | f, [] => ([], f)
  | f, r :: rs =>
    let served := serve (f.give r).2 rs
    ((r, (f.give r).1) :: served.1, served.2)

end Frame

/-- The slots that were given for intermediate results. -/
def temporaries (given : List (Request × Nat)) : List Nat :=
  (given.filter fun entry => entry.1 = .temporary).map Prod.snd

theorem temporaries_append (given given' : List (Request × Nat)) :
    temporaries (given ++ given') = temporaries given ++ temporaries given' := by
  unfold temporaries
  rw [List.filter_append, List.map_append]

namespace Frame

variable {f : Frame}

theorem give_of_some {name : String} {offset : Nat} (h : f.slot? name = some offset) :
    f.give (.named name) = (offset, f) := by
  rw [give, h]
  rfl

theorem give_of_none {name : String} (h : f.slot? name = none) :
    f.give (.named name) = f.bind name := by
  rw [give, h]
  rfl

theorem serve_append (f : Frame) (rs rs' : List Request) :
    f.serve (rs ++ rs')
      = ((f.serve rs).1 ++ ((f.serve rs).2.serve rs').1, ((f.serve rs).2.serve rs').2) := by
  induction rs generalizing f with
  | nil => rfl
  | cons r rs ih =>
    rw [List.cons_append, serve, ih]
    rfl

/-- The generator serves a request with the slot that its frame gives. -/
theorem perform_eq_ok (r : Request) (g : Generator) :
    ∃ g', r.perform g = .ok (g.frame.give r).1 g' ∧ g'.frame = (g.frame.give r).2
      ∧ g'.code = g.code := by
  cases r with
  | temporary => exact ⟨_, rfl, rfl, rfl⟩
  | named name =>
    cases hslot : g.frame.slot? name with
    | some offset =>
      rw [give_of_some hslot]
      exact ⟨g, Gen.variableSlot_of_some hslot, rfl, rfl⟩
    | none =>
      rw [give_of_none hslot]
      exact ⟨_, Gen.variableSlot_of_none hslot, rfl, rfl⟩

/-! ## The books -/

/-- A frame with the slots that were given for intermediate results: all slots lie apart, and they
fill the frame above the words for the saved registers. -/
structure Accounted (f : Frame) (temporaries : List Nat) : Prop where
  valid : f.Valid
  names : (f.slots.map Prod.fst).Nodup
  distinct : temporaries.Nodup
  slot : ∀ offset ∈ temporaries, IsSlot f.size offset
  apart : ∀ offset ∈ temporaries, ∀ entry ∈ f.slots, entry.2 ≠ offset
  size : f.size = 32 + 4 * (f.slots.length + temporaries.length)

theorem accounted_empty : Accounted {} [] :=
  ⟨valid_empty, List.nodup_nil, List.nodup_nil, fun _ h => absurd h List.not_mem_nil,
    fun _ h => absurd h List.not_mem_nil, rfl⟩

variable {temps : List Nat}

/-- A new slot lies behind all others. -/
theorem Accounted.grow (h : f.Accounted temps) : f.grow.2.Accounted (temps ++ [f.size]) where
  valid := h.valid.grow
  names := h.names
  distinct := by
    rw [List.nodup_append]
    refine ⟨h.distinct, by simp, ?_⟩
    intro offset hmem other hother heq
    have hbelow := (h.slot offset hmem).2.2
    rw [List.mem_singleton.mp hother] at heq
    omega
  slot := by
    intro offset hmem
    rcases List.mem_append.mp hmem with hmem | hmem
    · exact (h.slot offset hmem).mono (Nat.le_add_right _ _)
    · rw [List.mem_singleton.mp hmem]
      exact ⟨h.valid.aligned, h.valid.above, Nat.lt_add_of_pos_right (by decide)⟩
  apart := by
    intro offset hmem entry hentry heq
    rcases List.mem_append.mp hmem with hmem | hmem
    · exact h.apart offset hmem entry hentry heq
    · have hbelow := (h.valid.slot entry hentry).2.2
      rw [List.mem_singleton.mp hmem] at heq
      omega
  size := by
    show f.size + 4 = 32 + 4 * (f.slots.length + (temps ++ [f.size]).length)
    rw [List.length_append, List.length_singleton, h.size]
    omega

theorem Accounted.bind (h : f.Accounted temps) {name : String} (hnew : f.slot? name = none) :
    (f.bind name).2.Accounted temps where
  valid := h.valid.bind name
  names := by
    show ((f.slots ++ [(name, f.size)]).map Prod.fst).Nodup
    rw [List.map_append, List.nodup_append]
    refine ⟨h.names, by simp, ?_⟩
    rintro other hother _ hname rfl
    rw [List.map_singleton, List.mem_singleton] at hname
    obtain ⟨entry, hentry, rfl⟩ := List.mem_map.mp hother
    have hne := List.lookup_eq_none_iff.mp hnew entry hentry
    exact bne_iff_ne.mp hne hname.symm
  distinct := h.distinct
  slot := fun offset hmem => (h.slot offset hmem).mono (Nat.le_add_right _ _)
  apart := by
    intro offset hmem entry hentry heq
    rcases List.mem_append.mp hentry with hentry | hentry
    · exact h.apart offset hmem entry hentry heq
    · have hbelow := (h.slot offset hmem).2.2
      rw [List.mem_singleton.mp hentry] at heq
      dsimp only at heq
      omega
  size := by
    show f.size + 4 = 32 + 4 * ((f.slots ++ [(name, f.size)]).length + temps.length)
    rw [List.length_append, List.length_singleton, h.size]
    omega

/-- Serving one request keeps the books. -/
theorem Accounted.give (h : f.Accounted temps) (r : Request) :
    (f.give r).2.Accounted (temps ++ temporaries [(r, (f.give r).1)]) := by
  cases r with
  | temporary => exact h.grow
  | named name =>
    show (f.give (.named name)).2.Accounted (temps ++ [])
    rw [List.append_nil]
    cases hslot : f.slot? name with
    | some offset =>
      rw [give_of_some hslot]
      exact h
    | none =>
      rw [give_of_none hslot]
      exact h.bind hslot

/-- Serving any requests keeps the books. -/
theorem Accounted.serve (h : f.Accounted temps) (rs : List Request) :
    (f.serve rs).2.Accounted (temps ++ temporaries (f.serve rs).1) := by
  induction rs generalizing f temps with
  | nil =>
    show f.Accounted (temps ++ [])
    rw [List.append_nil]
    exact h
  | cons r rs ih =>
    have hrest := ih (h.give r)
    rwa [List.append_assoc, ← temporaries_append] at hrest

/-- No slot of a variable changes or is lost. -/
theorem slots_prefix_give (f : Frame) (r : Request) : f.slots <+: (f.give r).2.slots := by
  cases r with
  | temporary => exact List.prefix_rfl
  | named name =>
    cases hslot : f.slot? name with
    | some offset => exact give_of_some hslot ▸ List.prefix_rfl
    | none => exact give_of_none hslot ▸ List.prefix_append _ _

theorem slots_prefix_serve (f : Frame) (rs : List Request) : f.slots <+: (f.serve rs).2.slots := by
  induction rs generalizing f with
  | nil => exact List.prefix_rfl
  | cons r rs ih => exact (slots_prefix_give f r).trans (ih _)

end Frame

/-! ## What generating steps ask for -/

/-- A step asks for slots, the same ones from every state, and succeeds from every state or fails
from every state. -/
structure Asks {α : Type} (x : Gen α) (requests : List Request) (succeeds : Bool) : Prop where
  frame : ∀ g, (after x g).frame = (g.frame.serve requests).2
  succeeds : ∀ g, (∃ a g', x g = .ok a g') ↔ succeeds = true

section

variable {α β : Type} {x : Gen α} {f : α → Gen β} {rs rs' : List Request}
  {ok ok' : Bool}

theorem asks_of_ok (h : ∀ g, ∃ a g', x g = .ok a g' ∧ g'.frame = (g.frame.serve rs).2) :
    Asks x rs true where
  frame := by
    intro g
    obtain ⟨a, g', hok, hframe⟩ := h g
    rw [after_of_ok hok]
    exact hframe
  succeeds := by
    intro g
    obtain ⟨a, g', hok, _⟩ := h g
    exact iff_of_true ⟨a, g', hok⟩ rfl

theorem Asks.eq_ok (h : Asks x rs true) (g : Generator) :
    ∃ a g', x g = .ok a g' ∧ g'.frame = (g.frame.serve rs).2 := by
  obtain ⟨a, g', hok⟩ := (h.succeeds g).mpr rfl
  have hframe := h.frame g
  rw [after_of_ok hok] at hframe
  exact ⟨a, g', hok, hframe⟩

theorem Asks.frame_of_ok {a : α} {g g' : Generator} (h : Asks x rs ok) (hx : x g = .ok a g') :
    g'.frame = (g.frame.serve rs).2 := by
  have hframe := h.frame g
  rwa [after_of_ok hx] at hframe

/-- Two steps ask one after the other, and the second one only if the first does not fail. What the
second one asks for may depend on something that is known about every result of the first. -/
theorem Asks.bind_of {P : α → Prop} (hx : Asks x rs ok)
    (hresult : ∀ {g a g'}, x g = .ok a g' → P a) (hf : ∀ a, P a → Asks (f a) rs' ok') :
    Asks (x >>= f) (rs ++ bif ok then rs' else []) (ok && ok') := by
  cases ok with
  | true =>
    refine ⟨fun g => ?_, fun g => ?_⟩
    · obtain ⟨a, mid, hok, hframe⟩ := hx.eq_ok g
      have hsame : after (x >>= f) g = after (f a) mid := by
        unfold after
        rw [bind_of_ok hok]
      rw [hsame, (hf a (hresult hok)).frame, hframe, Frame.serve_append]
      rfl
    · obtain ⟨a, mid, hok, _⟩ := hx.eq_ok g
      rw [bind_of_ok hok]
      exact (hf a (hresult hok)).succeeds mid
  | false =>
    have herror : ∀ g, ∃ e g', x g = .error e g' := by
      intro g
      cases hxg : x g with
      | ok a g' => exact absurd ((hx.succeeds g).mp ⟨a, g', hxg⟩) Bool.false_ne_true
      | error e g' => exact ⟨e, g', rfl⟩
    refine ⟨fun g => ?_, fun g => ?_⟩
    · obtain ⟨e, g', hxg⟩ := herror g
      rw [after_of_error (bind_of_error hxg), cond_false, List.append_nil, ← hx.frame g,
        after_of_error hxg]
    · obtain ⟨e, g', hxg⟩ := herror g
      rw [bind_of_error hxg]
      simp

theorem Asks.bind (hx : Asks x rs ok) (hf : ∀ a, Asks (f a) rs' ok') :
    Asks (x >>= f) (rs ++ bif ok then rs' else []) (ok && ok') :=
  hx.bind_of (P := fun _ => True) (fun _ => trivial) fun a _ => hf a

/-- A step that asks for nothing may follow. -/
theorem Asks.bind_quiet (hx : Asks x rs ok) (hf : ∀ a, Asks (f a) [] true) :
    Asks (x >>= f) rs ok := by
  have hboth := hx.bind hf
  rwa [Bool.cond_self, List.append_nil, Bool.and_true] at hboth

theorem asks_pure (a : α) : Asks (pure a : Gen α) [] true :=
  asks_of_ok fun g => ⟨a, g, rfl, rfl⟩

theorem asks_throw (e : GenError) : Asks (throw e : Gen α) [] false :=
  ⟨fun _ => rfl, fun _ => iff_of_false (fun ⟨_, _, h⟩ => nomatch h) Bool.false_ne_true⟩

end

namespace Gen

theorem asks_emit (op : Opcode) (args : List String) : Asks (emit op args) [] true :=
  asks_of_ok fun _ => ⟨_, _, rfl, rfl⟩

theorem asks_perform (r : Request) : Asks r.perform [r] true :=
  asks_of_ok fun g => by
    obtain ⟨g', hok, hframe, _⟩ := Frame.perform_eq_ok r g
    exact ⟨_, g', hok, hframe⟩

theorem asks_variableSlot (name : String) : Asks (variableSlot name) [.named name] true :=
  asks_perform (.named name)

theorem asks_load (register : String) {operand : Operand} {ok : Bool}
    (h : Writable operand ↔ ok = true) : Asks (load register operand) [] ok := by
  cases ok with
  | true => exact asks_of_ok fun g => ⟨_, _, load_of_writable register (h.mpr rfl) g, rfl⟩
  | false =>
    have hlong : ¬ Writable operand := fun hoperand => Bool.false_ne_true (h.mp hoperand)
    have hthrow : load register operand = throw .longLiteral :=
      funext fun g => load_of_not_writable register hlong g
    rw [hthrow]
    exact asks_throw _

theorem asks_newSlot : Asks newSlot [.temporary] true :=
  asks_perform .temporary

theorem asks_apply (op : Operator) {lhs rhs : Operand} {ok ok' : Bool}
    (hlhs : Writable lhs ↔ ok = true) (hrhs : Writable rhs ↔ ok' = true) :
    Asks (apply op lhs rhs) (bif ok && ok' then [.temporary] else []) (ok && ok') := by
  have hstored := asks_newSlot.bind_quiet fun offset =>
    (asks_emit .sw ["$t0", slotOperand offset]).bind_quiet fun _ => asks_pure (Operand.slot offset)
  have hboth := (asks_load "$t0" hlhs).bind fun _ => (asks_load "$t1" hrhs).bind fun _ =>
    (asks_emit (opcodeOf op) ["$t0", "$t0", "$t1"]).bind fun _ => hstored
  cases ok with
  | true =>
    cases ok' with
    | true => exact hboth
    | false => exact hboth
  | false => exact hboth

end Gen

/-- Whether an expression has a value that code can compute. The operands of an operator are loaded
once both have their values. -/
def hasValue : Expr → Bool
  | .int _ => true
  | .var _ => true
  | .binary _ lhs rhs =>
    hasValue lhs && (hasValue rhs && (Gen.isWritable lhs && Gen.isWritable rhs))
  | .call .. => false
  | .assign .. => false

/-- What the value of an expression asks for: the variables on the way, and a slot for each operator
behind its operands. -/
def valueRequests : Expr → List Request
  | .int _ => []
  | .var name => [.named name]
  | .binary _ lhs rhs =>
    valueRequests lhs ++ bif hasValue lhs then
      valueRequests rhs ++ bif hasValue rhs then
        bif Gen.isWritable lhs && Gen.isWritable rhs then [.temporary] else []
      else []
    else []
  | .call .. => []
  | .assign .. => []

/-- What steps for several expressions ask for, in turn, up to the first that fails. -/
def inTurn (requests : Expr → List Request) (succeeds : Expr → Bool) : List Expr → List Request
  | [] => []
  | e :: es => requests e ++ bif succeeds e then inTurn requests succeeds es else []

/-- Whether an expression can be read into. -/
def isVariable : Expr → Bool
  | .var _ => true
  | _ => false

/-- What reading into an expression asks for. -/
def readRequests : Expr → List Request
  | .var name => [.named name]
  | _ => []

/-- Whether the value of an expression can be computed and loaded. -/
def isLoadable (e : Expr) : Bool :=
  hasValue e && Gen.isWritable e

/-- An operator with a value asks for a slot behind what its operands ask for. -/
theorem requests_of_hasValue {op : Operator} {lhs rhs : Expr}
    (h : hasValue (.binary op lhs rhs) = true) :
    hasValue lhs = true ∧ hasValue rhs = true
      ∧ valueRequests (.binary op lhs rhs)
        = valueRequests lhs ++ (valueRequests rhs ++ [.temporary]) := by
  rw [hasValue, Bool.and_eq_true, Bool.and_eq_true] at h
  obtain ⟨hlhs, hrhs, hwritable⟩ := h
  refine ⟨hlhs, hrhs, ?_⟩
  rw [valueRequests, hlhs, hrhs, hwritable]
  rfl

/-- Whether a statement has code. -/
def hasCode : Expr → Bool
  | .call .read args => args.all isVariable
  | .call .write args => args.all isLoadable
  | .assign _ value => isLoadable value
  | _ => false

/-- What a statement asks for. -/
def statementRequests : Expr → List Request
  | .call .read args => inTurn readRequests isVariable args
  | .call .write args => inTurn valueRequests isLoadable args
  | .assign name value => .named name :: valueRequests value
  | _ => []

namespace Gen

theorem asks_expression (e : Expr) : Asks (expression e) (valueRequests e) (hasValue e) := by
  induction e using chainInduction with
  | int value =>
    rw [expression_int]
    exact asks_pure _
  | var name =>
    rw [expression_var]
    exact (asks_variableSlot name).bind_quiet fun _ => asks_pure _
  | binary op lhs rhs ihl ihr =>
    rw [expression_binary]
    refine ihl.bind_of writable_of_expression fun a ha => ?_
    exact ihr.bind_of writable_of_expression fun b hb => asks_apply op ha hb
  | call routine args =>
    rw [expression_call]
    exact asks_throw _
  | assign name value =>
    rw [expression_assign]
    exact asks_throw _

theorem asks_forM {x : Expr → Gen Unit} {requests : Expr → List Request} {succeeds : Expr → Bool}
    (hx : ∀ e, Asks (x e) (requests e) (succeeds e)) (es : List Expr) :
    Asks (es.forM x) (inTurn requests succeeds es) (es.all succeeds) := by
  induction es with
  | nil => exact asks_pure ()
  | cons e es ih => exact (hx e).bind fun _ => ih

theorem asks_readInto (e : Expr) : Asks (readInto e) (readRequests e) (isVariable e) := by
  cases e with
  | var name =>
    refine (asks_variableSlot name).bind_quiet fun offset => ?_
    exact (asks_emit _ _).bind_quiet fun _ => asks_emit _ _
  | _ => exact asks_throw _

/-- The value of an expression, loaded for what follows. -/
theorem asks_loaded (e : Expr) (register : String) {x : Gen Unit} (hx : Asks x [] true) :
    Asks (do load register (← expression e); x) (valueRequests e) (isLoadable e) := by
  have hboth := (asks_expression e).bind_of writable_of_expression fun operand hoperand =>
    (asks_load register hoperand).bind_quiet fun _ => hx
  rwa [Bool.cond_self, List.append_nil] at hboth

theorem asks_writeFrom (e : Expr) : Asks (writeFrom e) (valueRequests e) (isLoadable e) :=
  asks_loaded e "$a0" (asks_emit _ _)

theorem asks_statement (e : Expr) : Asks (statement e) (statementRequests e) (hasCode e) := by
  cases e with
  | call routine args =>
    cases routine with
    | read => exact asks_forM asks_readInto args
    | write => exact asks_forM asks_writeFrom args
  | assign name value =>
    exact (asks_variableSlot name).bind fun target => asks_loaded value "$t0" (asks_emit _ _)
  | _ => exact asks_throw _

end Gen

/-! ## Calls in any order -/

/-- The calls that can be made of a generator. -/
inductive Call where
  | variableSlot (name : String)
  | newSlot
  | expression (e : Expr)
  | statement (e : Expr)

namespace Call

/-- The generating step of a call, without its result. -/
def perform : Call → Gen Unit
  | variableSlot name => do let _ ← Gen.variableSlot name
  | newSlot => do let _ ← Gen.newSlot
  | expression e => do let _ ← Gen.expression e
  | statement e => Gen.statement e

/-- What a call asks for. -/
def requests : Call → List Request
  | variableSlot name => [.named name]
  | newSlot => [.temporary]
  | expression e => valueRequests e
  | statement e => statementRequests e

/-- The generator after calls one after the other, whether they succeed or fail. -/
def performAll (calls : List Call) (g : Generator) : Generator :=
  calls.foldl (fun g call => after call.perform g) g

theorem frame_perform (call : Call) (g : Generator) :
    (after call.perform g).frame = (g.frame.serve call.requests).2 := by
  cases call with
  | variableSlot name =>
    exact ((Gen.asks_variableSlot name).bind_quiet fun _ => asks_pure ()).frame g
  | newSlot => exact ((Gen.asks_perform .temporary).bind_quiet fun _ => asks_pure ()).frame g
  | expression e => exact ((Gen.asks_expression e).bind_quiet fun _ => asks_pure ()).frame g
  | statement e => exact (Gen.asks_statement e).frame g

/-- What calls do to the frame is what their requests do to it. -/
theorem frame_performAll (calls : List Call) (g : Generator) :
    (performAll calls g).frame = (g.frame.serve (calls.flatMap requests)).2 := by
  induction calls generalizing g with
  | nil => rfl
  | cons call calls ih =>
    show (performAll calls (after call.perform g)).frame = _
    rw [ih, frame_perform, List.flatMap_cons, Frame.serve_append]

end Call

end MicroLang.Assembly
