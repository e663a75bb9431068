/-!
# Steps one after the other

Parsers and code generators are both steps that end with a result or an error, and with a state in
either case. A sequence of two of them succeeds exactly when both do (`bind_eq_ok`), and what each
of two steps does to the state is what the sequence does to it (`Always.bind`). What a step can fail
with depends on the state it starts from and on the results before it; `Meets` carries all three
through a sequence.
-/

namespace MicroLang.Sequencing

variable {ε σ α β : Type} {x : EStateM ε σ α} {f : α → EStateM ε σ β} {s mid s' : σ}

theorem bind_of_ok {a : α} (h : x s = .ok a mid) : (x >>= f) s = f a mid := by
  show EStateM.bind x f s = f a mid
  unfold EStateM.bind
  rw [h]

theorem bind_of_error {e : ε} (h : x s = .error e mid) : (x >>= f) s = .error e mid := by
  show EStateM.bind x f s = .error e mid
  unfold EStateM.bind
  rw [h]

theorem get_bind {f : σ → EStateM ε σ β} : (get >>= f) s = f s s := rfl

theorem bind_eq_ok {b : β} :
    (x >>= f) s = .ok b s' ↔ ∃ a mid, x s = .ok a mid ∧ f a mid = .ok b s' := by
  cases hx : x s with
  | ok a mid =>
    rw [bind_of_ok hx]
    constructor
    · intro h
      exact ⟨a, mid, rfl, h⟩
    · rintro ⟨_, _, heq, h⟩
      obtain ⟨rfl, rfl⟩ := EStateM.Result.ok.inj heq
      exact h
  | error e mid =>
    rw [bind_of_error hx]
    constructor
    · intro h
      cases h
    · rintro ⟨_, _, heq, _⟩
      cases heq

/-- A sequence fails if its first step does, or else its second one. -/
theorem bind_eq_error {e : ε} :
    (x >>= f) s = .error e s' ↔
      x s = .error e s' ∨ ∃ a mid, x s = .ok a mid ∧ f a mid = .error e s' := by
  cases hx : x s with
  | ok a mid =>
    rw [bind_of_ok hx]
    constructor
    · intro h
      exact .inr ⟨a, mid, rfl, h⟩
    · rintro (heq | ⟨_, _, heq, h⟩)
      · cases heq
      · obtain ⟨rfl, rfl⟩ := EStateM.Result.ok.inj heq
        exact h
  | error e' mid =>
    rw [bind_of_error hx]
    constructor
    · intro h
      cases h
      exact .inl rfl
    · rintro (heq | ⟨_, _, heq, _⟩)
      · cases heq
        rfl
      · cases heq

/-- The same for steps without a state. -/
theorem except_bind_eq_ok {x : Except ε α} {f : α → Except ε β} {b : β} :
    (x >>= f) = .ok b ↔ ∃ a, x = .ok a ∧ f a = .ok b := by
  cases x with
  | error e =>
    constructor
    · intro h
      cases h
    · rintro ⟨_, heq, _⟩
      cases heq
  | ok a =>
    constructor
    · intro h
      exact ⟨a, rfl, h⟩
    · rintro ⟨_, heq, h⟩
      cases heq
      exact h

/-- The state that a step leaves, whether it succeeds or fails. -/
def after (x : EStateM ε σ α) (s : σ) : σ :=
  match x s with
  | .ok _ s' => s'
  | .error _ s' => s'

theorem after_of_ok {a : α} (h : x s = .ok a s') : after x s = s' := by
  unfold after
  rw [h]

theorem after_of_error {e : ε} (h : x s = .error e s') : after x s = s' := by
  unfold after
  rw [h]

/-- The state that a step leaves always stands in a relation to the state before it. -/
def Always (R : σ → σ → Prop) (x : EStateM ε σ α) : Prop :=
  ∀ s, R s (after x s)

theorem Always.bind {R : σ → σ → Prop} (htrans : ∀ {s₁ s₂ s₃}, R s₁ s₂ → R s₂ s₃ → R s₁ s₃)
    (hx : Always R x) (hf : ∀ a, Always R (f a)) : Always R (x >>= f) := by
  intro s
  have hfirst := hx s
  cases hxs : x s with
  | ok a mid =>
    rw [after_of_ok hxs] at hfirst
    have hsame : after (x >>= f) s = after (f a) mid := by
      unfold after
      rw [bind_of_ok hxs]
    rw [hsame]
    exact htrans hfirst (hf a mid)
  | error e mid =>
    rw [after_of_error hxs] at hfirst
    rw [after_of_error (bind_of_error hxs)]
    exact hfirst

/-- From a state with an invariant, a step keeps the invariant and gives a result with one property,
or fails with an error that has another one. -/
structure Meets (inv : σ → Prop) (result : α → Prop) (error : ε → Prop) (x : EStateM ε σ α) :
    Prop where
  ok : ∀ {s a s'}, inv s → x s = .ok a s' → inv s' ∧ result a
  error : ∀ {s e s'}, inv s → x s = .error e s' → error e

section

variable {inv : σ → Prop} {result : α → Prop} {result' : β → Prop} {error : ε → Prop}

theorem Meets.bind (hx : Meets inv result error x)
    (hf : ∀ a, result a → Meets inv result' error (f a)) : Meets inv result' error (x >>= f) where
  ok := by
    intro s b s' hs h
    obtain ⟨a, mid, hfirst, hsecond⟩ := bind_eq_ok.mp h
    obtain ⟨hmid, ha⟩ := hx.ok hs hfirst
    exact (hf a ha).ok hmid hsecond
  error := by
    intro s e s' hs h
    cases hxs : x s with
    | ok a mid =>
      obtain ⟨hmid, ha⟩ := hx.ok hs hxs
      rw [bind_of_ok hxs] at h
      exact (hf a ha).error hmid h
    | error e' mid =>
      rw [bind_of_error hxs] at h
      cases h
      exact hx.error hs hxs

theorem meets_pure {a : α} (h : result a) : Meets inv result error (pure a : EStateM ε σ α) where
  ok := by
    intro s a' s' hs heq
    cases heq
    exact ⟨hs, h⟩
  error := by
    intro s e s' _ heq
    cases heq

theorem meets_throw {e : ε} (h : error e) : Meets inv result error (throw e : EStateM ε σ α) where
  ok := by
    intro s a s' _ heq
    cases heq
  error := by
    intro s e' s' _ heq
    cases heq
    exact h

/-- A step that only changes the state meets what its change keeps. -/
theorem meets_modify {change : σ → σ} {result : PUnit → Prop} (h : ∀ s, inv s → inv (change s))
    (hunit : result ⟨⟩) : Meets inv result error (modify change : EStateM ε σ PUnit) where
  ok := by
    intro s a s' hs heq
    cases heq
    exact ⟨h s hs, hunit⟩
  error := by
    intro s e s' _ heq
    cases heq

end

end MicroLang.Sequencing
