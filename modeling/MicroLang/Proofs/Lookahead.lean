import MicroLang.Proofs.SourceParsing

/-!
# One token of lookahead

A parser pulls tokens one at a time and looks at the current one only, so it does not depend on what
follows that token. Two states are alike (`Alike`) if they have the same tokens ahead up to some
point, and differ at most in what follows; from alike states a parser does the same, or goes past
that point from both (`Agree`). `Local` says this of a parser, and each parser has it because the
parsers it is made of have it.

The loops of the grammar take a number of turns with them, which is larger where more tokens are
ahead. It never decides anything: in two alike states with a turn for each token ahead, a loop ends
for the same reason.

> `parse_lexical_iff`: a fault behind the last token is met exactly when the parser needs all the
> tokens before it.
-/

namespace MicroLang.Program

namespace Parse

open MicroLang.Source
open MicroLang.Sequencing
open ParseState

/-! ## What a parser does to the stream -/

/-- What a parser gives, with the state it leaves. -/
abbrev Outcome (α : Type) := EStateM.Result CompileError ParseState α

/-- The state that is left. -/
def stateOf {α : Type} : Outcome α → ParseState
  | .ok _ s => s
  | .error _ s => s

/-- The fault that was met, if there was one. -/
def faultOf {α : Type} : Outcome α → Option LexError
  | .error (.lexical e) _ => some e
  | _ => none

/-- Tokens are only taken from the front. A fault is met only if it was at the end of the stream; if
it was there and is not met, it stays behind a token. -/
structure Keeps {α : Type} (s : ParseState) (r : Outcome α) : Prop where
  suffix : (stateOf r).ahead <:+ s.ahead
  met : ∀ e, faultOf r = some e → s.ending = .failed e
  unmet : ∀ e, (stateOf r).ending = .failed e → s.ending = .failed e
  pending : ∀ e, s.ending = .failed e → s.ahead ≠ [] → faultOf r = none →
    (stateOf r).ending = .failed e ∧ (stateOf r).ahead ≠ []

/-- A parser keeps the stream in order from every state. -/
def Steady {α : Type} (x : Parse α) : Prop :=
  ∀ s, Keeps s (x s)

section

variable {α β : Type} {x : Parse α} {f : α → Parse β} {s s' : ParseState}

/-- A parser that does not touch the tokens. -/
theorem Keeps.of_same {r : Outcome α} (hfault : faultOf r = none)
    (hahead : (stateOf r).ahead = s.ahead) (hending : (stateOf r).ending = s.ending) :
    Keeps s r where
  suffix := hahead ▸ List.suffix_rfl
  met := fun e he => by rw [hfault] at he; cases he
  unmet := fun e he => by rw [← hending]; exact he
  pending := fun e he hne _ => by rw [hahead, hending]; exact ⟨he, hne⟩

theorem Keeps.trans {a : α} {r : Outcome β} (h : Keeps s (.ok a s' : Outcome α)) (h' : Keeps s' r) :
    Keeps s r where
  suffix := h'.suffix.trans h.suffix
  met := fun e he => h.unmet e (h'.met e he)
  unmet := fun e he => h.unmet e (h'.unmet e he)
  pending := by
    intro e he hne hfault
    obtain ⟨hmid, hmidne⟩ := h.pending e he hne rfl
    exact h'.pending e hmid hmidne hfault

theorem faultOf_error (e : CompileError) :
    faultOf (.error e s : Outcome α) = faultOf (.error e s : Outcome β) := by
  cases e <;> rfl

theorem Steady.bind (hx : Steady x) (hf : ∀ a, Steady (f a)) : Steady (x >>= f) := by
  intro s
  have hfirst := hx s
  cases hxs : x s with
  | ok a mid =>
    rw [hxs] at hfirst
    rw [bind_of_ok hxs]
    exact hfirst.trans (hf a mid)
  | error e mid =>
    rw [hxs] at hfirst
    rw [bind_of_error hxs]
    refine ⟨hfirst.suffix, ?_, hfirst.unmet, ?_⟩
    · rw [faultOf_error (β := α)]
      exact hfirst.met
    · rw [faultOf_error (β := α)]
      exact hfirst.pending

theorem steady_pure (a : α) : Steady (pure a : Parse α) :=
  fun _ => .of_same rfl rfl rfl

theorem steady_current : Steady current :=
  fun _ => .of_same rfl rfl rfl

theorem steady_tokensAhead : Steady tokensAhead :=
  fun _ => .of_same rfl rfl rfl

theorem steady_fail (fault : ParseFault) (token : Token) : Steady (fail fault token : Parse α) :=
  fun _ => .of_same rfl rfl rfl

theorem steady_report (event : Event) : Steady (report event) :=
  fun _ => .of_same rfl rfl rfl

/-- Consuming the last token is the only step that gets to the end of the stream. -/
theorem steady_advance : Steady advance := by
  intro s
  unfold advance
  cases hahead : s.ahead with
  | nil => exact .of_same rfl rfl rfl
  | cons t rest =>
    cases rest with
    | nil =>
      cases hending : s.ending with
      | finished tokens lines =>
        refine ⟨List.nil_suffix, fun e he => ?_, fun e he => ?_, fun e he => ?_⟩
        · cases he
        · cases he
        · rw [hending] at he
          cases he
      | failed e =>
        refine ⟨?_, fun e' he => ?_, fun e' he => ?_, fun e' _ _ hfault => ?_⟩
        · show [t] <:+ s.ahead
          exact hahead ▸ List.suffix_rfl
        · cases he
          exact hending
        · cases he
        · cases hfault
      | closed =>
        refine ⟨List.nil_suffix, fun e he => ?_, fun e he => ?_, fun e he => ?_⟩
        · cases he
        · cases he
        · rw [hending] at he
          cases he
    | cons u rest =>
      refine ⟨?_, fun e he => ?_, fun _ h => h, fun _ h _ _ => ⟨h, List.cons_ne_nil _ _⟩⟩
      · rw [hahead]
        exact List.suffix_cons _ _
      · cases he

theorem Steady.length_le {a : α} (hx : Steady x) (h : x s = .ok a s') :
    s'.ahead.length ≤ s.ahead.length := by
  have hkeeps := hx s
  rw [h] at hkeeps
  exact hkeeps.suffix.length_le

end

/-! ## States that differ behind a point -/

/-- The same tokens up to some point, with `rest` and `rest'` behind it. -/
structure Alike (rest rest' : List Token) (s s' : ParseState) : Prop where
  ahead : ∃ front, front ≠ [] ∧ s.ahead = front ++ rest ∧ s'.ahead = front ++ rest'
  last : s.last = s'.last
  log : s.log = s'.log

/-- A parser went past the point with `rest` behind it. -/
def Past {α : Type} (rest : List Token) (r : Outcome α) : Prop :=
  faultOf r ≠ none ∨ (stateOf r).ahead.length ≤ rest.length

/-- Two outcomes are the same before a point, or both are past it. -/
inductive Agree {α : Type} (rest rest' : List Token) : Outcome α → Outcome α → Prop
  | ok (a : α) {s s' : ParseState} (h : Alike rest rest' s s') :
      Agree rest rest' (.ok a s) (.ok a s')
  | error (e : CompileError) {s s' : ParseState} (h : Alike rest rest' s s') :
      Agree rest rest' (.error e s) (.error e s')
  | past {r r' : Outcome α} (h : Past rest r) (h' : Past rest' r') : Agree rest rest' r r'

/-- What a parser does does not depend on anything behind a point that it does not pass. -/
structure Local {α : Type} (x : Parse α) : Prop where
  steady : Steady x
  agree : ∀ {rest rest' : List Token} {s s' : ParseState}, Alike rest rest' s s' →
    Agree rest rest' (x s) (x s')

section

variable {α β : Type} {rest rest' : List Token} {s s' : ParseState}

theorem Alike.length_pos (h : Alike rest rest' s s') :
    0 < s.ahead.length ∧ 0 < s'.ahead.length := by
  obtain ⟨front, hne, hs, hs'⟩ := h.ahead
  have hfront := List.length_pos_iff.mpr hne
  rw [hs, hs', List.length_append, List.length_append]
  omega

theorem Alike.current_eq (h : Alike rest rest' s s') : s.current = s'.current := by
  obtain ⟨front, hne, hs, hs'⟩ := h.ahead
  obtain ⟨t, front, rfl⟩ := List.exists_cons_of_ne_nil hne
  unfold ParseState.current
  rw [hs, hs']
  rfl

/-- A parser that starts past a point stays past it, and one that fails past it fails past it. -/
theorem Past.bind {x : Parse α} {f : α → Parse β} (hf : ∀ a, Steady (f a)) (h : Past rest (x s)) :
    Past rest ((x >>= f) s) := by
  cases hxs : x s with
  | ok a mid =>
    rw [hxs] at h
    rw [bind_of_ok hxs]
    rcases h with h | h
    · exact absurd rfl h
    · exact .inr ((hf a mid).suffix.length_le.trans h)
  | error e mid =>
    rw [hxs] at h
    rw [bind_of_error hxs]
    unfold Past at h ⊢
    rw [faultOf_error (β := α)]
    exact h

/-- Two sequences agree if their first steps do and, before the point, what follows them does. -/
theorem Agree.bind {x x' : Parse α} {f f' : α → Parse β} (hx : Agree rest rest' (x s) (x' s'))
    (hf : ∀ a, Steady (f a)) (hf' : ∀ a, Steady (f' a))
    (hnext : ∀ a mid mid', x s = .ok a mid → x' s' = .ok a mid' → Alike rest rest' mid mid' →
      Agree rest rest' (f a mid) (f' a mid')) :
    Agree rest rest' ((x >>= f) s) ((x' >>= f') s') := by
  generalize hxs : x s = r at hx
  generalize hxs' : x' s' = r' at hx
  cases hx with
  | ok a h =>
    rw [bind_of_ok hxs, bind_of_ok hxs']
    exact hnext a _ _ hxs hxs' h
  | error e h =>
    rw [bind_of_error hxs, bind_of_error hxs']
    exact .error e h
  | past h h' =>
    rw [← hxs] at h
    rw [← hxs'] at h'
    exact .past (h.bind hf) (h'.bind hf')

theorem Local.bind {x : Parse α} {f : α → Parse β} (hx : Local x) (hf : ∀ a, Local (f a)) :
    Local (x >>= f) where
  steady := hx.steady.bind fun a => (hf a).steady
  agree := fun h =>
    (hx.agree h).bind (fun a => (hf a).steady) (fun a => (hf a).steady)
      fun a _ _ _ _ hmid => (hf a).agree hmid

theorem local_pure (a : α) : Local (pure a : Parse α) :=
  ⟨steady_pure a, fun h => .ok a h⟩

theorem local_current : Local current where
  steady := steady_current
  agree := by
    intro rest rest' s s' h
    show Agree rest rest' (.ok s.current s) (.ok s'.current s')
    rw [h.current_eq]
    exact .ok _ h

theorem local_fail (fault : ParseFault) (token : Token) : Local (fail fault token : Parse α) :=
  ⟨steady_fail fault token, fun h => .error _ h⟩

theorem local_report (event : Event) : Local (report event) where
  steady := steady_report event
  agree := by
    intro rest rest' s s' h
    refine .ok () ⟨h.ahead, h.last, ?_⟩
    show s.log.push event = s'.log.push event
    rw [h.log]

/-- Consuming the last token before a point goes past it. -/
theorem past_advance {t : Token} (h : s.ahead = t :: rest) : Past rest (advance s) := by
  unfold advance
  rw [h]
  cases rest with
  | nil =>
    cases s.ending with
    | finished tokens lines => exact .inr (Nat.le_refl 0)
    | failed e => exact .inl (Option.some_ne_none e)
    | closed => exact .inr (Nat.le_refl 0)
  | cons u rest => exact .inr (Nat.le_refl _)

theorem advance_of_cons_cons {t u : Token} {ts : List Token} (h : s.ahead = t :: u :: ts) :
    advance s = .ok t { s with ahead := u :: ts, last := some t } := by
  unfold advance
  rw [h]

theorem local_advance : Local advance where
  steady := steady_advance
  agree := by
    intro rest rest' s s' h
    obtain ⟨front, hne, hs, hs'⟩ := h.ahead
    obtain ⟨t, front, rfl⟩ := List.exists_cons_of_ne_nil hne
    cases front with
    | nil => exact .past (past_advance hs) (past_advance hs')
    | cons u front =>
      rw [advance_of_cons_cons hs, advance_of_cons_cons hs']
      exact .ok t ⟨⟨u :: front, List.cons_ne_nil _ _, rfl, rfl⟩, rfl, h.log⟩

/-- Consuming a token that is there leaves fewer of them. -/
theorem length_lt_of_advance {t : Token} (h : advance s = .ok t s') (hpos : 0 < s.ahead.length) :
    s'.ahead.length < s.ahead.length := by
  obtain ⟨u, rest, hs⟩ := List.exists_cons_of_length_pos hpos
  cases rest with
  | nil =>
    have hpast := past_advance hs
    rw [h] at hpast
    rcases hpast with hfault | hlength
    · exact absurd rfl hfault
    · exact Nat.lt_of_le_of_lt hlength hpos
  | cons v rest =>
    rw [advance_of_cons_cons hs] at h
    cases h
    rw [hs]
    exact Nat.lt_succ_self _

theorem local_expect (kind : TokenKind) (what : String) : Local (expect kind what) := by
  refine local_current.bind fun t => ?_
  split
  · exact local_advance
  · exact local_fail _ _

theorem length_lt_of_expect {kind : TokenKind} {what : String} {t : Token}
    (h : expect kind what s = .ok t s') (hpos : 0 < s.ahead.length) :
    s'.ahead.length < s.ahead.length := by
  unfold expect at h
  rw [current_bind] at h
  split at h
  · exact length_lt_of_advance h hpos
  · cases h

/-- A loop with a turn for each token ahead, if the number of turns left never decides anything. -/
theorem local_of_turns {loop : Nat → Parse α} (hsteady : ∀ n, Steady (loop n))
    (hagree : ∀ {rest rest' : List Token} {s s' : ParseState} {n n' : Nat}, Alike rest rest' s s' →
      s.ahead.length ≤ n → s'.ahead.length ≤ n' → Agree rest rest' (loop n s) (loop n' s'))
    (k : Nat) : Local (tokensAhead >>= fun n => loop (n + k)) where
  steady := steady_tokensAhead.bind fun _ => hsteady _
  agree := by
    intro rest rest' s s' h
    rw [tokensAhead_bind, tokensAhead_bind]
    exact hagree h (Nat.le_add_right _ k) (Nat.le_add_right _ k)

end

/-! ## Expressions -/

section

variable {inner : Parse Expr} {rest rest' : List Token} {s s' : ParseState}

theorem steady_chainLoop {operand : Parse Expr} (hoperand : Steady operand) (n : Nat) (lhs : Expr) :
    Steady (chainLoop operand n lhs) := by
  induction n generalizing lhs with
  | zero => exact steady_pure lhs
  | succ n ih =>
    refine steady_current.bind fun t => ?_
    split
    · exact steady_pure lhs
    · exact steady_advance.bind fun _ => hoperand.bind fun rhs => ih _

theorem agree_chainLoop {operand : Parse Expr} (hoperand : Local operand) {n n' : Nat} {lhs : Expr}
    (h : Alike rest rest' s s') (hn : s.ahead.length ≤ n) (hn' : s'.ahead.length ≤ n') :
    Agree rest rest' (chainLoop operand n lhs s) (chainLoop operand n' lhs s') := by
  have hloop := fun n lhs => steady_chainLoop hoperand.steady n lhs
  induction n generalizing n' lhs s s' with
  | zero => exact absurd h.length_pos.1 (Nat.not_lt.mpr hn)
  | succ n ih =>
    obtain ⟨hpos, hpos'⟩ := h.length_pos
    obtain ⟨n', rfl⟩ : ∃ m, n' = m + 1 := ⟨n' - 1, by omega⟩
    rw [chainLoop.eq_2, chainLoop.eq_2, current_bind, current_bind, ← h.current_eq]
    cases operator? s.current.lexeme with
    | none => exact .ok lhs h
    | some op =>
      refine (local_advance.agree h).bind (fun _ => hoperand.steady.bind fun _ => hloop _ _)
        (fun _ => hoperand.steady.bind fun _ => hloop _ _) ?_
      intro t s₁ s₁' hadvance hadvance' h₁
      refine (hoperand.agree h₁).bind (fun _ => hloop _ _) (fun _ => hloop _ _) ?_
      intro rhs s₂ s₂' hrhs hrhs' h₂
      have hlt := length_lt_of_advance hadvance hpos
      have hlt' := length_lt_of_advance hadvance' hpos'
      have hle := hoperand.steady.length_le hrhs
      have hle' := hoperand.steady.length_le hrhs'
      exact ih h₂ (by omega) (by omega)

theorem local_chain {operand : Parse Expr} (hoperand : Local operand) (lhs : Expr) :
    Local (chain operand lhs) :=
  local_of_turns (fun n => steady_chainLoop hoperand.steady n lhs) (agree_chainLoop hoperand) 0

/-- What follows an argument: the closing parenthesis, or a comma and the arguments `more`. -/
def argumentTail (more : Parse (List Expr)) (arg : Expr) : Parse (List Expr) := do
  if (← current).kind = .rightParen then
    let _ ← advance
    return [arg]
  else
    let _ ← expect .comma "',' or ')'"
    return arg :: (← more)

theorem argumentLoop_succ (n : Nat) :
    argumentLoop inner (n + 1) = inner >>= argumentTail (argumentLoop inner n) := rfl

theorem steady_argumentTail {more : Parse (List Expr)} (hmore : Steady more) (arg : Expr) :
    Steady (argumentTail more arg) := by
  refine steady_current.bind fun t => ?_
  split
  · exact steady_advance.bind fun _ => steady_pure _
  · exact (local_expect _ _).steady.bind fun _ => hmore.bind fun _ => steady_pure _

theorem steady_argumentLoop (hinner : Steady inner) (n : Nat) : Steady (argumentLoop inner n) := by
  induction n with
  | zero => exact steady_current.bind fun t => steady_fail _ t
  | succ n ih =>
    rw [argumentLoop_succ]
    exact hinner.bind (steady_argumentTail ih)

theorem agree_argumentLoop (hinner : Local inner) {n n' : Nat} (h : Alike rest rest' s s')
    (hn : s.ahead.length ≤ n) (hn' : s'.ahead.length ≤ n') :
    Agree rest rest' (argumentLoop inner n s) (argumentLoop inner n' s') := by
  have hloop := steady_argumentLoop hinner.steady
  induction n generalizing n' s s' with
  | zero => exact absurd h.length_pos.1 (Nat.not_lt.mpr hn)
  | succ n ih =>
    obtain ⟨hpos, hpos'⟩ := h.length_pos
    obtain ⟨n', rfl⟩ : ∃ m, n' = m + 1 := ⟨n' - 1, by omega⟩
    rw [argumentLoop_succ, argumentLoop_succ]
    refine (hinner.agree h).bind (steady_argumentTail (hloop _)) (steady_argumentTail (hloop _)) ?_
    intro arg s₁ s₁' harg harg' h₁
    have hle := hinner.steady.length_le harg
    have hle' := hinner.steady.length_le harg'
    unfold argumentTail
    rw [current_bind, current_bind, ← h₁.current_eq]
    split
    · exact (local_advance.bind fun _ => local_pure _).agree h₁
    · refine ((local_expect _ _).agree h₁).bind (fun _ => (hloop _).bind fun _ => steady_pure _)
        (fun _ => (hloop _).bind fun _ => steady_pure _) ?_
      intro t s₂ s₂' hcomma hcomma' h₂
      have hlt := length_lt_of_expect hcomma h₁.length_pos.1
      have hlt' := length_lt_of_expect hcomma' h₁.length_pos.2
      refine (ih h₂ (by omega) (by omega)).bind (fun _ => steady_pure _) (fun _ => steady_pure _) ?_
      intro more s₃ s₃' _ _ h₃
      exact .ok _ h₃

theorem local_argumentsWith (hinner : Local inner) : Local (argumentsWith inner) := by
  refine local_current.bind fun t => ?_
  split
  · exact local_advance.bind fun _ => local_pure _
  · exact local_of_turns (steady_argumentLoop hinner.steady) (agree_argumentLoop hinner) 1

theorem local_callWith (hinner : Local inner) (routine : Routine) :
    Local (callWith inner routine) := by
  refine local_advance.bind fun _ => (local_expect _ _).bind fun _ => ?_
  exact (local_argumentsWith hinner).bind fun _ => local_pure _

theorem local_primaryWith (hinner : Local inner) : Local (primaryWith inner) := by
  refine local_current.bind fun t => ?_
  split
  · refine local_advance.bind fun _ => local_current.bind fun u => ?_
    split
    · exact local_fail _ _
    · exact local_pure _
  · exact local_callWith hinner .read
  · exact local_callWith hinner .write
  · exact local_advance.bind fun _ => local_pure _
  · refine local_advance.bind fun _ => hinner.bind fun e => ?_
    exact (local_expect _ _).bind fun _ => local_pure _
  · exact local_fail _ _

theorem local_expressionWithin (levels : Nat) : Local (expressionWithin levels) := by
  induction levels with
  | zero => exact local_current.bind fun t => local_fail _ t
  | succ levels ih =>
    have hprimary := local_primaryWith ih
    exact hprimary.bind (local_chain hprimary)

end

/-! ## Programs -/

section

variable {rest rest' : List Token} {s s' : ParseState}

theorem local_assignment : Local assignment := by
  refine local_current.bind fun t => ?_
  split
  · refine local_advance.bind fun _ => (local_expect _ _).bind fun _ => ?_
    exact (local_expressionWithin _).bind fun _ => local_pure _
  · exact local_fail _ _

theorem local_statement : Local statement := by
  refine local_current.bind fun t => ?_
  split
  · exact local_assignment
  · refine (local_expressionWithin _).bind fun e => ?_
    split
    · exact local_pure _
    · exact local_fail _ _

/-- A statement has at least one token. -/
theorem length_lt_of_statement {e : Expr} (h : statement s = .ok e s') :
    s'.ahead.length < s.ahead.length := by
  obtain ⟨w, hw, hsplit⟩ := (statement_sound h).consumes
  have hpos := List.length_pos_iff.mpr hw
  have hlength := congrArg List.length hsplit
  rw [List.length_append, length_lexemes, length_lexemes] at hlength
  omega

theorem steady_skipLoop (n j : Nat) : Steady (skipLoop n j) := by
  induction n generalizing j with
  | zero => exact steady_pure _
  | succ n ih =>
    refine steady_current.bind fun t => ?_
    split
    · exact steady_pure _
    · exact steady_pure _
    · exact steady_advance.bind fun _ => ih _

theorem agree_skipLoop {n n' j : Nat} (h : Alike rest rest' s s') (hn : s.ahead.length ≤ n)
    (hn' : s'.ahead.length ≤ n') : Agree rest rest' (skipLoop n j s) (skipLoop n' j s') := by
  induction n generalizing n' j s s' with
  | zero => exact absurd h.length_pos.1 (Nat.not_lt.mpr hn)
  | succ n ih =>
    obtain ⟨hpos, hpos'⟩ := h.length_pos
    obtain ⟨n', rfl⟩ : ∃ m, n' = m + 1 := ⟨n' - 1, by omega⟩
    have hcurrent := h.current_eq
    by_cases hbegin : s.current.lexeme = .beginKw
    · rw [skipLoop_of_begin hbegin, skipLoop_of_begin (hcurrent ▸ hbegin)]
      exact .ok _ h
    by_cases heof : s.current.lexeme = .eof
    · rw [skipLoop_of_eof heof, skipLoop_of_eof (hcurrent ▸ heof)]
      exact .ok _ h
    · rw [skipLoop_of_other hbegin heof, skipLoop_of_other (hcurrent ▸ hbegin) (hcurrent ▸ heof)]
      refine (local_advance.agree h).bind (fun _ => steady_skipLoop _ _)
        (fun _ => steady_skipLoop _ _) ?_
      intro t s₁ s₁' hadvance hadvance' h₁
      have hlt := length_lt_of_advance hadvance hpos
      have hlt' := length_lt_of_advance hadvance' hpos'
      exact ih h₁ (by omega) (by omega)

theorem steady_statementLoop (n : Nat) : Steady (statementLoop n) := by
  induction n with
  | zero => exact steady_pure _
  | succ n ih =>
    refine steady_current.bind fun t => ?_
    split
    · exact steady_pure _
    · exact steady_pure _
    · exact steady_advance.bind fun _ => ih
    · exact local_statement.steady.bind fun _ => ih.bind fun _ => steady_pure _

theorem agree_statementLoop {n n' : Nat} (h : Alike rest rest' s s') (hn : s.ahead.length ≤ n)
    (hn' : s'.ahead.length ≤ n') :
    Agree rest rest' (statementLoop n s) (statementLoop n' s') := by
  have hloop := steady_statementLoop
  induction n generalizing n' s s' with
  | zero => exact absurd h.length_pos.1 (Nat.not_lt.mpr hn)
  | succ n ih =>
    obtain ⟨hpos, hpos'⟩ := h.length_pos
    obtain ⟨n', rfl⟩ : ∃ m, n' = m + 1 := ⟨n' - 1, by omega⟩
    have hcurrent := h.current_eq
    by_cases hstop : s.current.lexeme = .endKw ∨ s.current.lexeme = .eof
    · rw [statementLoop_of_stop hstop, statementLoop_of_stop (hcurrent ▸ hstop)]
      exact .ok _ h
    by_cases hsemicolon : s.current.lexeme = .semicolon
    · rw [statementLoop_of_semicolon hsemicolon, statementLoop_of_semicolon (hcurrent ▸ hsemicolon)]
      refine (local_advance.agree h).bind (fun _ => hloop _) (fun _ => hloop _) ?_
      intro t s₁ s₁' hadvance hadvance' h₁
      have hlt := length_lt_of_advance hadvance hpos
      have hlt' := length_lt_of_advance hadvance' hpos'
      exact ih h₁ (by omega) (by omega)
    · rw [statementLoop_of_statement hstop hsemicolon,
        statementLoop_of_statement (hcurrent ▸ hstop) (hcurrent ▸ hsemicolon)]
      refine (local_statement.agree h).bind (fun _ => (hloop _).bind fun _ => steady_pure _)
        (fun _ => (hloop _).bind fun _ => steady_pure _) ?_
      intro e s₁ s₁' hstatement hstatement' h₁
      have hlt := length_lt_of_statement hstatement
      have hlt' := length_lt_of_statement hstatement'
      refine (ih h₁ (by omega) (by omega)).bind (fun _ => steady_pure _) (fun _ => steady_pure _) ?_
      intro more s₂ s₂' _ _ h₂
      exact .ok _ h₂

theorem local_block : Local block := by
  have hstatements : Local (tokensAhead >>= fun n => statementLoop (n + 1)) :=
    local_of_turns steady_statementLoop agree_statementLoop 1
  have hreport : ∀ statements : Program, Local (do
      if (← current).kind = .eof then report .noEnd else report (.parsed statements.length)
      return statements : Parse Program) := by
    intro statements
    refine local_current.bind fun t => ?_
    split
    · exact (local_report _).bind fun _ => local_pure _
    · exact (local_report _).bind fun _ => local_pure _
  exact (local_expect _ _).bind fun _ => hstatements.bind hreport

/-- A program behind the tokens before its opening word, given their number if there is one. -/
def fromBegin : Option Nat → Parse Program
  | none => do
    report .noBegin
    return []
  | some skipped => do
    if skipped ≠ 0 then report (.skipped skipped)
    block

theorem local_fromBegin (found : Option Nat) : Local (fromBegin found) := by
  cases found with
  | none => exact (local_report _).bind fun _ => local_pure _
  | some skipped =>
    unfold fromBegin
    dsimp only
    split
    · exact (local_report _).bind fun _ => local_block
    · exact local_block

theorem local_program : Local program := by
  have hskip : Local (tokensAhead >>= fun n => skipLoop (n + 1) 0) :=
    local_of_turns (fun n => steady_skipLoop n 0) agree_skipLoop 1
  exact hskip.bind local_fromBegin

end

/-! ## Faults -/

/-- Parsing pulls past the last of some tokens. -/
def Exhausts (tokens : List Token) : Prop :=
  (stateOf (program { ahead := tokens, ending := .closed })).ahead = []

/-- Without a fault at the end of the stream there is no lexical error. -/
theorem faultOf_program {s : ParseState} (h : ∀ e, s.ending ≠ .failed e) :
    faultOf (program s) = none := by
  cases hfault : faultOf (program s) with
  | none => rfl
  | some e => exact absurd ((local_program.steady s).met e hfault) (h e)

/-- A fault behind some tokens is met exactly when parsing pulls past the last of them. -/
theorem faultOf_program_iff {tokens : List Token} {ending : Ending} (hne : tokens ≠ [])
    (e : LexError) :
    faultOf (program { ahead := tokens, ending }) = some e ↔
      ending = .failed e ∧ Exhausts tokens := by
  have hkeeps := local_program.steady { ahead := tokens, ending }
  have hclosed : faultOf (program { ahead := tokens, ending := .closed }) = none :=
    faultOf_program fun e he => by cases he
  have halike : Alike [] [] { ahead := tokens, ending } { ahead := tokens, ending := .closed } :=
    ⟨⟨tokens, hne, (List.append_nil _).symm, (List.append_nil _).symm⟩, rfl, rfl⟩
  have hagree := local_program.agree halike
  unfold Exhausts
  generalize program { ahead := tokens, ending } = r at hkeeps hagree ⊢
  generalize program { ahead := tokens, ending := .closed } = r' at hclosed hagree ⊢
  constructor
  · intro hfault
    refine ⟨hkeeps.met e hfault, ?_⟩
    cases hagree with
    | ok a h => cases hfault
    | error e' h =>
      -- the same error without a fault at the end is none
      cases e' with
      | lexical e' => cases hclosed
      | syntactic e' => cases hfault
      | generation e' => cases hfault
    | past h h' =>
      rcases h' with h' | h'
      · exact absurd hclosed h'
      · exact List.length_eq_zero_iff.mp (Nat.le_zero.mp h')
  · rintro ⟨hending, hexhausts⟩
    cases hagree with
    | ok a h => exact absurd (congrArg List.length hexhausts) h.length_pos.2.ne'
    | error e' h => exact absurd (congrArg List.length hexhausts) h.length_pos.2.ne'
    | past h h' =>
      cases hfault : faultOf r with
      | some e' =>
        have hmet := hkeeps.met e' hfault
        rw [show ending = .failed e from hending] at hmet
        cases hmet
        rfl
      | none =>
        rcases h with h | h
        · exact absurd hfault h
        · exact absurd (List.length_eq_zero_iff.mp (Nat.le_zero.mp h))
            (hkeeps.pending e hending hne hfault).2

end Parse

open MicroLang.Source
open Parse (Exhausts faultOf)

/-- Once there is a first token, the errors of a text are those of the program from there on. -/
theorem parse_lexical_of_start {source : String} {s : ParseState} (e : LexError)
    (h : ParseState.start (.ofSource source) = .ok s) :
    (parse source).1 = .error (.lexical e) ↔ faultOf (Parse.program s) = some e := by
  unfold parse
  rw [h]
  dsimp only
  cases Parse.program s with
  | ok p s' => simp [faultOf]
  | error e' s' =>
    cases e' with
    | lexical e' => simp [faultOf]
    | syntactic e' => simp [faultOf]
    | generation e' => simp [faultOf]

theorem exhausts_nil : Exhausts [] :=
  List.suffix_nil.mp (Parse.local_program.steady _).suffix

/-- The lexical error of a source text is the first fault in it, if parsing gets that far. -/
theorem parse_lexical_iff (source : String) (e : LexError) :
    (parse source).1 = .error (.lexical e) ↔
      (TokenStream.ofSource source).ending = .failed e
        ∧ Exhausts (TokenStream.ofSource source).tokens := by
  cases hstream : TokenStream.ofSource source with
  | mk tokens ending =>
    cases tokens with
    | cons t ts =>
      rw [parse_lexical_of_start e (by rw [hstream]; rfl)]
      exact Parse.faultOf_program_iff (List.cons_ne_nil t ts) e
    | nil =>
      -- the first token is pulled before anything is parsed
      cases ending with
      | failed e' =>
        have hparse : (parse source).1 = .error (.lexical e') := by
          unfold parse
          rw [hstream]
          rfl
        rw [hparse]
        constructor
        · intro h
          cases h
          exact ⟨rfl, exhausts_nil⟩
        · rintro ⟨h, _⟩
          cases h
          rfl
      | finished tokens lines =>
        rw [parse_lexical_of_start e (by rw [hstream]; rfl), Parse.faultOf_program (by simp)]
        simp
      | closed =>
        rw [parse_lexical_of_start e (by rw [hstream]; rfl), Parse.faultOf_program (by simp)]
        simp

end MicroLang.Program
