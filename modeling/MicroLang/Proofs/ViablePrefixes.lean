import MicroLang.Proofs.Continuations
import MicroLang.Proofs.Refusals

/-!
# Where a syntax error is found

A phrase does not depend on what follows it, an opening parenthesis behind a name aside; so the
lexemes of a phrase are one with anything behind them (`Complete`), and a beginning of a phrase is
viable if closing lexemes make it complete (`Viable`). The parser fails only behind viable
beginnings. This is one lemma for each parser: the closing lexemes of a phrase are those of the
phrase inside it in which the parser stopped, and then its own. Where nothing has been read of a
phrase a literal closes it, so closing never opens a further expression.

That the error cannot be mended behind its token is the locality of the parser
(`local_expressionWithin`).

> `first_impossible_token`: the tokens before a syntax error can be continued to an expression, and
> the tokens up to it cannot: any continuation gives the same error.
-/

namespace MicroLang

/-- Whether a token is refused for its place, and not for its depth or for the name it follows. -/
def ParseFault.isMisplaced : ParseFault → Bool
  | .tooDeep _ | .unknownRoutine _ => false
  | _ => true

end MicroLang

namespace MicroLang.Program

open MicroLang.Source

namespace Grammar

variable {n : Nat} {phrase : Phrase} {e lhs rhs : Expr} {args : List Expr}
  {ts rest w w' : List Lexeme}

/-! ## Complete phrases -/

/-- The lexemes of a phrase, whatever follows them. Only an opening parenthesis may not, because
the last of them may be a name. -/
def Complete (n : Nat) (phrase : Phrase) (w : List Lexeme) : Prop :=
  ∀ rest, rest.head? ≠ some .leftParen → Derives n phrase (w ++ rest) rest

/-! One lemma for each rule of the grammar. -/

theorem Complete.literal (value : Nat) : Complete n (.primary (.int value)) [.literal value] :=
  fun rest _ => .literal value rest

theorem Complete.var (name : String) : Complete n (.primary (.var name)) [.identifier name] :=
  fun _ hrest => .var name hrest

theorem Complete.group (h : Complete n (.expression e) w) :
    Complete n (.primary e) (.leftParen :: (w ++ [.rightParen])) := by
  intro rest _
  rw [List.cons_append, List.append_assoc]
  exact .group (h _ (by simp))

theorem Complete.callNothing (routine : Routine) :
    Complete n (.primary (.call routine [])) [routine.lexeme, .leftParen, .rightParen] :=
  fun rest _ => .callNothing routine rest

theorem Complete.call (routine : Routine) (h : Complete n (.arguments args) w) :
    Complete n (.primary (.call routine args)) (routine.lexeme :: .leftParen :: w) :=
  fun rest hrest => .call routine (h rest hrest)

theorem Complete.single (h : Complete n (.primary e) w) : Complete (n + 1) (.expression e) w :=
  fun rest hrest => .single (h rest hrest)

theorem Complete.operator (op : Operator) (hlhs : Complete (n + 1) (.expression lhs) w)
    (hrhs : Complete n (.primary rhs) w') :
    Complete (n + 1) (.expression (.binary op lhs rhs)) (w ++ op.lexeme :: w') := by
  intro rest hrest
  have hop : op.lexeme ≠ .leftParen := by cases op <;> decide
  rw [List.append_assoc, List.cons_append]
  exact .operator op (hlhs _ (by simpa using hop)) (hrhs rest hrest)

theorem Complete.lastArgument (h : Complete n (.expression e) w) :
    Complete n (.arguments [e]) (w ++ [.rightParen]) := by
  intro rest _
  rw [List.append_assoc]
  exact .lastArgument (h _ (by simp))

theorem Complete.argument (h : Complete n (.expression e) w)
    (hargs : Complete n (.arguments args) w') :
    Complete n (.arguments (e :: args)) (w ++ .comma :: w') := by
  intro rest hrest
  rw [List.append_assoc, List.cons_append]
  exact .argument (h _ (by simp)) (hargs rest hrest)

/-- What is derived before some lexemes is a complete phrase. -/
theorem Derives.complete (h : Derives n phrase ts rest) :
    ∃ w, ts = w ++ rest ∧ Complete n phrase w := by
  induction h with
  | literal value rest => exact ⟨_, rfl, .literal value⟩
  | var name _ => exact ⟨_, rfl, .var name⟩
  | group _ ih =>
    obtain ⟨w, rfl, hw⟩ := ih
    exact ⟨_, by simp, hw.group⟩
  | callNothing routine rest => exact ⟨_, rfl, .callNothing routine⟩
  | call routine _ ih =>
    obtain ⟨w, rfl, hw⟩ := ih
    exact ⟨_, rfl, hw.call routine⟩
  | single _ ih =>
    obtain ⟨w, rfl, hw⟩ := ih
    exact ⟨_, rfl, hw.single⟩
  | operator op _ _ ihl ihr =>
    obtain ⟨w, rfl, hw⟩ := ihl
    obtain ⟨w', rfl, hw'⟩ := ihr
    exact ⟨_, by simp, hw.operator op hw'⟩
  | lastArgument _ ih =>
    obtain ⟨w, rfl, hw⟩ := ih
    exact ⟨_, by simp, hw.lastArgument⟩
  | argument _ _ ih ihargs =>
    obtain ⟨w, rfl, hw⟩ := ih
    obtain ⟨w', rfl, hw'⟩ := ihargs
    exact ⟨_, by simp, hw.argument hw'⟩

/-- No rule has a lexeme for the end of the input. -/
theorem Derives.eof_mem (h : Derives n phrase ts rest) (hmem : .eof ∈ ts) : .eof ∈ rest := by
  have hroutine : ∀ routine : Routine, .eof ≠ routine.lexeme := by
    intro routine
    cases routine <;> decide
  have hop : ∀ op : Operator, .eof ≠ op.lexeme := by
    intro op
    cases op <;> decide
  induction h with
  | literal value rest => exact List.mem_of_ne_of_mem (by simp) hmem
  | var name _ => exact List.mem_of_ne_of_mem (by simp) hmem
  | group _ ih =>
    have hrest := ih (List.mem_of_ne_of_mem (by simp) hmem)
    exact List.mem_of_ne_of_mem (by simp) hrest
  | callNothing routine rest =>
    have hparens := List.mem_of_ne_of_mem (hroutine routine) hmem
    exact List.mem_of_ne_of_mem (by simp) (List.mem_of_ne_of_mem (by simp) hparens)
  | call routine _ ih =>
    have hparens := List.mem_of_ne_of_mem (hroutine routine) hmem
    exact ih (List.mem_of_ne_of_mem (by simp) hparens)
  | single _ ih => exact ih hmem
  | operator op _ _ ihl ihr => exact ihr (List.mem_of_ne_of_mem (hop op) (ihl hmem))
  | lastArgument _ ih => exact List.mem_of_ne_of_mem (by simp) (ih hmem)
  | argument _ _ ih ihargs => exact ihargs (List.mem_of_ne_of_mem (by simp) (ih hmem))

theorem Complete.eof_not_mem (h : Complete n phrase w) : .eof ∉ w := by
  intro hmem
  have hderives := h [] (by simp)
  rw [List.append_nil] at hderives
  exact absurd (hderives.eof_mem hmem) List.not_mem_nil

/-! ## Beginnings of phrases -/

/-- Closing lexemes make a phrase of the lexemes. -/
def Viable {α : Type} (n : Nat) (phrase : α → Phrase) (w : List Lexeme) : Prop :=
  ∃ a closing, Complete n (phrase a) (w ++ closing)

/-- Where a primary is missing, a literal makes one. -/
theorem viable_nil : Viable n .primary [] :=
  ⟨_, [.literal 0], .literal 0⟩

theorem viable_routine (routine : Routine) : Viable n .primary [routine.lexeme] :=
  ⟨_, [.leftParen, .rightParen], .callNothing routine⟩

theorem Viable.group (h : Viable n .expression w) : Viable n .primary (.leftParen :: w) := by
  obtain ⟨e, closing, hw⟩ := h
  refine ⟨e, closing ++ [.rightParen], ?_⟩
  rw [List.cons_append, ← List.append_assoc]
  exact hw.group

theorem Viable.call (routine : Routine) (h : Viable n .arguments w) :
    Viable n .primary (routine.lexeme :: .leftParen :: w) := by
  obtain ⟨args, closing, hw⟩ := h
  exact ⟨_, closing, hw.call routine⟩

theorem Viable.single (h : Viable n .primary w) : Viable (n + 1) .expression w := by
  obtain ⟨e, closing, hw⟩ := h
  exact ⟨e, closing, hw.single⟩

theorem Viable.operator (op : Operator) (hlhs : Complete (n + 1) (.expression lhs) w)
    (h : Viable n .primary w') : Viable (n + 1) .expression (w ++ op.lexeme :: w') := by
  obtain ⟨rhs, closing, hw'⟩ := h
  refine ⟨.binary op lhs rhs, closing, ?_⟩
  rw [List.append_assoc, List.cons_append]
  exact hlhs.operator op hw'

theorem Viable.lastArgument (h : Viable n .expression w) : Viable n .arguments w := by
  obtain ⟨e, closing, hw⟩ := h
  refine ⟨[e], closing ++ [.rightParen], ?_⟩
  rw [← List.append_assoc]
  exact hw.lastArgument

theorem Viable.argument (harg : Complete n (.expression e) w) (h : Viable n .arguments w') :
    Viable n .arguments (w ++ .comma :: w') := by
  obtain ⟨args, closing, hw'⟩ := h
  refine ⟨e :: args, closing, ?_⟩
  rw [List.append_assoc, List.cons_append]
  exact harg.argument hw'

/-- A complete phrase needs nothing to close it. -/
theorem Complete.viable {α : Type} {phrase : α → Phrase} {a : α} (h : Complete n (phrase a) w) :
    Viable n phrase w :=
  ⟨a, [], by rwa [List.append_nil]⟩

end Grammar

/-! ## Where the parsers stop -/

open MicroLang.Sequencing
open Grammar (Derives Complete Viable viable_nil viable_routine)

section

variable {s mid s' : ParseState} {w w' : List Lexeme} {e : ParseError}
  {viable viable' : List Lexeme → Prop}

/-- Some lexemes are consumed from one state to another. -/
structure Passes (s : ParseState) (w : List Lexeme) (s' : ParseState) : Prop where
  lexemes : s.lexemes = w ++ s'.lexemes
  within : ∀ {stream : TokenStream}, Within stream s → Within stream s'

theorem Passes.refl (s : ParseState) : Passes s [] s :=
  ⟨rfl, fun h => h⟩

theorem Passes.trans (h : Passes s w mid) (h' : Passes mid w' s') : Passes s (w ++ w') s' where
  lexemes := by rw [h.lexemes, h'.lexemes, List.append_assoc]
  within := fun hs => h'.within (h.within hs)

theorem Passes.length_eq (h : Passes s w s') : s.ahead.length = w.length + s'.ahead.length := by
  rw [← ParseState.length_lexemes, h.lexemes, List.length_append, ParseState.length_lexemes]

/-- A parser has stopped at the token of its error, behind lexemes that are viable for it. -/
structure Stops (viable : List Lexeme → Prop) (s : ParseState) (e : ParseError) (s' : ParseState) :
    Prop where
  token : e.token = s'.current
  behind : ∃ w, Passes s w s' ∧ viable w

/-- What a parser consumes before another one stops. -/
theorem Stops.after (h : Stops viable mid e s') (hpasses : Passes s w mid)
    (hviable : ∀ {w'}, viable w' → viable' (w ++ w')) : Stops viable' s e s' := by
  obtain ⟨htoken, w', hpasses', hw'⟩ := h
  exact ⟨htoken, w ++ w', hpasses.trans hpasses', hviable hw'⟩

theorem Stops.mono (h : Stops viable s e s') (hviable : ∀ {w}, viable w → viable' w) :
    Stops viable' s e s' :=
  h.after (.refl s) hviable

end

namespace Parse

open ParseState

section

variable {α : Type} {n k : Nat} {s s' : ParseState} {e : ParseError} {t : Token}

theorem passes_advance (h : advance s = .ok t s') (hne : s.current.lexeme ≠ .eof) :
    Passes s [s.current.lexeme] s' where
  lexemes := advance_sound h hne
  within := fun hs => (refuses_advance.ok hs h).1

theorem passes_expect (y : Lexeme) {what : String} (h : expect y.kind what s = .ok t s')
    (hy : y.kind ∉ variedKinds) : Passes s [y] s' where
  lexemes := expect_sound y h hy
  within := by
    intro stream hs
    unfold expect at h
    rw [current_bind] at h
    split at h
    · exact (refuses_advance.ok hs h).1
    · cases h

/-- A parser that reads a phrase passes the lexemes of a complete one. -/
theorem exists_passes {phrase : α → Grammar.Phrase} {x : Parse α} {a : α}
    (hrefuses : ∀ stream, Refuses stream x) (h : x s = .ok a s')
    (hderives : Derives n (phrase a) s.lexemes s'.lexemes) :
    ∃ w, Passes s w s' ∧ Complete n (phrase a) w := by
  obtain ⟨w, hlexemes, hw⟩ := hderives.complete
  exact ⟨w, ⟨hlexemes, fun hs => ((hrefuses _).ok hs h).1⟩, hw⟩

theorem exists_passes_expression {tree : Expr} (h : expressionWithin n s = .ok tree s') :
    ∃ w, Passes s w s' ∧ Complete n (.expression tree) w :=
  exists_passes (fun _ => refuses_expressionWithin n) h (expressionWithin_sound n s s' tree h)

theorem exists_passes_primary {tree : Expr}
    (h : primaryWith (expressionWithin n) s = .ok tree s') :
    ∃ w, Passes s w s' ∧ Complete n (.primary tree) w :=
  exists_passes (fun _ => refuses_primaryWith (refuses_expressionWithin n)) h
    (primaryWith_sound (expressionWithin_sound n) h)

/-- Consuming a token fails only at a fault of the text. -/
theorem advance_ne_error : advance s ≠ .error (.syntactic e) s' := by
  intro h
  unfold advance at h
  split at h
  · cases h
  · split at h
    · cases h
    · cases h
  · cases h

theorem expect_eq_error {kind : TokenKind} {what : String}
    (h : expect kind what s = .error (.syntactic e) s') : s' = s ∧ e.token = s.current := by
  unfold expect at h
  rw [current_bind] at h
  split at h
  · exact absurd h advance_ne_error
  · cases h
    exact ⟨rfl, rfl⟩

/-- Where a parser refuses a misplaced token, it has read a viable beginning of its phrase. -/
def StopsViably (n : Nat) (phrase : α → Grammar.Phrase) (x : Parse α) : Prop :=
  ∀ {s : ParseState} {e : ParseError} {s' : ParseState}, x s = .error (.syntactic e) s' →
    e.fault.isMisplaced = true → Stops (Viable n phrase) s e s'

/-- The loop has a turn for each token ahead, so it does not stop for want of turns. -/
theorem stops_argumentLoop (hinner : StopsViably n .expression (expressionWithin n))
    (hk : s.ahead.length < k)
    (h : argumentLoop (expressionWithin n) k s = .error (.syntactic e) s')
    (hfault : e.fault.isMisplaced = true) : Stops (Viable n .arguments) s e s' := by
  induction k generalizing s with
  | zero => omega
  | succ k ih =>
    rw [argumentLoop_succ] at h
    rcases bind_eq_error.mp h with herror | ⟨arg, s₁, harg, h⟩
    · exact (hinner herror hfault).mono Viable.lastArgument
    obtain ⟨w, hpasses, hw⟩ := exists_passes_expression harg
    unfold argumentTail at h
    rw [current_bind] at h
    split at h
    · rcases bind_eq_error.mp h with herror | ⟨_, _, _, h⟩
      · exact absurd herror advance_ne_error
      · cases h
    rcases bind_eq_error.mp h with herror | ⟨_, s₂, hcomma, h⟩
    · obtain ⟨rfl, htoken⟩ := expect_eq_error herror
      exact ⟨htoken, w, hpasses, hw.viable.lastArgument⟩
    rcases bind_eq_error.mp h with herror | ⟨_, _, _, h⟩
    · have hpasses' := hpasses.trans (passes_expect .comma hcomma (by decide))
      have hlength := hpasses'.length_eq
      rw [List.length_append, List.length_singleton] at hlength
      refine (ih (by omega) herror).after hpasses' ?_
      intro w' hw'
      rw [List.append_assoc]
      exact .argument hw hw'
    · cases h

theorem stops_callWith (hinner : StopsViably n .expression (expressionWithin n)) (routine : Routine)
    (hroutine : s.current.lexeme = routine.lexeme)
    (h : callWith (expressionWithin n) routine s = .error (.syntactic e) s')
    (hfault : e.fault.isMisplaced = true) : Stops (Viable n .primary) s e s' := by
  unfold callWith at h
  rcases bind_eq_error.mp h with herror | ⟨_, s₁, hadvance, h⟩
  · exact absurd herror advance_ne_error
  have hname := passes_advance hadvance (by rw [hroutine]; cases routine <;> decide)
  rw [hroutine] at hname
  rcases bind_eq_error.mp h with herror | ⟨_, s₂, hleft, h⟩
  · obtain ⟨rfl, htoken⟩ := expect_eq_error herror
    exact ⟨htoken, _, hname, viable_routine routine⟩
  have hopen := hname.trans (passes_expect .leftParen hleft (by decide))
  rcases bind_eq_error.mp h with hargs | ⟨_, _, _, h⟩
  · unfold argumentsWith at hargs
    rw [current_bind] at hargs
    split at hargs
    · rcases bind_eq_error.mp hargs with herror | ⟨_, _, _, h⟩
      · exact absurd herror advance_ne_error
      · cases h
    · exact (stops_argumentLoop hinner (Nat.lt_succ_self _) hargs hfault).after hopen
        (Viable.call routine)
  · cases h

theorem stopsViably_primaryWith (hinner : StopsViably n .expression (expressionWithin n)) :
    StopsViably n .primary (primaryWith (expressionWithin n)) := by
  intro s e s' h hfault
  unfold primaryWith at h
  rw [current_bind] at h
  cases hcurrent : s.current.lexeme with
  | identifier name =>
    simp only [hcurrent] at h
    rcases bind_eq_error.mp h with herror | ⟨_, s₁, _, h⟩
    · exact absurd herror advance_ne_error
    rw [current_bind] at h
    split at h
    · -- an opening parenthesis behind a name is not refused for its place
      cases h
      cases hfault
    · cases h
  | readKw =>
    simp only [hcurrent] at h
    exact stops_callWith hinner .read hcurrent h hfault
  | writeKw =>
    simp only [hcurrent] at h
    exact stops_callWith hinner .write hcurrent h hfault
  | literal value =>
    simp only [hcurrent] at h
    rcases bind_eq_error.mp h with herror | ⟨_, _, _, h⟩
    · exact absurd herror advance_ne_error
    · cases h
  | leftParen =>
    simp only [hcurrent] at h
    rcases bind_eq_error.mp h with herror | ⟨_, s₁, hadvance, h⟩
    · exact absurd herror advance_ne_error
    have hopen := passes_advance hadvance (by rw [hcurrent]; decide)
    rw [hcurrent] at hopen
    rcases bind_eq_error.mp h with herror | ⟨tree, s₂, hgroup, h⟩
    · exact (hinner herror hfault).after hopen Viable.group
    obtain ⟨w, hpasses, hw⟩ := exists_passes_expression hgroup
    rcases bind_eq_error.mp h with herror | ⟨_, _, _, h⟩
    · obtain ⟨rfl, htoken⟩ := expect_eq_error herror
      exact ⟨htoken, _, hopen.trans hpasses, hw.viable.group⟩
    · cases h
  | _ =>
    simp only [hcurrent] at h
    cases h
    exact ⟨rfl, [], .refl s, viable_nil⟩

/-- Behind an expression the loop stops inside the operand of a further operator. -/
theorem stops_chainLoop (hoperand : StopsViably n .primary (primaryWith (expressionWithin n)))
    {lhs : Expr} {before : List Lexeme} (hlhs : Complete (n + 1) (.expression lhs) before)
    (h : chainLoop (primaryWith (expressionWithin n)) k lhs s = .error (.syntactic e) s')
    (hfault : e.fault.isMisplaced = true) :
    Stops (fun w => Viable (n + 1) .expression (before ++ w)) s e s' := by
  induction k generalizing s lhs before with
  | zero => cases h
  | succ k ih =>
    rw [chainLoop.eq_2, current_bind] at h
    cases hop : operator? s.current.lexeme with
    | none =>
      rw [hop] at h
      cases h
    | some op =>
      rw [hop] at h
      have hcurrent := operator?_eq_some hop
      rcases bind_eq_error.mp h with herror | ⟨_, s₁, hadvance, h⟩
      · exact absurd herror advance_ne_error
      have hpasses := passes_advance hadvance (by rw [hcurrent]; exact lexeme_ne_eof op)
      rw [hcurrent] at hpasses
      rcases bind_eq_error.mp h with herror | ⟨rhs, s₂, hrhs, h⟩
      · exact (hoperand herror hfault).after hpasses (Viable.operator op hlhs)
      obtain ⟨w, hpasses', hw⟩ := exists_passes_primary hrhs
      refine (ih (hlhs.operator op hw) h).after (hpasses.trans hpasses') ?_
      intro w' hw'
      rw [← List.append_assoc]
      exact hw'

theorem stopsViably_expressionWithin (n : Nat) :
    StopsViably n .expression (expressionWithin n) := by
  induction n with
  | zero =>
    -- the expression that is one too many is refused for its depth
    intro s e s' h hfault
    cases h
    cases hfault
  | succ n ih =>
    intro s e s' h hfault
    have hprimary : StopsViably n .primary (primaryWith (expressionWithin n)) :=
      stopsViably_primaryWith ih
    rw [expressionWithin.eq_2] at h
    rcases bind_eq_error.mp h with herror | ⟨lhs, s₁, hlhs, h⟩
    · exact (hprimary herror hfault).mono Viable.single
    obtain ⟨w, hpasses, hw⟩ := exists_passes_primary hlhs
    unfold chain at h
    rw [tokensAhead_bind] at h
    exact (stops_chainLoop hprimary hw.single h hfault).after hpasses fun hw' => hw'

end

end Parse

/-! ## The first impossible token -/

open Parse (Alike Local expression)

/-- The current token of a reached state is the one at its place, or the end of the input. -/
theorem Within.exists_place {ts : List Token} {ending : Ending} {s : ParseState}
    (h : Within ⟨ts, ending⟩ s) :
    ∃ front, ts = front ++ s.ahead
      ∧ s.current = ts[front.length]?.getD (.eofAfter ts.getLast?) := by
  obtain ⟨front, htokens, hlast⟩ := h.tokens
  dsimp only at htokens
  refine ⟨front, htokens, ?_⟩
  unfold ParseState.current
  rw [htokens, List.getElem?_append_right (Nat.le_refl _), Nat.sub_self, ← List.head?_eq_getElem?]
  cases hahead : s.ahead with
  | nil =>
    rw [hlast, List.append_nil]
  | cons t back => rfl

/-- Tokens of a complete expression are read to the last one, if no fault follows. -/
theorem expression_of_complete {tree : Expr} {ts : List Token} {ending : Ending}
    (hcomplete : Complete Parse.maxNesting (.expression tree) (ts.map Token.lexeme))
    (hending : ∀ f, ending ≠ .failed f) :
    ∃ s s', ParseState.start ⟨ts, ending⟩ = .ok s ∧ expression s = .ok tree s' ∧ s'.ahead = [] := by
  obtain ⟨s, hstart, hnoFault⟩ := Parse.start_eq_ok ts hending
  have hlexemes : s.lexemes = ts.map Token.lexeme :=
    congrArg (List.map Token.lexeme) (ParseState.ahead_of_start hstart)
  have hclean : s.Clean := ⟨by rw [hlexemes]; exact hcomplete.eof_not_mem, hnoFault⟩
  have hderives := hcomplete [] (by simp)
  rw [List.append_nil, ← hlexemes] at hderives
  obtain ⟨s', _, hnil, hreads⟩ := Parse.reads_of_derives hderives hclean rfl
  exact ⟨s, s', hstart, hreads.eq_ok hnil (by simp), List.map_eq_nil_iff.mp hnil⟩

/-- An error at a token does not depend on what follows the token. -/
theorem Parse.Local.error_behind {α : Type} {x : Parse α} (hx : Local x) {t : Token}
    {back back' : List Token} {s s' s₁ : ParseState} {e : ParseError}
    (halike : Alike back back' s s₁) (h : x s = .error (.syntactic e) s')
    (hahead : s'.ahead = t :: back) :
    ∃ s₂, x s₁ = .error (.syntactic e) s₂ ∧ s₂.ahead = t :: back' := by
  have hagree := hx.agree halike
  generalize x s₁ = r at hagree ⊢
  rw [h] at hagree
  cases hagree with
  | @error _ _ s₂ hlast =>
    obtain ⟨front, _, hs', hs₂⟩ := hlast.ahead
    have hfront : [t] ++ back = front ++ back := hahead.symm.trans hs'
    rw [← List.append_cancel_right hfront] at hs₂
    exact ⟨s₂, rfl, hs₂⟩
  | past hpast _ =>
    -- the token is still ahead, so the point behind it has not been passed
    rcases hpast with hfault | hlength
    · exact absurd rfl hfault
    · have hle : s'.ahead.length ≤ back.length := hlength
      rw [hahead] at hle
      exact absurd hle (Nat.not_succ_le_self _)

/-- With the token of an error, every continuation gives the same error there. -/
theorem same_error_behind {ts front : List Token} {ending : Ending} {s s' : ParseState}
    {e : ParseError} (hstart : ParseState.start ⟨ts, ending⟩ = .ok s)
    (h : expression s = .error (.syntactic e) s') (htoken : e.token = s'.current)
    (hts : ts = front ++ s'.ahead) (hlt : front.length < ts.length) (more : List Token)
    (ending' : Ending) :
    ∃ s₁ s₂, ParseState.start ⟨ts.take (front.length + 1) ++ more, ending'⟩ = .ok s₁
      ∧ expression s₁ = .error (.syntactic e) s₂ ∧ s₂.ahead = e.token :: more := by
  have hne : s'.ahead ≠ [] := by
    intro hnil
    rw [hts, hnil, List.append_nil] at hlt
    exact absurd hlt (Nat.lt_irrefl _)
  obtain ⟨t, back, hahead⟩ := List.exists_cons_of_ne_nil hne
  have ht : s'.current = t := by
    unfold ParseState.current
    rw [hahead]
    rfl
  rw [hahead] at hts
  have hs : s = { ahead := front ++ t :: back, ending } :=
    Except.ok.inj (hstart.symm.trans (start_of_tokens (by rw [hts])))
  have htake : ts.take (front.length + 1) ++ more = front ++ t :: more := by
    rw [hts, List.append_cons, List.take_left' (by simp), List.append_assoc]
    rfl
  rw [hs] at h
  obtain ⟨s₂, herror, hahead₂⟩ := (Parse.local_expressionWithin Parse.maxNesting).error_behind
    (alike_behind t front back more ending ending') h hahead
  rw [htake, htoken, ht]
  exact ⟨_, s₂, start_of_tokens rfl, herror, hahead₂⟩

/-- Tokens whose lexemes are viable have a continuation with which they are read as an expression,
to the last one. -/
theorem exists_continuation {ts : List Token}
    (h : Viable Parse.maxNesting .expression (ts.map Token.lexeme)) :
    ∃ more, ∀ ending, (∀ f, ending ≠ .failed f) → ∃ s tree s',
      ParseState.start ⟨ts ++ more, ending⟩ = .ok s ∧ expression s = .ok tree s'
        ∧ s'.ahead = [] := by
  obtain ⟨tree, closing, hcomplete⟩ := h
  refine ⟨closing.map fun x => ⟨x, 1, 1, 0⟩, ?_⟩
  intro ending hending
  have hlexemes : (ts ++ closing.map fun x => (⟨x, 1, 1, 0⟩ : Token)).map Token.lexeme
      = ts.map Token.lexeme ++ closing := by
    rw [List.map_append, List.map_map]
    exact congrArg _ (List.map_id closing)
  rw [← hlexemes] at hcomplete
  obtain ⟨s, s', hstart, hread, hnil⟩ := expression_of_complete hcomplete hending
  exact ⟨s, tree, s', hstart, hread, hnil⟩

/-- An expression fails at the first token that cannot stand at its place, if that is not refused
for its depth or for the name before it. The tokens before it can be continued so that all are read
as an expression; with the token, every continuation gives the same error there. -/
theorem first_impossible_token {ts : List Token} {ending : Ending} {s s' : ParseState}
    {e : ParseError} (hstart : ParseState.start ⟨ts, ending⟩ = .ok s)
    (h : expression s = .error (.syntactic e) s') (hfault : e.fault.isMisplaced = true) :
    ∃ k ≤ ts.length, s'.ahead = ts.drop k ∧ e.token = ts[k]?.getD (.eofAfter ts.getLast?)
      ∧ (∃ more, ∀ ending', (∀ f, ending' ≠ .failed f) → ∃ s₁ tree s₂,
        ParseState.start ⟨ts.take k ++ more, ending'⟩ = .ok s₁ ∧ expression s₁ = .ok tree s₂
          ∧ s₂.ahead = [])
      ∧ (k < ts.length → ∀ more ending', ∃ s₁ s₂,
        ParseState.start ⟨ts.take (k + 1) ++ more, ending'⟩ = .ok s₁
          ∧ expression s₁ = .error (.syntactic e) s₂ ∧ s₂.ahead = e.token :: more) := by
  obtain ⟨htoken, w, hpasses, hviable⟩ :=
    Parse.stopsViably_expressionWithin Parse.maxNesting h hfault
  obtain ⟨front, hts, hplace⟩ := (hpasses.within (within_start hstart)).exists_place
  have hw : w = front.map Token.lexeme := by
    have hlexemes := hpasses.lexemes
    unfold ParseState.lexemes at hlexemes
    rw [ParseState.ahead_of_start hstart, hts, List.map_append] at hlexemes
    exact (List.append_cancel_right hlexemes).symm
  refine ⟨front.length, ?_, ?_, htoken.trans hplace, ?_, ?_⟩
  · rw [hts, List.length_append]
    exact Nat.le_add_right _ _
  · rw [hts, List.drop_left]
  · rw [hts, List.take_left]
    exact exists_continuation (hw ▸ hviable)
  · exact fun hlt => same_error_behind hstart h htoken hts hlt

/-- The tokens of `1 + (2, 3)`. -/
def strayComma : List Token :=
  [⟨.literal 1, 1, 1, 1⟩, ⟨.plus, 1, 3, 1⟩, ⟨.leftParen, 1, 5, 1⟩, ⟨.literal 2, 1, 6, 1⟩,
    ⟨.comma, 1, 7, 1⟩, ⟨.literal 3, 1, 9, 1⟩, ⟨.rightParen, 1, 10, 1⟩]

/-- The comma in `1 + (2, 3)` is refused, `1 + (2` can be continued, and `1 + (2,` cannot. -/
theorem first_impossible_token_comma :
    ∃ s', expression { ahead := strayComma, ending := .closed }
        = .error (.syntactic ⟨.expected "')'", ⟨.comma, 1, 7, 1⟩⟩) s'
      ∧ (∃ more s₁ tree s₂, ParseState.start ⟨strayComma.take 4 ++ more, .closed⟩ = .ok s₁
        ∧ expression s₁ = .ok tree s₂ ∧ s₂.ahead = [])
      ∧ ∀ more ending', ∃ s₁ s₂, ParseState.start ⟨strayComma.take 5 ++ more, ending'⟩ = .ok s₁
        ∧ expression s₁ = .error (.syntactic ⟨.expected "')'", ⟨.comma, 1, 7, 1⟩⟩) s₂
        ∧ s₂.ahead = ⟨.comma, 1, 7, 1⟩ :: more := by
  have herror : expression { ahead := strayComma, ending := .closed }
      = .error (.syntactic ⟨.expected "')'", ⟨.comma, 1, 7, 1⟩⟩)
        { ahead := strayComma.drop 4, ending := .closed, last := some ⟨.literal 2, 1, 6, 1⟩ } := rfl
  have hstart : ParseState.start ⟨strayComma, .closed⟩
      = .ok { ahead := strayComma, ending := .closed } := rfl
  obtain ⟨k, hk, hahead, _, hviable, hhopeless⟩ := first_impossible_token hstart herror rfl
  have hfour : k = 4 := by
    have hlength := congrArg List.length hahead
    rw [List.length_drop, List.length_drop] at hlength
    have hseven : strayComma.length = 7 := rfl
    omega
  rw [hfour] at hviable hhopeless
  obtain ⟨more, hmore⟩ := hviable
  exact ⟨_, herror, ⟨more, hmore .closed (by simp)⟩, hhopeless (by decide)⟩

end MicroLang.Program
