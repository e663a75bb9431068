import MicroLang.Proofs.Operands
import MicroLang.Proofs.Positions
import MicroLang.Proofs.SourceParsing

/-!
# What is refused

A syntax error names a token. It is a token of the source text, or the end of the input right behind
the last one, and then the whole text could be cut into tokens (`Met`). The parsers keep track of
this by an invariant of the state (`Within`): what is ahead is the end of the stream, and what was
consumed last stands right before it.

The messages of these errors are texts of one line (`OneLine`), because names and unexpected
characters are quoted in them, and numbers and words are free of line feeds.

> `refused_of_parse`: the token of a syntax error has been met, and its message is one line.
-/

namespace MicroLang.Source

open MicroLang.Text
open Position (endsLine)

/-! ## Texts of one line -/

/-- A text without line feeds. -/
def OneLine (text : List Char) : Prop :=
  ∀ c ∈ text, endsLine c = false

instance (text : List Char) : Decidable (OneLine text) :=
  inferInstanceAs (Decidable (∀ c ∈ text, endsLine c = false))

section

variable {text more : List Char}

theorem oneLine_append : OneLine (text ++ more) ↔ OneLine text ∧ OneLine more :=
  List.forall_mem_append

theorem oneLine_toList_append {s s' : String} :
    OneLine (s ++ s').toList ↔ OneLine s.toList ∧ OneLine s'.toList := by
  rw [String.toList_append]
  exact oneLine_append

theorem oneLine_of_ne {c : Char} (h : c ≠ '\n') : endsLine c = false :=
  beq_false_of_ne h

theorem oneLine_of_mem_class {p : Char → Bool} (hp : p '\n' = false)
    (h : ∀ c ∈ text, p c = true) : OneLine text := by
  intro c hc
  refine oneLine_of_ne ?_
  rintro rfl
  rw [h _ hc] at hp
  cases hp

theorem oneLine_toString (n : Int) : OneLine (toString n).toList := by
  rw [Numeral.toList_toString, oneLine_append]
  constructor
  · split
    · decide
    · decide
  · exact oneLine_of_mem_class rfl Numeral.isDigit_of_mem_toDigits

theorem oneLine_repr (n : Nat) : OneLine (toString n).toList :=
  oneLine_toString n

theorem oneLine_hexDigits (n : Nat) : OneLine (Nat.toDigits 16 n) := by
  have hdigit : ∀ d < 16, endsLine (Nat.digitChar d) = false := by decide
  intro c hc
  obtain ⟨d, hd, rfl⟩ := Numeral.exists_digit_of_mem_toDigits (by decide) hc
  exact hdigit d hd

theorem oneLine_hexPadded (width n : Nat) : OneLine (hexPadded width n) := by
  refine oneLine_append.mpr ⟨?_, oneLine_hexDigits n⟩
  intro c hc
  rw [List.eq_of_mem_replicate hc]
  rfl

theorem oneLine_escapeChar {quote : Char} (hquote : quote ≠ '\n') (c : Char) :
    OneLine (escapeChar quote c) := by
  have hcons : ∀ {c : Char} {cs : List Char}, c ≠ '\n' → OneLine cs → OneLine (c :: cs) :=
    fun hc hcs => List.forall_mem_cons.mpr ⟨oneLine_of_ne hc, hcs⟩
  have hnil : OneLine [] := fun c hc => nomatch hc
  unfold escapeChar
  by_cases hescape : (c == quote || c == '\\') = true
  · rw [if_pos hescape]
    refine hcons (by decide) (hcons ?_ hnil)
    rintro rfl
    rcases Bool.or_eq_true_iff.mp hescape with h | h
    · exact hquote (beq_iff_eq.mp h).symm
    · cases h
  rw [if_neg hescape]
  split
  · decide
  rename_i hfeed
  split
  · decide
  split
  · decide
  split
  · refine hcons ?_ hnil
    rintro rfl
    exact hfeed rfl
  split
  · exact hcons (by decide) (hcons (by decide) (oneLine_hexPadded _ _))
  split
  · exact hcons (by decide) (hcons (by decide) (oneLine_hexPadded _ _))
  · exact hcons (by decide) (hcons (by decide) (oneLine_hexPadded _ _))

/-- Between quotes a line feed is an escape. -/
theorem oneLine_quoted (text : String) : OneLine (quoted text).toList := by
  have hquote : quoteFor text.toList ≠ '\n' := by
    unfold quoteFor
    split
    · decide
    · decide
  unfold quoted
  rw [String.toList_ofList]
  intro c hc
  rcases List.mem_append.mp hc with hc | hc
  · rcases List.mem_cons.mp hc with rfl | hc
    · exact oneLine_of_ne hquote
    · obtain ⟨d, _, hd⟩ := List.mem_flatMap.mp hc
      exact oneLine_escapeChar hquote d c hd
  · rw [List.mem_singleton.mp hc]
    exact oneLine_of_ne hquote

end

end MicroLang.Source

namespace MicroLang.Program

open MicroLang.Source
open MicroLang.Sequencing

/-! ## Tokens that are met -/

/-- A token of a stream, or the end of the input behind a stream without a fault. -/
def Met (stream : TokenStream) (t : Token) : Prop :=
  t ∈ stream.tokens
    ∨ t = .eofAfter stream.tokens.getLast? ∧ ∀ e, stream.ending ≠ .failed e

/-- A state that is reached from the start of a stream: the tokens that are not ahead have been
consumed, and all of them only if no fault follows. -/
structure Within (stream : TokenStream) (s : ParseState) : Prop where
  tokens : ∃ consumed, stream.tokens = consumed ++ s.ahead ∧ s.last = consumed.getLast?
  ending : s.ahead ≠ [] → s.ending = stream.ending
  finished : s.ahead = [] → ∀ e, stream.ending ≠ .failed e

variable {stream : TokenStream} {s : ParseState}

theorem within_start (h : ParseState.start stream = .ok s) : Within stream s := by
  obtain ⟨tokens, ending⟩ := stream
  cases tokens with
  | nil =>
    cases ending with
    | failed e => cases h
    | finished count lines =>
      cases h
      exact ⟨⟨[], rfl, rfl⟩, fun hne => absurd rfl hne, fun _ e he => nomatch he⟩
    | closed =>
      cases h
      exact ⟨⟨[], rfl, rfl⟩, fun hne => absurd rfl hne, fun _ e he => nomatch he⟩
  | cons t ts =>
    cases h
    exact ⟨⟨[], rfl, rfl⟩, fun _ => rfl, fun hnil => nomatch hnil⟩

theorem Within.current (h : Within stream s) : Met stream s.current := by
  obtain ⟨consumed, htokens, hlast⟩ := h.tokens
  unfold ParseState.current
  cases hahead : s.ahead with
  | nil =>
    right
    rw [hahead, List.append_nil] at htokens
    refine ⟨?_, h.finished hahead⟩
    rw [htokens, hlast]
    rfl
  | cons t rest =>
    left
    rw [htokens, hahead]
    exact List.mem_append_right _ List.mem_cons_self

/-- What a parser may fail with: a fault of the text, or a token that was met and a message of one
line. -/
def Refused (stream : TokenStream) : CompileError → Prop
  | .lexical _ => True
  | .syntactic e => Met stream e.token ∧ OneLine e.fault.message.toList
  | .generation _ => False

namespace Parse

/-- A parser that refuses only tokens it has met. -/
abbrev Refuses {α : Type} (stream : TokenStream) (x : Parse α) : Prop :=
  Meets (Within stream) (fun _ => True) (Refused stream) x

section

variable {α : Type}

theorem meets_current : Meets (Within stream) (Met stream) (Refused stream) current where
  ok := by
    intro s t s' hs h
    cases h
    exact ⟨hs, hs.current⟩
  error := by
    intro s e s' _ h
    cases h

theorem refuses_tokensAhead : Refuses stream tokensAhead where
  ok := by
    intro s n s' hs h
    cases h
    exact ⟨hs, trivial⟩
  error := by
    intro s e s' _ h
    cases h

theorem refuses_fail {fault : ParseFault} {t : Token} (hmessage : OneLine fault.message.toList)
    (ht : Met stream t) : Refuses stream (fail fault t : Parse α) :=
  meets_throw ⟨ht, hmessage⟩

theorem refuses_report (event : Event) : Refuses stream (report event) :=
  meets_modify (fun _ hs => ⟨hs.tokens, hs.ending, hs.finished⟩) trivial

/-- One token more has been consumed; the last one is consumed only if no fault follows it. -/
theorem within_advance {t : Token} {s' : ParseState} (hs : Within stream s)
    (h : advance s = .ok t s') : Within stream s' := by
  obtain ⟨consumed, htokens, hlast⟩ := hs.tokens
  unfold advance at h
  cases hahead : s.ahead with
  | nil =>
    rw [hahead] at h
    cases h
    exact hs
  | cons u rest =>
    -- the invariant moves on by one token, unless a fault follows the last of them
    have hnext : stream.tokens = consumed ++ [u] ++ rest := by
      rw [htokens, hahead, List.append_assoc]
      rfl
    have hu : some u = (consumed ++ [u]).getLast? := List.getLast?_concat.symm
    have hne : s.ahead ≠ [] := hahead ▸ List.cons_ne_nil _ _
    have hending : s.ending = stream.ending := hs.ending hne
    rw [hahead] at h
    cases rest with
    | nil =>
      cases hclose : TokenStream.close s.ending with
      | error e =>
        rw [hclose] at h
        cases h
      | ok events =>
        rw [hclose] at h
        cases h
        refine ⟨⟨_, hnext, hu⟩, fun hne => absurd rfl hne, ?_⟩
        intro _ e he
        rw [hending, he] at hclose
        cases hclose
    | cons v rest =>
      cases h
      exact ⟨⟨_, hnext, hu⟩, fun _ => hending, fun hnil => nomatch hnil⟩

theorem refuses_advance : Refuses stream advance where
  ok := fun hs h => ⟨within_advance hs h, trivial⟩
  error := by
    intro s e s' _ h
    unfold advance at h
    split at h
    · cases h
    · split at h
      · cases h
        trivial
      · cases h
    · cases h

theorem refuses_expect (kind : TokenKind) {what : String} (hwhat : OneLine what.toList) :
    Refuses stream (expect kind what) := by
  refine meets_current.bind fun t ht => ?_
  split
  · exact refuses_advance
  · exact refuses_fail (oneLine_toList_append.mpr ⟨by decide, hwhat⟩) ht

theorem refuses_expectKind (kind : TokenKind) : Refuses stream (expectKind kind) :=
  refuses_expect kind (oneLine_quoted _)

end

/-! ## Expressions -/

section

variable {inner : Parse Expr}

theorem refuses_chain {operand : Parse Expr} (hoperand : Refuses stream operand) (lhs : Expr) :
    Refuses stream (chain operand lhs) := by
  have hloop : ∀ n lhs, Refuses stream (chainLoop operand n lhs) := by
    intro n
    induction n with
    | zero =>
      intro lhs
      exact meets_pure trivial
    | succ n ih =>
      intro lhs
      refine meets_current.bind fun t _ => ?_
      split
      · exact meets_pure trivial
      · exact refuses_advance.bind fun _ _ => hoperand.bind fun rhs _ => ih _
  exact refuses_tokensAhead.bind fun n _ => hloop n lhs

theorem refuses_argumentLoop (hinner : Refuses stream inner) (n : Nat) :
    Refuses stream (argumentLoop inner n) := by
  induction n with
  | zero => exact meets_current.bind fun t ht => refuses_fail (by decide) ht
  | succ n ih =>
    refine hinner.bind fun arg _ => meets_current.bind fun t _ => ?_
    split
    · exact refuses_advance.bind fun _ _ => meets_pure trivial
    · exact (refuses_expect _ (by decide)).bind fun _ _ => ih.bind fun _ _ => meets_pure trivial

theorem refuses_argumentsWith (hinner : Refuses stream inner) :
    Refuses stream (argumentsWith inner) := by
  refine meets_current.bind fun t _ => ?_
  split
  · exact refuses_advance.bind fun _ _ => meets_pure trivial
  · exact refuses_tokensAhead.bind fun n _ => refuses_argumentLoop hinner _

theorem refuses_callWith (hinner : Refuses stream inner) (routine : Routine) :
    Refuses stream (callWith inner routine) := by
  refine refuses_advance.bind fun _ _ => (refuses_expectKind _).bind fun _ _ => ?_
  exact (refuses_argumentsWith hinner).bind fun _ _ => meets_pure trivial

/-- A name that is used like a routine is refused where it stands, after the next token was met. -/
theorem refuses_primaryWith (hinner : Refuses stream inner) :
    Refuses stream (primaryWith inner) := by
  refine meets_current.bind fun t ht => ?_
  split
  · refine refuses_advance.bind fun _ _ => meets_current.bind fun u _ => ?_
    split
    · exact refuses_fail (oneLine_toList_append.mpr ⟨by decide, oneLine_quoted _⟩) ht
    · exact meets_pure trivial
  · exact refuses_callWith hinner .read
  · exact refuses_callWith hinner .write
  · exact refuses_advance.bind fun _ _ => meets_pure trivial
  · refine refuses_advance.bind fun _ _ => hinner.bind fun e _ => ?_
    exact (refuses_expect _ (by decide)).bind fun _ _ => meets_pure trivial
  · exact refuses_fail (by decide) ht

theorem refuses_expressionWithin (levels : Nat) : Refuses stream (expressionWithin levels) := by
  induction levels with
  | zero => exact meets_current.bind fun t ht => refuses_fail (by decide +kernel) ht
  | succ levels ih =>
    have hprimary := refuses_primaryWith ih
    exact hprimary.bind fun lhs _ => refuses_chain hprimary lhs

end

/-! ## Programs -/

theorem refuses_statement : Refuses stream statement := by
  refine meets_current.bind fun t ht => ?_
  split
  · refine meets_current.bind fun u hu => ?_
    split
    · refine refuses_advance.bind fun _ _ => (refuses_expectKind _).bind fun _ _ => ?_
      exact (refuses_expressionWithin _).bind fun _ _ => meets_pure trivial
    · exact refuses_fail (by decide) hu
  · refine (refuses_expressionWithin _).bind fun e _ => ?_
    split
    · exact meets_pure trivial
    · exact refuses_fail (by decide) ht

theorem refuses_skipLoop (n skipped : Nat) : Refuses stream (skipLoop n skipped) := by
  induction n generalizing skipped with
  | zero => exact meets_pure trivial
  | succ n ih =>
    refine meets_current.bind fun t _ => ?_
    split
    · exact meets_pure trivial
    · exact meets_pure trivial
    · exact refuses_advance.bind fun _ _ => ih _

theorem refuses_statementLoop (n : Nat) : Refuses stream (statementLoop n) := by
  induction n with
  | zero => exact meets_pure trivial
  | succ n ih =>
    refine meets_current.bind fun t _ => ?_
    split
    · exact meets_pure trivial
    · exact meets_pure trivial
    · exact refuses_advance.bind fun _ _ => ih
    · exact refuses_statement.bind fun _ _ => ih.bind fun _ _ => meets_pure trivial

theorem refuses_block : Refuses stream block := by
  refine (refuses_expectKind _).bind fun _ _ => refuses_tokensAhead.bind fun n _ => ?_
  refine (refuses_statementLoop _).bind fun statements _ => meets_current.bind fun t _ => ?_
  split
  · exact (refuses_report _).bind fun _ _ => meets_pure trivial
  · exact (refuses_report _).bind fun _ _ => meets_pure trivial

theorem refuses_program : Refuses stream program := by
  refine refuses_tokensAhead.bind fun n _ => (refuses_skipLoop _ _).bind fun found _ => ?_
  cases found with
  | none => exact (refuses_report _).bind fun _ _ => meets_pure trivial
  | some skipped =>
    dsimp only
    split
    · exact (refuses_report _).bind fun _ _ => refuses_block
    · exact refuses_block

end Parse

/-- A text without tokens has the empty program. -/
theorem tokens_ne_nil_of_parse {source : String} {e : ParseError}
    (h : (parse source).1 = .error (.syntactic e)) : (TokenStream.ofSource source).tokens ≠ [] := by
  intro hnil
  unfold parse at h
  cases hstart : ParseState.start (.ofSource source) with
  | error e' =>
    rw [hstart] at h
    cases h
  | ok s =>
    have hahead : s.ahead = [] := (ParseState.ahead_of_start hstart).trans hnil
    have heof : s.current.lexeme = .eof := ParseState.current_of_nil (by
      unfold ParseState.lexemes
      rw [hahead]
      rfl)
    obtain ⟨s', hprogram⟩ := Parse.program_of_none (Parse.skipLoop_of_eof heof _ 0)
    rw [hstart] at h
    dsimp only at h
    rw [hprogram] at h
    cases h

theorem refused_of_parse {source : String} {e : CompileError} (h : (parse source).1 = .error e) :
    Refused (.ofSource source) e := by
  unfold parse at h
  cases hstart : ParseState.start (.ofSource source) with
  | error e' =>
    rw [hstart] at h
    cases h
    trivial
  | ok s =>
    rw [hstart] at h
    dsimp only at h
    cases hprogram : Parse.program s with
    | ok p s' =>
      rw [hprogram] at h
      cases h
    | error e' s' =>
      rw [hprogram] at h
      cases h
      exact Parse.refuses_program.error (within_start hstart) hprogram

end MicroLang.Program
