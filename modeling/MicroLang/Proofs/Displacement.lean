import MicroLang.Proofs.Diagnosis

/-!
# Displaced tokens

Two streams of tokens may have the same lexemes at different places. A parser decides by lexemes
only, so it does the same on both: it gives the same tree, or the same fault at tokens with the same
lexeme. Places are carried along, to be shown with an error, and nothing is decided by them.

A parser looks at the current token through `current`, and two runs of it get two tokens there that
share their lexeme. What is proved is therefore a relation between two parsers (`Parallel`), which
go on from such a pair of tokens.

> `compile_displaced`: source texts with the same lexemes and without faults compile to the same
> listing, or fail at the same stage with the same message.
-/

namespace MicroLang.Program

namespace Parse

open MicroLang.Source
open MicroLang.Sequencing
open ParseState

/-! ## Parsers that differ only in places -/

/-- The same lexemes ahead, in states where nothing but the grammar can fail. -/
structure Displaced (s s' : ParseState) : Prop where
  lexemes : s.lexemes = s'.lexemes
  clean : s.Clean
  clean' : s'.Clean

/-- Two tokens that differ only in their places. -/
def SameLexeme (t t' : Token) : Prop :=
  t.lexeme = t'.lexeme

/-- Two outcomes that differ only in places: related results, or the same fault. -/
inductive Corresponds {α : Type} (R : α → α → Prop) : Outcome α → Outcome α → Prop
  | ok {a a' : α} {s s' : ParseState} (ha : R a a') (h : Displaced s s') :
      Corresponds R (.ok a s) (.ok a' s')
  | error (fault : ParseFault) {t t' : Token} {s s' : ParseState} (h : SameLexeme t t') :
      Corresponds R (.error (.syntactic ⟨fault, t⟩) s) (.error (.syntactic ⟨fault, t'⟩) s')

/-- From displaced states, two parsers have outcomes that differ only in places. -/
structure Parallel {α : Type} (R : α → α → Prop) (x x' : Parse α) : Prop where
  corresponds : ∀ {s s' : ParseState}, Displaced s s' → Corresponds R (x s) (x' s')

/-- A parser gives the same result wherever the tokens stand. -/
def Placeless {α : Type} (x : Parse α) : Prop :=
  Parallel Eq x x

section

variable {α β : Type} {R : α → α → Prop} {R' : β → β → Prop} {s s' : ParseState}

theorem Displaced.current_eq (h : Displaced s s') : SameLexeme s.current s'.current := by
  show s.current.lexeme = s'.current.lexeme
  cases hlex : s.lexemes with
  | nil => rw [current_of_nil hlex, current_of_nil (h.lexemes.symm.trans hlex)]
  | cons x rest => rw [current_of_cons hlex, current_of_cons (h.lexemes.symm.trans hlex)]

theorem Displaced.length_eq (h : Displaced s s') : s.ahead.length = s'.ahead.length := by
  rw [← length_lexemes, ← length_lexemes, h.lexemes]

theorem SameLexeme.kind_eq {t t' : Token} (h : SameLexeme t t') : t.kind = t'.kind :=
  congrArg Lexeme.kind h

theorem Parallel.bind {x x' : Parse α} {f f' : α → Parse β} (hx : Parallel R x x')
    (hf : ∀ a a', R a a' → Parallel R' (f a) (f' a')) : Parallel R' (x >>= f) (x' >>= f') := by
  refine ⟨fun {s s'} h => ?_⟩
  have hfirst := hx.corresponds h
  generalize hxs : x s = r at hfirst
  generalize hxs' : x' s' = r' at hfirst
  cases hfirst with
  | ok ha hmid =>
    rw [bind_of_ok hxs, bind_of_ok hxs']
    exact (hf _ _ ha).corresponds hmid
  | error fault ht =>
    rw [bind_of_error hxs, bind_of_error hxs']
    exact .error fault ht

/-- A parser whose result is the same may be followed by one that uses it. -/
theorem Placeless.bind {x : Parse α} {f : α → Parse β} (hx : Placeless x)
    (hf : ∀ a, Placeless (f a)) : Placeless (x >>= f) := by
  refine Parallel.bind hx ?_
  rintro a _ rfl
  exact hf a

theorem placeless_pure (a : α) : Placeless (pure a : Parse α) :=
  ⟨fun h => .ok rfl h⟩

theorem parallel_fail (fault : ParseFault) {t t' : Token} (h : SameLexeme t t') :
    Parallel R (fail fault t) (fail fault t') :=
  ⟨fun _ => .error fault h⟩

theorem parallel_current : Parallel SameLexeme current current :=
  ⟨fun h => .ok h.current_eq h⟩

theorem placeless_tokensAhead : Placeless tokensAhead :=
  ⟨fun h => .ok h.length_eq h⟩

theorem placeless_report (event : Event) : Placeless (report event) :=
  ⟨fun h => .ok rfl ⟨h.lexemes, ⟨h.clean.1, h.clean.2⟩, ⟨h.clean'.1, h.clean'.2⟩⟩⟩

/-- The tokens that are consumed are not compared, as no parser uses them. -/
theorem parallel_advance : Parallel (fun _ _ => True) advance advance := by
  refine ⟨fun {s s'} h => ?_⟩
  cases hlex : s.lexemes with
  | nil =>
    have hahead := List.map_eq_nil_iff.mp hlex
    have hahead' := List.map_eq_nil_iff.mp (h.lexemes.symm.trans hlex)
    unfold advance
    rw [hahead, hahead']
    exact .ok trivial h
  | cons x rest =>
    obtain ⟨t, mid, hadvance, hclean, hmid⟩ := advance_of_cons h.clean hlex
    obtain ⟨t', mid', hadvance', hclean', hmid'⟩ :=
      advance_of_cons h.clean' (h.lexemes.symm.trans hlex)
    rw [hadvance, hadvance']
    exact .ok trivial ⟨hmid.trans hmid'.symm, hclean, hclean'⟩

theorem Parallel.after_advance {x x' : Parse β} (hx : Parallel R' x x') :
    Parallel R' (advance >>= fun _ => x) (advance >>= fun _ => x') :=
  parallel_advance.bind fun _ _ _ => hx

theorem Parallel.after_expect {x x' : Parse β} (hx : Parallel R' x x') (kind : TokenKind)
    (what : String) :
    Parallel R' (expect kind what >>= fun _ => x) (expect kind what >>= fun _ => x') := by
  have hexpect : Parallel (fun _ _ => True) (expect kind what) (expect kind what) := by
    refine parallel_current.bind fun t t' ht => ?_
    rw [ht.kind_eq]
    split
    · exact parallel_advance
    · exact parallel_fail _ ht
  exact hexpect.bind fun _ _ _ => hx

end

/-! ## Expressions -/

section

variable {inner : Parse Expr}

theorem placeless_chain {operand : Parse Expr} (hoperand : Placeless operand) (lhs : Expr) :
    Placeless (chain operand lhs) := by
  refine placeless_tokensAhead.bind fun n => ?_
  induction n generalizing lhs with
  | zero => exact placeless_pure lhs
  | succ n ih =>
    refine parallel_current.bind fun t t' ht => ?_
    rw [show t.lexeme = t'.lexeme from ht]
    cases operator? t'.lexeme with
    | none => exact placeless_pure lhs
    | some op => exact .after_advance (hoperand.bind fun rhs => ih _)

theorem placeless_argumentLoop (hinner : Placeless inner) (n : Nat) :
    Placeless (argumentLoop inner n) := by
  induction n with
  | zero => exact parallel_current.bind fun t t' ht => parallel_fail _ ht
  | succ n ih =>
    refine hinner.bind fun arg => parallel_current.bind fun t t' ht => ?_
    rw [ht.kind_eq]
    split
    · exact .after_advance (placeless_pure _)
    · exact .after_expect (ih.bind fun _ => placeless_pure _) _ _

theorem placeless_callWith (hinner : Placeless inner) (routine : Routine) :
    Placeless (callWith inner routine) := by
  have harguments : Placeless (argumentsWith inner) := by
    refine parallel_current.bind fun t t' ht => ?_
    rw [ht.kind_eq]
    split
    · exact .after_advance (placeless_pure _)
    · exact placeless_tokensAhead.bind fun n => placeless_argumentLoop hinner _
  exact .after_advance (.after_expect (harguments.bind fun _ => placeless_pure _) _ _)

theorem placeless_primaryWith (hinner : Placeless inner) : Placeless (primaryWith inner) := by
  refine parallel_current.bind fun t t' ht => ?_
  rw [show t.lexeme = t'.lexeme from ht]
  cases t'.lexeme with
  | identifier name =>
    -- the token of the name is the one that an error shows
    refine parallel_advance.bind fun _ _ _ => parallel_current.bind fun u u' hu => ?_
    rw [hu.kind_eq]
    split
    · exact parallel_fail _ ht
    · exact placeless_pure _
  | readKw => exact placeless_callWith hinner .read
  | writeKw => exact placeless_callWith hinner .write
  | literal value => exact .after_advance (placeless_pure _)
  | leftParen =>
    exact .after_advance (hinner.bind fun e => .after_expect (placeless_pure e) _ _)
  | _ => exact parallel_fail _ ht

theorem placeless_expressionWithin (levels : Nat) : Placeless (expressionWithin levels) := by
  induction levels with
  | zero => exact parallel_current.bind fun t t' ht => parallel_fail _ ht
  | succ levels ih =>
    have hprimary := placeless_primaryWith ih
    exact hprimary.bind (placeless_chain hprimary)

end

/-! ## Programs -/

theorem placeless_assignment : Placeless assignment := by
  refine parallel_current.bind fun t t' ht => ?_
  rw [show t.lexeme = t'.lexeme from ht]
  cases t'.lexeme with
  | identifier name =>
    exact .after_advance (.after_expect
      ((placeless_expressionWithin _).bind fun _ => placeless_pure _) _ _)
  | _ => exact parallel_fail _ ht

theorem placeless_statement : Placeless statement := by
  refine parallel_current.bind fun t t' ht => ?_
  rw [ht.kind_eq]
  split
  · exact placeless_assignment
  · refine Parallel.bind (placeless_expressionWithin _) ?_
    rintro e _ rfl
    cases e with
    | call routine args => exact placeless_pure _
    | _ => exact parallel_fail _ ht

theorem placeless_skipLoop (n skipped : Nat) : Placeless (skipLoop n skipped) := by
  induction n generalizing skipped with
  | zero => exact placeless_pure _
  | succ n ih =>
    refine parallel_current.bind fun t t' ht => ?_
    rw [ht.kind_eq]
    split
    · exact placeless_pure _
    · exact placeless_pure _
    · exact .after_advance (ih _)

theorem placeless_statementLoop (n : Nat) : Placeless (statementLoop n) := by
  induction n with
  | zero => exact placeless_pure _
  | succ n ih =>
    refine parallel_current.bind fun t t' ht => ?_
    rw [ht.kind_eq]
    split
    · exact placeless_pure _
    · exact placeless_pure _
    · exact .after_advance ih
    · exact placeless_statement.bind fun _ => ih.bind fun _ => placeless_pure _

theorem placeless_block : Placeless block := by
  refine .after_expect (placeless_tokensAhead.bind fun n => ?_) _ _
  refine (placeless_statementLoop _).bind fun statements => ?_
  refine parallel_current.bind fun t t' ht => ?_
  rw [ht.kind_eq]
  split
  · exact (placeless_report _).bind fun _ => placeless_pure _
  · exact (placeless_report _).bind fun _ => placeless_pure _

theorem placeless_program : Placeless program := by
  have hskip : Placeless (tokensAhead >>= fun n => skipLoop (n + 1) 0) :=
    placeless_tokensAhead.bind fun n => placeless_skipLoop _ _
  refine hskip.bind (f := fromBegin) fun found => ?_
  cases found with
  | none => exact (placeless_report _).bind fun _ => placeless_pure _
  | some skipped =>
    unfold fromBegin
    dsimp only
    split
    · exact (placeless_report _).bind fun _ => placeless_block
    · exact placeless_block

end Parse

open MicroLang.Source
open Parse (SameLexeme Displaced)

/-! ## Source texts -/

theorem parse_displaced {source source' : String}
    (hlexemes : TokenStream.lexemes source = TokenStream.lexemes source')
    (h : ∀ e, (TokenStream.ofSource source).ending ≠ .failed e)
    (h' : ∀ e, (TokenStream.ofSource source').ending ≠ .failed e) :
    (∃ p, (parse source).1 = .ok p ∧ (parse source').1 = .ok p)
      ∨ ∃ fault t t', SameLexeme t t' ∧ (parse source).1 = .error (.syntactic ⟨fault, t⟩)
        ∧ (parse source').1 = .error (.syntactic ⟨fault, t'⟩) := by
  obtain ⟨s, hstart, hclean, hs⟩ := clean_of_source h
  obtain ⟨s', hstart', hclean', hs'⟩ := clean_of_source h'
  have hdisplaced : Displaced s s' := ⟨hs.trans (hlexemes.trans hs'.symm), hclean, hclean'⟩
  have hprogram := Parse.placeless_program.corresponds hdisplaced
  unfold parse
  rw [hstart, hstart']
  dsimp only
  generalize Parse.program s = r at hprogram ⊢
  generalize Parse.program s' = r' at hprogram ⊢
  cases hprogram with
  | @ok p _ _ _ hp _ =>
    cases hp
    exact .inl ⟨p, rfl, rfl⟩
  | @error fault t t' _ _ ht => exact .inr ⟨fault, t, t', ht, rfl, rfl⟩

end MicroLang.Program

namespace MicroLang

open MicroLang.Source

/-- What a source text compiles to, if it can be parsed, depends on its program only. -/
theorem compile_of_parse {source : String} {p : Program} (h : (Program.parse source).1 = .ok p) :
    (compile source).1 = p.listing.1.mapError .generation := by
  unfold compile
  generalize Program.parse source = parsed at h ⊢
  obtain ⟨result, log⟩ := parsed
  cases h
  dsimp only
  generalize Program.listing p = listed
  obtain ⟨result, more⟩ := listed
  cases result with
  | ok listing => rfl
  | error e => rfl

/-- A program that was parsed has a listing or an error with a diagnostic. -/
theorem diagnosed_of_parse {source : String} {p : Program} {e : CompileError}
    (hparse : (Program.parse source).1 = .ok p) (h : (compile source).1 = .error e) :
    ∃ d, e.diagnostic? = some d := by
  rcases compile_eq_error h with herror | ⟨_, _, _, rfl, _, _⟩
  · rw [hparse] at herror
    cases herror
  · rcases generation_of_compile h with ⟨routine, rfl⟩ | rfl
    · exact ⟨_, rfl⟩
    · exact ⟨_, rfl⟩

/-- Two outcomes of compilation that differ only in places: the same listing, or errors of the same
stage whose diagnostics have the same message. -/
inductive SameOutcome : Except CompileError String → Except CompileError String → Prop
  | ok (listing : String) : SameOutcome (.ok listing) (.ok listing)
  | error {e e' : CompileError} {d d' : Diagnostic} (hd : e.diagnostic? = some d)
      (hd' : e'.diagnostic? = some d') (hstage : e.stage = e'.stage)
      (hmessage : d.message = d'.message) : SameOutcome (.error e) (.error e')

/-- Where the tokens of a source text stand does not matter to its listing, nor to what is wrong
with it. -/
theorem compile_displaced {source source' : String}
    (hlexemes : TokenStream.lexemes source = TokenStream.lexemes source')
    (h : ∀ e, (TokenStream.ofSource source).ending ≠ .failed e)
    (h' : ∀ e, (TokenStream.ofSource source').ending ≠ .failed e) :
    SameOutcome (compile source).1 (compile source').1 := by
  rcases Program.parse_displaced hlexemes h h' with ⟨p, hp, hp'⟩ | ⟨fault, t, t', ht, he, he'⟩
  · have hsame : (compile source').1 = (compile source).1 :=
      (compile_of_parse hp').trans (compile_of_parse hp).symm
    rw [hsame]
    cases hcompile : (compile source).1 with
    | ok listing => exact .ok listing
    | error e =>
      obtain ⟨d, hd⟩ := diagnosed_of_parse hp hcompile
      exact .error hd hd rfl rfl
  · rw [compile_of_parse_error he, compile_of_parse_error he']
    refine .error rfl rfl rfl ?_
    -- a message shows the lexeme that was found, and no place
    show fault.message ++ ", found " ++ t.lexeme.describe
      = fault.message ++ ", found " ++ t'.lexeme.describe
    rw [show t.lexeme = t'.lexeme from ht]

end MicroLang
