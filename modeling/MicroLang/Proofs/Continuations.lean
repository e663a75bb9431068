import MicroLang.Compile
import MicroLang.Proofs.Placement

/-!
# What follows the lookahead

Parsing stops at the closing word or at a syntax error, with one token of lookahead. What follows
this token in the source text has not been looked at: any other text may stand there, also one that
cannot be cut into tokens, as long as it does not start with a character that extends the token.

Two earlier results meet here: a parser does the same on streams that differ only behind a token it
does not consume (`Parse.local_program`), and texts that differ only behind a token have such
streams (`TokenStream.ofScanner_of_tail`).

> `parse_behind_lookahead`: the same program or the same syntax error, with the same events, and the
> same listing or error of the compiler.
-/

namespace MicroLang.Program

open MicroLang.Source
open Parse (Alike stateOf faultOf)

/-- The token at which parsing a source text stops, if it is not the end of the input. -/
def lookahead? (source : String) : Option Token :=
  match ParseState.start (.ofSource source) with
  | .error _ => none
  | .ok s => (stateOf (Parse.program s)).ahead.head?

variable {source : String} {t : Token}

theorem lookahead?_eq_some (h : lookahead? source = some t) :
    ∃ s back, ParseState.start (.ofSource source) = .ok s
      ∧ (stateOf (Parse.program s)).ahead = t :: back := by
  unfold lookahead? at h
  cases hstart : ParseState.start (.ofSource source) with
  | error e =>
    rw [hstart] at h
    cases h
  | ok s =>
    rw [hstart] at h
    obtain ⟨back, hahead⟩ := List.head?_eq_some_iff.mp h
    exact ⟨s, back, rfl, hahead⟩

/-- The tokens before the lookahead have been consumed, and the others have not. -/
theorem tokens_of_lookahead? (h : lookahead? source = some t) :
    ∃ s front back, ParseState.start (.ofSource source) = .ok s
      ∧ (stateOf (Parse.program s)).ahead = t :: back
      ∧ (TokenStream.ofSource source).tokens = front ++ t :: back := by
  obtain ⟨s, back, hstart, hahead⟩ := lookahead?_eq_some h
  obtain ⟨front, hfront⟩ := (Parse.local_program.steady s).suffix
  rw [hahead, ParseState.ahead_of_start hstart] at hfront
  exact ⟨s, front, back, hstart, hahead, hfront.symm⟩

/-- A stream with a token in it is parsed from its first token on. -/
theorem start_of_tokens {stream : TokenStream} {front back : List Token} {ending : Ending}
    (h : stream = ⟨front ++ t :: back, ending⟩) :
    ParseState.start stream = .ok { ahead := front ++ t :: back, ending } := by
  subst h
  cases front with
  | nil => rfl
  | cons first front => rfl

/-- Streams that differ only behind a token are alike up to it. -/
theorem alike_behind (t : Token) (front back back' : List Token) (ending ending' : Ending) :
    Alike back back' { ahead := front ++ t :: back, ending }
      { ahead := front ++ t :: back', ending := ending' } := by
  refine ⟨⟨front ++ [t], ?_, ?_, ?_⟩, rfl, rfl⟩
  · exact List.append_ne_nil_of_right_ne_nil _ (List.cons_ne_nil _ _)
  · exact List.append_cons front t back
  · exact List.append_cons front t back'

/-- A text whose parsing stops in front of `back`, and not at a fault, is parsed like any text with
the same tokens up to there. -/
theorem parse_of_same_tokens {source' : String} {s : ParseState} {front back back' : List Token}
    {ending' : Ending} (hstart : ParseState.start (.ofSource source) = .ok s)
    (hahead : (stateOf (Parse.program s)).ahead = t :: back)
    (htokens : (TokenStream.ofSource source).tokens = front ++ t :: back)
    (hfault : faultOf (Parse.program s) = none)
    (hother : TokenStream.ofSource source' = ⟨front ++ t :: back', ending'⟩) :
    parse source' = parse source := by
  have hstream : TokenStream.ofSource source
      = ⟨front ++ t :: back, (TokenStream.ofSource source).ending⟩ := by
    rw [← htokens]
  have hs : s = { ahead := front ++ t :: back, ending := (TokenStream.ofSource source).ending } :=
    Except.ok.inj (hstart.symm.trans (start_of_tokens hstream))
  have hagree := Parse.local_program.agree
    (alike_behind t front back back' (TokenStream.ofSource source).ending ending')
  rw [← hs] at hagree
  unfold parse
  rw [hstart, start_of_tokens hother]
  dsimp only
  generalize Parse.program s = r at hahead hfault hagree ⊢
  generalize Parse.program { ahead := front ++ t :: back', ending := ending' } = r' at hagree ⊢
  cases hagree with
  | ok p h => exact congrArg (Prod.mk _) h.log.symm
  | error e h => exact congrArg (Prod.mk _) h.log.symm
  | past h h' =>
    -- the token is still ahead, so the point behind it has not been passed
    rcases h with h | h
    · exact absurd hfault h
    · rw [hahead] at h
      exact absurd h (Nat.not_succ_le_self _)

/-- Parsing that ends without a lexical error met no fault. -/
theorem faultOf_eq_none {s : ParseState} (hstart : ParseState.start (.ofSource source) = .ok s)
    (h : ∀ e, (parse source).1 ≠ .error (.lexical e)) : faultOf (Parse.program s) = none := by
  cases hfault : faultOf (Parse.program s) with
  | none => rfl
  | some e => exact absurd ((parse_lexical_of_start e hstart).mpr hfault) (h e)

/-- Nothing behind the lookahead matters. Where parsing stops at the closing word or fails at a
syntax error, and the lookahead is a token, that token stands in the source text; with any text
behind it that does not extend it, the outcome is the same, and so is that of the compiler. -/
theorem parse_behind_lookahead (hlook : lookahead? source = some t)
    (hstop : (∃ p, (parse source).1 = .ok p ∧ t.lexeme = .endKw)
      ∨ ∃ e, (parse source).1 = .error (.syntactic e)) :
    (∃ before text rest, t.StandsAt (.ofSource source) before text rest)
      ∧ ∀ before text rest, t.StandsAt (.ofSource source) before text rest →
        ∀ tail, (∀ c ∈ tail.head?, t.lexeme.extendedBy c = false) →
          parse (String.ofList (before ++ text ++ tail)) = parse source
            ∧ compile (String.ofList (before ++ text ++ tail)) = compile source := by
  obtain ⟨s, front, back, hstart, hahead, htokens⟩ := tokens_of_lookahead? hlook
  obtain ⟨before, text, rest, hstands, hbehind⟩ := TokenStream.ofScanner_of_tail htokens
  refine ⟨⟨before, text, rest, hstands⟩, ?_⟩
  intro before' text' rest' hstands' tail htail
  obtain ⟨rfl, rfl, rfl⟩ := hstands.unique hstands'
  obtain ⟨back', ending', hstream⟩ := hbehind tail htail
  have hother : TokenStream.ofSource (String.ofList (before ++ text ++ tail))
      = ⟨front ++ t :: back', ending'⟩ := by
    unfold TokenStream.ofSource Scanner.ofSource
    rw [String.toList_ofList]
    exact hstream
  have hlexical : ∀ e, (parse source).1 ≠ .error (.lexical e) := by
    intro e he
    rcases hstop with ⟨p, hp, _⟩ | ⟨e', he'⟩
    · rw [he] at hp
      cases hp
    · rw [he] at he'
      cases he'
  have hparse : parse (String.ofList (before ++ text ++ tail)) = parse source :=
    parse_of_same_tokens hstart hahead htokens (faultOf_eq_none hstart hlexical) hother
  refine ⟨hparse, ?_⟩
  unfold compile
  rw [hparse]

/-- A colon on its own is a fault, but not behind the closing word. -/
theorem parse_behind_lookahead_colon :
    (∃ p, (parse "begin x := 1 end; x").1 = .ok p)
      ∧ lookahead? "begin x := 1 end; x" = some ⟨.endKw, 1, 14, 3⟩
      ∧ parse "begin x := 1 end :" = parse "begin x := 1 end; x"
      ∧ compile "begin x := 1 end :" = compile "begin x := 1 end; x" := by
  have hparse : ∃ p, (parse "begin x := 1 end; x").1 = .ok p := by
    have hok : (parse "begin x := 1 end; x").1.toBool = true := by decide +kernel
    cases h : (parse "begin x := 1 end; x").1 with
    | ok p => exact ⟨p, rfl⟩
    | error e =>
      rw [h] at hok
      cases hok
  have hlook : lookahead? "begin x := 1 end; x" = some ⟨.endKw, 1, 14, 3⟩ := by decide +kernel
  refine ⟨hparse, hlook, ?_⟩
  obtain ⟨p, hp⟩ := hparse
  refine (parse_behind_lookahead hlook (.inl ⟨p, hp, rfl⟩)).2 "begin x := 1 ".toList "end".toList
    "; x".toList ⟨⟨rfl, rfl, rfl, rfl⟩, rfl, ?_⟩ " :".toList ?_
  · refine ⟨'e', ['n', 'd'], rfl, rfl, by decide, ?_⟩
    intro c hc
    cases hc
    rfl
  · intro c hc
    cases hc
    rfl

end MicroLang.Program
