import MicroLang.Proofs.Parsing
import MicroLang.Proofs.Tokenization

/-!
# Parsing source texts

The grammar speaks of lists of lexemes, and a source text has such a list: that of its significant
tokens. The program of a source text is the one that the grammar gives to this list.

> `written_of_parse`: what is parsed from a text is written by the lexemes of the text.
> `parse_of_written`: a text that can be cut into tokens up to its end, and whose lexemes write a
> program, is parsed to this program.
-/

namespace MicroLang.Source.TokenStream

/-- The lexemes of the significant tokens of a source text. -/
def lexemes (source : String) : List Lexeme :=
  (ofSource source).tokens.map Token.lexeme

theorem eof_not_mem_lexemes (source : String) : .eof ∉ lexemes source := by
  intro hmem
  obtain ⟨t, ht, hlexeme⟩ := List.mem_map.mp hmem
  obtain ⟨_, _, _, hrule⟩ := rule_of_mem_tokens ht
  rw [hlexeme] at hrule
  exact hrule

end MicroLang.Source.TokenStream

namespace MicroLang.Program

open MicroLang.Source
open Grammar (Written)

variable {source : String} {p : Program}

/-- A text is parsed from the first token of its stream on. -/
theorem parse_eq_ok (h : (parse source).1 = .ok p) :
    ∃ s s', ParseState.start (.ofSource source) = .ok s ∧ Parse.program s = .ok p s' := by
  unfold parse at h
  cases hstart : ParseState.start (.ofSource source) with
  | error e =>
    rw [hstart] at h
    cases h
  | ok s =>
    rw [hstart] at h
    dsimp only at h
    cases hprogram : Parse.program s with
    | error e s' =>
      rw [hprogram] at h
      cases h
    | ok program s' =>
      rw [hprogram] at h
      cases h
      exact ⟨s, s', rfl, hprogram⟩

/-- The state at the first token has the lexemes of the text ahead. -/
theorem lexemes_of_start {s : ParseState} (h : ParseState.start (.ofSource source) = .ok s) :
    s.lexemes = TokenStream.lexemes source :=
  congrArg (List.map Token.lexeme) (ParseState.ahead_of_start h)

theorem written_of_parse (h : (parse source).1 = .ok p) :
    Written p (TokenStream.lexemes source) := by
  obtain ⟨s, s', hstart, hprogram⟩ := parse_eq_ok h
  rw [← lexemes_of_start hstart]
  refine Parse.program_sound hprogram ?_
  rw [lexemes_of_start hstart]
  exact TokenStream.eof_not_mem_lexemes source

/-- A text without faults is parsed from a state with its lexemes ahead. -/
theorem clean_of_source (h : ∀ e, (TokenStream.ofSource source).ending ≠ .failed e) :
    ∃ s, ParseState.start (.ofSource source) = .ok s ∧ s.Clean
      ∧ s.lexemes = TokenStream.lexemes source := by
  obtain ⟨s, hstart, hfault⟩ := Parse.start_eq_ok (TokenStream.ofSource source).tokens h
  have hlexemes : s.lexemes = TokenStream.lexemes source := lexemes_of_start hstart
  refine ⟨s, hstart, ⟨?_, hfault⟩, hlexemes⟩
  rw [hlexemes]
  exact TokenStream.eof_not_mem_lexemes source

theorem parse_of_written (hending : ∀ e, (TokenStream.ofSource source).ending ≠ .failed e)
    (h : Written p (TokenStream.lexemes source)) : (parse source).1 = .ok p := by
  obtain ⟨s, hstart, hclean, hlexemes⟩ := clean_of_source hending
  rw [← hlexemes] at h
  obtain ⟨s', hprogram⟩ := Parse.program_of_written hclean h
  unfold parse
  rw [hstart]
  dsimp only
  rw [hprogram]

end MicroLang.Program
