import MicroLang.Proofs.Placement

/-!
# Shared scanners

One scanner may serve several users in turn: tokens are read from it, or pulled by any number of
pullers, each of which ends on its own, and characters are passed by their number or by their class.
Whatever is done, also where it fails, the scanner moves on by some number of characters
(`exists_advance_use`). So it always stands behind a beginning of the source text, and its position
is that of this beginning (`Standing`).

> `standing_of_uses`: after any uses, the position is that of the text that was passed; the next
> token has this position and is passed as a whole; and a fault leaves the scanner in place, or
> behind the digits of a literal.
-/

namespace MicroLang.Source

open MicroLang.Text
open Position (endsLine)

/-! ## Moving on -/

theorem Position.index_after (pos : Position) (text : List Char) :
    (pos.after text).index = pos.index + text.length := by
  induction text generalizing pos with
  | nil => rfl
  | cons c text ih =>
    have hnext : (pos.next c).index = pos.index + 1 := by
      unfold next
      split
      · rfl
      · rfl
    show ((pos.next c).after text).index = _
    rw [ih, hnext, List.length_cons]
    omega

namespace Scanner

variable {s s' : Scanner} {t : Token} {e : LexError}

theorem index_advance {n : Nat} (h : n ≤ s.ahead.length) :
    (s.advance n).pos.index = s.pos.index + n := by
  unfold advance
  rw [Position.index_after, List.length_take_of_le h]

/-- Passing more characters than there are passes all of them. -/
theorem exists_advance_le (s : Scanner) (n : Nat) :
    ∃ k ≤ s.ahead.length, s.advance n = s.advance k := by
  rcases Nat.le_total n s.ahead.length with hle | hle
  · exact ⟨n, hle, rfl⟩
  · refine ⟨s.ahead.length, Nat.le_refl _, ?_⟩
    unfold advance
    rw [List.drop_eq_nil_of_le hle, List.take_of_length_le hle, List.drop_length, List.take_length]

theorem advance_of_append {text rest : List Char} (h : s.ahead = text ++ rest) :
    s.advance text.length = ⟨rest, s.pos.after text⟩ := by
  unfold advance
  rw [h, List.drop_left' rfl, List.take_left' rfl]

theorem scanWhile_eq_advance (s : Scanner) (p : Char → Bool) :
    (s.scanWhile p).2 = s.advance (s.ahead.takeWhile p).length :=
  (advance_of_append List.takeWhile_append_dropWhile.symm).symm

theorem exists_advance_next (s : Scanner) : ∃ n, s.next.2 = s.advance n := by
  unfold next
  split
  · exact ⟨_, rfl⟩
  · exact ⟨_, rfl⟩

/-- A token is at most as long as the text ahead. -/
theorem length_le_of_next (h : s.next = (.ok t, s')) : t.length ≤ s.ahead.length := by
  have hmoved := Lexeme.moved_le s.ahead
  rw [(next_eq_ok h).1] at hmoved
  exact hmoved

/-- A token has the position before it, and exactly the token is passed. -/
theorem place_of_next (h : s.next = (.ok t, s')) :
    t.line = s.pos.line ∧ t.col = s.pos.col ∧ s'.pos.index = s.pos.index + t.length := by
  have hnext := next_of_read (next_eq_ok h).1
  rw [h] at hnext
  have ht : t = ⟨t.lexeme, s.pos.line, s.pos.col, t.length⟩ := Except.ok.inj (Prod.mk.inj hnext).1
  refine ⟨congrArg Token.line ht, congrArg Token.col ht, ?_⟩
  rw [advance_of_next h]
  exact index_advance (length_le_of_next h)

theorem advance_of_next_error (h : s.next = (.error e, s')) :
    s' = s.advance (if e.fault.isPassed then e.length else 0) := by
  unfold next at h
  split at h
  · cases h
  · rename_i hread
    cases h
    obtain ⟨_, _, _, _, _, hpast⟩ := Lexeme.rule_of_fault hread
    rw [hpast]

/-- A fault that is not passed changes nothing. -/
theorem unmoved_of_next_error (h : s.next = (.error e, s')) (hfault : e.fault.isPassed = false) :
    s' = s := by
  rw [advance_of_next_error h, hfault]
  rfl

/-- A literal that cannot be read is passed as a whole, and its error has the position before it. -/
theorem digits_of_next_error (h : s.next = (.error e, s')) (hfault : e.fault.isPassed = true) :
    ∃ run, run ≠ [] ∧ s.ahead = run ++ s'.ahead ∧ Run isDigit run s'.ahead
      ∧ s'.pos.index = s.pos.index + run.length
      ∧ e.line = s.pos.line ∧ e.col = s.pos.col ∧ e.length = run.length := by
  have hmoved := advance_of_next_error h
  obtain ⟨⟨past, hread⟩, hline, hcol⟩ := read_of_next_error h
  obtain ⟨run, rest, hahead, hlength, hrule, _⟩ := Lexeme.rule_of_fault hread
  rw [hfault, hlength, if_pos rfl, advance_of_append hahead] at hmoved
  have hrun : run ≠ [] ∧ Run isDigit run rest := by
    cases hcase : e.fault with
    | outOfRange =>
      rw [hcase] at hrule
      exact ⟨hrule.1, hrule.2.1⟩
    | tooLong n =>
      rw [hcase] at hrule
      refine ⟨?_, hrule.1.digits⟩
      rintro rfl
      exact absurd hrule.1.long (Nat.not_lt_zero _)
    | unexpected text =>
      rw [hcase] at hfault
      cases hfault
    | loneColon =>
      rw [hcase] at hfault
      cases hfault
  subst hmoved
  exact ⟨run, hrun.1, hahead, hrun.2, Position.index_after _ _, hline, hcol, hlength⟩

/-- Looking for a significant token moves on, whether one is found or not. -/
theorem exists_advance_nextSignificant (s : Scanner) : ∃ n, s.nextSignificant.2 = s.advance n := by
  fun_induction nextSignificant s with
  | case1 s e s' hnext =>
    obtain ⟨n, hn⟩ := exists_advance_next s
    rw [hnext] at hn
    exact ⟨n, hn⟩
  | case2 s t s' hnext _ => exact ⟨_, advance_of_next hnext⟩
  | case3 s t s' hnext _ _ ih =>
    obtain ⟨n, hn⟩ := ih
    rw [hn, advance_of_next hnext, advance_advance]
    exact ⟨_, rfl⟩
  | case4 s t s' hnext _ _ => exact ⟨_, advance_of_next hnext⟩

end Scanner

theorem TokenPuller.exists_advance_pull (puller : TokenPuller) (s : Scanner) :
    ∃ n, (puller.pull s).2.2 = s.advance n := by
  obtain ⟨n, hn⟩ := s.exists_advance_nextSignificant
  unfold pull
  split
  · split
    · rename_i heq
      rw [heq] at hn
      exact ⟨n, hn⟩
    · rename_i heq
      rw [heq] at hn
      exact ⟨n, hn⟩
  · exact ⟨0, rfl⟩

/-! ## Sequences of uses -/

/-- A scanner and the pullers that share it, by number. -/
structure SharedScanner where
  scanner : Scanner
  pullers : Nat → TokenPuller := fun _ => {}

/-- What a shared scanner is used for. -/
inductive Use where
  /-- Reads the next token. -/
  | next
  /-- Pulls a significant token. -/
  | pull (puller : Nat)
  /-- Passes a number of characters; a negative one is none. -/
  | advance (n : Int)
  /-- Passes the characters of a class. -/
  | scanWhile (p : Char → Bool)

namespace SharedScanner

/-- At the start of a source text, when no puller has ended. -/
def ofSource (source : String) : SharedScanner :=
  { scanner := .ofSource source }

/-- The shared scanner after a use, whether it succeeds or fails. Passing more characters than there
are fails at the end of the text. -/
def use (shared : SharedScanner) : Use → SharedScanner
  | .next => { shared with scanner := shared.scanner.next.2 }
  | .pull k =>
    let (_, puller, scanner) := (shared.pullers k).pull shared.scanner
    { scanner, pullers := fun j => if j = k then puller else shared.pullers j }
  | .advance n => { shared with scanner := shared.scanner.advance n.toNat }
  | .scanWhile p => { shared with scanner := (shared.scanner.scanWhile p).2 }

/-- The shared scanner after a sequence of uses. -/
def useAll (shared : SharedScanner) (uses : List Use) : SharedScanner :=
  uses.foldl use shared

/-- Every use moves the scanner on. -/
theorem exists_advance_use (shared : SharedScanner) (u : Use) :
    ∃ n, (shared.use u).scanner = shared.scanner.advance n := by
  cases u with
  | next => exact shared.scanner.exists_advance_next
  | pull k => exact (shared.pullers k).exists_advance_pull shared.scanner
  | advance n => exact ⟨_, rfl⟩
  | scanWhile p => exact ⟨_, shared.scanner.scanWhile_eq_advance p⟩

theorem exists_advance_useAll (shared : SharedScanner) (uses : List Use) :
    ∃ n, (shared.useAll uses).scanner = shared.scanner.advance n := by
  induction uses generalizing shared with
  | nil => exact ⟨0, rfl⟩
  | cons u uses ih =>
    obtain ⟨n, hn⟩ := shared.exists_advance_use u
    obtain ⟨k, hk⟩ := ih (shared.use u)
    rw [hn, Scanner.advance_advance] at hk
    exact ⟨n + k, hk⟩

end SharedScanner

/-! ## Positions -/

/-- A scanner stands behind a beginning of a source text: the line counts the line feeds of that
beginning, and the column its characters behind the last one. -/
structure Scanner.Standing (source : List Char) (s : Scanner) : Prop where
  index_le : s.pos.index ≤ source.length
  ahead : s.ahead = source.drop s.pos.index
  line : s.pos.line = 1 + (source.take s.pos.index).countP (· == '\n')
  col : s.pos.col = 1 + ((source.take s.pos.index).reverse.takeWhile (· != '\n')).length

theorem Scanner.standing_advance (source : String) (n : Nat) :
    ((ofSource source).advance n).Standing source.toList := by
  obtain ⟨k, hk, heq⟩ := (ofSource source).exists_advance_le n
  have hk : k ≤ source.toList.length := hk
  have hpos : ((ofSource source).advance k).pos = _ := Position.after_eq (source.toList.take k)
  rw [heq]
  rw [List.length_take_of_le hk] at hpos
  refine ⟨?_, ?_, ?_, ?_⟩
  · rw [hpos]
    exact hk
  · rw [hpos]
    rfl
  · rw [hpos]
    exact Nat.add_comm _ _
  · rw [hpos]
    show (lastPiece endsLine (source.toList.take k)).length + 1 = _
    unfold lastPiece
    rw [List.length_reverse]
    exact Nat.add_comm _ _

/-- After any uses of a scanner, also ones that fail, its position is that of the text it has
passed. The next token has that position, and the index grows by its length. A fault at an
unexpected character or a lone colon leaves the scanner as it is; one at a literal leaves it behind
the digits, and its error has the position and the length of all of them. -/
theorem standing_of_uses (source : String) (uses : List Use) :
    let s := ((SharedScanner.ofSource source).useAll uses).scanner
    s.Standing source.toList
      ∧ (∀ t s', s.next = (.ok t, s') →
        t.line = s.pos.line ∧ t.col = s.pos.col ∧ s'.pos.index = s.pos.index + t.length)
      ∧ ∀ e s', s.next = (.error e, s') →
        ((∃ text, e.fault = .unexpected text) ∨ e.fault = .loneColon) ∧ s' = s
        ∨ (e.fault = .outOfRange ∨ ∃ n, e.fault = .tooLong n)
          ∧ ∃ run, run ≠ [] ∧ s.ahead = run ++ s'.ahead ∧ Run isDigit run s'.ahead
            ∧ s'.pos.index = s.pos.index + run.length
            ∧ e.line = s.pos.line ∧ e.col = s.pos.col ∧ e.length = run.length := by
  intro s
  obtain ⟨n, hn⟩ := (SharedScanner.ofSource source).exists_advance_useAll uses
  have hs : s = (Scanner.ofSource source).advance n := hn
  have hstanding : s.Standing source.toList := by
    rw [hs]
    exact Scanner.standing_advance source n
  refine ⟨hstanding, fun t s' => Scanner.place_of_next, ?_⟩
  intro e s' h
  cases hfault : e.fault with
  | unexpected text =>
    exact .inl ⟨.inl ⟨text, rfl⟩, Scanner.unmoved_of_next_error h (by rw [hfault]; rfl)⟩
  | loneColon => exact .inl ⟨.inr rfl, Scanner.unmoved_of_next_error h (by rw [hfault]; rfl)⟩
  | outOfRange => exact .inr ⟨.inl rfl, Scanner.digits_of_next_error h (by rw [hfault]; rfl)⟩
  | tooLong n => exact .inr ⟨.inr ⟨n, rfl⟩, Scanner.digits_of_next_error h (by rw [hfault]; rfl)⟩

/-- A lone colon is met by the next token and by a puller, which ends there; behind it stands a
literal that is too large. -/
theorem standing_of_uses_colon :
    let uses : List Use := [.pull 0, .next, .next, .pull 0, .pull 0, .advance 2]
    let s := ((SharedScanner.ofSource "a\n: 2147483648").useAll uses).scanner
    s.Standing "a\n: 2147483648".toList ∧ s.pos = ⟨4, 2, 3⟩
      ∧ s.next.1 = .error ⟨.outOfRange, 2, 3, 10⟩ ∧ s.next.2.pos.index = 14 := by
  intro uses s
  obtain ⟨hstanding, _, hfaults⟩ := standing_of_uses "a\n: 2147483648" uses
  have hpos : s.pos = ⟨4, 2, 3⟩ := by decide +kernel
  have hnext : s.next.1 = .error ⟨.outOfRange, 2, 3, 10⟩ := by decide +kernel
  refine ⟨hstanding, hpos, hnext, ?_⟩
  rcases hfaults _ s.next.2 (Prod.ext hnext rfl) with
    ⟨hfault, _⟩ | ⟨_, run, _, _, _, hindex, _, _, hlength⟩
  · rcases hfault with ⟨text, htext⟩ | hcolon
    · cases htext
    · cases hcolon
  · have hten : 10 = run.length := hlength
    rw [hindex, ← hten]
    show s.pos.index + 10 = 14
    rw [hpos]

end MicroLang.Source
