import MicroLang.Proofs.Grammar
import MicroLang.Proofs.Sequencing

/-!
# Parsing is deriving

The parser accepts exactly what the grammar derives, with the same tree.

A parser state is seen as the lexemes ahead of it, so that a parser that succeeds relates two lists
of lexemes, as the rules of the grammar do. Soundness is then one lemma per parser, of the form "if
it leads from `s` to `s'`, then `s.lexemes` and `s'.lexemes` are related by the rule". Completeness
goes by induction on a derivation, from states in which nothing but the grammar can fail
(`ParseState.Clean`). A chain of operators is derived with its last operator outermost, and parsed
with its first operator first; so what is proved of a derived expression is that the parser gets to
the loop behind it, with the tree so far and enough turns left for the lexemes ahead
(`Parse.Reads`).
-/

namespace MicroLang.Program

open MicroLang.Source
open MicroLang.Sequencing
open Grammar (Derives Statement Body Written Opens)

/-! ## States as lexemes -/

namespace ParseState

/-- The lexemes ahead. -/
def lexemes (s : ParseState) : List Lexeme :=
  s.ahead.map Token.lexeme

/-- No token stands for the end of the input, and no fault follows the last token. -/
structure Clean (s : ParseState) : Prop where
  noEof : .eof ∉ s.lexemes
  noFault : ∀ e, s.ending ≠ .failed e

variable {s s' : ParseState} {x : Lexeme} {rest : List Lexeme}

theorem current_of_cons (h : s.lexemes = x :: rest) : s.current.lexeme = x := by
  obtain ⟨t, ts, hahead, ht, _⟩ := List.map_eq_cons_iff.mp h
  unfold current
  rw [hahead]
  exact ht

theorem kind_of_cons (h : s.lexemes = x :: rest) : s.current.kind = x.kind :=
  congrArg Lexeme.kind (current_of_cons h)

theorem current_of_nil (h : s.lexemes = []) : s.current.lexeme = .eof := by
  unfold current
  rw [List.map_eq_nil_iff.mp h]
  cases s.last <;> rfl

/-- A current token other than the end of the input is the first one ahead. -/
theorem lexemes_eq_cons (h : s.current.lexeme ≠ .eof) :
    ∃ rest, s.lexemes = s.current.lexeme :: rest := by
  cases hlex : s.lexemes with
  | nil => exact absurd (current_of_nil hlex) h
  | cons x rest => exact ⟨rest, by rw [current_of_cons hlex]⟩

/-- If no token stands for the end of the input, that is met only behind all of them. -/
theorem lexemes_of_eof (heof : .eof ∉ s.lexemes) (h : s.current.lexeme = .eof) :
    s.lexemes = [] := by
  cases hlex : s.lexemes with
  | nil => rfl
  | cons x rest =>
    rw [← h, current_of_cons hlex, hlex] at heof
    exact absurd List.mem_cons_self heof

theorem length_lexemes (s : ParseState) : s.lexemes.length = s.ahead.length :=
  List.length_map _

/-- Parsing starts with all tokens of the stream ahead. -/
theorem ahead_of_start {stream : TokenStream} (h : start stream = .ok s) :
    s.ahead = stream.tokens := by
  obtain ⟨tokens, ending⟩ := stream
  cases tokens with
  | nil =>
    cases ending with
    | failed e => cases h
    | finished tokens lines =>
      cases h
      rfl
    | closed =>
      cases h
      rfl
  | cons t ts =>
    cases h
    rfl

end ParseState

/-- The kinds of lexemes that hold a value, and the end of the input. -/
def variedKinds : List TokenKind :=
  [.identifier, .literal, .unknown, .eof]

/-- All other lexemes are determined by their kind. -/
theorem eq_of_kind_eq {x y : Lexeme} (h : x.kind = y.kind) (hy : y.kind ∉ variedKinds) : x = y := by
  cases x <;> cases y <;> first | rfl | (cases h; done) | simp [Lexeme.kind, variedKinds] at hy

namespace Parse

open ParseState

section

variable {α : Type} {s s' : ParseState} {x : Lexeme} {rest : List Lexeme} {t : Token}

theorem current_bind {f : Token → Parse α} : (current >>= f) s = f s.current s := rfl

theorem tokensAhead_bind {f : Nat → Parse α} : (tokensAhead >>= f) s = f s.ahead.length s := rfl

/-- Consuming a token takes the first of the lexemes. -/
theorem advance_sound (h : advance s = .ok t s') (hne : s.current.lexeme ≠ .eof) :
    s.lexemes = s.current.lexeme :: s'.lexemes := by
  obtain ⟨rest, hlex⟩ := lexemes_eq_cons hne
  obtain ⟨t, ts, hahead, ht, hts⟩ := List.map_eq_cons_iff.mp hlex
  rw [hlex]
  congr 1
  unfold advance at h
  rw [hahead] at h
  cases ts with
  | nil =>
    cases hclose : TokenStream.close s.ending with
    | error e =>
      rw [hclose] at h
      cases h
    | ok events =>
      rw [hclose] at h
      cases h
      exact hts.symm
  | cons t' ts =>
    cases h
    exact hts.symm

/-- Consuming a token of a kind with one lexeme takes that lexeme. -/
theorem advance_lexeme (y : Lexeme) (h : advance s = .ok t s') (hkind : s.current.kind = y.kind)
    (hy : y.kind ∉ variedKinds) : s.lexemes = y :: s'.lexemes := by
  have hcurrent : s.current.lexeme = y := eq_of_kind_eq hkind hy
  have hne : y ≠ .eof := by
    rintro rfl
    exact hy (by decide)
  rw [← hcurrent] at hne ⊢
  exact advance_sound h hne

theorem advance_of_cons (hs : s.Clean) (h : s.lexemes = x :: rest) :
    ∃ t s', advance s = .ok t s' ∧ s'.Clean ∧ s'.lexemes = rest := by
  obtain ⟨t, ts, hahead, ht, hts⟩ := List.map_eq_cons_iff.mp h
  have hnoEof : Lexeme.eof ∉ rest := by
    intro hmem
    exact hs.noEof (by rw [h]; exact List.mem_cons_of_mem _ hmem)
  unfold advance
  rw [hahead]
  cases ts with
  | nil =>
    -- the last token is only consumed if no fault follows it
    have hclose : ∃ events, TokenStream.close s.ending = .ok events := by
      cases hending : s.ending with
      | finished tokens lines => exact ⟨_, rfl⟩
      | failed e => exact absurd hending (hs.noFault e)
      | closed => exact ⟨_, rfl⟩
    obtain ⟨events, hclose⟩ := hclose
    rw [hclose]
    exact ⟨_, _, rfl, ⟨List.not_mem_nil, fun _ h => by cases h⟩, hts⟩
  | cons t' ts => exact ⟨_, _, rfl, ⟨by rw [← hts] at hnoEof; exact hnoEof, hs.noFault⟩, hts⟩

/-- Expecting a kind with one lexeme takes that lexeme. -/
theorem expect_sound (y : Lexeme) {what : String} (h : expect y.kind what s = .ok t s')
    (hy : y.kind ∉ variedKinds) : s.lexemes = y :: s'.lexemes := by
  unfold expect at h
  rw [current_bind] at h
  split at h
  · rename_i hkind
    exact advance_lexeme y h hkind hy
  · cases h

theorem expect_of_cons (kind : TokenKind) (what : String) (hs : s.Clean)
    (h : s.lexemes = x :: rest) (hkind : x.kind = kind) :
    ∃ t s', expect kind what s = .ok t s' ∧ s'.Clean ∧ s'.lexemes = rest := by
  unfold expect
  rw [current_bind, if_pos ((kind_of_cons h).trans hkind)]
  exact advance_of_cons hs h

end

/-! ## Soundness -/

section

variable {n : Nat} {inner : Parse Expr} {s s' : ParseState} {e : Expr}

/-- A parser of expressions only accepts expressions. -/
def Sound (n : Nat) (inner : Parse Expr) : Prop :=
  ∀ (s s' : ParseState) (e : Expr), inner s = .ok e s' →
    Derives n (.expression e) s.lexemes s'.lexemes

theorem operator?_eq_some {x : Lexeme} {op : Operator} (h : operator? x = some op) :
    x = op.lexeme := by
  cases x <;> cases h <;> rfl

theorem lexeme_ne_eof (op : Operator) : op.lexeme ≠ .eof := by
  cases op <;> decide

theorem argumentLoop_sound (hinner : Sound n inner) (k : Nat) {args : List Expr}
    (h : argumentLoop inner k s = .ok args s') :
    Derives n (.arguments args) s.lexemes s'.lexemes := by
  induction k generalizing s s' args with
  | zero => cases h
  | succ k ih =>
    obtain ⟨arg, mid, harg, h⟩ := bind_eq_ok.mp h
    have harg := hinner s mid arg harg
    rw [current_bind] at h
    split at h
    · rename_i hright
      obtain ⟨t, last, hadvance, h⟩ := bind_eq_ok.mp h
      cases h
      rw [advance_lexeme .rightParen hadvance hright (by decide)] at harg
      exact .lastArgument harg
    · obtain ⟨t, last, hcomma, h⟩ := bind_eq_ok.mp h
      obtain ⟨more, final, hmore, h⟩ := bind_eq_ok.mp h
      cases h
      rw [expect_sound .comma hcomma (by decide)] at harg
      exact .argument harg (ih hmore)

theorem callWith_sound (hinner : Sound n inner) (routine : Routine)
    (hroutine : s.current.lexeme = routine.lexeme) (h : callWith inner routine s = .ok e s') :
    Derives n (.primary e) s.lexemes s'.lexemes := by
  unfold callWith at h
  obtain ⟨_, s₁, hadvance, h⟩ := bind_eq_ok.mp h
  obtain ⟨_, s₂, hleft, h⟩ := bind_eq_ok.mp h
  obtain ⟨args, s₃, hargs, h⟩ := bind_eq_ok.mp h
  cases h
  have hs := advance_sound hadvance (by rw [hroutine]; cases routine <;> decide)
  rw [hs, hroutine, expect_sound .leftParen hleft (by decide)]
  unfold argumentsWith at hargs
  rw [current_bind] at hargs
  split at hargs
  · rename_i hright
    obtain ⟨_, s₄, hadvance, h⟩ := bind_eq_ok.mp hargs
    cases h
    rw [advance_lexeme .rightParen hadvance hright (by decide)]
    exact .callNothing routine _
  · exact .call routine (argumentLoop_sound hinner _ hargs)

theorem primaryWith_sound (hinner : Sound n inner) (h : primaryWith inner s = .ok e s') :
    Derives n (.primary e) s.lexemes s'.lexemes := by
  unfold primaryWith at h
  rw [current_bind] at h
  cases hcurrent : s.current.lexeme with
  | identifier name =>
    simp only [hcurrent] at h
    obtain ⟨_, s₁, hadvance, h⟩ := bind_eq_ok.mp h
    rw [current_bind] at h
    split at h
    · cases h
    · rename_i hnext
      cases h
      rw [advance_sound hadvance (by rw [hcurrent]; simp), hcurrent]
      refine .var name ?_
      intro hhead
      obtain ⟨rest, hrest⟩ := List.head?_eq_some_iff.mp hhead
      exact hnext (kind_of_cons hrest)
  | readKw =>
    simp only [hcurrent] at h
    exact callWith_sound hinner .read hcurrent h
  | writeKw =>
    simp only [hcurrent] at h
    exact callWith_sound hinner .write hcurrent h
  | literal value =>
    simp only [hcurrent] at h
    obtain ⟨_, s₁, hadvance, h⟩ := bind_eq_ok.mp h
    cases h
    rw [advance_sound hadvance (by rw [hcurrent]; simp), hcurrent]
    exact .literal value _
  | leftParen =>
    simp only [hcurrent] at h
    obtain ⟨_, s₁, hadvance, h⟩ := bind_eq_ok.mp h
    obtain ⟨_, s₂, hgroup, h⟩ := bind_eq_ok.mp h
    obtain ⟨_, s₃, hright, h⟩ := bind_eq_ok.mp h
    cases h
    have hgroup := hinner _ _ _ hgroup
    rw [expect_sound .rightParen hright (by decide)] at hgroup
    rw [advance_sound hadvance (by rw [hcurrent]; decide), hcurrent]
    exact .group hgroup
  | _ =>
    simp only [hcurrent] at h
    cases h

theorem chainLoop_sound (hinner : Sound n inner) (k : Nat) {ts : List Lexeme} {lhs : Expr}
    (hlhs : Derives (n + 1) (.expression lhs) ts s.lexemes)
    (h : chainLoop (primaryWith inner) k lhs s = .ok e s') :
    Derives (n + 1) (.expression e) ts s'.lexemes := by
  induction k generalizing s lhs with
  | zero =>
    cases h
    exact hlhs
  | succ k ih =>
    unfold chainLoop at h
    rw [current_bind] at h
    cases hop : operator? s.current.lexeme with
    | none =>
      rw [hop] at h
      cases h
      exact hlhs
    | some op =>
      rw [hop] at h
      obtain ⟨_, s₁, hadvance, h⟩ := bind_eq_ok.mp h
      obtain ⟨rhs, s₂, hrhs, h⟩ := bind_eq_ok.mp h
      have hcurrent := operator?_eq_some hop
      rw [advance_sound hadvance (by rw [hcurrent]; exact lexeme_ne_eof op), hcurrent] at hlhs
      exact ih (.operator op hlhs (primaryWith_sound hinner hrhs)) h

theorem expressionWithin_sound (n : Nat) : Sound n (expressionWithin n) := by
  induction n with
  | zero =>
    intro s s' e h
    cases h
  | succ n ih =>
    intro s s' e h
    obtain ⟨lhs, mid, hlhs, h⟩ := bind_eq_ok.mp h
    unfold chain at h
    rw [tokensAhead_bind] at h
    exact chainLoop_sound ih _ (.single (primaryWith_sound ih hlhs)) h

theorem statement_sound (h : statement s = .ok e s') : Statement e s.lexemes s'.lexemes := by
  unfold statement at h
  rw [current_bind] at h
  split at h
  · unfold assignment at h
    rw [current_bind] at h
    cases hcurrent : s.current.lexeme with
    | identifier name =>
      simp only [hcurrent] at h
      obtain ⟨_, s₁, hadvance, h⟩ := bind_eq_ok.mp h
      obtain ⟨_, s₂, hassign, h⟩ := bind_eq_ok.mp h
      obtain ⟨value, s₃, hvalue, h⟩ := bind_eq_ok.mp h
      cases h
      rw [advance_sound hadvance (by rw [hcurrent]; simp), hcurrent,
        expect_sound .assign hassign (by decide)]
      exact .assignment name (expressionWithin_sound _ _ _ _ hvalue)
    | _ =>
      simp only [hcurrent] at h
      cases h
  · rename_i hstart
    obtain ⟨tree, s₁, hexpression, h⟩ := bind_eq_ok.mp h
    have hderives := expressionWithin_sound _ _ _ _ hexpression
    cases tree with
    | call routine args =>
      cases h
      refine .call ?_ hderives
      intro name hhead
      obtain ⟨rest, hrest⟩ := List.head?_eq_some_iff.mp hhead
      exact hstart (kind_of_cons hrest)
    | _ => cases h

/-- The loop over statements stops at the closing word and at the end of the input. -/
theorem statementLoop_of_stop (h : s.current.lexeme = .endKw ∨ s.current.lexeme = .eof) (k : Nat) :
    statementLoop k s = .ok [] s := by
  cases k with
  | zero => rfl
  | succ k =>
    unfold statementLoop
    rw [current_bind]
    unfold Token.kind
    rcases h with h | h
    · rw [h]
      rfl
    · rw [h]
      rfl

theorem statementLoop_of_semicolon (h : s.current.lexeme = .semicolon) (k : Nat) :
    statementLoop (k + 1) s = (advance >>= fun _ => statementLoop k) s := by
  rw [statementLoop.eq_2, current_bind]
  unfold Token.kind
  rw [h]
  rfl

theorem statementLoop_of_statement (hstop : ¬(s.current.lexeme = .endKw ∨ s.current.lexeme = .eof))
    (hsemicolon : s.current.lexeme ≠ .semicolon) (k : Nat) :
    statementLoop (k + 1) s =
      (do let s ← statement; return s :: (← statementLoop k) : Parse (List Expr)) s := by
  rw [statementLoop.eq_2, current_bind]
  unfold Token.kind
  cases hcurrent : s.current.lexeme with
  | endKw => exact absurd (.inl hcurrent) hstop
  | eof => exact absurd (.inr hcurrent) hstop
  | semicolon => exact absurd hcurrent hsemicolon
  | _ => rfl

/-- The loop over statements reads a body, whatever stops it. -/
theorem statementLoop_sound (k : Nat) {ss : List Expr} (h : statementLoop k s = .ok ss s') :
    Body ss s.lexemes s'.lexemes := by
  induction k generalizing s ss with
  | zero =>
    cases h
    exact .done _
  | succ k ih =>
    by_cases hstop : s.current.lexeme = .endKw ∨ s.current.lexeme = .eof
    · rw [statementLoop_of_stop hstop] at h
      cases h
      exact .done _
    by_cases hsemicolon : s.current.lexeme = .semicolon
    · rw [statementLoop_of_semicolon hsemicolon] at h
      obtain ⟨_, s₁, hadvance, h⟩ := bind_eq_ok.mp h
      rw [advance_sound hadvance (by rw [hsemicolon]; decide), hsemicolon]
      exact .semicolon (ih h)
    · rw [statementLoop_of_statement hstop hsemicolon] at h
      obtain ⟨e, s₁, hstatement, h⟩ := bind_eq_ok.mp h
      obtain ⟨more, s₂, hmore, h⟩ := bind_eq_ok.mp h
      cases h
      exact .statement (statement_sound hstatement) (ih hmore)

/-- With a turn for each lexeme ahead, the loop over statements only stops where it has to. -/
theorem current_of_statementLoop (k : Nat) {ss : List Expr} (h : statementLoop k s = .ok ss s')
    (hk : s.lexemes.length ≤ k) : s'.current.lexeme = .endKw ∨ s'.current.lexeme = .eof := by
  induction k generalizing s ss with
  | zero =>
    cases h
    exact .inr (current_of_nil (List.length_eq_zero_iff.mp (Nat.le_zero.mp hk)))
  | succ k ih =>
    by_cases hstop : s.current.lexeme = .endKw ∨ s.current.lexeme = .eof
    · rw [statementLoop_of_stop hstop] at h
      cases h
      exact hstop
    by_cases hsemicolon : s.current.lexeme = .semicolon
    · rw [statementLoop_of_semicolon hsemicolon] at h
      obtain ⟨_, s₁, hadvance, h⟩ := bind_eq_ok.mp h
      rw [advance_sound hadvance (by rw [hsemicolon]; decide), List.length_cons] at hk
      exact ih h (by omega)
    · rw [statementLoop_of_statement hstop hsemicolon] at h
      obtain ⟨e, s₁, hstatement, h⟩ := bind_eq_ok.mp h
      obtain ⟨more, s₂, hmore, h⟩ := bind_eq_ok.mp h
      cases h
      obtain ⟨w, hw, hlex⟩ := (statement_sound hstatement).consumes
      have hpos := List.length_pos_iff.mpr hw
      rw [hlex, List.length_append] at hk
      exact ih hmore (by omega)

theorem skipLoop_of_begin (h : s.current.lexeme = .beginKw) (k j : Nat) :
    skipLoop (k + 1) j s = .ok (some j) s := by
  rw [skipLoop.eq_2, current_bind]
  unfold Token.kind
  rw [h]
  rfl

theorem skipLoop_of_eof (h : s.current.lexeme = .eof) (k j : Nat) :
    skipLoop (k + 1) j s = .ok none s := by
  rw [skipLoop.eq_2, current_bind]
  unfold Token.kind
  rw [h]
  rfl

theorem skipLoop_of_other (hbegin : s.current.lexeme ≠ .beginKw) (heof : s.current.lexeme ≠ .eof)
    (k j : Nat) : skipLoop (k + 1) j s = (advance >>= fun _ => skipLoop k (j + 1)) s := by
  rw [skipLoop.eq_2, current_bind]
  unfold Token.kind
  cases hcurrent : s.current.lexeme with
  | beginKw => exact absurd hcurrent hbegin
  | eof => exact absurd hcurrent heof
  | _ => rfl

/-- The loop before the opening word stops at the first one, or finds that there is none. -/
theorem skipLoop_sound (k j : Nat) {found : Option Nat} (h : skipLoop k j s = .ok found s')
    (hk : s.lexemes.length < k) (heof : .eof ∉ s.lexemes) :
    (found = none ∧ .beginKw ∉ s.lexemes)
    ∨ (found.isSome ∧ s'.current.lexeme = .beginKw
      ∧ ∃ pre, s.lexemes = pre ++ s'.lexemes ∧ .beginKw ∉ pre) := by
  induction k generalizing s j with
  | zero => omega
  | succ k ih =>
    by_cases hbegin : s.current.lexeme = .beginKw
    · rw [skipLoop_of_begin hbegin] at h
      cases h
      exact .inr ⟨rfl, hbegin, [], rfl, List.not_mem_nil⟩
    by_cases hend : s.current.lexeme = .eof
    · rw [skipLoop_of_eof hend] at h
      cases h
      exact .inl ⟨rfl, by rw [lexemes_of_eof heof hend]; exact List.not_mem_nil⟩
    · rw [skipLoop_of_other hbegin hend] at h
      obtain ⟨_, s₁, hadvance, h⟩ := bind_eq_ok.mp h
      -- the skipped lexeme goes in front of what the loop skips after it
      have hlex := advance_sound hadvance hend
      rw [hlex] at hk heof ⊢
      have hne : Lexeme.beginKw ≠ s.current.lexeme := fun h => hbegin h.symm
      rcases ih (j + 1) h (by simpa using hk) (fun hmem => heof (List.mem_cons_of_mem _ hmem)) with
        ⟨hnone, hmem⟩ | ⟨hsome, hcurrent, pre, hpre, hmem⟩
      · exact .inl ⟨hnone, List.not_mem_cons_of_ne_of_not_mem hne hmem⟩
      · exact .inr ⟨hsome, hcurrent, s.current.lexeme :: pre, by rw [hpre]; rfl,
          List.not_mem_cons_of_ne_of_not_mem hne hmem⟩

/-- A program from its opening word on. -/
def block : Parse Program := do
  let _ ← expectKind .beginKw
  let statements ← statementLoop ((← tokensAhead) + 1)
  if (← current).kind = .eof then report .noEnd else report (.parsed statements.length)
  return statements

theorem program_of_none (h : skipLoop (s.ahead.length + 1) 0 s = .ok none s') :
    ∃ s'', program s = .ok [] s'' := by
  unfold program
  rw [tokensAhead_bind, bind_of_ok h]
  exact ⟨_, rfl⟩

/-- Reporting what was skipped leaves the lexemes as they are. -/
theorem program_of_some {skipped : Nat}
    (h : skipLoop (s.ahead.length + 1) 0 s = .ok (some skipped) s') :
    ∃ s'', s''.ahead = s'.ahead ∧ s''.ending = s'.ending ∧ program s = block s'' := by
  unfold program
  rw [tokensAhead_bind, bind_of_ok h]
  dsimp only
  split
  · exact ⟨{ s' with log := s'.log.push (.skipped skipped) }, rfl, rfl, rfl⟩
  · exact ⟨s', rfl, rfl, rfl⟩

theorem block_sound {p : Program} (h : block s = .ok p s') (heof : .eof ∉ s.lexemes) :
    ∃ body tail, s.lexemes = .beginKw :: (body ++ tail)
      ∧ (tail = [] ∨ tail.head? = some .endKw) ∧ Body p (body ++ tail) tail := by
  unfold block at h
  obtain ⟨_, s₁, hexpect, h⟩ := bind_eq_ok.mp h
  rw [tokensAhead_bind] at h
  obtain ⟨ss, s₂, hloop, h⟩ := bind_eq_ok.mp h
  obtain rfl : ss = p := by
    rw [current_bind] at h
    split at h
    · cases h
      rfl
    · cases h
      rfl
  have hs := expect_sound .beginKw hexpect (by decide)
  have hbody := statementLoop_sound _ hloop
  have hstop := current_of_statementLoop _ hloop (by rw [length_lexemes]; omega)
  obtain ⟨body, hsplit⟩ := hbody.consumes
  rw [hs, hsplit] at heof
  refine ⟨body, s₂.lexemes, by rw [hs, hsplit], ?_, by rw [← hsplit]; exact hbody⟩
  rcases hstop with hend | heof'
  · obtain ⟨rest, hrest⟩ := lexemes_eq_cons (s := s₂) (by rw [hend]; decide)
    rw [hrest, hend]
    exact .inr rfl
  · refine .inl (lexemes_of_eof (fun hmem => heof ?_) heof')
    exact List.mem_cons_of_mem _ (List.mem_append_right _ hmem)

/-- Whatever the parser accepts is a program with the tree it returns. -/
theorem program_sound {p : Program} (h : program s = .ok p s') (heof : .eof ∉ s.lexemes) :
    Written p s.lexemes := by
  have hk : s.lexemes.length < s.ahead.length + 1 := by rw [length_lexemes]; omega
  cases hskip : skipLoop (s.ahead.length + 1) 0 s with
  | error e s₁ =>
    unfold program at h
    rw [tokensAhead_bind, bind_of_error hskip] at h
    cases h
  | ok found s₁ =>
    rcases skipLoop_sound _ _ hskip hk heof with ⟨rfl, hbegin⟩ | ⟨hsome, _, pre, hpre, hmem⟩
    · obtain ⟨s₂, hprogram⟩ := program_of_none hskip
      rw [hprogram] at h
      cases h
      exact .inl ⟨hbegin, rfl⟩
    · obtain ⟨skipped, rfl⟩ := Option.isSome_iff_exists.mp hsome
      obtain ⟨s₂, hahead, _, hprogram⟩ := program_of_some hskip
      have hlex : s₂.lexemes = s₁.lexemes := congrArg (List.map Token.lexeme) hahead
      rw [hprogram] at h
      rw [hpre, ← hlex] at heof
      obtain ⟨body, tail, hs₂, htail, hbody⟩ :=
        block_sound h (fun hmem => heof (List.mem_append_right _ hmem))
      exact .inr ⟨pre, body, tail, by rw [hpre, ← hlex, hs₂], hmem, htail, hbody⟩

end

/-! ## Completeness -/

section

variable {n : Nat} {phrase : Grammar.Phrase} {s s' : ParseState} {e : Expr}
  {ts rest : List Lexeme}

/-- What the parsers do on a derived phrase. An expression is read up to the loop that looks for a
further operator, as the derivation may be part of a longer one. -/
def Reads (n : Nat) (s s' : ParseState) : Grammar.Phrase → Prop
  | .primary e => primaryWith (expressionWithin n) s = .ok e s'
  | .expression e => ∃ k, s'.lexemes.length ≤ k ∧
    expressionWithin n s = chainLoop (primaryWith (expressionWithin (n - 1))) k e s'
  | .arguments args => ∀ k, s.lexemes.length ≤ k →
    argumentLoop (expressionWithin n) k s = .ok args s'

theorem operator?_lexeme (op : Operator) : operator? op.lexeme = some op := by
  cases op <;> rfl

theorem chainLoop_of_stop {operand : Parse Expr} (k : Nat)
    (h : ∀ op : Operator, s.lexemes.head? ≠ some op.lexeme) :
    chainLoop operand k e s = .ok e s := by
  cases k with
  | zero => rfl
  | succ k =>
    rw [chainLoop.eq_2, current_bind]
    cases hop : operator? s.current.lexeme with
    | none => rfl
    | some op =>
      have hcurrent := operator?_eq_some hop
      obtain ⟨rest, hrest⟩ := lexemes_eq_cons (s := s) (by rw [hcurrent]; exact lexeme_ne_eof op)
      exact absurd (by rw [hrest, hcurrent]; rfl) (h op)

/-- An expression ends where no operator follows. -/
theorem Reads.eq_ok (h : Reads n s s' (.expression e)) (hlex : s'.lexemes = rest)
    (hstop : ∀ op : Operator, rest.head? ≠ some op.lexeme) : expressionWithin n s = .ok e s' := by
  obtain ⟨k, _, h⟩ := h
  rw [h]
  exact chainLoop_of_stop k (by rw [hlex]; exact hstop)

/-! One lemma for each rule: what the parser in it does where the rule applies. -/

theorem primaryWith_of_literal {inner : Parse Expr} {value : Nat} (hs : s.Clean)
    (hlex : s.lexemes = .literal value :: rest) :
    ∃ s', s'.Clean ∧ s'.lexemes = rest ∧ primaryWith inner s = .ok (.int value) s' := by
  obtain ⟨_, s₁, hadvance, hs₁, hlex₁⟩ := advance_of_cons hs hlex
  refine ⟨s₁, hs₁, hlex₁, ?_⟩
  unfold primaryWith
  rw [current_bind]
  simp only [current_of_cons hlex]
  rw [bind_of_ok hadvance]
  rfl

theorem primaryWith_of_identifier {inner : Parse Expr} {name : String} (hs : s.Clean)
    (hlex : s.lexemes = .identifier name :: rest) (hnext : rest.head? ≠ some .leftParen) :
    ∃ s', s'.Clean ∧ s'.lexemes = rest ∧ primaryWith inner s = .ok (.var name) s' := by
  obtain ⟨_, s₁, hadvance, hs₁, hlex₁⟩ := advance_of_cons hs hlex
  refine ⟨s₁, hs₁, hlex₁, ?_⟩
  have hkind : s₁.current.kind ≠ .leftParen := by
    intro hkind
    have hcurrent : s₁.current.lexeme = .leftParen := eq_of_kind_eq hkind (by decide)
    obtain ⟨_, hcons⟩ := lexemes_eq_cons (s := s₁) (by rw [hcurrent]; decide)
    rw [← hlex₁, hcons, hcurrent] at hnext
    exact hnext rfl
  unfold primaryWith
  rw [current_bind]
  simp only [current_of_cons hlex]
  rw [bind_of_ok hadvance, current_bind, if_neg hkind]
  rfl

theorem primaryWith_of_group {inner : Parse Expr} (hs : s.Clean)
    (hlex : s.lexemes = .leftParen :: ts)
    (hinner : ∀ s : ParseState, s.Clean → s.lexemes = ts →
      ∃ s', s'.Clean ∧ s'.lexemes = .rightParen :: rest ∧ inner s = .ok e s') :
    ∃ s', s'.Clean ∧ s'.lexemes = rest ∧ primaryWith inner s = .ok e s' := by
  obtain ⟨_, s₁, hadvance, hs₁, hlex₁⟩ := advance_of_cons hs hlex
  obtain ⟨s₂, hs₂, hlex₂, hinner⟩ := hinner s₁ hs₁ hlex₁
  obtain ⟨_, s₃, hexpect, hs₃, hlex₃⟩ := expect_of_cons .rightParen "')'" hs₂ hlex₂ rfl
  refine ⟨s₃, hs₃, hlex₃, ?_⟩
  unfold primaryWith
  rw [current_bind]
  simp only [current_of_cons hlex]
  rw [bind_of_ok hadvance, bind_of_ok hinner, bind_of_ok hexpect]
  rfl

theorem primaryWith_of_call {inner : Parse Expr} {routine : Routine} {args : List Expr}
    (hs : s.Clean) (hlex : s.lexemes = routine.lexeme :: .leftParen :: ts)
    (hargs : ∀ s : ParseState, s.Clean → s.lexemes = ts →
      ∃ s', s'.Clean ∧ s'.lexemes = rest ∧ argumentsWith inner s = .ok args s') :
    ∃ s', s'.Clean ∧ s'.lexemes = rest ∧ primaryWith inner s = .ok (.call routine args) s' := by
  obtain ⟨_, s₁, hadvance, hs₁, hlex₁⟩ := advance_of_cons hs hlex
  obtain ⟨_, s₂, hexpect, hs₂, hlex₂⟩ :=
    expect_of_cons .leftParen (Text.quoted TokenKind.leftParen.spelling) hs₁ hlex₁ rfl
  obtain ⟨s₃, hs₃, hlex₃, hargs⟩ := hargs s₂ hs₂ hlex₂
  refine ⟨s₃, hs₃, hlex₃, ?_⟩
  have hcall : callWith inner routine s = .ok (.call routine args) s₃ := by
    unfold callWith expectKind
    rw [bind_of_ok hadvance, bind_of_ok hexpect, bind_of_ok hargs]
    rfl
  have hcurrent := current_of_cons hlex
  unfold primaryWith
  rw [current_bind]
  cases routine with
  | read =>
    simp only [hcurrent, Routine.lexeme]
    exact hcall
  | write =>
    simp only [hcurrent, Routine.lexeme]
    exact hcall

theorem argumentsWith_of_nothing {inner : Parse Expr} (hs : s.Clean)
    (hlex : s.lexemes = .rightParen :: rest) :
    ∃ s', s'.Clean ∧ s'.lexemes = rest ∧ argumentsWith inner s = .ok [] s' := by
  obtain ⟨_, s₁, hadvance, hs₁, hlex₁⟩ := advance_of_cons hs hlex
  refine ⟨s₁, hs₁, hlex₁, ?_⟩
  unfold argumentsWith
  rw [current_bind, if_pos (by exact kind_of_cons hlex),
    bind_of_ok hadvance]
  rfl

/-- Where an argument starts, the parser does not take the list for an empty one. -/
theorem argumentsWith_of_opens {inner : Parse Expr} {x : Lexeme} (hlex : s.lexemes = x :: ts)
    (hopens : Opens x) :
    argumentsWith inner s = argumentLoop inner (s.lexemes.length + 1) s := by
  have hkind : s.current.kind ≠ .rightParen := by
    intro hkind
    have hcurrent : s.current.lexeme = .rightParen := eq_of_kind_eq hkind (by decide)
    rw [← current_of_cons hlex, hcurrent] at hopens
    exact hopens
  unfold argumentsWith
  rw [current_bind, if_neg hkind, tokensAhead_bind, length_lexemes]

theorem argumentLoop_of_last {inner : Parse Expr} (hinner : inner s = .ok e s') (hs : s'.Clean)
    (hlex : s'.lexemes = .rightParen :: rest) :
    ∃ s'', s''.Clean ∧ s''.lexemes = rest ∧ ∀ k, argumentLoop inner (k + 1) s = .ok [e] s'' := by
  obtain ⟨_, s₁, hadvance, hs₁, hlex₁⟩ := advance_of_cons hs hlex
  refine ⟨s₁, hs₁, hlex₁, ?_⟩
  intro k
  unfold argumentLoop
  rw [bind_of_ok hinner, current_bind,
    if_pos (by exact kind_of_cons hlex), bind_of_ok hadvance]
  rfl

theorem argumentLoop_of_comma {inner : Parse Expr} (hinner : inner s = .ok e s') (hs : s'.Clean)
    (hlex : s'.lexemes = .comma :: rest) :
    ∃ s'', s''.Clean ∧ s''.lexemes = rest ∧ ∀ k,
      argumentLoop inner (k + 1) s
        = (do return e :: (← argumentLoop inner k) : Parse (List Expr)) s'' := by
  obtain ⟨_, s₁, hexpect, hs₁, hlex₁⟩ := expect_of_cons .comma "',' or ')'" hs hlex rfl
  refine ⟨s₁, hs₁, hlex₁, ?_⟩
  intro k
  rw [argumentLoop.eq_2, bind_of_ok hinner, current_bind,
    if_neg (by rw [kind_of_cons hlex]; decide), bind_of_ok hexpect]

theorem chainLoop_of_operator {operand : Parse Expr} {op : Operator} (hs : s.Clean)
    (hlex : s.lexemes = op.lexeme :: rest) :
    ∃ s', s'.Clean ∧ s'.lexemes = rest ∧ ∀ k lhs,
      chainLoop operand (k + 1) lhs s
        = (operand >>= fun rhs => chainLoop operand k (.binary op lhs rhs)) s' := by
  obtain ⟨_, s₁, hadvance, hs₁, hlex₁⟩ := advance_of_cons hs hlex
  refine ⟨s₁, hs₁, hlex₁, ?_⟩
  intro k lhs
  rw [chainLoop.eq_2, current_bind, current_of_cons hlex, operator?_lexeme]
  exact bind_of_ok hadvance

/-- A closing parenthesis or a comma ends an expression. -/
theorem not_operator {x : Lexeme} (hx : x = .rightParen ∨ x = .comma) (op : Operator) :
    (x :: rest).head? ≠ some op.lexeme := by
  rcases hx with rfl | rfl <;> cases op <;> simp [Operator.lexeme]

/-- The parsers follow a derivation, from any clean state with its lexemes ahead. -/
theorem reads_of_derives (h : Derives n phrase ts rest) (hs : s.Clean) (hlex : s.lexemes = ts) :
    ∃ s', s'.Clean ∧ s'.lexemes = rest ∧ Reads n s s' phrase := by
  induction h generalizing s with
  | literal value rest => exact primaryWith_of_literal hs hlex
  | var name hnext => exact primaryWith_of_identifier hs hlex hnext
  | group h ih =>
    refine primaryWith_of_group hs hlex ?_
    intro s hs hlex
    obtain ⟨s₁, hs₁, hlex₁, hreads⟩ := ih hs hlex
    exact ⟨s₁, hs₁, hlex₁, hreads.eq_ok hlex₁ (not_operator (.inl rfl))⟩
  | callNothing routine rest =>
    exact primaryWith_of_call hs hlex fun s hs hlex => argumentsWith_of_nothing hs hlex
  | call routine h ih =>
    refine primaryWith_of_call hs hlex ?_
    intro s hs hlex
    obtain ⟨s₁, hs₁, hlex₁, hreads⟩ := ih hs hlex
    obtain ⟨x, ts', rfl, hopens⟩ := h.starts
    rw [argumentsWith_of_opens hlex hopens]
    exact ⟨s₁, hs₁, hlex₁, hreads _ (Nat.le_succ _)⟩
  | single h ih =>
    obtain ⟨s₁, hs₁, hlex₁, hreads⟩ := ih hs hlex
    refine ⟨s₁, hs₁, hlex₁, s₁.ahead.length, Nat.le_of_eq (length_lexemes s₁), ?_⟩
    rw [expressionWithin.eq_2]
    exact bind_of_ok hreads
  | operator op hlhs hrhs ihl ihr =>
    -- the loop behind the left operand takes one turn more
    obtain ⟨s₁, hs₁, hlex₁, k, hk, hreads⟩ := ihl hs hlex
    obtain ⟨s₂, hs₂, hlex₂, hturn⟩ := chainLoop_of_operator hs₁ hlex₁
    obtain ⟨s₃, hs₃, hlex₃, hoperand⟩ := ihr hs₂ hlex₂
    obtain ⟨w, _, hw⟩ := hrhs.consumes
    rw [hlex₁, hw, List.length_cons, List.length_append] at hk
    obtain ⟨k, rfl⟩ : ∃ k', k = k' + 1 := ⟨k - 1, by omega⟩
    refine ⟨s₃, hs₃, hlex₃, k, by rw [hlex₃]; omega, ?_⟩
    rw [hreads, hturn]
    exact bind_of_ok hoperand
  | lastArgument h ih =>
    -- an argument ends at a closing parenthesis, where no operator follows
    obtain ⟨s₁, hs₁, hlex₁, hreads⟩ := ih hs hlex
    have hinner := hreads.eq_ok hlex₁ (not_operator (.inl rfl))
    obtain ⟨s₂, hs₂, hlex₂, hloop⟩ := argumentLoop_of_last hinner hs₁ hlex₁
    refine ⟨s₂, hs₂, hlex₂, ?_⟩
    intro k hk
    obtain ⟨x, ts', rfl, _⟩ := h.starts
    rw [hlex, List.length_cons] at hk
    obtain ⟨k, rfl⟩ : ∃ k', k = k' + 1 := ⟨k - 1, by omega⟩
    exact hloop k
  | argument h hargs ih ihargs =>
    obtain ⟨s₁, hs₁, hlex₁, hreads⟩ := ih hs hlex
    have hinner := hreads.eq_ok hlex₁ (not_operator (.inr rfl))
    obtain ⟨s₂, hs₂, hlex₂, hloop⟩ := argumentLoop_of_comma hinner hs₁ hlex₁
    obtain ⟨s₃, hs₃, hlex₃, hmore⟩ := ihargs hs₂ hlex₂
    refine ⟨s₃, hs₃, hlex₃, ?_⟩
    intro k hk
    obtain ⟨w, _, hw⟩ := h.consumes
    rw [hlex, hw, List.length_append, List.length_cons] at hk
    obtain ⟨k, rfl⟩ : ∃ k', k = k' + 1 := ⟨k - 1, by omega⟩
    rw [hloop, bind_of_ok (hmore k (by rw [hlex₂]; omega))]
    rfl

theorem opens_ne_operator {x : Lexeme} (h : Opens x) (op : Operator) : x ≠ op.lexeme := by
  rintro rfl
  cases op <;> exact h

theorem statement_of_derived (h : Statement e ts rest) (hs : s.Clean) (hlex : s.lexemes = ts)
    (hstop : ∀ op : Operator, rest.head? ≠ some op.lexeme) :
    ∃ s', s'.Clean ∧ s'.lexemes = rest ∧ statement s = .ok e s' := by
  cases h with
  | assignment name h =>
    obtain ⟨_, s₁, hadvance, hs₁, hlex₁⟩ := advance_of_cons hs hlex
    obtain ⟨_, s₂, hexpect, hs₂, hlex₂⟩ :=
      expect_of_cons .assign (Text.quoted TokenKind.assign.spelling) hs₁ hlex₁ rfl
    obtain ⟨s₃, hs₃, hlex₃, hreads⟩ := reads_of_derives h hs₂ hlex₂
    have hvalue : expression s₂ = .ok _ s₃ := hreads.eq_ok hlex₃ hstop
    refine ⟨s₃, hs₃, hlex₃, ?_⟩
    unfold statement
    rw [current_bind, if_pos (by exact kind_of_cons hlex)]
    unfold assignment expectKind
    rw [current_bind]
    simp only [current_of_cons hlex]
    rw [bind_of_ok hadvance, bind_of_ok hexpect, bind_of_ok hvalue]
    rfl
  | call hstart h =>
    obtain ⟨s₁, hs₁, hlex₁, hreads⟩ := reads_of_derives h hs hlex
    have hvalue : expression s = .ok _ s₁ := hreads.eq_ok hlex₁ hstop
    refine ⟨s₁, hs₁, hlex₁, ?_⟩
    have hkind : s.current.kind ≠ .identifier := by
      obtain ⟨x, ts', rfl, _⟩ := h.starts
      rw [kind_of_cons hlex]
      intro hkind
      cases x with
      | identifier name => exact hstart name rfl
      | _ => cases hkind
    unfold statement
    rw [current_bind, if_neg hkind, bind_of_ok hvalue]
    rfl

/-- What follows a statement in a body does not go on with its expression. -/
theorem body_not_operator {ss : List Expr} (h : Body ss ts rest)
    (hrest : rest = [] ∨ rest.head? = some .endKw) (op : Operator) :
    ts.head? ≠ some op.lexeme := by
  cases h with
  | done =>
    rcases hrest with rfl | hrest
    · simp
    · rw [hrest]
      cases op <;> simp [Operator.lexeme]
  | semicolon _ => cases op <;> simp [Operator.lexeme]
  | statement h _ =>
    obtain ⟨x, ts', rfl, hopens⟩ := h.starts
    intro hhead
    exact opens_ne_operator hopens op (Option.some.inj hhead)

theorem statementLoop_of_body {ss : List Expr} (h : Body ss ts rest)
    (hrest : rest = [] ∨ rest.head? = some .endKw) (hs : s.Clean) (hlex : s.lexemes = ts) {k : Nat}
    (hk : ts.length ≤ k) :
    ∃ s', s'.Clean ∧ s'.lexemes = rest ∧ statementLoop k s = .ok ss s' := by
  induction h generalizing s k with
  | done rest =>
    refine ⟨s, hs, hlex, statementLoop_of_stop ?_ k⟩
    rcases hrest with rfl | hrest
    · exact .inr (current_of_nil hlex)
    · obtain ⟨rest', rfl⟩ := List.head?_eq_some_iff.mp hrest
      exact .inl (current_of_cons hlex)
  | semicolon h ih =>
    obtain ⟨_, s₁, hadvance, hs₁, hlex₁⟩ := advance_of_cons hs hlex
    rw [List.length_cons] at hk
    obtain ⟨k, rfl⟩ : ∃ k', k = k' + 1 := ⟨k - 1, by omega⟩
    obtain ⟨s₂, hs₂, hlex₂, hloop⟩ := ih hrest hs₁ hlex₁ (k := k) (by omega)
    refine ⟨s₂, hs₂, hlex₂, ?_⟩
    rw [statementLoop_of_semicolon (current_of_cons hlex), bind_of_ok hadvance]
    exact hloop
  | statement h hss ih =>
    obtain ⟨s₁, hs₁, hlex₁, hstatement⟩ :=
      statement_of_derived h hs hlex (body_not_operator hss hrest)
    obtain ⟨w, hw, hsplit⟩ := h.consumes
    have hpos := List.length_pos_iff.mpr hw
    rw [hsplit, List.length_append] at hk
    obtain ⟨k, rfl⟩ : ∃ k', k = k' + 1 := ⟨k - 1, by omega⟩
    obtain ⟨s₂, hs₂, hlex₂, hloop⟩ := ih hrest hs₁ hlex₁ (k := k) (by omega)
    refine ⟨s₂, hs₂, hlex₂, ?_⟩
    -- no statement starts with a lexeme that the loop looks for
    obtain ⟨x, ts', hstarts, hopens⟩ := h.starts
    have hcurrent : s.current.lexeme = x := current_of_cons (hlex.trans hstarts)
    rw [statementLoop_of_statement, bind_of_ok hstatement, bind_of_ok hloop]
    · rfl
    · rw [hcurrent]
      rintro (rfl | rfl) <;> exact hopens
    · rw [hcurrent]
      rintro rfl
      exact hopens

/-- Before the opening word everything is skipped. -/
theorem skipLoop_of_begin_mem {pre : List Lexeme} (hs : s.Clean)
    (hlex : s.lexemes = pre ++ .beginKw :: rest) (hpre : .beginKw ∉ pre) {k : Nat}
    (hk : pre.length < k) (j : Nat) :
    ∃ s', s'.Clean ∧ s'.lexemes = .beginKw :: rest ∧
      skipLoop k j s = .ok (some (j + pre.length)) s' := by
  induction pre generalizing s k j with
  | nil =>
    obtain ⟨k, rfl⟩ : ∃ k', k = k' + 1 := ⟨k - 1, by rw [List.length_nil] at hk; omega⟩
    exact ⟨s, hs, hlex, skipLoop_of_begin (current_of_cons hlex) k j⟩
  | cons x pre ih =>
    obtain ⟨_, s₁, hadvance, hs₁, hlex₁⟩ := advance_of_cons hs hlex
    rw [List.length_cons] at hk
    obtain ⟨k, rfl⟩ : ∃ k', k = k' + 1 := ⟨k - 1, by omega⟩
    obtain ⟨s₂, hs₂, hlex₂, hskip⟩ :=
      ih hs₁ hlex₁ (fun hmem => hpre (List.mem_cons_of_mem _ hmem)) (k := k) (by omega) (j + 1)
    refine ⟨s₂, hs₂, hlex₂, ?_⟩
    have hcurrent : s.current.lexeme = x := current_of_cons hlex
    rw [skipLoop_of_other, bind_of_ok hadvance, hskip]
    · rw [List.length_cons]
      congr 2
      omega
    · rw [hcurrent]
      rintro rfl
      exact hpre List.mem_cons_self
    · rw [hcurrent]
      rintro rfl
      exact hs.noEof (by rw [hlex]; exact List.mem_cons_self)

theorem skipLoop_of_begin_not_mem (hs : s.Clean) (hbegin : .beginKw ∉ s.lexemes) {k : Nat}
    (hk : s.lexemes.length < k) (j : Nat) : ∃ s', skipLoop k j s = .ok none s' := by
  induction k generalizing s j with
  | zero => omega
  | succ k ih =>
    cases hlex : s.lexemes with
    | nil => exact ⟨s, skipLoop_of_eof (current_of_nil hlex) k j⟩
    | cons x rest =>
      obtain ⟨_, s₁, hadvance, hs₁, hlex₁⟩ := advance_of_cons hs hlex
      rw [hlex] at hbegin hk
      rw [List.length_cons] at hk
      obtain ⟨s₂, hskip⟩ := ih hs₁
        (by rw [hlex₁]; exact fun hmem => hbegin (List.mem_cons_of_mem _ hmem))
        (by rw [hlex₁]; omega) (j + 1)
      refine ⟨s₂, ?_⟩
      have hcurrent : s.current.lexeme = x := current_of_cons hlex
      rw [skipLoop_of_other, bind_of_ok hadvance, hskip]
      · rw [hcurrent]
        rintro rfl
        exact hbegin List.mem_cons_self
      · rw [hcurrent]
        rintro rfl
        exact hs.noEof (by rw [hlex]; exact List.mem_cons_self)

theorem block_of_body {p : Program} {body tail : List Lexeme} (hs : s.Clean)
    (hlex : s.lexemes = .beginKw :: (body ++ tail)) (htail : tail = [] ∨ tail.head? = some .endKw)
    (hbody : Body p (body ++ tail) tail) : ∃ s', block s = .ok p s' := by
  obtain ⟨_, s₁, hexpect, hs₁, hlex₁⟩ :=
    expect_of_cons .beginKw (Text.quoted TokenKind.beginKw.spelling) hs hlex rfl
  obtain ⟨s₂, hs₂, hlex₂, hloop⟩ := statementLoop_of_body hbody htail hs₁ hlex₁
    (k := s₁.ahead.length + 1) (by rw [← hlex₁, length_lexemes]; omega)
  unfold block expectKind
  rw [bind_of_ok hexpect, tokensAhead_bind, bind_of_ok hloop, current_bind]
  split
  · exact ⟨_, rfl⟩
  · exact ⟨_, rfl⟩

/-- Every program that is written is accepted, with its tree. -/
theorem program_of_written {p : Program} (hs : s.Clean) (h : Written p s.lexemes) :
    ∃ s', program s = .ok p s' := by
  rcases h with ⟨hbegin, rfl⟩ | ⟨pre, body, tail, hlex, hpre, htail, hbody⟩
  · obtain ⟨s₁, hskip⟩ := skipLoop_of_begin_not_mem hs hbegin
      (k := s.ahead.length + 1) (by rw [length_lexemes]; omega) 0
    exact program_of_none hskip
  · have hk : pre.length < s.ahead.length + 1 := by
      rw [← length_lexemes, hlex, List.length_append]
      omega
    obtain ⟨s₁, hs₁, hlex₁, hskip⟩ := skipLoop_of_begin_mem hs hlex hpre hk 0
    obtain ⟨s₂, hahead, hending, hprogram⟩ := program_of_some hskip
    have hlex₂ : s₂.lexemes = s₁.lexemes := congrArg (List.map Token.lexeme) hahead
    have hs₂ : s₂.Clean := ⟨by rw [hlex₂]; exact hs₁.noEof, by rw [hending]; exact hs₁.noFault⟩
    rw [hprogram]
    exact block_of_body hs₂ (hlex₂.trans hlex₁) htail hbody

end

/-! ## Both directions -/

/-- Without a fault behind its last token, a stream can be parsed from its first token on. -/
theorem start_eq_ok (ts : List Token) {ending : Ending} (hfault : ∀ e, ending ≠ .failed e) :
    ∃ s, ParseState.start ⟨ts, ending⟩ = .ok s ∧ ∀ e, s.ending ≠ .failed e := by
  cases ts with
  | nil =>
    cases ending with
    | finished tokens lines => exact ⟨_, rfl, fun _ h => by cases h⟩
    | failed e => exact absurd rfl (hfault e)
    | closed => exact ⟨_, rfl, fun _ h => by cases h⟩
  | cons t ts => exact ⟨_, rfl, hfault⟩

/-- The parser accepts exactly the programs of the grammar, and a list of tokens is at most one
program. -/
theorem program_iff_written (ts : List Token) (ending : Ending) (heof : ∀ t ∈ ts, t.lexeme ≠ .eof)
    (hfault : ∀ e, ending ≠ .failed e) :
    ∃ s, ParseState.start ⟨ts, ending⟩ = .ok s
      ∧ (∀ p, (∃ s', program s = .ok p s') ↔ Written p (ts.map Token.lexeme))
      ∧ ∀ p p', Written p (ts.map Token.lexeme) → Written p' (ts.map Token.lexeme) → p = p' := by
  obtain ⟨s, hstart, hending⟩ := start_eq_ok ts hfault
  have hlex : s.lexemes = ts.map Token.lexeme :=
    congrArg (List.map Token.lexeme) (ahead_of_start hstart)
  have hnoEof : .eof ∉ s.lexemes := by
    rw [hlex]
    intro hmem
    obtain ⟨t, ht, hteof⟩ := List.mem_map.mp hmem
    exact heof t ht hteof
  have hs : s.Clean := ⟨hnoEof, hending⟩
  rw [← hlex]
  refine ⟨s, hstart, ?_, ?_⟩
  · intro p
    constructor
    · rintro ⟨s', h⟩
      exact program_sound h hnoEof
    · exact program_of_written hs
  · intro p p' h h'
    -- both are what the parser returns
    obtain ⟨s₁, h⟩ := program_of_written hs h
    obtain ⟨s₂, h'⟩ := program_of_written hs h'
    rw [h] at h'
    cases h'
    rfl

/-- `begin a := 1 (write(a))`: two statements without a separator, and no closing word. -/
theorem program_iff_written_unseparated :
    let ts : List Token := [⟨.beginKw, 1, 1, 5⟩, ⟨.identifier "a", 1, 7, 1⟩, ⟨.assign, 1, 9, 2⟩,
      ⟨.literal 1, 1, 12, 1⟩, ⟨.leftParen, 1, 14, 1⟩, ⟨.writeKw, 1, 15, 5⟩, ⟨.leftParen, 1, 20, 1⟩,
      ⟨.identifier "a", 1, 21, 1⟩, ⟨.rightParen, 1, 22, 1⟩, ⟨.rightParen, 1, 23, 1⟩]
    ∃ s, ParseState.start ⟨ts, .closed⟩ = .ok s
      ∧ ∃ s', program s = .ok [.assign "a" (.int 1), .call .write [.var "a"]] s' := by
  intro ts
  obtain ⟨s, hstart, hiff, _⟩ := program_iff_written ts .closed (by decide) (by simp)
  refine ⟨s, hstart, (hiff _).mpr (.inr ⟨[], (ts.map Token.lexeme).drop 1, [], ?_⟩)⟩
  refine ⟨rfl, List.not_mem_nil, .inl rfl, ?_⟩
  refine .statement (.assignment "a" (.single (.literal 1 _))) (.statement (.call ?_ ?_) (.done []))
  · intro name
    simp
  · refine .single (.group (.single (.call .write ?_)))
    exact .lastArgument (.single (.var "a" (by simp)))

end Parse

end MicroLang.Program
