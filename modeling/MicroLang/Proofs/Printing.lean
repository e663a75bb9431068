import MicroLang.Proofs.Operands
import MicroLang.Proofs.SourceParsing

/-!
# Printing programs

A printer that is the inverse of the parser. It writes the lexemes of a program with blanks between
them, and parentheses only around an operator that is the right operand of another one, as chains of
operators group to the left by themselves.

Printing is taken in two steps, as reading is. Lexemes that a text can have are read back from their
spelling (`lexemes_spell`), and the lexemes of a program derive its tree (`written_lexemes`). The
second needs that the text opens at most 200 expressions at once, which `Expr.nesting` counts on the
tree. No other text of the tree opens fewer (`Derives.nesting_le`), so whatever was parsed can be
printed and parsed again.
-/

namespace MicroLang.Source

open MicroLang.Text

/-! ## Spelling -/

/-- A word that is no keyword. -/
def IsName (name : String) : Prop :=
  Word name.toList [] ∧ name ∉ keywords

namespace Lexeme

/-- How a lexeme is spelled. -/
def text : Lexeme → List Char
  | identifier name => name.toList
  | literal value => Nat.toDigits 10 value
  | lexeme => lexeme.kind.spelling.toList

/-- The lexemes that significant tokens have. -/
def Writable : Lexeme → Prop
  | identifier name => IsName name
  | literal value => value < 2 ^ 31
  | whitespace | comment | unknown _ | eof => False
  | _ => True

theorem writable_of_rule {lexeme : Lexeme} {text rest : List Char} (h : lexeme.Rule text rest)
    (htrivia : lexeme.isTrivia = false) : lexeme.Writable := by
  cases lexeme with
  | identifier name =>
    obtain ⟨rfl, hword, hname⟩ := h
    exact ⟨hword.of_rest (by simp), hname⟩
  | literal value =>
    obtain ⟨_, _, _, hvalue⟩ := h
    exact hvalue
  | whitespace => cases htrivia
  | comment => cases htrivia
  | unknown _ => exact h
  | eof => exact h
  | _ => trivial

/-- The digits of a number are a literal with this value. -/
theorem decimalValue_toDigits (value : Nat) : decimalValue (Nat.toDigits 10 value) = value := by
  rw [← literalValue_eq]
  calc literalValue (Nat.toDigits 10 value)
      = Numeral.ofDigits 10 ((Nat.toDigits 10 value).map fun c => c.toNat - 48) := by
        unfold literalValue Numeral.ofDigits
        rw [List.foldl_map]
        rfl
    _ = Nat.ofDigitChars 10 (Nat.toDigits 10 value) 0 := Numeral.ofDigits_map_eq _
    _ = value := Nat.ofDigitChars_ten_toDigits

theorem isDigit_of_mem_toDigits {value : Nat} : ∀ c ∈ Nat.toDigits 10 value, isDigit c = true := by
  intro c hc
  have hrange := Numeral.toNat_of_isDigit (Numeral.isDigit_of_mem_toDigits c hc)
  simpa [isDigit, Char.le_def, UInt32.le_iff_toNat_le] using hrange

/-- In front of a blank or the end of the text, a spelling follows the rule of its lexeme. -/
theorem rule_text {lexeme : Lexeme} (h : lexeme.Writable) {rest : List Char}
    (hrest : ∀ c ∈ rest.head?, c = ' ') : lexeme.Rule lexeme.text rest := by
  have hword : ∀ c ∈ rest.head?, isAsciiAlphanumeric c = false := by
    intro c hc
    rw [hrest c hc]
    rfl
  have hdigit : ∀ c ∈ rest.head?, isDigit c = false := by
    intro c hc
    rw [hrest c hc]
    rfl
  cases lexeme with
  | identifier name => exact ⟨rfl, h.1.of_rest hword, h.2⟩
  | literal value =>
    exact ⟨Nat.toDigits_ne_nil, ⟨isDigit_of_mem_toDigits, hdigit⟩,
      (decimalValue_toDigits value).symm, h⟩
  | beginKw => exact ⟨rfl, 'b', "egin".toList, rfl, rfl, by decide, hword⟩
  | endKw => exact ⟨rfl, 'e', "nd".toList, rfl, rfl, by decide, hword⟩
  | readKw => exact ⟨rfl, 'r', "ead".toList, rfl, rfl, by decide, hword⟩
  | writeKw => exact ⟨rfl, 'w', "rite".toList, rfl, rfl, by decide, hword⟩
  | minus =>
    refine ⟨rfl, ?_⟩
    intro hminus
    exact absurd (hrest _ hminus) (by decide)
  | whitespace => exact h.elim
  | comment => exact h.elim
  | unknown _ => exact h.elim
  | eof => exact h.elim
  | _ => exact rfl

/-- A spelling is short enough to be read. -/
theorem length_text_le {lexeme : Lexeme} (h : lexeme.Writable) {value : Nat}
    (hvalue : lexeme = literal value) : lexeme.text.length ≤ Numeral.digitLimit := by
  subst hvalue
  exact Numeral.length_toDigits_le (Nat.lt_trans h (by decide))

/-- No spelling starts with white space. -/
theorem isWhiteSpace_head_text {lexeme : Lexeme} (h : lexeme.Writable) (rest : List Char) :
    ∀ c ∈ (lexeme.text ++ rest).head?, isWhiteSpace c = false := by
  have hrule : lexeme.Rule lexeme.text [] := rule_text h (by simp)
  have hread := read_of_rule_of_length hrule fun value hvalue => length_text_le h hvalue
  obtain ⟨c, cs, htext⟩ := List.exists_cons_of_ne_nil hrule.ne_nil
  rw [List.append_nil, htext] at hread
  intro d hd
  rw [htext] at hd
  obtain rfl : c = d := Option.some.inj hd
  -- a text with white space in front is read as trivia
  by_contra hspace
  rw [read, if_pos (Bool.not_eq_false _ ▸ hspace)] at hread
  obtain ⟨rfl, _⟩ := Reading.lexeme.inj hread
  exact h

end Lexeme

/-- Lexemes with a blank between any two of them. -/
def spell : List Lexeme → List Char
  | [] => []
  | [lexeme] => lexeme.text
  | lexeme :: other :: rest => lexeme.text ++ ' ' :: spell (other :: rest)

theorem Scanner.next_text {s : Scanner} {lexeme : Lexeme} (h : lexeme.Writable) {rest : List Char}
    (hs : s.ahead = lexeme.text ++ rest) (hrest : ∀ c ∈ rest.head?, c = ' ') :
    ∃ t s', s.nextSignificant = (.ok (some t), s') ∧ t.lexeme = lexeme ∧ s'.ahead = rest := by
  have hnext := Scanner.next_of_rule hs (Lexeme.rule_text h hrest)
    fun value hvalue => Lexeme.length_text_le h hvalue
  refine ⟨_, _, Scanner.nextSignificant_of_token hnext ?_ ?_, rfl, rfl⟩
  · rintro rfl
    exact h
  · cases lexeme with
    | whitespace => exact h.elim
    | comment => exact h.elim
    | _ => rfl

theorem Scanner.skip_blank {s : Scanner} {rest : List Char} (hs : s.ahead = ' ' :: rest)
    (hrest : ∀ c ∈ rest.head?, isWhiteSpace c = false) :
    ∃ s' : Scanner, s.nextSignificant = s'.nextSignificant ∧ s'.ahead = rest := by
  have hrule : Lexeme.whitespace.Rule [' '] rest := ⟨by decide, by decide, hrest⟩
  have hnext := Scanner.next_of_rule hs hrule fun _ h => by cases h
  exact ⟨_, Scanner.nextSignificant_of_trivia hnext rfl, rfl⟩

/-- Spelled lexemes are read back, up to the end of the text. -/
theorem TokenStream.ofScanner_spell (xs : List Lexeme) (h : ∀ x ∈ xs, x.Writable) {s : Scanner}
    (hs : s.ahead = spell xs) (count : Nat) :
    (ofScanner s count).tokens.map Token.lexeme = xs
      ∧ ∀ e, (ofScanner s count).ending ≠ .failed e := by
  fun_induction spell xs generalizing s count with
  | case1 =>
    have hread : Lexeme.read s.ahead = .lexeme .eof 0 := by
      rw [hs]
      rfl
    rw [ofScanner_of_none (Scanner.nextSignificant_of_eof (Scanner.next_of_read hread) rfl)]
    exact ⟨rfl, fun e he => by cases he⟩
  | case2 x =>
    have hs' : s.ahead = x.text ++ [] := by rw [hs, List.append_nil]
    obtain ⟨t, s₁, hnext, ht, hs₁⟩ := Scanner.next_text (h x List.mem_cons_self) hs' (by simp)
    have hread : Lexeme.read s₁.ahead = .lexeme .eof 0 := by
      rw [hs₁]
      rfl
    rw [ofScanner_of_some hnext,
      ofScanner_of_none (Scanner.nextSignificant_of_eof (Scanner.next_of_read hread) rfl)]
    exact ⟨congrArg ([·]) ht, fun e he => by cases he⟩
  | case3 x y rest ih =>
    have htail : ∀ z ∈ y :: rest, z.Writable := fun z hz => h z (List.mem_cons_of_mem _ hz)
    obtain ⟨t, s₁, hnext, ht, hs₁⟩ := Scanner.next_text (h x List.mem_cons_self) hs
      (fun c hc => (Option.some.inj hc).symm)
    -- the next lexeme ends the blank in front of it
    have hhead : ∀ c ∈ (spell (y :: rest)).head?, isWhiteSpace c = false := by
      have hy := Lexeme.isWhiteSpace_head_text (htail y List.mem_cons_self)
      cases rest with
      | nil => simpa [spell] using hy []
      | cons z rest => exact hy _
    obtain ⟨s₂, hskip, hs₂⟩ := Scanner.skip_blank hs₁ hhead
    obtain ⟨htokens, hending⟩ := ih htail hs₂ (count + 1)
    rw [ofScanner_of_some hnext, ofScanner_congr hskip, List.map_cons, ht, htokens]
    exact ⟨rfl, hending⟩

theorem TokenStream.lexemes_spell {xs : List Lexeme} (h : ∀ x ∈ xs, x.Writable) :
    lexemes (String.ofList (spell xs)) = xs
      ∧ ∀ e, (ofSource (String.ofList (spell xs))).ending ≠ .failed e :=
  ofScanner_spell xs h (s := .ofSource (String.ofList (spell xs))) String.toList_ofList 0

theorem TokenStream.writable_of_mem_lexemes {source : String} :
    ∀ x ∈ lexemes source, x.Writable := by
  intro x hx
  obtain ⟨t, ht, rfl⟩ := List.mem_map.mp hx
  obtain ⟨htrivia, text, rest, hrule⟩ := rule_of_mem_tokens ht
  exact Lexeme.writable_of_rule hrule htrivia

end MicroLang.Source

namespace MicroLang.Program

open MicroLang.Source
open Grammar (Phrase Derives Statement Body Written)

/-! ## The lexemes of a program -/

namespace Expr

/-- An operator with its operands. -/
def isBinary : Expr → Bool
  | binary .. => true
  | _ => false

/-- Lexemes of a right operand, in parentheses if the operand has an operator. -/
def enclose (e : Expr) (lexemes : List Lexeme) : List Lexeme :=
  if e.isBinary then .leftParen :: (lexemes ++ [.rightParen]) else lexemes

mutual

/-- The lexemes of an expression or a statement. -/
def lexemes : Expr → List Lexeme
  | int value => [.literal value.toNat]
  | var name => [.identifier name]
  | binary op lhs rhs => lhs.lexemes ++ op.lexeme :: enclose rhs rhs.lexemes
  | call routine args => routine.lexeme :: .leftParen :: argumentLexemes args
  | assign name value => .identifier name :: .assign :: value.lexemes

/-- The lexemes of the arguments of a call, up to its closing parenthesis. -/
def argumentLexemes : List Expr → List Lexeme
  | [] => [.rightParen]
  | [e] => e.lexemes ++ [.rightParen]
  | e :: other :: rest => e.lexemes ++ .comma :: argumentLexemes (other :: rest)

end

mutual

/-- The most expressions that are open at once inside the lexemes of an expression, which is not
counted itself: parentheses and arguments open one. -/
def nesting : Expr → Nat
  | int _ | var _ => 0
  | binary _ lhs rhs => max lhs.nesting (if rhs.isBinary then rhs.nesting + 1 else rhs.nesting)
  | call _ args => argumentNesting args
  | assign _ value => value.nesting

/-- The most expressions that are open at once inside the arguments of a call. -/
def argumentNesting : List Expr → Nat
  | [] => 0
  | e :: rest => max (e.nesting + 1) (argumentNesting rest)

end

/-- Expressions without assignments, with names that are words and literals of 31 bits. -/
inductive IsValue : Expr → Prop where
  | int {value : Nat} (h : value < 2 ^ 31) : IsValue (.int value)
  | var {name : String} (h : IsName name) : IsValue (.var name)
  | binary (op : Operator) {lhs rhs : Expr} (hlhs : IsValue lhs) (hrhs : IsValue rhs) :
    IsValue (.binary op lhs rhs)
  | call (routine : Routine) {args : List Expr} (h : ∀ arg ∈ args, IsValue arg) :
    IsValue (.call routine args)

/-- Assignments and calls. -/
inductive IsStatement : Expr → Prop where
  | assign {name : String} {value : Expr} (hname : IsName name) (hvalue : IsValue value) :
    IsStatement (.assign name value)
  | call (routine : Routine) {args : List Expr} (h : ∀ arg ∈ args, IsValue arg) :
    IsStatement (.call routine args)

end Expr

/-- Programs that can be printed: their statements are assignments and calls, and printing a
statement opens at most 200 expressions at once, the outermost one included. -/
structure Printable (p : Program) : Prop where
  statement : ∀ s ∈ p, s.IsStatement
  nesting : ∀ s ∈ p, s.nesting + 1 ≤ 200

/-- The lexemes of a program: its statements, with semicolons between them. -/
def lexemes (p : Program) : List Lexeme :=
  .beginKw :: ([.semicolon].intercalate (p.map Expr.lexemes) ++ [.endKw])

/-- The text of a program. -/
def print (p : Program) : String :=
  String.ofList (spell p.lexemes)

/-! ## Printed lexemes derive the tree -/

/-- An operator never continues a variable as an opening parenthesis would. -/
theorem operator_ne_leftParen (op : Operator) (rest : List Lexeme) :
    (op.lexeme :: rest).head? ≠ some .leftParen := by
  cases op <;> simp [Operator.lexeme]

namespace Expr

variable {e : Expr} {args : List Expr} {n : Nat}

/-- The lexemes of an expression derive it, as an operand and by itself, in front of anything that
does not start with an opening parenthesis. -/
structure Derivable (e : Expr) : Prop where
  operand : ∀ (n : Nat) (rest : List Lexeme), rest.head? ≠ some .leftParen →
    (if e.isBinary then e.nesting + 1 else e.nesting) ≤ n →
    Derives n (.primary e) (enclose e e.lexemes ++ rest) rest
  expression : ∀ (n : Nat) (rest : List Lexeme), rest.head? ≠ some .leftParen →
    e.nesting + 1 ≤ n → Derives n (.expression e) (e.lexemes ++ rest) rest

/-- An expression without an operator on top is a primary. -/
theorem derivable_of_primary (hbinary : e.isBinary = false)
    (h : ∀ (n : Nat) (rest : List Lexeme), rest.head? ≠ some .leftParen → e.nesting ≤ n →
      Derives n (.primary e) (e.lexemes ++ rest) rest) : e.Derivable where
  operand := by
    intro n rest hrest hn
    rw [hbinary] at hn
    unfold enclose
    rw [hbinary]
    exact h n rest hrest hn
  expression := by
    intro n rest hrest hn
    obtain ⟨n, rfl⟩ : ∃ k, n = k + 1 := ⟨n - 1, by omega⟩
    exact .single (h n rest hrest (Nat.le_of_succ_le_succ hn))

theorem derives_arguments (hargs : ∀ arg ∈ args, arg.Derivable) (hne : args ≠ [])
    (hn : argumentNesting args ≤ n) (rest : List Lexeme) :
    Derives n (.arguments args) (argumentLexemes args ++ rest) rest := by
  induction args with
  | nil => exact absurd rfl hne
  | cons e more ih =>
    rw [argumentNesting, Nat.max_le] at hn
    have hfirst := (hargs e List.mem_cons_self).expression n
    cases more with
    | nil =>
      rw [argumentLexemes, List.append_assoc]
      exact .lastArgument (hfirst _ (by simp) hn.1)
    | cons other more =>
      rw [argumentLexemes, List.append_assoc, List.cons_append]
      have hmore := ih (fun arg harg => hargs arg (List.mem_cons_of_mem _ harg)) (by simp) hn.2
      exact .argument (hfirst _ (by simp) hn.1) hmore

theorem IsValue.derivable (h : e.IsValue) : e.Derivable := by
  induction h with
  | @int value _ =>
    refine derivable_of_primary rfl ?_
    intro n rest _ _
    exact .literal value rest
  | @var name _ =>
    refine derivable_of_primary rfl ?_
    intro n rest hrest _
    exact .var name hrest
  | @binary op lhs rhs _ _ ihl ihr =>
    have hexpression : ∀ (n : Nat) (rest : List Lexeme), rest.head? ≠ some .leftParen →
        (Expr.binary op lhs rhs).nesting + 1 ≤ n →
        Derives n (.expression (.binary op lhs rhs))
          ((Expr.binary op lhs rhs).lexemes ++ rest) rest := by
      intro n rest hrest hn
      obtain ⟨n, rfl⟩ : ∃ k, n = k + 1 := ⟨n - 1, by omega⟩
      rw [nesting, Nat.add_le_add_iff_right, Nat.max_le] at hn
      rw [lexemes, List.append_assoc, List.cons_append]
      exact .operator op
        (ihl.expression (n + 1) _ (operator_ne_leftParen op _) (Nat.succ_le_succ hn.1))
        (ihr.operand n rest hrest hn.2)
    refine ⟨?_, hexpression⟩
    -- as an operand it is in parentheses, where it is an expression by itself
    intro n rest _ hn
    show Derives n _
      (.leftParen :: ((Expr.binary op lhs rhs).lexemes ++ [.rightParen]) ++ rest) rest
    rw [List.cons_append, List.append_assoc]
    exact .group (hexpression n _ (by simp) hn)
  | @call routine args _ ih =>
    refine derivable_of_primary rfl ?_
    intro n rest hrest hn
    cases args with
    | nil => exact .callNothing routine rest
    | cons arg more => exact .call routine (derives_arguments ih (by simp) hn rest)

/-- The lexemes of a statement derive it. -/
theorem IsStatement.derives {s : Expr} (h : s.IsStatement) (hs : s.nesting + 1 ≤ 200)
    (rest : List Lexeme) (hrest : rest.head? ≠ some .leftParen) :
    Statement s (s.lexemes ++ rest) rest := by
  cases h with
  | @assign name value _ hvalue =>
    exact .assignment name (hvalue.derivable.expression 200 rest hrest hs)
  | @call routine args hargs =>
    refine .call ?_ ((IsValue.call routine hargs).derivable.expression 200 rest hrest hs)
    intro name
    cases routine <;> simp [lexemes, Routine.lexeme]

end Expr

theorem body_lexemes {p : Program} (hp : p.Printable) :
    Body p ([.semicolon].intercalate (p.map Expr.lexemes) ++ [.endKw]) [.endKw] := by
  induction p with
  | nil => exact .done _
  | cons s p ih =>
    have hmore : Printable p := ⟨fun t ht => hp.statement t (List.mem_cons_of_mem _ ht),
      fun t ht => hp.nesting t (List.mem_cons_of_mem _ ht)⟩
    have hfirst := (hp.statement s List.mem_cons_self).derives (hp.nesting s List.mem_cons_self)
    cases p with
    | nil =>
      simp only [List.map_cons, List.map_nil, List.intercalate_singleton]
      exact .statement (hfirst _ (by simp)) (.done _)
    | cons t p =>
      simp only [List.map_cons, List.intercalate_cons_cons, List.append_assoc] at ih ⊢
      exact .statement (hfirst _ (by simp)) (.semicolon (ih hmore))

theorem written_lexemes {p : Program} (hp : p.Printable) : Written p p.lexemes :=
  .inr ⟨[], _, [.endKw], rfl, List.not_mem_nil, .inr rfl, body_lexemes hp⟩

/-! ## Printed lexemes are read back -/

namespace Expr

theorem writable_operator (op : Operator) : op.lexeme.Writable := by
  cases op <;> trivial

theorem writable_routine (routine : Routine) : routine.lexeme.Writable := by
  cases routine <;> trivial

theorem writable_enclose {e : Expr} {xs : List Lexeme} (h : ∀ x ∈ xs, x.Writable) :
    ∀ x ∈ enclose e xs, x.Writable := by
  unfold enclose
  split
  · simp only [List.forall_mem_cons, List.forall_mem_append]
    exact ⟨trivial, h, trivial, by simp⟩
  · exact h

theorem writable_arguments {args : List Expr}
    (h : ∀ arg ∈ args, ∀ x ∈ arg.lexemes, x.Writable) : ∀ x ∈ argumentLexemes args, x.Writable := by
  induction args with
  | nil =>
    simp only [argumentLexemes, List.forall_mem_cons]
    exact ⟨trivial, by simp⟩
  | cons e more ih =>
    have hfirst := h e List.mem_cons_self
    have hmore := ih fun arg harg => h arg (List.mem_cons_of_mem _ harg)
    cases more with
    | nil =>
      simp only [argumentLexemes, List.forall_mem_append, List.forall_mem_cons]
      exact ⟨hfirst, trivial, by simp⟩
    | cons other more =>
      rw [argumentLexemes, List.forall_mem_append, List.forall_mem_cons]
      exact ⟨hfirst, trivial, hmore⟩

theorem IsValue.writable {e : Expr} (h : e.IsValue) : ∀ x ∈ e.lexemes, x.Writable := by
  induction h with
  | int h =>
    rw [lexemes, List.forall_mem_singleton]
    exact h
  | var h =>
    rw [lexemes, List.forall_mem_singleton]
    exact h
  | binary op _ _ ihl ihr =>
    rw [lexemes, List.forall_mem_append, List.forall_mem_cons]
    exact ⟨ihl, writable_operator op, writable_enclose ihr⟩
  | call routine _ ih =>
    rw [lexemes, List.forall_mem_cons, List.forall_mem_cons]
    exact ⟨writable_routine routine, trivial, writable_arguments ih⟩

theorem IsStatement.writable {s : Expr} (h : s.IsStatement) : ∀ x ∈ s.lexemes, x.Writable := by
  cases h with
  | assign hname hvalue =>
    rw [lexemes, List.forall_mem_cons, List.forall_mem_cons]
    exact ⟨hname, trivial, hvalue.writable⟩
  | call routine hargs => exact (IsValue.call routine hargs).writable

end Expr

theorem Printable.writable {p : Program} (hp : p.Printable) : ∀ x ∈ p.lexemes, x.Writable := by
  have hbody : ∀ x ∈ [Lexeme.semicolon].intercalate (p.map Expr.lexemes), x.Writable := by
    replace hp := hp.statement
    induction p with
    | nil => simp
    | cons s p ih =>
      rw [List.forall_mem_cons] at hp
      cases p with
      | nil =>
        rw [List.map_cons, List.map_nil, List.intercalate_singleton]
        exact hp.1.writable
      | cons t p =>
        rw [List.map_cons, List.map_cons, List.intercalate_cons_cons, List.forall_mem_append,
          List.forall_mem_append, List.forall_mem_singleton]
        exact ⟨⟨hp.1.writable, trivial⟩, ih hp.2⟩
  unfold lexemes
  rw [List.forall_mem_cons, List.forall_mem_append, List.forall_mem_singleton]
  exact ⟨trivial, hbody, trivial⟩

theorem parse_of_printable {p : Program} (hp : p.Printable) : (parse p.print).1 = .ok p := by
  obtain ⟨hlexemes, hending⟩ := TokenStream.lexemes_spell hp.writable
  refine parse_of_written hending ?_
  rw [show TokenStream.lexemes p.print = p.lexemes from hlexemes]
  exact written_lexemes hp

/-! ## Parsed programs can be printed -/

namespace Grammar

variable {n : Nat} {phrase : Phrase} {ts rest : List Lexeme}

/-- The most expressions that are open at once inside the lexemes of a phrase; an expression counts
itself. -/
def Phrase.nesting : Phrase → Nat
  | primary e => if e.isBinary then e.nesting + 1 else e.nesting
  | expression e => e.nesting + 1
  | arguments args => Expr.argumentNesting args

/-- Parentheses open at most one expression. -/
theorem Phrase.nesting_primary (e : Expr) :
    e.nesting ≤ (primary e).nesting ∧ (primary e).nesting ≤ e.nesting + 1 := by
  show _ ≤ (if e.isBinary then e.nesting + 1 else e.nesting) ∧ (if e.isBinary then _ else _) ≤ _
  split
  · exact ⟨Nat.le_succ _, Nat.le_refl _⟩
  · exact ⟨Nat.le_refl _, Nat.le_succ _⟩

/-- Whatever text a phrase was derived from, printing it opens no more expressions at once than
were allowed: parentheses that printing leaves out have opened one more. -/
theorem Derives.nesting_le (h : Derives n phrase ts rest) : phrase.nesting ≤ n := by
  induction h with
  | literal value rest => exact Nat.zero_le _
  | var name _ => exact Nat.zero_le _
  | group _ ih => exact Nat.le_trans (Phrase.nesting_primary _).2 ih
  | callNothing routine rest => exact Nat.zero_le _
  | call routine _ ih => exact ih
  | single _ ih => exact Nat.succ_le_succ (Nat.le_trans (Phrase.nesting_primary _).1 ih)
  | operator op _ _ ihl ihr =>
    exact Nat.succ_le_succ (Nat.max_le.mpr ⟨Nat.le_of_succ_le_succ ihl, ihr⟩)
  | lastArgument _ ih => exact Nat.max_le.mpr ⟨ih, Nat.zero_le _⟩
  | argument _ _ ih ihargs => exact Nat.max_le.mpr ⟨ih, ihargs⟩

/-- The trees of a phrase are values, if the lexemes are those of a text. -/
theorem Derives.isValue (h : Derives n phrase ts rest) (hts : ∀ x ∈ ts, x.Writable) :
    ∀ tree ∈ phrase.trees, tree.IsValue := by
  induction h with
  | literal value rest =>
    rw [Phrase.trees, List.forall_mem_singleton]
    exact .int (hts _ List.mem_cons_self)
  | var name _ =>
    rw [Phrase.trees, List.forall_mem_singleton]
    exact .var (hts _ List.mem_cons_self)
  | group _ ih => exact ih fun x hx => hts x (List.mem_cons_of_mem _ hx)
  | callNothing routine rest =>
    rw [Phrase.trees, List.forall_mem_singleton]
    exact .call routine (by simp)
  | call routine _ ih =>
    rw [Phrase.trees, List.forall_mem_singleton]
    exact .call routine
      (ih fun x hx => hts x (List.mem_cons_of_mem _ (List.mem_cons_of_mem _ hx)))
  | single _ ih => exact ih hts
  | operator op hlhs _ ihl ihr =>
    -- the right operand starts behind the lexemes of the left one
    obtain ⟨w, _, rfl⟩ := hlhs.consumes
    have hright := ihr fun x hx => hts x (List.mem_append_right _ (List.mem_cons_of_mem _ hx))
    rw [Phrase.trees, List.forall_mem_singleton]
    exact .binary op (ihl hts _ List.mem_cons_self) (hright _ List.mem_cons_self)
  | lastArgument _ ih => exact ih hts
  | argument h _ ih ihargs =>
    obtain ⟨w, _, rfl⟩ := h.consumes
    have hmore := ihargs fun x hx => hts x (List.mem_append_right _ (List.mem_cons_of_mem _ hx))
    rw [Phrase.trees, List.forall_mem_cons]
    exact ⟨ih hts _ List.mem_cons_self, hmore⟩

theorem Statement.printable {s : Expr} (h : Statement s ts rest) (hts : ∀ x ∈ ts, x.Writable) :
    s.IsStatement ∧ s.nesting + 1 ≤ 200 := by
  cases h with
  | assignment name h =>
    have hvalue := h.isValue fun x hx => hts x (List.mem_cons_of_mem _ (List.mem_cons_of_mem _ hx))
    exact ⟨.assign (hts _ List.mem_cons_self) (hvalue _ List.mem_cons_self), h.nesting_le⟩
  | call _ h =>
    have hvalue := h.isValue hts _ List.mem_cons_self
    cases hvalue with
    | call _ hargs => exact ⟨.call _ hargs, h.nesting_le⟩

theorem Body.printable {p : Program} (h : Body p ts rest) (hts : ∀ x ∈ ts, x.Writable) :
    p.Printable := by
  induction h with
  | done rest => exact ⟨by simp, by simp⟩
  | semicolon _ ih => exact ih fun x hx => hts x (List.mem_cons_of_mem _ hx)
  | statement h _ ih =>
    obtain ⟨hfirst, hnesting⟩ := h.printable hts
    obtain ⟨w, _, rfl⟩ := h.consumes
    have hmore := ih fun x hx => hts x (List.mem_append_right _ hx)
    exact ⟨List.forall_mem_cons.mpr ⟨hfirst, hmore.statement⟩,
      List.forall_mem_cons.mpr ⟨hnesting, hmore.nesting⟩⟩

theorem Written.printable {p : Program} (h : Written p ts) (hts : ∀ x ∈ ts, x.Writable) :
    p.Printable := by
  rcases h with ⟨_, rfl⟩ | ⟨pre, body, tail, rfl, _, _, hbody⟩
  · exact ⟨by simp, by simp⟩
  · exact hbody.printable fun x hx =>
      hts x (List.mem_append_right _ (List.mem_cons_of_mem _ hx))

end Grammar

/-- Printing a program and parsing the text gives back the program; and every program that is parsed
from any text can be printed, so parsing its printed text gives it back. -/
theorem parse_print :
    (∀ p : Program, p.Printable → (parse p.print).1 = .ok p)
      ∧ ∀ (source : String) (p : Program), (parse source).1 = .ok p →
        p.Printable ∧ (parse p.print).1 = .ok p := by
  refine ⟨fun p hp => parse_of_printable hp, ?_⟩
  intro source p h
  have hp : p.Printable := (written_of_parse h).printable TokenStream.writable_of_mem_lexemes
  exact ⟨hp, parse_of_printable hp⟩

/-- A difference whose right operand is a difference too, with a call as an operand. -/
theorem parse_print_difference :
    let p : Program :=
      [.assign "x" (.binary .sub (.var "a") (.binary .sub (.int 2) (.call .read [.var "b"])))]
    p.Printable ∧ p.print = "begin x := a - ( 2 - read ( b ) ) end"
      ∧ (parse "begin x := a - ( 2 - read ( b ) ) end").1 = .ok p := by
  intro p
  have hname : IsName "x" ∧ IsName "a" ∧ IsName "b" :=
    ⟨⟨⟨'x', [], rfl, rfl, by decide⟩, by decide⟩, ⟨⟨'a', [], rfl, rfl, by decide⟩, by decide⟩,
      ⟨⟨'b', [], rfl, rfl, by decide⟩, by decide⟩⟩
  have hcall : (Expr.call .read [.var "b"]).IsValue :=
    .call .read (List.forall_mem_singleton.mpr (.var hname.2.2))
  have htwo : (Expr.int (2 : Nat)).IsValue := .int (by decide)
  have hvalue := Expr.IsValue.binary .sub (.var hname.2.1) (.binary .sub htwo hcall)
  have hp : p.Printable := ⟨List.forall_mem_singleton.mpr (.assign hname.1 hvalue),
    List.forall_mem_singleton.mpr (by decide)⟩
  have hprint : p.print = "begin x := a - ( 2 - read ( b ) ) end" := by decide +kernel
  refine ⟨hp, hprint, ?_⟩
  rw [← hprint]
  exact (parse_print.2 _ p (parse_print.1 p hp)).2

end MicroLang.Program
