import MicroLang.Program.Parse

/-!
# The grammar of programs

The grammar, as rules on lists of lexemes that say nothing of a parser. A rule relates the lexemes
before a phrase to those after it: `Derives n phrase ts rest` says that `ts` starts with the phrase
and goes on with `rest`, when at most `n` expressions may be opened inside it. What is after a
phrase matters in one rule only, for an identifier: an opening parenthesis must not follow it.

The rules always consume (`Derives.consumes`), no phrase starts with an operator (`Derives.starts`),
and the literals of a tree are those of its lexemes (`Derives.literal_mem`).
-/

namespace MicroLang.Program

open MicroLang.Source (Lexeme)

/-- The lexeme of an operator. -/
def Operator.lexeme : Operator → Lexeme
  | add => .plus
  | sub => .minus

/-- The lexeme of a routine's name. -/
def Routine.lexeme : Routine → Lexeme
  | read => .readKw
  | write => .writeKw

namespace Grammar

/-- What is derived, with its tree. The arguments of a call are those after its opening parenthesis,
at least one, up to its closing parenthesis. -/
inductive Phrase where
  | primary (e : Expr)
  | expression (e : Expr)
  | arguments (args : List Expr)

/-- The rules for expressions. -/
inductive Derives : Nat → Phrase → List Lexeme → List Lexeme → Prop where
  | literal {n : Nat} (value : Nat) (rest : List Lexeme) :
    Derives n (.primary (.int value)) (.literal value :: rest) rest
  | var {n : Nat} (name : String) {rest : List Lexeme} (h : rest.head? ≠ some .leftParen) :
    Derives n (.primary (.var name)) (.identifier name :: rest) rest
  | group {n : Nat} {e : Expr} {ts rest : List Lexeme}
    (h : Derives n (.expression e) ts (.rightParen :: rest)) :
    Derives n (.primary e) (.leftParen :: ts) rest
  | callNothing {n : Nat} (routine : Routine) (rest : List Lexeme) :
    Derives n (.primary (.call routine []))
      (routine.lexeme :: .leftParen :: .rightParen :: rest) rest
  | call {n : Nat} (routine : Routine) {args : List Expr} {ts rest : List Lexeme}
    (h : Derives n (.arguments args) ts rest) :
    Derives n (.primary (.call routine args)) (routine.lexeme :: .leftParen :: ts) rest
  | single {n : Nat} {e : Expr} {ts rest : List Lexeme} (h : Derives n (.primary e) ts rest) :
    Derives (n + 1) (.expression e) ts rest
  | operator {n : Nat} (op : Operator) {lhs rhs : Expr} {ts mid rest : List Lexeme}
    (hlhs : Derives (n + 1) (.expression lhs) ts (op.lexeme :: mid))
    (hrhs : Derives n (.primary rhs) mid rest) :
    Derives (n + 1) (.expression (.binary op lhs rhs)) ts rest
  | lastArgument {n : Nat} {e : Expr} {ts rest : List Lexeme}
    (h : Derives n (.expression e) ts (.rightParen :: rest)) :
    Derives n (.arguments [e]) ts rest
  | argument {n : Nat} {e : Expr} {args : List Expr} {ts mid rest : List Lexeme}
    (h : Derives n (.expression e) ts (.comma :: mid))
    (hargs : Derives n (.arguments args) mid rest) :
    Derives n (.arguments (e :: args)) ts rest

/-- The rules for statements. A call may stand in parentheses, as any expression may, and at most
200 expressions are open at once. -/
inductive Statement : Expr → List Lexeme → List Lexeme → Prop where
  | assignment (name : String) {e : Expr} {ts rest : List Lexeme}
    (h : Derives 200 (.expression e) ts rest) :
    Statement (.assign name e) (.identifier name :: .assign :: ts) rest
  | call {routine : Routine} {args : List Expr} {ts rest : List Lexeme}
    (hstart : ∀ name, ts.head? ≠ some (.identifier name))
    (h : Derives 200 (.expression (.call routine args)) ts rest) :
    Statement (.call routine args) ts rest

/-- The rules for what stands between the opening and the closing word. -/
inductive Body : List Expr → List Lexeme → List Lexeme → Prop where
  | done (rest : List Lexeme) : Body [] rest rest
  | semicolon {ss : List Expr} {ts rest : List Lexeme} (h : Body ss ts rest) :
    Body ss (.semicolon :: ts) rest
  | statement {s : Expr} {ss : List Expr} {ts mid rest : List Lexeme} (h : Statement s ts mid)
    (hss : Body ss mid rest) : Body (s :: ss) ts rest

/-- The lexemes of a whole program: without an opening word the empty program, and otherwise what
follows the first opening word, up to the closing word or the end. -/
def Written (p : Program) (ts : List Lexeme) : Prop :=
  (.beginKw ∉ ts ∧ p = [])
  ∨ ∃ pre body tail, ts = pre ++ .beginKw :: (body ++ tail) ∧ .beginKw ∉ pre
    ∧ (tail = [] ∨ tail.head? = some .endKw) ∧ Body p (body ++ tail) tail

variable {n : Nat} {phrase : Phrase} {e : Expr} {ss : List Expr} {ts rest : List Lexeme}

/-- A phrase is not empty, and what is after it is what was there. -/
theorem Derives.consumes (h : Derives n phrase ts rest) : ∃ w, w ≠ [] ∧ ts = w ++ rest := by
  induction h with
  | literal value rest => exact ⟨[.literal value], by simp, rfl⟩
  | var name _ => exact ⟨[.identifier name], by simp, rfl⟩
  | group _ ih =>
    obtain ⟨w, _, rfl⟩ := ih
    exact ⟨.leftParen :: (w ++ [.rightParen]), by simp, by simp⟩
  | callNothing routine rest =>
    exact ⟨[routine.lexeme, .leftParen, .rightParen], by simp, rfl⟩
  | call routine _ ih =>
    obtain ⟨w, _, rfl⟩ := ih
    exact ⟨routine.lexeme :: .leftParen :: w, by simp, by simp⟩
  | single _ ih => exact ih
  | operator op _ _ ihl ihr =>
    obtain ⟨w, _, rfl⟩ := ihl
    obtain ⟨w', _, rfl⟩ := ihr
    exact ⟨w ++ op.lexeme :: w', by simp, by simp⟩
  | lastArgument _ ih =>
    obtain ⟨w, _, rfl⟩ := ih
    exact ⟨w ++ [.rightParen], by simp, by simp⟩
  | argument _ _ ih ihargs =>
    obtain ⟨w, _, rfl⟩ := ih
    obtain ⟨w', _, rfl⟩ := ihargs
    exact ⟨w ++ .comma :: w', by simp, by simp⟩

theorem Statement.consumes (h : Statement e ts rest) : ∃ w, w ≠ [] ∧ ts = w ++ rest := by
  cases h with
  | assignment name h =>
    obtain ⟨w, _, rfl⟩ := h.consumes
    exact ⟨.identifier name :: .assign :: w, by simp, by simp⟩
  | call _ h => exact h.consumes

theorem Body.consumes (h : Body ss ts rest) : ∃ w, ts = w ++ rest := by
  induction h with
  | done rest => exact ⟨[], rfl⟩
  | semicolon _ ih =>
    obtain ⟨w, rfl⟩ := ih
    exact ⟨.semicolon :: w, rfl⟩
  | statement h _ ih =>
    obtain ⟨w, _, rfl⟩ := h.consumes
    obtain ⟨w', rfl⟩ := ih
    exact ⟨w ++ w', by simp⟩

/-- Lexemes that a phrase can start with. -/
def Opens : Lexeme → Prop
  | .identifier _ | .literal _ | .leftParen | .readKw | .writeKw => True
  | _ => False

theorem opens_lexeme (routine : Routine) : Opens routine.lexeme := by
  cases routine <;> trivial

theorem Derives.starts (h : Derives n phrase ts rest) : ∃ x ts', ts = x :: ts' ∧ Opens x := by
  induction h with
  | literal value rest => exact ⟨_, _, rfl, trivial⟩
  | var name _ => exact ⟨_, _, rfl, trivial⟩
  | group _ _ => exact ⟨_, _, rfl, trivial⟩
  | callNothing routine rest => exact ⟨_, _, rfl, opens_lexeme routine⟩
  | call routine _ _ => exact ⟨_, _, rfl, opens_lexeme routine⟩
  | single _ ih => exact ih
  | operator _ _ _ ihl _ => exact ihl
  | lastArgument _ ih => exact ih
  | argument _ _ ih _ => exact ih

theorem Statement.starts (h : Statement e ts rest) : ∃ x ts', ts = x :: ts' ∧ Opens x := by
  cases h with
  | assignment name h => exact ⟨_, _, rfl, trivial⟩
  | call _ h => exact h.starts

/-! ## Literals -/

/-- A literal occurs in an expression. -/
inductive HasLiteral (value : Int) : Expr → Prop where
  | int : HasLiteral value (.int value)
  | left (op : Operator) {lhs : Expr} (rhs : Expr) (h : HasLiteral value lhs) :
    HasLiteral value (.binary op lhs rhs)
  | right (op : Operator) (lhs : Expr) {rhs : Expr} (h : HasLiteral value rhs) :
    HasLiteral value (.binary op lhs rhs)
  | argument (routine : Routine) {args : List Expr} {arg : Expr} (hmem : arg ∈ args)
    (h : HasLiteral value arg) : HasLiteral value (.call routine args)
  | assign (name : String) {e : Expr} (h : HasLiteral value e) : HasLiteral value (.assign name e)

/-- The trees of a phrase. -/
def Phrase.trees : Phrase → List Expr
  | primary e => [e]
  | expression e => [e]
  | arguments args => args

/-- A literal in the tree of a phrase is one of its lexemes. -/
theorem Derives.literal_mem (h : Derives n phrase ts rest) {value : Int} {tree : Expr}
    (htree : tree ∈ phrase.trees) (hvalue : HasLiteral value tree) :
    ∃ k : Nat, value = k ∧ .literal k ∈ ts := by
  induction h generalizing tree with
  | literal k rest =>
    obtain rfl := List.mem_singleton.mp htree
    cases hvalue
    exact ⟨k, rfl, List.mem_cons_self⟩
  | var name _ =>
    obtain rfl := List.mem_singleton.mp htree
    cases hvalue
  | group _ ih =>
    obtain ⟨k, rfl, hk⟩ := ih htree hvalue
    exact ⟨k, rfl, List.mem_cons_of_mem _ hk⟩
  | callNothing routine rest =>
    obtain rfl := List.mem_singleton.mp htree
    cases hvalue with
    | argument _ hmem _ => cases hmem
  | call routine _ ih =>
    obtain rfl := List.mem_singleton.mp htree
    cases hvalue with
    | argument _ hmem harg =>
      obtain ⟨k, rfl, hk⟩ := ih hmem harg
      exact ⟨k, rfl, List.mem_cons_of_mem _ (List.mem_cons_of_mem _ hk)⟩
  | single _ ih => exact ih htree hvalue
  | operator op hlhs _ ihl ihr =>
    obtain rfl := List.mem_singleton.mp htree
    cases hvalue with
    | left _ _ hleft => exact ihl List.mem_cons_self hleft
    | right _ _ hright =>
      obtain ⟨k, rfl, hk⟩ := ihr List.mem_cons_self hright
      obtain ⟨w, _, rfl⟩ := hlhs.consumes
      exact ⟨k, rfl, List.mem_append_right _ (List.mem_cons_of_mem _ hk)⟩
  | lastArgument _ ih => exact ih htree hvalue
  | argument h _ ih ihargs =>
    rcases List.mem_cons.mp htree with rfl | hmem
    · exact ih List.mem_cons_self hvalue
    · obtain ⟨k, rfl, hk⟩ := ihargs hmem hvalue
      obtain ⟨w, _, rfl⟩ := h.consumes
      exact ⟨k, rfl, List.mem_append_right _ (List.mem_cons_of_mem _ hk)⟩

theorem Body.literal_mem (h : Body ss ts rest) {value : Int} {s : Expr} (hs : s ∈ ss)
    (hvalue : HasLiteral value s) : ∃ k : Nat, value = k ∧ .literal k ∈ ts := by
  induction h with
  | done rest => cases hs
  | semicolon _ ih =>
    obtain ⟨k, rfl, hk⟩ := ih hs
    exact ⟨k, rfl, List.mem_cons_of_mem _ hk⟩
  | statement h _ ih =>
    rcases List.mem_cons.mp hs with rfl | hs
    · cases h with
      | assignment name h =>
        cases hvalue with
        | assign _ hvalue =>
          obtain ⟨k, rfl, hk⟩ := h.literal_mem List.mem_cons_self hvalue
          exact ⟨k, rfl, List.mem_cons_of_mem _ (List.mem_cons_of_mem _ hk)⟩
      | call _ h => exact h.literal_mem List.mem_cons_self hvalue
    · obtain ⟨k, rfl, hk⟩ := ih hs
      obtain ⟨w, _, rfl⟩ := h.consumes
      exact ⟨k, rfl, List.mem_append_right _ hk⟩

/-- A literal in a program is one of its lexemes. -/
theorem Written.literal_mem {p : Program} (h : Written p ts) {value : Int} {s : Expr} (hs : s ∈ p)
    (hvalue : HasLiteral value s) : ∃ k : Nat, value = k ∧ .literal k ∈ ts := by
  rcases h with ⟨_, rfl⟩ | ⟨pre, body, tail, rfl, _, _, hbody⟩
  · cases hs
  · obtain ⟨k, rfl, hk⟩ := hbody.literal_mem hs hvalue
    exact ⟨k, rfl, List.mem_append_right _ (List.mem_cons_of_mem _ hk)⟩

end Grammar

end MicroLang.Program
