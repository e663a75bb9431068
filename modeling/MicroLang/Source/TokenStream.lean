import MicroLang.Event
import MicroLang.Source.Scanner

/-!
# Streams of tokens

The grammar sees the significant tokens of a source text, which are pulled one at a time. A stream
is the list of those tokens together with what pulling past the last of them meets: the end of the
text, which is reported once, or a fault. After either the stream is closed, and gives nothing more.
-/

namespace MicroLang.Source

namespace Scanner

/-- The tokens of a whole text, the end token included, up to a fault if there is one, and the
scanner after the last of them. -/
structure Lexed where
  tokens : List Token
  error : Option LexError
  final : Scanner

/-- Reads all tokens, trivia included. -/
def readAll (s : Scanner) : Lexed :=
  match _ : s.next with
  | (.error e, s') => ⟨[], some e, s'⟩
  | (.ok t, s') =>
    if _ : t.lexeme = .eof then ⟨[t], none, s'⟩
    else
      let rest := readAll s'
      ⟨t :: rest.tokens, rest.error, rest.final⟩
termination_by s.ahead.length
decreasing_by exact ahead_length_lt_of_next ‹_› ‹_›

/-- Reads the next token that is no trivia; there is none at the end of the text. -/
def nextSignificant (s : Scanner) : Except LexError (Option Token) × Scanner :=
  match _ : s.next with
  | (.error e, s') => (.error e, s')
  | (.ok t, s') =>
    if _ : t.lexeme = .eof then (.ok none, s')
    else if t.lexeme.isTrivia then nextSignificant s'
    else (.ok (some t), s')
termination_by s.ahead.length
decreasing_by exact ahead_length_lt_of_next ‹_› ‹_›

/-- A significant token leaves less text ahead. -/
theorem ahead_length_lt_of_nextSignificant {s s' : Scanner} {t : Token}
    (h : s.nextSignificant = (.ok (some t), s')) : s'.ahead.length < s.ahead.length := by
  fun_induction nextSignificant s with
  | case1 => simp at h
  | case2 => simp at h
  | case3 s t' s'' hnext hne _ ih =>
    exact Nat.lt_trans (ih h) (ahead_length_lt_of_next hnext hne)
  | case4 s t' s'' hnext hne _ =>
    simp only [Prod.mk.injEq, Except.ok.injEq, Option.some.injEq] at h
    obtain ⟨rfl, rfl⟩ := h
    exact ahead_length_lt_of_next hnext hne

end Scanner

/-- What is met after the last token of a stream. -/
inductive Ending where
  /-- The end of the text, with the number of tokens and lines, not yet reported. -/
  | finished (tokens lines : Nat)
  /-- A fault, not yet reported. -/
  | failed (error : LexError)
  /-- Nothing any more. -/
  | closed

/-- Significant tokens and what is met after them. -/
structure TokenStream where
  tokens : List Token
  ending : Ending

namespace TokenStream

/-- The significant tokens ahead of a scanner, when `count` were read before. -/
def ofScanner (s : Scanner) (count : Nat) : TokenStream :=
  match _ : s.nextSignificant with
  | (.error e, _) => ⟨[], .failed e⟩
  | (.ok none, s') => ⟨[], .finished count s'.pos.line⟩
  | (.ok (some t), s') =>
    let rest := ofScanner s' (count + 1)
    ⟨t :: rest.tokens, rest.ending⟩
termination_by s.ahead.length
decreasing_by exact Scanner.ahead_length_lt_of_nextSignificant ‹_›

/-- The significant tokens of a source text. -/
def ofSource (source : String) : TokenStream :=
  ofScanner (.ofSource source) 0

/-- What the end of a stream reports: an event at the end of the text, or a fault. -/
def close : Ending → Except LexError (List Event)
  | .finished tokens lines => .ok [.lexed tokens lines]
  | .failed e => .error e
  | .closed => .ok []

end TokenStream

/-- Pulls the significant tokens of one scanner that others may move too. It ends for good at the
end of the text or at a fault. -/
structure TokenPuller where
  isOpen : Bool := true

/-- The next significant token, if the puller has not ended. -/
def TokenPuller.pull (puller : TokenPuller) (s : Scanner) :
    Except LexError (Option Token) × TokenPuller × Scanner :=
  if puller.isOpen then
    match s.nextSignificant with
    | (.ok (some t), s') => (.ok (some t), puller, s')
    | (result, s') => (result, ⟨false⟩, s')
  else (.ok none, puller, s)

end MicroLang.Source
