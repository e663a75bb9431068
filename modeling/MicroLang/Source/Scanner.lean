import MicroLang.Source.CharClass
import MicroLang.Source.Token
import MicroLang.Text.Numeral

/-!
# Scanning a source text

A scanner stands somewhere in a source text: it has the text still ahead and the position of the
text behind it. `Lexeme.read` says what the text ahead starts with, by the longest match, without
looking at positions; `Scanner.next` reads that lexeme and moves past it. Only a line feed starts a
new line.
-/

namespace MicroLang.Source

open MicroLang.Text

/-- A place in a source text: the characters before it, and its line and column, from one. -/
structure Position where
  index : Nat := 0
  line : Nat := 1
  col : Nat := 1
deriving DecidableEq

namespace Position

/-- The position after one more character. -/
def next (pos : Position) (c : Char) : Position :=
  if c = '\n' then ⟨pos.index + 1, pos.line + 1, 1⟩ else ⟨pos.index + 1, pos.line, pos.col + 1⟩

/-- The position after some more text. -/
def after (pos : Position) (text : List Char) : Position :=
  text.foldl next pos

end Position

/-- Why the text at some place is no token. -/
inductive LexFault where
  /-- A run of characters that no token holds. -/
  | unexpected (text : String)
  /-- A colon without its equals sign. -/
  | loneColon
  /-- A literal above the largest word. -/
  | outOfRange
  /-- A literal padded with more zeros than are read. -/
  | tooLong (digits : Nat)
deriving DecidableEq

/-- A place of the source text that is no token. -/
structure LexError where
  fault : LexFault
  line : Nat
  col : Nat
  length : Nat
deriving DecidableEq

/-- The largest literal, `2 ^ 31 - 1`. -/
def maxLiteral : Nat := 0x7FFFFFFF

/-- A literal with more digits than this, leading zeros apart, is out of range. -/
def maxSignificantDigits : Nat := 10

/-- What a source text starts with: a lexeme of some length, or a fault in a piece of some length,
after which reading goes on `past` characters further. -/
inductive Reading where
  | lexeme (lexeme : Lexeme) (length : Nat)
  | fault (fault : LexFault) (length past : Nat)

/-- The number of characters that are passed. -/
def Reading.moved : Reading → Nat
  | lexeme _ length => length
  | fault _ _ past => past

/-- The value of a run of digits. -/
def literalValue (digits : List Char) : Nat :=
  digits.foldl (fun n c => n * 10 + (c.toNat - '0'.toNat)) 0

/-- A run of digits, as a literal. -/
def readLiteral (digits : List Char) : Reading :=
  if maxSignificantDigits < (digits.dropWhile (· == '0')).length then
    .fault .outOfRange digits.length digits.length
  else if Numeral.digitLimit < digits.length then
    .fault (.tooLong digits.length) digits.length digits.length
  else if maxLiteral < literalValue digits then
    .fault .outOfRange digits.length digits.length
  else
    .lexeme (.literal (literalValue digits)) digits.length

namespace Lexeme

/-- The lexeme of a word: a keyword or an identifier. -/
def ofWord (word : String) : Lexeme :=
  if word = "begin" then beginKw
  else if word = "end" then endKw
  else if word = "read" then readKw
  else if word = "write" then writeKw
  else identifier word

/-- The lexemes of one character that start no longer one. -/
def ofChar? (c : Char) : Option Lexeme :=
  if c = '(' then some leftParen
  else if c = ')' then some rightParen
  else if c = ';' then some semicolon
  else if c = ',' then some comma
  else if c = '+' then some plus
  else none

/-- What a text starts with. -/
def read : List Char → Reading
  | [] => .lexeme eof 0
  | c :: cs =>
    if isWhiteSpace c then .lexeme whitespace (1 + (cs.takeWhile isWhiteSpace).length)
    else if c = '-' then
      if cs.head? = some '-' then .lexeme comment (1 + (cs.takeWhile (· != '\n')).length)
      else .lexeme minus 1
    else if isLetter c then
      let word := c :: cs.takeWhile isAsciiAlphanumeric
      .lexeme (ofWord (String.ofList word)) word.length
    else if isDigit c then readLiteral (c :: cs.takeWhile isDigit)
    else if c = ':' then
      if cs.head? = some '=' then .lexeme assign 2 else .fault .loneColon 1 0
    else match ofChar? c with
      | some lexeme => .lexeme lexeme 1
      | none =>
        let bad := c :: cs.takeWhile fun c => !isExpected c
        .fault (.unexpected (String.ofList bad)) bad.length 0

/-- Every lexeme but the end of the text has a character. -/
theorem length_pos_of_read {cs : List Char} {lexeme : Lexeme} {length : Nat}
    (h : read cs = .lexeme lexeme length) (hne : lexeme ≠ eof) : cs ≠ [] ∧ 0 < length := by
  cases cs with
  | nil => simp_all [read]
  | cons c cs =>
    refine ⟨by simp, ?_⟩
    simp only [read, readLiteral] at h
    grind

end Lexeme

/-- The text ahead, and the position of the text behind. -/
structure Scanner where
  ahead : List Char
  pos : Position := {}

namespace Scanner

/-- The scanner at the start of a source text. -/
def ofSource (source : String) : Scanner :=
  { ahead := source.toList }

/-- The character `n` places ahead. -/
def peek (s : Scanner) (n : Nat) : Option Char :=
  s.ahead[n]?

/-- Moves past `n` characters, or to the end if there are fewer. -/
def advance (s : Scanner) (n : Nat) : Scanner :=
  ⟨s.ahead.drop n, s.pos.after (s.ahead.take n)⟩

/-- Moves past `n` characters, if there are as many. -/
def advance? (s : Scanner) (n : Nat) : Option Scanner :=
  if n ≤ s.ahead.length then some (s.advance n) else none

/-- The longest text ahead with characters of a class, and the scanner past it. -/
def scanWhile (s : Scanner) (p : Char → Bool) : String × Scanner :=
  let text := s.ahead.takeWhile p
  (String.ofList text, ⟨s.ahead.dropWhile p, s.pos.after text⟩)

/-- Reads the next token, trivia included; at the end of the text it is always the end token. The
scanner past a faulty literal is returned with the fault, and stays in place at any other one. -/
def next (s : Scanner) : Except LexError Token × Scanner :=
  match Lexeme.read s.ahead with
  | .lexeme lexeme length => (.ok ⟨lexeme, s.pos.line, s.pos.col, length⟩, s.advance length)
  | .fault fault length past => (.error ⟨fault, s.pos.line, s.pos.col, length⟩, s.advance past)

/-- Every token but the end of the text leaves less text ahead. -/
theorem ahead_length_lt_of_next {s s' : Scanner} {t : Token} (h : s.next = (.ok t, s'))
    (hne : t.lexeme ≠ .eof) : s'.ahead.length < s.ahead.length := by
  unfold next at h
  split at h
  · next lexeme length hread =>
    simp only [Prod.mk.injEq, Except.ok.injEq] at h
    obtain ⟨rfl, rfl⟩ := h
    have hpos := Lexeme.length_pos_of_read hread hne
    have : 0 < s.ahead.length := List.length_pos_iff.mpr hpos.1
    simp only [advance, List.length_drop]
    omega
  · simp at h

end Scanner

end MicroLang.Source
