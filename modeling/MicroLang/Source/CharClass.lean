import MicroLang.Text.Blank
import MicroLang.Text.WordChar

/-!
# Characters of a source text

Letters and digits of the language are those of ASCII. A character is expected if some token may
start with it or hold it; a run of unexpected characters is reported as one.
-/

namespace MicroLang.Source

open MicroLang.Text

/-- An ASCII letter, which starts a word. -/
def isLetter (c : Char) : Bool :=
  ('A' ≤ c && c ≤ 'Z') || ('a' ≤ c && c ≤ 'z')

/-- An ASCII digit, which starts a literal. -/
def isDigit (c : Char) : Bool :=
  '0' ≤ c && c ≤ '9'

/-- The punctuation of the language, the colon apart. -/
def isPunctuation (c : Char) : Bool :=
  ['=', '+', '-', '(', ')', ';', ','].contains c

/-- The characters that end a run of unexpected ones. -/
def isExpected (c : Char) : Bool :=
  isAsciiAlphanumeric c || isWhiteSpace c || isPunctuation c

end MicroLang.Source
