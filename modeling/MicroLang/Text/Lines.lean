/-!
# Lines and fields

Ways to cut a text into pieces. A source text has lines that end at line feeds only, a listing has
lines that end at any line break, and a file read as text has its line ends turned into line feeds.
-/

namespace MicroLang.Text

/-- The pieces of a text between the characters of a class, empty ones included. -/
def splitWhere (p : Char → Bool) : List Char → List (List Char)
  | [] => [[]]
  | c :: cs =>
    if p c then [] :: splitWhere p cs
    else match splitWhere p cs with
      | [] => [[c]]
      | piece :: pieces => (c :: piece) :: pieces

/-- The non-empty pieces of a text between the characters of a class. -/
def fieldsWhere (p : Char → Bool) (text : List Char) : List (List Char) :=
  (splitWhere p text).filter fun piece => !piece.isEmpty

/-- A text without the characters of a class at its end. -/
def trimRight (p : Char → Bool) (text : List Char) : List Char :=
  (text.reverse.dropWhile p).reverse

/-- A text without the characters of a class at its two ends. -/
def trim (p : Char → Bool) (text : List Char) : List Char :=
  trimRight p (text.dropWhile p)

/-- The characters that end a line of a listing. -/
def isLineBreak (c : Char) : Bool :=
  let n := c.toNat
  (0x0A ≤ n && n ≤ 0x0D) || (0x1C ≤ n && n ≤ 0x1E) || n == 0x85 || n == 0x2028 || n == 0x2029

/-- The text with each carriage return and line feed pair made one line feed. -/
def joinCrLf : List Char → List Char
  | '\r' :: '\n' :: cs => '\n' :: joinCrLf cs
  | c :: cs => c :: joinCrLf cs
  | [] => []

/-- The lines of a text, cut at every line break; what follows the last one counts if not empty. -/
def splitLines (text : List Char) : List (List Char) :=
  let pieces := splitWhere isLineBreak (joinCrLf text)
  if pieces.getLast? == some [] then pieces.dropLast else pieces

/-- The text with carriage returns, alone or before a line feed, made line feeds. -/
def unixNewlines : List Char → List Char
  | '\r' :: '\n' :: cs => '\n' :: unixNewlines cs
  | '\r' :: cs => '\n' :: unixNewlines cs
  | c :: cs => c :: unixNewlines cs
  | [] => []

/-- The text of lines, each with a line feed after it. -/
def unlines (lines : List String) : String :=
  String.ofList (lines.flatMap fun line => line.toList ++ ['\n'])

/-- The part of a line before a number sign, which starts a comment. -/
def beforeComment (line : List Char) : List Char :=
  line.takeWhile (· != '#')

end MicroLang.Text
