import MicroLang.Text.Quoted

/-!
# Tokens

A token is a lexeme at a place of the source text. Lines and columns count from one, and columns and
lengths count characters.
-/

namespace MicroLang.Source

/-- The kinds of tokens. -/
inductive TokenKind where
  | beginKw | endKw | readKw | writeKw
  | identifier | literal
  | leftParen | rightParen | semicolon | comma | assign | plus | minus
  | whitespace | comment | unknown | eof
deriving DecidableEq

/-- How messages spell a kind of token. -/
def TokenKind.spelling : TokenKind → String
  | beginKw => "begin"
  | endKw => "end"
  | readKw => "read"
  | writeKw => "write"
  | identifier => "Identifier"
  | literal => "IntLiteral"
  | leftParen => "("
  | rightParen => ")"
  | semicolon => ";"
  | comma => ","
  | assign => ":="
  | plus => "+"
  | minus => "-"
  | whitespace => "Whitespace"
  | comment => "LineComment"
  | unknown => "Unknown"
  | eof => "EOF"

/-- What a token is, apart from its place. -/
inductive Lexeme where
  | beginKw | endKw | readKw | writeKw
  | identifier (name : String)
  | literal (value : Nat)
  | leftParen | rightParen | semicolon | comma | assign | plus | minus
  | whitespace | comment
  | unknown (text : String)
  | eof
deriving DecidableEq

namespace Lexeme

/-- The kind of a lexeme. -/
def kind : Lexeme → TokenKind
  | beginKw => .beginKw
  | endKw => .endKw
  | readKw => .readKw
  | writeKw => .writeKw
  | identifier _ => .identifier
  | literal _ => .literal
  | leftParen => .leftParen
  | rightParen => .rightParen
  | semicolon => .semicolon
  | comma => .comma
  | assign => .assign
  | plus => .plus
  | minus => .minus
  | whitespace => .whitespace
  | comment => .comment
  | unknown _ => .unknown
  | eof => .eof

/-- How messages name a lexeme. -/
def describe : Lexeme → String
  | identifier name => "Identifier(" ++ name ++ ")"
  | literal value => s!"IntLiteral({value})"
  | eof => "end of input"
  | lexeme => Text.quoted lexeme.kind.spelling

/-- White space and comments, which the grammar does not see. -/
def isTrivia : Lexeme → Bool
  | whitespace | comment => true
  | _ => false

end Lexeme

/-- A lexeme, the place where it starts and the number of its characters. -/
structure Token where
  lexeme : Lexeme
  line : Nat
  col : Nat
  length : Nat
deriving DecidableEq

/-- The kind of a token. -/
def Token.kind (t : Token) : TokenKind :=
  t.lexeme.kind

/-- The end of the input, which stands right after the last token. -/
def Token.eofAfter : Option Token → Token
  | none => ⟨.eof, 1, 1, 0⟩
  | some last => ⟨.eof, last.line, last.col + last.length, 0⟩

end MicroLang.Source
