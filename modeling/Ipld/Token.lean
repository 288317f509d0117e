import Ipld.Text.Quoted
import Ipld.Text.Word

/-!
# Tokens

A schema source is a sequence of words and symbols; blanks and comments between them only matter
for line numbers.  A word is a keyword or an identifier.
-/

namespace Ipld

open Text

inductive TokenKind where
  | keyword
  | identifier
  | symbol
  deriving DecidableEq, Repr

/-- The kind in words, as diagnostics give it. -/
def TokenKind.describe : TokenKind → String
  | .keyword => "keyword"
  | .identifier => "identifier"
  | .symbol => "symbol"

/-- The kind as a label. -/
def TokenKind.label : TokenKind → String
  | .keyword => "KEYWORD"
  | .identifier => "IDENTIFIER"
  | .symbol => "SYMBOL"

/-- A token and the line on which it begins.  The lexer gives positive lines only; a token made by
hand may have any value and any line. -/
structure Token where
  kind : TokenKind
  value : String
  line : Int
  deriving DecidableEq, Repr

/-- The words that are reserved. -/
def keywords : List String :=
  ["type", "representation", "advanced", "optional", "nullable", "struct", "enum",
    "Bool", "String", "Bytes", "Int", "Float", "map", "list", "link", "RMT"]

/-- A character that is a token by itself. -/
def isSymbol (c : Char) : Bool :=
  c ∈ ['{', '}', '[', ']', ':', ',', '&']

/-- A character that separates tokens. -/
def isBlank (c : Char) : Bool :=
  c ∈ [' ', '\t', '\r', '\n']

/-- The kind of a word: reserved words are keywords. -/
def wordKind (word : String) : TokenKind :=
  if word ∈ keywords then .keyword else .identifier

/-- Whether a token has the given kind, and the given value when there is one. -/
def Token.is (t : Token) (kind : TokenKind) (value : Option String) : Bool :=
  t.kind == kind && (value == none || value == some t.value)

/-- A token in full, with its line. -/
def Token.render (t : Token) : String :=
  "Token(" ++ t.kind.label ++ ", " ++ quote t.value ++ ", line " ++ renderInt t.line ++ ")"

/-- A token kind in words, with the value in quotes when one is given. -/
def describe (kind : TokenKind) : Option String → String
  | none => kind.describe
  | some value => kind.describe ++ " " ++ quote value

end Ipld
