import Ipld.Plain
import Ipld.Text.Digits
import Ipld.Text.Word

/-!
# Writing plain data as YAML

The text is a YAML 1.1 document in block style that ends with a line feed.  A mapping is indented by
two below its key; the items of a list stand at the column of their key.

Texts are words.  A word of ASCII characters is written as it is, unless a reader would take it for
a truth value, for null or for an integer; then it stands in single quotes.  Any other text is
written in double quotes, with each character escaped that is not printable ASCII.

A key is simple when it has at most 122 characters.  A longer one follows a `?`, and its value a
`:` on a line of its own.  A text in double quotes that is no simple key is folded: where a line has
run beyond column 80 right after an escape, the line ends with a backslash and the text goes on in
the next line, indented by two more than the mapping around it.
-/

namespace Ipld.Yaml

open Text

/-! ## Which words need quotes -/

/-- The words that a reader takes for a truth value. -/
def booleans : List String :=
  ["yes", "Yes", "YES", "no", "No", "NO", "true", "True", "TRUE", "false", "False", "FALSE",
    "on", "On", "ON", "off", "Off", "OFF"]

/-- The words that a reader takes for null. -/
def nulls : List String :=
  ["", "null", "Null", "NULL"]

def isHexDigit (c : Char) : Bool :=
  c.isDigit || ('a' ≤ c && c ≤ 'f') || ('A' ≤ c && c ≤ 'F')

/-- A non-empty run of digits and underscores. -/
def isRun (digit : Char → Bool) (cs : List Char) : Bool :=
  !cs.isEmpty && cs.all fun c => digit c || c == '_'

/-- The words that a reader takes for an integer: binary, octal, hexadecimal and decimal ones, with
underscores among the digits. -/
def isInteger : List Char → Bool
  | ['0'] => true
  | '0' :: 'b' :: rest => isRun (fun c => c == '0' || c == '1') rest
  | '0' :: 'x' :: rest => isRun isHexDigit rest
  | '0' :: rest => isRun (fun c => '0' ≤ c && c ≤ '7') rest
  | c :: rest => '1' ≤ c && c ≤ '9' && rest.all fun c => c.isDigit || c == '_'
  | [] => false

/-- Whether a reader takes a bare word for something else than a text. -/
def isReserved (s : String) : Bool :=
  s ∈ booleans || s ∈ nulls || isInteger s.toList

/-- A printable ASCII character that may stand in double quotes as it is. -/
def isBare (c : Char) : Bool :=
  0x20 ≤ c.toNat && c.toNat ≤ 0x7e && c != '"' && c != '\\'

/-- A text of ASCII word characters. -/
def isAsciiWord (cs : List Char) : Bool :=
  cs.all fun c => isWordChar c && c.toNat < 0x80

/-! ## Scalars -/

/-- A character in double quotes that cannot stand there as it is. -/
def escapeChar (c : Char) : List Char :=
  if c = '"' ∨ c = '\\' then ['\\', c]
  else if c.toNat ≤ 0xff then '\\' :: 'x' :: hexPadded .upper 2 c.toNat
  else if c.toNat ≤ 0xffff then '\\' :: 'u' :: hexPadded .upper 4 c.toNat
  else '\\' :: 'U' :: hexPadded .upper 8 c.toNat

/-- The width that a line may have before it is folded. -/
def foldWidth : Nat := 80

/-- A line break inside double quotes. -/
def foldBreak (indent : Nat) : List Char :=
  '\\' :: '\n' :: List.replicate indent ' '

/-- The inside of a folded text in double quotes.  `first` tells the first character, which no fold
follows; `column` is where the last escape, fold or quote ended, and `pending` how many bare
characters have been written since. -/
def folded (indent : Nat) (first : Bool) (column pending : Nat) : List Char → List Char
  | [] => []
  | c :: rest =>
    let inner := !first && !rest.isEmpty
    if isBare c then
      if inner ∧ pending = 0 ∧ foldWidth < column then
        foldBreak indent ++ c :: folded indent false indent 1 rest
      else c :: folded indent false column (pending + 1) rest
    else
      let column' := column + pending + (escapeChar c).length
      if inner ∧ foldWidth + 1 < column' then
        escapeChar c ++ foldBreak indent ++ folded indent false indent 0 rest
      else escapeChar c ++ folded indent false column' 0 rest

/-- The inside of a text in double quotes that is not folded. -/
def unfolded (cs : List Char) : List Char :=
  cs.flatMap fun c => if isBare c then [c] else escapeChar c

/-- A text as a simple key. -/
def keyScalar (s : String) : List Char :=
  if isAsciiWord s.toList then
    if isReserved s then '\'' :: s.toList ++ ['\''] else s.toList
  else '"' :: unfolded s.toList ++ ['"']

/-- A text that is no simple key, written from `column` on in a block indented by `indent`. -/
def scalar (indent column : Nat) (s : String) : List Char :=
  if isAsciiWord s.toList then
    if isReserved s then '\'' :: s.toList ++ ['\''] else s.toList
  else '"' :: folded (indent + 2) true (column + 1) 0 s.toList ++ ['"']

/-! ## Blocks -/

def simpleKeyLimit : Nat := 122

/-- A new line, up to column `indent`. -/
def newLine (indent : Nat) : List Char :=
  '\n' :: List.replicate indent ' '

/-- A list of texts, each on a line of its own; the first follows on the line at hand when `here`
says so. -/
def items (indent : Nat) (here : Bool) : List String → List Char
  | [] => []
  | s :: rest =>
    (if here then [] else newLine indent) ++ ['-', ' '] ++ scalar indent (indent + 2) s ++
      items indent false rest

mutual

/-- The entries of a mapping at column `indent`; the first follows on the line at hand when `here`
says so. -/
def block (indent : Nat) (here : Bool) : List (String × Plain) → List Char
  | [] => []
  | (key, v) :: rest =>
    (if here then [] else newLine indent) ++
      (if key.length ≤ simpleKeyLimit then
        let written := keyScalar key
        written ++ [':'] ++ simpleValue indent (indent + written.length + 2) v
      else
        ['?', ' '] ++ scalar indent (indent + 2) key ++ newLine indent ++ [':', ' '] ++
          complexValue indent v) ++
      block indent false rest

/-- The value of a simple key in a mapping at column `indent`; a text begins at `column`. -/
def simpleValue (indent column : Nat) : Plain → List Char
  | .text s => ' ' :: scalar indent column s
  | .flag b => if b then " true".toList else " false".toList
  | .texts [] => " []".toList
  | .texts (s :: rest) => items indent false (s :: rest)
  | .mapping [] => [' ', '\x7b', '\x7d']
  | .mapping (e :: rest) => block (indent + 2) false (e :: rest)

/-- The value of a long key in a mapping at column `indent`. -/
def complexValue (indent : Nat) : Plain → List Char
  | .text s => scalar indent (indent + 2) s
  | .flag b => if b then "true".toList else "false".toList
  | .texts [] => "[]".toList
  | .texts (s :: rest) => items (indent + 2) true (s :: rest)
  | .mapping [] => ['\x7b', '\x7d']
  | .mapping (e :: rest) => block (indent + 2) true (e :: rest)

end

/-- The document of a mapping. -/
def document (entries : List (String × Plain)) : List Char :=
  (if entries.isEmpty then ['\x7b', '\x7d'] else block 0 true entries) ++ ['\n']

/-- The YAML text of plain data; a value that is no mapping stands alone. -/
def render : Plain → String
  | .mapping entries => String.ofList (document entries)
  | other => String.ofList ((simpleValue 0 0 other).dropWhile (· == ' ') ++ ['\n'])

end Ipld.Yaml
