import Ipld.Plain
import Ipld.Text.Digits

/-!
# Writing plain data as JSON

The text is ASCII: every character outside the printable ASCII range is escaped, one beyond the
basic plane as a surrogate pair.  Laid out over several lines, each item and each entry has a line
of its own, indented by its depth; an empty list or mapping stays on one line.  There is no line
feed at the end.
-/

namespace Ipld.Json

open Text

/-- A sixteen-bit unit as an escape. -/
def escapeUnit (n : Nat) : List Char :=
  '\\' :: 'u' :: hexPadded .lower 4 n

/-- A character inside a string. -/
def escapeChar (c : Char) : List Char :=
  if c = '"' then ['\\', '"']
  else if c = '\\' then ['\\', '\\']
  else if c = '\n' then ['\\', 'n']
  else if c = '\r' then ['\\', 'r']
  else if c = '\t' then ['\\', 't']
  else if c = '\x0c' then ['\\', 'f']
  else if c = '\x08' then ['\\', 'b']
  else if 0x20 ≤ c.toNat ∧ c.toNat ≤ 0x7e then [c]
  else if c.toNat ≤ 0xffff then escapeUnit c.toNat
  else
    let offset := c.toNat - 0x10000
    escapeUnit (0xd800 + offset / 0x400) ++ escapeUnit (0xdc00 + offset % 0x400)

def string (s : String) : List Char :=
  '"' :: s.toList.flatMap escapeChar ++ ['"']

/-- How the items of a list or mapping are set apart. -/
inductive Layout where
  /-- Everything on one line. -/
  | oneLine
  /-- Each item on its own line, indented by `width` for each level. -/
  | lines (width : Nat)
  deriving DecidableEq, Repr

/-- The layout for a requested indentation; a negative one counts as none. -/
def Layout.ofIndent : Option Int → Layout
  | none => .oneLine
  | some n => .lines n.toNat

/-- What stands before an item at a given depth. -/
def Layout.lead (layout : Layout) (depth : Nat) : List Char :=
  match layout with
  | .oneLine => []
  | .lines width => '\n' :: List.replicate (width * depth) ' '

/-- What stands between two items at a given depth. -/
def Layout.between (layout : Layout) (depth : Nat) : List Char :=
  match layout with
  | .oneLine => [',', ' ']
  | .lines _ => ',' :: layout.lead depth

/-- Items between brackets, at the depth of the brackets. -/
def enclose (layout : Layout) (depth : Nat) (opening closing : Char) (items : List (List Char)) :
    List Char :=
  if items.isEmpty then [opening, closing]
  else
    opening :: layout.lead (depth + 1) ++ (layout.between (depth + 1)).intercalate items ++
      layout.lead depth ++ [closing]

mutual

/-- A value at a given depth. -/
def value (layout : Layout) (depth : Nat) : Plain → List Char
  | .text s => string s
  | .flag b => if b then "true".toList else "false".toList
  | .texts values => enclose layout depth '[' ']' (values.map string)
  | .mapping entries => enclose layout depth '\x7b' '\x7d' (members layout (depth + 1) entries)

/-- The entries of a mapping. -/
def members (layout : Layout) (depth : Nat) : List (String × Plain) → List (List Char)
  | [] => []
  | (key, v) :: rest => (string key ++ [':', ' '] ++ value layout depth v) ::
      members layout depth rest

end

/-- The JSON text of plain data. -/
def render (layout : Layout) (p : Plain) : String :=
  String.ofList (value layout 0 p)

end Ipld.Json
