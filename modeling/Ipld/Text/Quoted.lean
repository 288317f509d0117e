import Ipld.Text.Digits
import Ipld.Text.Printable

/-!
# Quoted text

Diagnostics and object descriptions show a text between quotes.  The quote is `'`, unless the text
holds a `'` and no `"`.  A backslash, the quote in use, and the three common controls (line feed,
carriage return, tab) are escaped by a letter; any other character that is not printable is escaped
by its code point in two, four or eight lower-case hexadecimal digits.  So a quoted text never holds
a line break, and a diagnostic built from it stays on one line.
-/

namespace Ipld.Text

/-- The quote chosen for a text. -/
def quoteFor (text : List Char) : Char :=
  if '\'' ∈ text ∧ '"' ∉ text then '"' else '\''

/-- A character as it stands inside the quotes `quote`. -/
def quotedChar (quote c : Char) : List Char :=
  if c = quote ∨ c = '\\' then ['\\', c]
  else if c = '\n' then ['\\', 'n']
  else if c = '\r' then ['\\', 'r']
  else if c = '\t' then ['\\', 't']
  else if isPrintable c then [c]
  else if c.toNat ≤ 0xff then '\\' :: 'x' :: hexPadded .lower 2 c.toNat
  else if c.toNat ≤ 0xffff then '\\' :: 'u' :: hexPadded .lower 4 c.toNat
  else '\\' :: 'U' :: hexPadded .lower 8 c.toNat

/-- A text between quotes, with everything escaped that would not print. -/
def quoted (text : List Char) : List Char :=
  let quote := quoteFor text
  quote :: text.flatMap (quotedChar quote) ++ [quote]

/-- A string between quotes. -/
def quote (s : String) : String :=
  String.ofList (quoted s.toList)

end Ipld.Text
