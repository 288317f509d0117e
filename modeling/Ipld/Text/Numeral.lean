import Ipld.Error

/-!
# Numerals

Numbers given as text may have blanks around them, a sign, digits of any script, and single
underscores between digits.  A decimal fraction may have a point and an exponent, and the words for
infinity and for an undefined value stand for themselves.
-/

namespace Ipld.Text

/-- The zeros of the scripts of Unicode 14; the digits one to nine follow each of them. -/
def zeros : List Nat := [
  0x30, 0x660, 0x6f0, 0x7c0, 0x966, 0x9e6, 0xa66, 0xae6, 0xb66, 0xbe6, 0xc66, 0xce6, 0xd66,
  0xde6, 0xe50, 0xed0, 0xf20, 0x1040, 0x1090, 0x17e0, 0x1810, 0x1946, 0x19d0, 0x1a80, 0x1a90,
  0x1b50, 0x1bb0, 0x1c40, 0x1c50, 0xa620, 0xa8d0, 0xa900, 0xa9d0, 0xa9f0, 0xaa50, 0xabf0, 0xff10,
  0x104a0, 0x10d30, 0x11066, 0x110f0, 0x11136, 0x111d0, 0x112f0, 0x11450, 0x114d0, 0x11650,
  0x116c0, 0x11730, 0x118e0, 0x11950, 0x11c50, 0x11d50, 0x11da0, 0x16a60, 0x16ac0, 0x16b50,
  0x1d7ce, 0x1d7d8, 0x1d7e2, 0x1d7ec, 0x1d7f6, 0x1e140, 0x1e2f0, 0x1e950, 0x1fbf0
]

/-- The value of a decimal digit of any script. -/
def digitValue? (c : Char) : Option Nat :=
  (zeros.find? fun z => z ≤ c.toNat && c.toNat ≤ z + 9).map (c.toNat - ·)

def isDecimalDigit (c : Char) : Bool :=
  (digitValue? c).isSome

/-- A blank that may stand around a numeral. -/
def isNumeralBlank (c : Char) : Bool :=
  c ∈ ['\t', '\n', '\x0b', '\x0c', '\r', ' ', '\u0085', '\u00a0', '\u1680', '\u2028', '\u2029',
    '\u202f', '\u205f', '\u3000'] || (0x2000 ≤ c.toNat && c.toNat ≤ 0x200a)

/-- A text without the blanks around it. -/
def strip (cs : List Char) : List Char :=
  ((cs.dropWhile isNumeralBlank).reverse.dropWhile isNumeralBlank).reverse

/-- The sign at the front of a numeral, true for minus, and what follows it. -/
def splitSign : List Char → Bool × List Char
  | '-' :: rest => (true, rest)
  | '+' :: rest => (false, rest)
  | cs => (false, cs)

/-- Goes on reading digits; `after` tells that a digit was the last thing read, so that an underscore
may follow if another digit comes after it. -/
def digitsFrom (after : Bool) : List Char → List Nat × List Char
  | [] => ([], [])
  | c :: rest =>
    match digitValue? c with
    | some d =>
      let (ds, left) := digitsFrom true rest
      (d :: ds, left)
    | none =>
      if after && c == '_' && rest.head?.any isDecimalDigit then digitsFrom false rest
      else ([], c :: rest)

/-- The digits at the front of a text, of which single underscores may separate any two, and what
follows them. -/
def digits (cs : List Char) : List Nat × List Char :=
  digitsFrom false cs

def ofDigits (ds : List Nat) : Nat :=
  ds.foldl (fun n d => 10 * n + d) 0

/-- The greatest number of digits that an integer may have. -/
def digitLimit : Nat := 4300

/-- The integer that a text stands for. -/
def readInt? (text : String) : Option Int :=
  let (negative, body) := splitSign (strip text.toList)
  match digits body with
  | ([], _) => none
  | (_, _ :: _) => none
  | (ds, []) =>
    if digitLimit < ds.length then none
    else some (if negative then -(ofDigits ds : Int) else ofDigits ds)

def lowerAscii (c : Char) : Char :=
  if 'A' ≤ c ∧ c ≤ 'Z' then Char.ofNat (c.toNat + 32) else c

/-- The greatest power of ten that makes a difference to a binary fraction. -/
def exponentLimit : Int := 400

/-- The number `m · 10 ^ e`; one that is too great or too small counts as infinite or zero. -/
def scientific (m : Nat) (e : Int) : Float :=
  let lead := e + (decimal m).length
  if m = 0 then 0.0
  else if exponentLimit < lead then 1.0 / 0.0
  else if lead < -exponentLimit then 0.0
  else if e < 0 then Float.ofScientific m true e.natAbs
  else Float.ofScientific m false e.natAbs

/-- The exponent at the end of a numeral; there may be none. -/
def exponent? : List Char → Option Int
  | [] => some 0
  | c :: rest =>
    if c = 'e' ∨ c = 'E' then
      let (negative, body) := splitSign rest
      match digits body with
      | ([], _) => none
      | (_, _ :: _) => none
      | (ds, []) => some (if negative then -(ofDigits ds : Int) else ofDigits ds)
    else none

/-- The size of a number with a point or an exponent. -/
def magnitude? (cs : List Char) : Option Float :=
  let word := String.ofList (cs.map lowerAscii)
  if word = "inf" ∨ word = "infinity" then some (1.0 / 0.0)
  else if word = "nan" then some (0.0 / 0.0)
  else
    let (whole, left) := digits cs
    let (places, left) :=
      match left with
      | '.' :: rest => digits rest
      | _ => ([], left)
    if whole.isEmpty && places.isEmpty then none
    else
      match exponent? left with
      | none => none
      | some e =>
        some (scientific (ofDigits (whole ++ places)) (e - places.length))

/-- The number that a text stands for, with or without a fraction. -/
def readFloat? (text : String) : Option Float :=
  let (negative, body) := splitSign (strip text.toList)
  (magnitude? body).map fun x => if negative then -x else x

end Ipld.Text
