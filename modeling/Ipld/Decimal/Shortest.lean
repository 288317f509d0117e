import Ipld.Decimal.Fixed

/-!
# The shortest decimal that reads back

The numbers that are rounded to a given binary fraction form an interval around it, whose ends
belong to it exactly when the significand is even.  Of the decimals in the interval, one with the
fewest digits is taken, and of those the one nearest to the fraction.  For each number of digits
only the two multiples next to the fraction need to be looked at.

The digits are written positionally when the number is at least `10 ^ -4` and below `10 ^ 16`, and
with an exponent of at least two digits otherwise.
-/

namespace Ipld.Decimal

open Text

/-- A positive decimal: its digits as a number, and the power of ten of the last one. -/
structure Digits where
  value : Nat
  exponent : Int
  deriving DecidableEq, Repr

/-- A decimal without zeros at its end. -/
def Digits.trim (d : Digits) : Digits :=
  if _h : 0 < d.value ∧ d.value % 10 = 0 then trim ⟨d.value / 10, d.exponent + 1⟩ else d
termination_by d.value

/-- The interval of the numbers that are rounded to a binary fraction, over a common
denominator. -/
structure Interval where
  low : Nat
  center : Nat
  high : Nat
  denominator : Nat
  closed : Bool

/-- The interval of a binary fraction.  Below a power of two the neighbours are twice as near. -/
def Binary.interval (b : Binary) : Interval :=
  let unit := 4 * Nat.pow 2 b.exponent.toNat
  let center := 4 * b.numerator
  let below := if b.significand = Nat.pow 2 52 ∧ -1074 < b.exponent then unit / 4 else unit / 2
  ⟨center - below, center, center + unit / 2, 4 * b.denominator, b.significand % 2 = 0⟩

/-- The power of ten of the first digit of `n / d`. -/
def leadingExponent (n d : Nat) : Int :=
  if d ≤ n then ((decimal (n / d)).length : Int) - 1
  else
    let k := (decimal (d / n)).length - 1
    if d ≤ n * Nat.pow 10 k then -(k : Int) else -(k + 1 : Int)

/-- The decimal `v · 10 ^ e` as a numerator, over the denominator `d` times the second answer. -/
def scaled (v d : Nat) (e : Int) : Nat × Nat :=
  (v * d * Nat.pow 10 e.toNat, Nat.pow 10 (-e).toNat)

/-- Whether the decimal `v · 10 ^ e` lies in an interval. -/
def Interval.contains (i : Interval) (v : Nat) (e : Int) : Bool :=
  let (n, s) := scaled v i.denominator e
  if i.closed then i.low * s ≤ n && n ≤ i.high * s else i.low * s < n && n < i.high * s

/-- How far the decimal `v · 10 ^ e` is from the center of an interval, in units that depend only on
the exponent. -/
def Interval.distance (i : Interval) (v : Nat) (e : Int) : Nat :=
  let (n, s) := scaled v i.denominator e
  if n ≤ i.center * s then i.center * s - n else n - i.center * s

/-- The nearest multiple of `10 ^ e` that lies in an interval, if any does. -/
def Interval.nearest? (i : Interval) (e : Int) : Option Digits :=
  let below := i.center * Nat.pow 10 (-e).toNat / (i.denominator * Nat.pow 10 e.toNat)
  let above := below + 1
  match i.contains below e && below != 0, i.contains above e with
  | true, true =>
    if i.distance below e < i.distance above e then some ⟨below, e⟩
    else if i.distance above e < i.distance below e then some ⟨above, e⟩
    else some ⟨if below % 2 = 0 then below else above, e⟩
  | true, false => some ⟨below, e⟩
  | false, true => some ⟨above, e⟩
  | false, false => none

/-- Looks for a decimal with a growing number of digits; `tries` bounds the search, and seventeen
digits are always enough. -/
def Interval.search (i : Interval) (lead : Int) (count : Nat) : (tries : Nat) → Digits
  | 0 => ⟨i.center, 0⟩
  | tries + 1 =>
    match i.nearest? (lead - count) with
    | some found => found
    | none => i.search lead (count + 1) tries

/-- The shortest decimal of a binary fraction that is not zero.  The search may end above the
fraction at a power of ten, whose zero is dropped. -/
def Binary.shortest (b : Binary) : Digits :=
  (b.interval.search (leadingExponent b.numerator b.denominator) 0 17).trim

/-- An exponent with its sign and at least two digits. -/
def exponentText (e : Int) : List Char :=
  let ds := decimal e.natAbs
  'e' :: (if e < 0 then '-' else '+') :: List.replicate (2 - ds.length) '0' ++ ds

def Digits.render (d : Digits) : List Char :=
  let ds := decimal d.value
  let lead := d.exponent + ds.length - 1
  if -4 ≤ lead ∧ lead < 16 then
    if 0 ≤ d.exponent then ds ++ List.replicate d.exponent.toNat '0' ++ ['.', '0']
    else placePoint (-d.exponent).toNat d.value
  else
    match ds with
    | [c] => c :: exponentText lead
    | c :: rest => c :: '.' :: rest ++ exponentText lead
    | [] => []

/-- A number as the shortest decimal that reads back. -/
def natural (x : Float) : String :=
  match read x with
  | .undefined => "nan"
  | .infinite negative => if negative then "-inf" else "inf"
  | .finite b =>
    let size := if b.significand = 0 then "0.0" else String.ofList b.shortest.render
    (if b.negative then "-" else "") ++ size

end Ipld.Decimal
