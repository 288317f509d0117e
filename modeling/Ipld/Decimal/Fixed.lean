import Ipld.Decimal.Binary
import Ipld.Text.Digits

/-!
# Decimals with a fixed number of places

The exact value is rounded to the nearest multiple of a power of ten; a tie goes to the even one.
The sign is kept, also in front of a zero.
-/

namespace Ipld.Decimal

open Text

/-- The quotient rounded to the nearest integer, a tie to the even one. -/
def roundDiv (n d : Nat) : Nat :=
  let q := n / d
  let twice := 2 * (n % d)
  if twice < d then q
  else if d < twice then q + 1
  else if q % 2 = 0 then q
  else q + 1

/-- A natural number of units of the last place, with a point before the last `places` digits. -/
def placePoint (places n : Nat) : List Char :=
  let ds := decimal n
  if places = 0 then ds
  else
    let padded := List.replicate (places + 1 - ds.length) '0' ++ ds
    padded.take (padded.length - places) ++ '.' :: padded.drop (padded.length - places)

/-- A number with a fixed number of places. -/
def fixed (places : Nat) (x : Float) : String :=
  match read x with
  | .undefined => "nan"
  | .infinite negative => if negative then "-inf" else "inf"
  | .finite b =>
    let units := roundDiv (b.numerator * Nat.pow 10 places) b.denominator
    (if b.negative then "-" else "") ++ String.ofList (placePoint places units)

end Ipld.Decimal
