/-!
# Binary fractions

A finite floating-point number is `± significand · 2 ^ exponent`, read off its bits.  Exact
arithmetic on the significand decides how it is written in decimal.
-/

namespace Ipld.Decimal

/-- A finite binary fraction: its sign, its significand and its power of two. -/
structure Binary where
  negative : Bool
  significand : Nat
  exponent : Int
  deriving DecidableEq, Repr

/-- A floating-point number by its bits. -/
inductive Reading where
  | finite (b : Binary)
  | infinite (negative : Bool)
  | undefined
  deriving DecidableEq, Repr

def read (x : Float) : Reading :=
  let bits := x.toBits.toNat
  let negative := bits / Nat.pow 2 63 == 1
  let field : Nat := bits / Nat.pow 2 52 % Nat.pow 2 11
  let fraction : Nat := bits % Nat.pow 2 52
  if field = 2047 then
    if fraction = 0 then .infinite negative else .undefined
  else if field = 0 then .finite ⟨negative, fraction, -1074⟩
  else .finite ⟨negative, fraction + Nat.pow 2 52, (field : Int) - 1075⟩

/-- The least natural number that is too large for a floating-point number: of the numbers from the
largest one on, it is the first that would be rounded to `2 ^ 1024`. -/
def floatLimit : Nat :=
  Nat.pow 2 1024 - Nat.pow 2 970

namespace Binary

/-- The numerator of the size of a binary fraction, over `denominator`. -/
def numerator (b : Binary) : Nat :=
  b.significand * Nat.pow 2 b.exponent.toNat

/-- The denominator of the size of a binary fraction. -/
def denominator (b : Binary) : Nat :=
  Nat.pow 2 (-b.exponent).toNat

/-- The integer part, cut off toward zero. -/
def truncate (b : Binary) : Int :=
  let n : Int := (b.numerator / b.denominator : Nat)
  if b.negative then -n else n

end Binary

end Ipld.Decimal
