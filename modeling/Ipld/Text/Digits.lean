/-!
# Digits

Numbers written in decimal and in hexadecimal.  A hexadecimal number is padded with zeros to a given
width, in lower or in upper case, as the escapes of the output formats want it.
-/

namespace Ipld.Text

/-- The case in which hexadecimal digits above nine are written. -/
inductive LetterCase where
  | lower
  | upper
  deriving DecidableEq, Repr

/-- One hexadecimal digit; `n` is taken modulo sixteen. -/
def hexDigit (style : LetterCase) (n : Nat) : Char :=
  let d := n % 16
  if d < 10 then Char.ofNat (48 + d)
  else match style with
    | .lower => Char.ofNat (87 + d)
    | .upper => Char.ofNat (55 + d)

/-- The last `width` hexadecimal digits of `n`, most significant first. -/
def hexPadded (style : LetterCase) : (width : Nat) → (n : Nat) → List Char
  | 0, _ => []
  | width + 1, n => hexPadded style width (n / 16) ++ [hexDigit style n]

/-- A natural number in decimal. -/
def decimal (n : Nat) : List Char :=
  Nat.toDigits 10 n

/-- An integer in decimal, with a minus sign when it is negative. -/
def signedDecimal : Int → List Char
  | .ofNat n => decimal n
  | .negSucc n => '-' :: decimal (n + 1)

/-- An integer in decimal, as a string. -/
def renderInt (n : Int) : String :=
  String.ofList (signedDecimal n)

@[simp]
theorem length_hexPadded (style : LetterCase) (width n : Nat) :
    (hexPadded style width n).length = width := by
  induction width generalizing n with
  | zero => rfl
  | succ width ih => simp [hexPadded, ih]

end Ipld.Text
