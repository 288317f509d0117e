import Ipld.Random.Twister

/-!
# Drawing from a source of random words

Everything random is made from a source of words of thirty-two bits, whatever the source may be.  A
draw either gives a value or is a mistake: a range or a list without anything to draw from, a place
outside a list, a character that there is not.

A number below `n` is drawn by drawing as many bits as `n` has until the number is below `n`.  At
least every second try succeeds in the mean, so a thousand tries are enough for any source that is
at all random.
-/

namespace Ipld.Random

/-- A source of random words. -/
class Source (σ : Type) where
  word : σ → UInt32 × σ

/-- The Mersenne Twister as a source. -/
instance : Source Twister where
  word := Twister.next

/-- Why a draw is a mistake. -/
inductive Mistake where
  | emptyRange
  | outside
  | noCharacter
  deriving DecidableEq, Repr

abbrev Draw (σ : Type) := ExceptT Mistake (StateM σ)

variable {σ : Type} [Source σ]

def word : Draw σ UInt32 := do
  let (w, s) := Source.word (← get)
  set s
  return w

/-- The bits of some words, the lowest word first, and above them the first `k` bits of one word
more, for `k` up to thirty-two. -/
def bitsAbove (k : Nat) : (words : Nat) → Draw σ Nat
  | 0 => do return (← word).toNat / Nat.pow 2 (32 - k)
  | words + 1 => do
    let low := (← word).toNat
    return low + Nat.pow 2 32 * (← bitsAbove k words)

/-- A number of `k` bits, for `k` at least one. -/
def bits (k : Nat) : Draw σ Nat :=
  let words := (k - 1) / 32
  bitsAbove (k - 32 * words) words

/-- A number between zero and one, in steps of `2 ^ -53`. -/
def unit : Draw σ Float := do
  let a := (← word).toNat / 32
  let b := (← word).toNat / 64
  return Float.ofNat (a * Nat.pow 2 26 + b) / 9007199254740992.0

/-- Whether a number between zero and one falls below `p`. -/
def chance (p : Float) : Draw σ Bool := do
  return decide ((← unit) < p)

def bitLength (n : Nat) : Nat :=
  if n = 0 then 0 else n.log2 + 1

/-- Tries to draw a number below `n`.  When all tries have failed, the number of the last one is
brought below `n` by division, so that the draw ends; with no limit of tries it would go on for as
long as the numbers are too large. -/
def belowWithin (n : Nat) : (tries : Nat) → Draw σ Nat
  | 0 => do return (← bits (bitLength n)) % n
  | tries + 1 => do
    let r ← bits (bitLength n)
    if r < n then return r else belowWithin n tries

def below (n : Nat) : Draw σ Nat :=
  if n = 0 then throw .emptyRange else belowWithin n 1000

/-- A number from `low` to `high`, both included. -/
def between (low high : Nat) : Draw σ Nat :=
  if high < low then throw .emptyRange
  else do return low + (← below (high - low + 1))

/-- The element at a place of a list. -/
def elementAt {α : Type} (xs : List α) (i : Nat) : Draw σ α :=
  match xs[i]? with
  | some x => return x
  | none => throw .outside

def choice {α : Type} (xs : List α) : Draw σ α := do
  elementAt xs (← below xs.length)

/-- The place in a list of `n` elements at a given height between zero and one. -/
def placeAt (n : Nat) (height : Float) : Nat :=
  min (height * Float.ofNat n).floor.toUInt64.toNat (n - 1)

/-- As many elements of a list as wanted, each drawn on its own. -/
def choices {α : Type} (xs : List α) : (count : Nat) → Draw σ (List α)
  | 0 => return []
  | count + 1 => do
    let x ← elementAt xs (placeAt xs.length (← unit))
    return x :: (← choices xs count)

/-- The character with a given code point. -/
def character (n : Nat) : Draw σ Char :=
  if n.isValidChar then return Char.ofNat n else throw .noCharacter

/-- A value drawn as often as wanted. -/
def times {α : Type} (count : Nat) (d : Draw σ α) : Draw σ (List α) :=
  match count with
  | 0 => return []
  | count + 1 => do
    let x ← d
    return x :: (← times count d)

end Ipld.Random
