import Ipld.Text.Digits
import Mathlib.Algebra.Group.Nat.Defs

/-!
# Reading hexadecimal digits

Digits of either case are read, as many as are asked for.  What `hexPadded` writes is read back, as
long as the number has no more digits than are written.
-/

namespace Ipld.Text

/-- The code points of characters leave out the surrogates. -/
theorem toNat_bounds (c : Char) :
    c.toNat < 0xd800 ∨ 0xe000 ≤ c.toNat ∧ c.toNat < 0x110000 := by
  rcases c.valid with h | ⟨h, h'⟩
  · exact .inl h
  · exact .inr ⟨h, h'⟩

def hexValue? (c : Char) : Option Nat :=
  if '0' ≤ c ∧ c ≤ '9' then some (c.toNat - 48)
  else if 'a' ≤ c ∧ c ≤ 'f' then some (c.toNat - 87)
  else if 'A' ≤ c ∧ c ≤ 'F' then some (c.toNat - 55)
  else none

/-- The number that digits stand for, the most significant first. -/
def hexNumber? (cs : List Char) : Option Nat :=
  cs.foldlM (fun n c => (hexValue? c).map (16 * n + ·)) 0

/-- A number of exactly `width` digits, and what follows it. -/
def readHex? (width : Nat) (cs : List Char) : Option (Nat × List Char) :=
  if width ≤ cs.length then (hexNumber? (cs.take width)).map fun n => (n, cs.drop width) else none

theorem hexDigit_mod (style : LetterCase) (n : Nat) : hexDigit style (n % 16) = hexDigit style n := by
  unfold hexDigit
  rw [Nat.mod_mod]

theorem hexValue?_hexDigit (style : LetterCase) (n : Nat) :
    hexValue? (hexDigit style n) = some (n % 16) := by
  have hall : ∀ d < 16, hexValue? (hexDigit style d) = some d := by
    cases style <;> decide
  rw [← hexDigit_mod]
  exact hall _ (Nat.mod_lt n (by decide))

theorem hexNumber?_hexPadded (style : LetterCase) (width n : Nat) :
    hexNumber? (hexPadded style width n) = some (n % 16 ^ width) := by
  induction width generalizing n with
  | zero => rw [hexPadded, Nat.pow_zero, Nat.mod_one]; rfl
  | succ width ih =>
    have hsplit : 16 * (n / 16 % 16 ^ width) + n % 16 = n % 16 ^ (width + 1) := by
      rw [Nat.pow_succ, Nat.mul_comm (16 ^ width), Nat.mod_mul, Nat.add_comm]
    rw [hexPadded, hexNumber?, List.foldlM_append]
    change ((hexNumber? _).bind fun m => _) = _
    rw [ih, Option.bind_some, List.foldlM_cons, hexValue?_hexDigit, Option.map_some, hsplit]
    rfl

/-- What is written with enough digits is read back. -/
theorem readHex?_hexPadded (style : LetterCase) {width n : Nat} (hn : n < 16 ^ width)
    (rest : List Char) : readHex? width (hexPadded style width n ++ rest) = some (n, rest) := by
  have hlength := length_hexPadded style width n
  rw [readHex?, if_pos (by rw [List.length_append]; omega), List.take_left' hlength,
    List.drop_left' hlength, hexNumber?_hexPadded, Nat.mod_eq_of_lt hn, Option.map_some]

theorem length_readHex? {width n : Nat} {cs rest : List Char}
    (h : readHex? width cs = some (n, rest)) : cs.length = width + rest.length := by
  unfold readHex? at h
  split at h
  · obtain ⟨m, -, heq⟩ := Option.map_eq_some_iff.1 h
    cases heq
    rw [List.length_drop]
    omega
  · cases h

/-- What holds of the sixteen digits holds of each character of a number. -/
theorem forall_mem_hexPadded {P : Char → Prop} {style : LetterCase}
    (h : ∀ d < 16, P (hexDigit style d)) (width n : Nat) : ∀ c ∈ hexPadded style width n, P c := by
  induction width generalizing n with
  | zero => exact nofun
  | succ width ih =>
    rw [hexPadded, List.forall_mem_append, List.forall_mem_singleton, ← hexDigit_mod]
    exact ⟨ih _, h _ (Nat.mod_lt n (by decide))⟩

/-- Digits are ASCII characters. -/
theorem toNat_lt_of_mem_hexPadded {style : LetterCase} {width n : Nat} {c : Char}
    (h : c ∈ hexPadded style width n) : c.toNat < 0x80 := by
  have hall : ∀ d < 16, (hexDigit style d).toNat < 0x80 := by
    cases style <;> decide
  exact forall_mem_hexPadded (P := (·.toNat < 0x80)) hall width n c h

end Ipld.Text
