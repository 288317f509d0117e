import Ipld.Error

/-!
# UTF-8

A character is one to four bytes: a first byte, which tells how many follow, and continuation bytes.
The first continuation byte of some characters has a narrower range, which rules out overlong forms,
surrogates and code points beyond the last.

Decoding stops at the first run of bytes that is no character.  The run ends before the byte that
does not fit, so the report tells a first byte that starts nothing, a character broken off by
another byte, and one broken off by the end.
-/

namespace Ipld.Text.Utf8

def encode (text : List Char) : List UInt8 :=
  text.flatMap String.utf8EncodeChar

/-- What a first byte promises: how many bytes follow, the range of the next one, and the bits of
the code point that it holds itself. -/
structure Lead where
  follow : Nat
  low : UInt8
  high : UInt8
  bits : Nat

/-- What a byte promises as the first byte of a character of several bytes, when it can be one. -/
def lead? (b : UInt8) : Option Lead :=
  if b < 0xc2 then none
  else if b < 0xe0 then some ⟨1, 0x80, 0xbf, b.toNat - 0xc0⟩
  else if b < 0xf0 then
    some ⟨2, if b = 0xe0 then 0xa0 else 0x80, if b = 0xed then 0x9f else 0xbf, b.toNat - 0xe0⟩
  else if b < 0xf5 then
    some ⟨3, if b = 0xf0 then 0x90 else 0x80, if b = 0xf4 then 0x8f else 0xbf, b.toNat - 0xf0⟩
  else none

/-- Takes `follow` continuation bytes, the first of which lies in a given range.  The answer is the
code point and the bytes after it, or how many bytes fitted and what was wrong. -/
def continuation : (follow : Nat) → (low high : UInt8) → (bits taken : Nat) → List UInt8 →
    Except (Nat × DecodeReason) (Nat × List UInt8)
  | 0, _, _, bits, _, bytes => .ok (bits, bytes)
  | _ + 1, _, _, _, taken, [] => .error (taken, .unexpectedEnd)
  | follow + 1, low, high, bits, taken, b :: rest =>
    if low ≤ b ∧ b ≤ high then
      continuation follow 0x80 0xbf (bits * 0x40 + (b.toNat - 0x80)) (taken + 1) rest
    else .error (taken, .invalidContinuation)

theorem length_continuation {follow : Nat} {low high : UInt8} {bits taken code : Nat}
    {bytes rest : List UInt8}
    (h : continuation follow low high bits taken bytes = .ok (code, rest)) :
    rest.length ≤ bytes.length := by
  induction follow generalizing low high bits taken bytes with
  | zero =>
    cases h
    exact Nat.le_refl _
  | succ follow ih =>
    cases bytes with
    | nil => cases h
    | cons b left =>
      unfold continuation at h
      split at h
      · exact Nat.le_succ_of_le (ih h)
      · cases h

/-- The characters of a run of bytes that begins at a given place. -/
def decodeFrom (place : Nat) (bytes : List UInt8) : Except DecodeError (List Char) :=
  match bytes with
  | [] => .ok []
  | b :: rest =>
    if b < 0x80 then do return Char.ofNat b.toNat :: (← decodeFrom (place + 1) rest)
    else
      match lead? b with
      | none => .error ⟨place, 1, b, .invalidStart⟩
      | some lead =>
        match h : continuation lead.follow lead.low lead.high lead.bits 1 rest with
        | .error (length, reason) => .error ⟨place, length, b, reason⟩
        | .ok (code, left) =>
          have := length_continuation h
          do return Char.ofNat code :: (← decodeFrom (place + lead.follow + 1) left)
termination_by bytes.length

/-- The characters of a text in UTF-8. -/
def decode (bytes : List UInt8) : Except DecodeError (List Char) :=
  decodeFrom 0 bytes

end Ipld.Text.Utf8
