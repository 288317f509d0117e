import Ipld.Text.Utf8

/-!
# Text in UTF-8 is read back

The bytes of a character lie in the ranges that the decoder wants: the first one promises as many
more as there are, and the six bits of each of these are added in turn.  What comes after the
character plays no part, so a text is read back character by character.
-/

namespace Ipld.Text.Utf8

/-! ## Single bytes -/

theorem ofNat_lt_iff {n : Nat} (hn : n < 256) (b : UInt8) : UInt8.ofNat n < b ↔ n < b.toNat := by
  rw [UInt8.lt_iff_toNat_lt, UInt8.toNat_ofNat_of_lt' hn]

theorem ofNat_eq_iff {n : Nat} (hn : n < 256) (b : UInt8) : UInt8.ofNat n = b ↔ n = b.toNat := by
  rw [← UInt8.toNat_inj, UInt8.toNat_ofNat_of_lt' hn]

/-- A continuation byte in the wanted range brings its six bits. -/
theorem continuation_cons {low high : UInt8} {n : Nat} (hn : n < 64) (hlow : low.toNat ≤ n + 128)
    (hhigh : n + 128 ≤ high.toNat) (follow bits taken : Nat) (rest : List UInt8) :
    continuation (follow + 1) low high bits taken (UInt8.ofNat (n + 128) :: rest) =
      continuation follow 0x80 0xbf (bits * 64 + n) (taken + 1) rest := by
  have hbyte : (UInt8.ofNat (n + 128)).toNat = n + 128 :=
    UInt8.toNat_ofNat_of_lt' (show n + 128 < 256 by omega)
  have hrange : low ≤ UInt8.ofNat (n + 128) ∧ UInt8.ofNat (n + 128) ≤ high := by
    rw [UInt8.le_iff_toNat_le, UInt8.le_iff_toNat_le, hbyte]
    exact ⟨hlow, hhigh⟩
  rw [continuation, if_pos hrange, hbyte, Nat.add_sub_cancel]

/-! ## First bytes -/

theorem lead?_two {n : Nat} (h : 194 ≤ n) (h' : n < 224) :
    lead? (UInt8.ofNat n) = some ⟨1, 0x80, 0xbf, n - 192⟩ := by
  have hn : n < 256 := by omega
  have h₁ : ¬ n < (0xc2 : UInt8).toNat := Nat.not_lt.2 h
  simp only [lead?, ofNat_lt_iff hn, UInt8.toNat_ofNat_of_lt' hn, if_neg h₁]
  exact if_pos h'

/-- The first byte of three leaves out what two bytes can say, and the surrogates. -/
theorem lead?_three {n : Nat} (h : 224 ≤ n) (h' : n < 240) :
    ∃ low high : UInt8, lead? (UInt8.ofNat n) = some ⟨2, low, high, n - 224⟩ ∧
      low.toNat = (if n = 224 then 160 else 128) ∧ high.toNat = if n = 237 then 159 else 191 := by
  have hn : n < 256 := by omega
  have h₁ : ¬ n < (0xc2 : UInt8).toNat := Nat.not_lt.2 (by simp; omega)
  have h₂ : ¬ n < (0xe0 : UInt8).toNat := Nat.not_lt.2 h
  have h₃ : n < (0xf0 : UInt8).toNat := h'
  refine ⟨if n = 224 then 0xa0 else 0x80, if n = 237 then 0x9f else 0xbf, ?_, ?_, ?_⟩
  · simp only [lead?, ofNat_lt_iff hn, ofNat_eq_iff hn, UInt8.toNat_ofNat_of_lt' hn, if_neg h₁,
      if_neg h₂, if_pos h₃]
    rfl
  · split <;> rfl
  · split <;> rfl

/-- The first byte of four leaves out what three bytes can say, and what is beyond the last
character. -/
theorem lead?_four {n : Nat} (h : 240 ≤ n) (h' : n < 245) :
    ∃ low high : UInt8, lead? (UInt8.ofNat n) = some ⟨3, low, high, n - 240⟩ ∧
      low.toNat = (if n = 240 then 144 else 128) ∧ high.toNat = if n = 244 then 143 else 191 := by
  have hn : n < 256 := by omega
  have h₁ : ¬ n < (0xc2 : UInt8).toNat := Nat.not_lt.2 (by simp; omega)
  have h₂ : ¬ n < (0xe0 : UInt8).toNat := Nat.not_lt.2 (by simp; omega)
  have h₃ : ¬ n < (0xf0 : UInt8).toNat := Nat.not_lt.2 h
  have h₄ : n < (0xf5 : UInt8).toNat := h'
  refine ⟨if n = 240 then 0x90 else 0x80, if n = 244 then 0x8f else 0xbf, ?_, ?_, ?_⟩
  · simp only [lead?, ofNat_lt_iff hn, ofNat_eq_iff hn, UInt8.toNat_ofNat_of_lt' hn, if_neg h₁,
      if_neg h₂, if_neg h₃, if_pos h₄]
    rfl
  · split <;> rfl
  · split <;> rfl

/-! ## Characters -/

theorem decodeFrom_of_lead {place code : Nat} {b : UInt8} {lead : Lead} {rest left : List UInt8}
    (hb : ¬ b < 0x80) (hlead : lead? b = some lead)
    (h : continuation lead.follow lead.low lead.high lead.bits 1 rest = .ok (code, left)) :
    decodeFrom place (b :: rest) =
      (decodeFrom (place + lead.follow + 1) left).map (Char.ofNat code :: ·) := by
  rw [decodeFrom, if_neg hb]
  simp only [hlead]
  split
  · next heq => cases h.symm.trans heq
  · next heq =>
    cases h.symm.trans heq
    rfl

section Lengths

variable {v : Nat} (place : Nat) (rest : List UInt8)

theorem decodeFrom_two (h : 0x80 ≤ v) (h' : v < 0x800) :
    decodeFrom place (UInt8.ofNat (v / 64 % 32 + 192) :: UInt8.ofNat (v % 64 + 128) :: rest) =
      (decodeFrom (place + 2) rest).map (Char.ofNat v :: ·) := by
  have hfirst : ¬ UInt8.ofNat (v / 64 % 32 + 192) < 0x80 := by
    rw [ofNat_lt_iff (by omega)]
    exact Nat.not_lt.2 (by simp)
  have hcode : v / 64 % 32 * 64 + v % 64 = v := by omega
  have hlead := lead?_two (n := v / 64 % 32 + 192) (by omega) (by omega)
  rw [Nat.add_sub_cancel] at hlead
  refine decodeFrom_of_lead hfirst hlead ?_
  rw [continuation_cons (by omega) (by simp) (by simp; omega), hcode, continuation]

theorem decodeFrom_three (h : 0x800 ≤ v) (h' : v < 0x10000) (hvalid : v < 0xd800 ∨ 0xdfff < v) :
    decodeFrom place (UInt8.ofNat (v / 4096 % 16 + 224) :: UInt8.ofNat (v / 64 % 64 + 128) ::
        UInt8.ofNat (v % 64 + 128) :: rest) =
      (decodeFrom (place + 3) rest).map (Char.ofNat v :: ·) := by
  have hfirst : ¬ UInt8.ofNat (v / 4096 % 16 + 224) < 0x80 := by
    rw [ofNat_lt_iff (by omega)]
    exact Nat.not_lt.2 (by simp)
  have hcode : (v / 4096 % 16 * 64 + v / 64 % 64) * 64 + v % 64 = v := by omega
  obtain ⟨low, high, hlead, hlow, hhigh⟩ :=
    lead?_three (n := v / 4096 % 16 + 224) (by omega) (by omega)
  rw [Nat.add_sub_cancel] at hlead
  refine decodeFrom_of_lead hfirst hlead ?_
  rw [continuation_cons (by omega) (by rw [hlow]; split <;> omega) (by rw [hhigh]; split <;> omega),
    continuation_cons (by omega) (by simp) (by simp; omega), hcode, continuation]

theorem decodeFrom_four (h : 0x10000 ≤ v) (h' : v < 0x110000) :
    decodeFrom place (UInt8.ofNat (v / 262144 % 8 + 240) :: UInt8.ofNat (v / 4096 % 64 + 128) ::
        UInt8.ofNat (v / 64 % 64 + 128) :: UInt8.ofNat (v % 64 + 128) :: rest) =
      (decodeFrom (place + 4) rest).map (Char.ofNat v :: ·) := by
  have hfirst : ¬ UInt8.ofNat (v / 262144 % 8 + 240) < 0x80 := by
    rw [ofNat_lt_iff (by omega)]
    exact Nat.not_lt.2 (by simp)
  have hcode : ((v / 262144 % 8 * 64 + v / 4096 % 64) * 64 + v / 64 % 64) * 64 + v % 64 = v := by
    omega
  obtain ⟨low, high, hlead, hlow, hhigh⟩ :=
    lead?_four (n := v / 262144 % 8 + 240) (by omega) (by omega)
  rw [Nat.add_sub_cancel] at hlead
  refine decodeFrom_of_lead hfirst hlead ?_
  rw [continuation_cons (by omega) (by rw [hlow]; split <;> omega) (by rw [hhigh]; split <;> omega),
    continuation_cons (by omega) (by simp) (by simp; omega),
    continuation_cons (by omega) (by simp) (by simp; omega), hcode, continuation]

end Lengths

/-- The bytes of a character are taken for the character, whatever follows them. -/
theorem exists_decodeFrom_char (c : Char) (place : Nat) (rest : List UInt8) :
    ∃ next, decodeFrom place (String.utf8EncodeChar c ++ rest) =
      (decodeFrom next rest).map (c :: ·) := by
  have hback : Char.ofNat c.val.toNat = c := Char.ofNat_toNat c
  have hvalid : c.val.toNat < 0xd800 ∨ 0xdfff < c.val.toNat ∧ c.val.toNat < 0x110000 := c.valid
  unfold String.utf8EncodeChar
  generalize c.val.toNat = v at hback hvalid
  subst hback
  simp only
  split
  · next h₁ =>
    have hv : v < 256 := by omega
    have hb : UInt8.ofNat v < 0x80 := (ofNat_lt_iff hv 0x80).2 (Nat.lt_succ_of_le h₁)
    refine ⟨place + 1, ?_⟩
    rw [List.singleton_append, decodeFrom, if_pos hb, UInt8.toNat_ofNat_of_lt' hv]
    rfl
  split
  · exact ⟨place + 2, decodeFrom_two place rest (by omega) (by omega)⟩
  split
  · exact ⟨place + 3, decodeFrom_three place rest (by omega) (by omega) (by omega)⟩
  · exact ⟨place + 4, decodeFrom_four place rest (by omega) (by omega)⟩

/-- **A text is read back from its bytes.** -/
theorem decode_encode (text : List Char) : decode (encode text) = .ok text := by
  have hall : ∀ place, decodeFrom place (encode text) = .ok text := by
    induction text with
    | nil =>
      intro place
      rw [encode, List.flatMap_nil, decodeFrom]
    | cons c text ih =>
      intro place
      obtain ⟨next, hnext⟩ := exists_decodeFrom_char c place (encode text)
      rw [encode, List.flatMap_cons, ← encode, hnext, ih next]
      rfl
  exact hall 0

end Ipld.Text.Utf8
