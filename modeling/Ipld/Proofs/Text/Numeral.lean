import Ipld.Text.Numeral

/-!
# Integers read back

An integer in decimal is read as itself, unless it has more digits than an integer may have.
-/

namespace Ipld.Text

theorem mem_digits_of_isDigit {c : Char} (h : c.isDigit = true) : c ∈ "0123456789".toList := by
  have hall : ∀ n < 58, 48 ≤ n → Char.ofNat n ∈ "0123456789".toList := by decide
  simp only [Char.isDigit, Bool.and_eq_true, decide_eq_true_eq, ge_iff_le,
    UInt32.le_iff_toNat_le] at h
  rw [← Char.ofNat_toNat c]
  exact hall c.toNat (Nat.lt_succ_of_le h.2) h.1

/-- What holds of the ten digits holds of each character of a number. -/
theorem forall_mem_decimal {P : Char → Prop} [DecidablePred P]
    (h : ("0123456789".toList.all fun c => P c) = true) (n : Nat) : ∀ c ∈ decimal n, P c := by
  intro c hc
  have hdigit := mem_digits_of_isDigit (Nat.isDigit_of_mem_toDigits (by decide) (by decide) hc)
  exact of_decide_eq_true (List.all_eq_true.1 h c hdigit)

theorem decimal_ne_nil (n : Nat) : decimal n ≠ [] :=
  Nat.toDigits_ne_nil

theorem strip_of_forall {cs : List Char} (h : ∀ c ∈ cs, isNumeralBlank c = false) :
    strip cs = cs := by
  have hdrop : ∀ ds : List Char, (∀ c ∈ ds, isNumeralBlank c = false) →
      ds.dropWhile isNumeralBlank = ds := by
    intro ds hds
    cases ds with
    | nil => rfl
    | cons d ds => rw [List.dropWhile_cons_of_neg (by simp [hds d List.mem_cons_self])]
  rw [strip, hdrop cs h, hdrop cs.reverse fun c hc => h c (List.mem_reverse.1 hc),
    List.reverse_reverse]

theorem digitsFrom_of_forall {cs : List Char}
    (h : ∀ c ∈ cs, digitValue? c = some (c.toNat - 48)) (after : Bool) :
    digitsFrom after cs = (cs.map (·.toNat - 48), []) := by
  induction cs generalizing after with
  | nil => rfl
  | cons c cs ih =>
    rw [List.forall_mem_cons] at h
    rw [digitsFrom, h.1]
    simp only [ih h.2, List.map_cons]

theorem digits_decimal (n : Nat) : digits (decimal n) = ((decimal n).map (·.toNat - 48), []) :=
  digitsFrom_of_forall (forall_mem_decimal (by decide) n) false

theorem ofDigits_map (cs : List Char) :
    ofDigits (cs.map (·.toNat - 48)) = Nat.ofDigitChars 10 cs 0 := by
  rw [ofDigits, List.foldl_map, Nat.ofDigitChars_eq_foldl]
  rfl

theorem splitSign_decimal (n : Nat) : splitSign (decimal n) = (false, decimal n) := by
  have hhead : ∀ c ∈ decimal n, c ≠ '-' ∧ c ≠ '+' := forall_mem_decimal (by decide) n
  obtain ⟨c, cs, heq⟩ := List.exists_cons_of_ne_nil (decimal_ne_nil n)
  rw [heq] at hhead ⊢
  obtain ⟨hminus, hplus⟩ := hhead c List.mem_cons_self
  unfold splitSign
  split
  · simp_all
  · simp_all
  · rfl

theorem splitSign_signedDecimal (k : Int) :
    splitSign (signedDecimal k) = (decide (k < 0), decimal k.natAbs) := by
  cases k with
  | ofNat n => exact splitSign_decimal n
  | negSucc n =>
    rw [decide_eq_true (Int.negSucc_lt_zero n)]
    rfl

theorem strip_signedDecimal (k : Int) : strip (signedDecimal k) = signedDecimal k := by
  have hdigits : ∀ n, ∀ c ∈ decimal n, isNumeralBlank c = false := forall_mem_decimal (by decide)
  cases k with
  | ofNat n => exact strip_of_forall (hdigits n)
  | negSucc n => exact strip_of_forall (List.forall_mem_cons.2 ⟨by decide, hdigits (n + 1)⟩)

/-- An integer is read back if it has no more digits than the limit, and else not at all. -/
theorem readInt?_renderInt (k : Int) :
    readInt? (renderInt k) = if (decimal k.natAbs).length ≤ digitLimit then some k else none := by
  simp only [← Nat.not_lt, ite_not]
  rw [readInt?, renderInt, String.toList_ofList, strip_signedDecimal, splitSign_signedDecimal]
  simp only [digits_decimal]
  have hvalue : ofDigits ((decimal k.natAbs).map (·.toNat - 48)) = k.natAbs := by
    rw [ofDigits_map]
    exact Nat.ofDigitChars_ten_toDigits
  have hne := decimal_ne_nil k.natAbs
  cases hdigits : (decimal k.natAbs).map (·.toNat - 48) with
  | nil => exact absurd (List.map_eq_nil_iff.1 hdigits) hne
  | cons d ds =>
    have hlength : (d :: ds).length = (decimal k.natAbs).length := by
      rw [← hdigits, List.length_map]
    rw [hdigits] at hvalue
    simp only [hlength, hvalue, decide_eq_true_eq]
    split
    · rfl
    · congr 1
      split
      · omega
      · omega

end Ipld.Text
