import Ipld.Random.Draw
import Mathlib.Algebra.Group.Nat.Defs

/-!
# What a draw gives

A draw is judged by what it gives from any state of any source, so nothing is assumed about the
words that come.  `Gives d P` says that `d` is never a mistake and that its value always has the
property `P`; it is closed under sequencing, and each way of drawing has one lemma.
-/

namespace Ipld.Random

variable {σ : Type} {α β : Type}

/-- The draw gives a value with the property, whatever the source. -/
def Gives (d : Draw σ α) (P : α → Prop) : Prop :=
  ∀ s, ∃ a s', d s = (.ok a, s') ∧ P a

namespace Gives

variable {d : Draw σ α} {P Q : α → Prop} {R : β → Prop}

theorem pure {a : α} (h : P a) : Gives (Pure.pure a : Draw σ α) P :=
  fun s => ⟨a, s, rfl, h⟩

theorem mono (h : Gives d P) (himp : ∀ a, P a → Q a) : Gives d Q := fun s =>
  let ⟨a, s', heq, ha⟩ := h s
  ⟨a, s', heq, himp a ha⟩

theorem bind {f : α → Draw σ β} (h : Gives d P) (hf : ∀ a, P a → Gives (f a) R) :
    Gives (d >>= f) R := by
  intro s
  obtain ⟨a, s', heq, ha⟩ := h s
  obtain ⟨b, s'', heq', hb⟩ := hf a ha s'
  refine ⟨b, s'', ?_, hb⟩
  rw [← heq']
  simp only [Bind.bind, ExceptT.bind, ExceptT.mk, ExceptT.bindCont, StateT.bind, heq]

end Gives

theorem gives_elementAt {xs : List α} {i : Nat} (h : i < xs.length) :
    Gives (elementAt xs i : Draw σ α) (· ∈ xs) := by
  rw [elementAt, List.getElem?_eq_getElem h]
  exact .pure (List.getElem_mem h)

theorem gives_character {n : Nat} (h : n.isValidChar) :
    Gives (character n : Draw σ Char) (· = Char.ofNat n) := by
  rw [character, if_pos h]
  exact .pure rfl

theorem gives_times {d : Draw σ α} {P : α → Prop} (h : Gives d P) (count : Nat) :
    Gives (times count d) fun xs => xs.length = count ∧ ∀ x ∈ xs, P x := by
  induction count with
  | zero => exact .pure ⟨rfl, nofun⟩
  | succ count ih =>
    refine h.bind fun x hx => ih.bind fun xs hxs => .pure ⟨by rw [List.length_cons, hxs.1], ?_⟩
    exact List.forall_mem_cons.2 ⟨hx, hxs.2⟩

variable [Source σ]

theorem gives_word : Gives (word : Draw σ UInt32) fun _ => True :=
  fun s => ⟨(Source.word s).1, (Source.word s).2, rfl, trivial⟩

/-- Each word is put below the ones that come after it. -/
theorem gives_bitsAbove {k : Nat} (hk : k ≤ 32) (words : Nat) :
    Gives (bitsAbove k words : Draw σ Nat) (· < 2 ^ (k + 32 * words)) := by
  induction words with
  | zero =>
    refine gives_word.bind fun w _ => .pure ?_
    have hw : w.toNat < 2 ^ k * 2 ^ (32 - k) := by
      rw [← Nat.pow_add, Nat.add_sub_cancel' hk]
      exact w.toNat_lt
    exact Nat.div_lt_of_lt_mul (by rwa [Nat.mul_comm] at hw)
  | succ words ih =>
    refine gives_word.bind fun low _ => ih.bind fun high hhigh => .pure ?_
    have hlow : low.toNat < 2 ^ 32 := low.toNat_lt
    have hpow : 2 ^ (k + 32 * (words + 1)) = 2 ^ 32 * 2 ^ (k + 32 * words) := by
      rw [← Nat.pow_add]
      congr 1
      omega
    rw [hpow]
    calc low.toNat + 2 ^ 32 * high < 2 ^ 32 * (high + 1) := by omega
      _ ≤ 2 ^ 32 * 2 ^ (k + 32 * words) := Nat.mul_le_mul_left _ hhigh

theorem gives_bits {k : Nat} (hk : 0 < k) : Gives (bits k : Draw σ Nat) (· < 2 ^ k) := by
  have hlast : k - 32 * ((k - 1) / 32) ≤ 32 := by omega
  have hall : k - 32 * ((k - 1) / 32) + 32 * ((k - 1) / 32) = k := by omega
  have h := gives_bitsAbove (σ := σ) hlast ((k - 1) / 32)
  rwa [hall] at h

theorem gives_unit : Gives (unit : Draw σ Float) fun _ => True :=
  gives_word.bind fun _ _ => gives_word.bind fun _ _ => .pure trivial

theorem gives_chance (p : Float) : Gives (chance p : Draw σ Bool) fun _ => True :=
  gives_unit.bind fun _ _ => .pure trivial

theorem gives_belowWithin {n : Nat} (hn : 0 < n) (tries : Nat) :
    Gives (belowWithin n tries : Draw σ Nat) (· < n) := by
  have hbits : 0 < bitLength n := by
    rw [bitLength, if_neg (Nat.ne_of_gt hn)]
    exact Nat.succ_pos _
  induction tries with
  | zero => exact (gives_bits hbits).bind fun r _ => .pure (Nat.mod_lt r hn)
  | succ tries ih =>
    refine (gives_bits hbits).bind fun r _ => ?_
    by_cases hr : r < n
    · rw [if_pos hr]
      exact .pure hr
    · rw [if_neg hr]
      exact ih

theorem gives_below {n : Nat} (hn : 0 < n) : Gives (below n : Draw σ Nat) (· < n) := by
  rw [below, if_neg (Nat.ne_of_gt hn)]
  exact gives_belowWithin hn 1000

theorem gives_between {low high : Nat} (h : low ≤ high) :
    Gives (between low high : Draw σ Nat) fun k => low ≤ k ∧ k ≤ high := by
  rw [between, if_neg (Nat.not_lt.2 h)]
  refine (gives_below (by omega)).bind fun k hk => .pure ?_
  omega

theorem gives_choice {xs : List α} (h : xs ≠ []) : Gives (choice xs : Draw σ α) (· ∈ xs) :=
  (gives_below (List.length_pos_iff.2 h)).bind fun _ hi => gives_elementAt hi

theorem placeAt_lt {n : Nat} (hn : 0 < n) (height : Float) : placeAt n height < n := by
  unfold placeAt
  omega

theorem gives_choices {xs : List α} (h : xs ≠ []) (count : Nat) :
    Gives (choices xs count : Draw σ (List α)) fun ys => ys.length = count ∧ ∀ y ∈ ys, y ∈ xs := by
  induction count with
  | zero => exact .pure ⟨rfl, nofun⟩
  | succ count ih =>
    refine gives_unit.bind fun height _ => ?_
    refine (gives_elementAt (placeAt_lt (List.length_pos_iff.2 h) height)).bind fun x hx => ?_
    refine ih.bind fun ys hys => .pure ⟨by rw [List.length_cons, hys.1], ?_⟩
    exact List.forall_mem_cons.2 ⟨hx, hys.2⟩

/-- Words in order, and zeros when they have run out. -/
structure Tape where
  words : List UInt32

instance : Source Tape where
  word t := (t.words.headD 0, ⟨t.words.tail⟩)

end Ipld.Random
