import Ipld.Fuzz.Run
import Ipld.Proofs.Random.Draw
import Ipld.Proofs.Text.OneLine

/-!
# Inputs are plain text

Random schemas are made of fixed words and of names from a fixed set of characters, and a change
takes apart what is there and puts in what is fixed.  Only changing the bits of a character could
leave the characters below 128, and it changes the low seven bits alone.  So every input has none
but such characters, and no way of making one is ever a mistake.
-/

namespace Ipld.Fuzz

open Ipld.Random

/-- All characters of the text are below 128. -/
def IsAscii (s : String) : Prop :=
  ∀ c ∈ s.toList, c.toNat < 128

instance (s : String) : Decidable (IsAscii s) :=
  List.decidableBAll _ s.toList

theorem isAscii_append {s t : String} : IsAscii (s ++ t) ↔ IsAscii s ∧ IsAscii t := by
  simp only [IsAscii, String.toList_append, List.forall_mem_append]

theorem isAscii_ofList {cs : List Char} : IsAscii (String.ofList cs) ↔ ∀ c ∈ cs, c.toNat < 128 := by
  rw [IsAscii, String.toList_ofList]

theorem isAscii_intercalate {s : String} {ts : List String} (hs : IsAscii s)
    (hts : ∀ t ∈ ts, IsAscii t) : IsAscii (s.intercalate ts) :=
  forall_mem_intercalate hs hts

variable {σ : Type} [Source σ]

/-! ## Random schemas -/

theorem gives_word_of {words : List String} (hne : words ≠ []) (h : ∀ w ∈ words, IsAscii w) :
    Gives (choice words : Draw σ String) IsAscii :=
  (gives_choice hne).mono h

theorem gives_name : Gives (name : Draw σ String) IsAscii := by
  have hchars : ∀ c ∈ nameCharacters, c.toNat < 128 :=
    isAscii_ofList.1 (by decide : IsAscii (String.ofList nameCharacters))
  refine (gives_chance _).bind fun common _ => ?_
  cases common with
  | true => exact gives_word_of (by decide) (by decide)
  | false =>
    refine (gives_between (by decide)).bind fun length _ => ?_
    refine (gives_choices (by decide) length).bind fun cs hcs => .pure ?_
    rw [isAscii_ofList]
    exact fun c hc => hchars c (hcs.2 c hc)

theorem gives_maybe (p : Float) {w : String} (h : IsAscii w) :
    Gives (maybe p w : Draw σ String) IsAscii := by
  refine (gives_chance p).bind fun present _ => .pure ?_
  cases present with
  | true => exact h
  | false => exact (by decide : IsAscii "")

theorem gives_leaf : Gives (leaf : Draw σ String) IsAscii := by
  refine (gives_between (by decide)).bind fun shape _ => ?_
  split
  · exact gives_word_of (by decide) (by decide)
  · exact gives_name.bind fun n hn => .pure (isAscii_append.2 ⟨by decide, hn⟩)
  · exact gives_name

theorem gives_node (depth : Int) : Gives (node depth : Draw σ String) IsAscii := by
  rw [node]
  split
  · exact gives_leaf
  · refine (gives_chance _).bind fun flat _ => ?_
    cases flat with
    | true => exact gives_leaf
    | false =>
      refine (gives_maybe _ (by decide)).bind fun nullable hnullable => ?_
      refine (gives_chance _).bind fun bracketed _ => ?_
      cases bracketed
      all_goals
        refine (gives_node (depth + 1)).bind fun value hvalue => .pure ?_
        simp only [isAscii_append]
        exact ⟨⟨⟨by decide, hnullable⟩, hvalue⟩, by decide⟩
termination_by (4 - depth).toNat

theorem gives_field : Gives (field : Draw σ String) IsAscii := by
  refine (gives_maybe _ (by decide)).bind fun optional hoptional => ?_
  refine (gives_maybe _ (by decide)).bind fun nullable hnullable => ?_
  refine gives_name.bind fun n hn => (gives_node 0).bind fun value hvalue => .pure ?_
  simp only [isAscii_append]
  exact ⟨⟨⟨⟨hn, by decide⟩, hoptional⟩, hnullable⟩, hvalue⟩

theorem gives_definition : Gives (definition : Draw σ String) IsAscii := by
  refine (gives_between (by decide)).bind fun shape _ => ?_
  refine (gives_maybe _ (by decide)).bind fun advanced hadvanced => ?_
  split
  · exact gives_word_of (by decide) (by decide)
  · refine (gives_between (by decide)).bind fun count _ => ?_
    refine (gives_times gives_field count).bind fun fields hfields => .pure ?_
    simp only [isAscii_append]
    exact ⟨⟨by decide, isAscii_intercalate (by decide) hfields.2⟩, by decide⟩
  · refine (gives_between (by decide)).bind fun count _ => ?_
    refine (gives_times gives_name count).bind fun members hmembers => .pure ?_
    simp only [isAscii_append]
    exact ⟨⟨by decide, isAscii_intercalate (by decide) hmembers.2⟩, by decide⟩
  · refine (gives_maybe _ (by decide)).bind fun keyword hkeyword => ?_
    refine (gives_node 0).bind fun value hvalue => .pure ?_
    simp only [isAscii_append]
    exact ⟨⟨⟨⟨hkeyword, by decide⟩, hvalue⟩, by decide⟩, hadvanced⟩
  · refine (gives_node 0).bind fun value hvalue => .pure ?_
    simp only [isAscii_append]
    exact ⟨⟨by decide, hvalue⟩, hadvanced⟩
  · refine (gives_node 0).bind fun value hvalue => .pure ?_
    simp only [isAscii_append]
    exact ⟨⟨⟨by decide, hvalue⟩, by decide⟩, hadvanced⟩
  · refine (gives_word_of (by simp) (by decide)).bind fun mark hmark => ?_
    exact gives_name.bind fun n hn => .pure (isAscii_append.2 ⟨hmark, hn⟩)
  · exact gives_name

theorem gives_declaration : Gives (declaration : Draw σ String) IsAscii := by
  refine gives_name.bind fun n hn => gives_definition.bind fun d hd => .pure ?_
  simp only [isAscii_append]
  exact ⟨⟨⟨by decide, hn⟩, by decide⟩, hd⟩

theorem gives_schema : Gives (schema : Draw σ String) IsAscii := by
  refine (gives_between (by decide)).bind fun count _ => ?_
  refine (gives_times gives_declaration count).bind fun declarations h => .pure ?_
  exact isAscii_intercalate (by decide) h.2

/-! ## Random changes -/

variable {s : String}

theorem gives_insertToken (h : IsAscii s) : Gives (insertToken s : Draw σ String) IsAscii := by
  refine (gives_between (Nat.zero_le _)).bind fun place _ => ?_
  refine (gives_word_of (by decide) (by decide)).bind fun keyword hkeyword => ?_
  refine (gives_word_of (by decide) (by decide)).bind fun mark hmark => ?_
  refine gives_name.bind fun fresh hfresh => ?_
  refine (gives_between (by decide)).bind fun count _ => ?_
  have hblanks : IsAscii (String.ofList (List.replicate count ' ')) := by
    rw [isAscii_ofList]
    intro c hc
    rw [List.eq_of_mem_replicate hc]
    decide
  refine (gives_word_of (by simp) ?_).bind fun token htoken => .pure ?_
  · simp only [List.forall_mem_cons]
    exact ⟨hkeyword, hmark, hfresh, hblanks, by decide, by decide, nofun⟩
  · simp only [isAscii_append, isAscii_ofList]
    exact ⟨⟨⟨⟨fun c hc => h c (List.mem_of_mem_take hc), by decide⟩, htoken⟩, by decide⟩,
      fun c hc => h c (List.mem_of_mem_drop hc)⟩

theorem gives_stretch {length : Nat} (h : 0 < length) :
    Gives (stretch length : Draw σ (Nat × Nat)) fun b => b.1 < b.2 ∧ b.2 ≤ length := by
  refine (gives_between (Nat.zero_le _)).bind fun first hfirst => ?_
  refine (gives_between (by omega)).bind fun last hlast => .pure ?_
  omega

theorem gives_deleteChunk (h : IsAscii s) : Gives (deleteChunk s : Draw σ String) IsAscii := by
  unfold deleteChunk
  simp only
  split
  · exact .pure h
  · refine (gives_stretch (by omega)).bind fun bounds _ => .pure ?_
    rw [isAscii_ofList, List.forall_mem_append]
    exact ⟨fun c hc => h c (List.mem_of_mem_take hc), fun c hc => h c (List.mem_of_mem_drop hc)⟩

theorem gives_repeatChunk (h : IsAscii s) : Gives (repeatChunk s : Draw σ String) IsAscii := by
  unfold repeatChunk
  simp only
  split
  · refine .pure ?_
    rw [isAscii_ofList, List.forall_mem_append]
    exact ⟨h, h⟩
  · refine (gives_stretch (by omega)).bind fun bounds _ => ?_
    refine (gives_between (by decide)).bind fun count _ => .pure ?_
    simp only [isAscii_ofList, List.forall_mem_append]
    refine ⟨⟨fun c hc => h c (List.mem_of_mem_take hc), fun c hc => ?_⟩,
      fun c hc => h c (List.mem_of_mem_drop hc)⟩
    obtain ⟨chunk, hchunk, hc⟩ := List.mem_flatten.1 hc
    rw [List.eq_of_mem_replicate hchunk] at hc
    exact h c (List.mem_of_mem_take (List.mem_of_mem_drop hc))

/-- Changing the low seven bits leads to no other character than those below 128. -/
theorem xor_lt {m n : Nat} (hm : m < 128) (hn : n < 128) : m ^^^ n < 128 :=
  Nat.xor_lt_two_pow (n := 7) hm hn

theorem gives_flipCharacter (h : IsAscii s) : Gives (flipCharacter s : Draw σ String) IsAscii := by
  unfold flipCharacter
  simp only
  split
  · exact .pure h
  · next hne =>
    have hlength : 0 < s.toList.length := by simpa [List.length_pos_iff] using hne
    refine (gives_between (Nat.zero_le _)).bind fun place hplace => ?_
    refine (gives_elementAt (by omega)).bind fun old hold => ?_
    refine (gives_between (by decide)).bind fun change hchange => ?_
    have hnew : old.toNat ^^^ change < 128 := xor_lt (h old hold) (by omega)
    have hvalid : (old.toNat ^^^ change).isValidChar := .inl (by omega)
    refine (gives_character hvalid).bind fun new heq => .pure ?_
    rw [isAscii_ofList, List.forall_mem_append, List.forall_mem_cons, heq]
    refine ⟨fun c hc => h c (List.mem_of_mem_take hc), ?_,
      fun c hc => h c (List.mem_of_mem_drop hc)⟩
    rw [Char.ofNat, dif_pos hvalid]
    exact hnew

theorem gives_mutate (h : IsAscii s) : Gives (mutate s : Draw σ String) IsAscii := by
  refine (gives_choice (by simp)).bind fun change _ => ?_
  cases change with
  | insertToken => exact gives_insertToken h
  | deleteChunk => exact gives_deleteChunk h
  | repeatChunk => exact gives_repeatChunk h
  | flipCharacter => exact gives_flipCharacter h

theorem gives_mutateTimes (h : IsAscii s) (count : Nat) :
    Gives (mutateTimes s count : Draw σ String) IsAscii := by
  induction count generalizing s with
  | zero => exact .pure h
  | succ count ih => exact (gives_mutate h).bind fun _ => ih

end Ipld.Fuzz
