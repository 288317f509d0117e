import Ipld.Proofs.Fuzz.Ascii

/-!
# The corpus of a run

The corpus begins with the seeds and stays within its limit: when it has grown beyond, an entry
behind the seeds is dropped.  Its entries are inputs that were tried, so they are plain text, and an
input that is made from one of them is plain text again.
-/

namespace Ipld.Fuzz

open Ipld.Random

/-- What holds of the corpus whenever an input is tried. -/
structure IsCorpus (corpus : List String) : Prop where
  seeds : seeds <+: corpus
  length_le : corpus.length ≤ corpusLimit
  ascii : ∀ entry ∈ corpus, IsAscii entry

theorem isCorpus_seeds : IsCorpus seeds :=
  ⟨List.prefix_rfl, by decide, by decide +kernel⟩

namespace IsCorpus

variable {corpus : List String} {input : String}

theorem ne_nil (h : IsCorpus corpus) : corpus ≠ [] := by
  rintro rfl
  exact absurd (List.prefix_nil.1 h.seeds) (by decide)

theorem append (h : IsCorpus corpus) (hinput : IsAscii input)
    (hlength : (corpus ++ [input]).length ≤ corpusLimit) : IsCorpus (corpus ++ [input]) :=
  ⟨h.seeds.trans (List.prefix_append _ _), hlength,
    List.forall_mem_append.2 ⟨h.ascii, List.forall_mem_singleton.2 hinput⟩⟩

/-- Dropping an entry behind the seeds keeps the seeds. -/
theorem append_eraseIdx (h : IsCorpus corpus) (hinput : IsAscii input) {i : Nat}
    (hlow : Fuzz.seeds.length ≤ i) (hhigh : i ≤ corpus.length) :
    IsCorpus ((corpus ++ [input]).eraseIdx i) where
  seeds := by
    obtain ⟨more, hmore⟩ := h.seeds
    rw [← hmore, List.append_assoc, List.eraseIdx_append_of_length_le hlow]
    exact List.prefix_append _ _
  length_le := by
    have hi : i < (corpus ++ [input]).length := by
      rw [List.length_append, List.length_singleton]
      omega
    rw [List.length_eraseIdx_of_lt hi, List.length_append, List.length_singleton,
      Nat.add_sub_cancel]
    exact h.length_le
  ascii entry hentry := by
    have hmem := List.mem_of_mem_eraseIdx hentry
    exact List.forall_mem_append.2 ⟨h.ascii, List.forall_mem_singleton.2 hinput⟩ entry hmem

end IsCorpus

variable {σ : Type} [Source σ] {corpus : List String} {input : String}

theorem gives_nextInput (h : IsCorpus corpus) :
    Gives (nextInput corpus : Draw σ String) IsAscii := by
  have hentry : Gives (choice corpus : Draw σ String) IsAscii := gives_word_of h.ne_nil h.ascii
  refine gives_unit.bind fun strategy _ => ?_
  split
  · exact gives_schema
  split
  · refine hentry.bind fun entry hascii => (gives_mutate hascii).bind fun first hfirst => ?_
    exact (gives_between (by decide)).bind fun count _ => gives_mutateTimes hfirst count
  · exact hentry

theorem gives_extend (h : IsCorpus corpus) (hinput : IsAscii input) :
    Gives (extend corpus input : Draw σ (List String)) IsCorpus := by
  unfold extend
  simp only
  split
  · next hlength =>
    have hseeds : seeds.length ≤ corpusLimit := by decide
    have hlong : seeds.length ≤ (corpus ++ [input]).length - 1 := by omega
    refine (gives_between hlong).bind fun i hi => .pure (h.append_eraseIdx hinput hi.1 ?_)
    simpa using hi.2
  · next hlength => exact .pure (h.append hinput (Nat.not_lt.1 hlength))

theorem gives_joins (input : String) : Gives (joins input : Draw σ Bool) fun _ => True :=
  (gives_chance _).bind fun _ _ => .pure trivial

theorem gives_update (h : IsCorpus corpus) (hinput : IsAscii input) (interesting : Bool) :
    Gives (update corpus input interesting : Draw σ (List String)) IsCorpus := by
  unfold update
  split
  · exact gives_extend h hinput
  · refine (gives_joins input).bind fun kept _ => ?_
    split
    · exact gives_extend h hinput
    · exact .pure h

end Ipld.Fuzz
