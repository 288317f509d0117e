import Ipld.Schema
import Mathlib.Data.List.Induction
import Mathlib.Data.Finset.Card

/-!
# Names that are declared again

A log holds each name at some places, and a list may collect the names by when they come for the
first time, or by when they come for the second time.  Both kinds of lists grow with the log in the
same way: one more name joins the list if it has come exactly so many times before.

The search for repeated names goes over the log once and keeps two lists.  What counts is how it
goes on with one more name: a name is reported when it comes for the second time, and at no other
time. So each repeated name is reported once, in the order of the second declarations.
-/

namespace Ipld

/-- The names that a log holds at least twice. -/
def repeatedNames (names : List String) : Finset String :=
  {name ∈ names.toFinset | 2 ≤ names.count name}

/-- The name stands at place `i` of the log, and at `k` places before. -/
def ComesAt (log : List String) (k i : Nat) (name : String) : Prop :=
  log[i]? = some name ∧ (log.take i).count name = k

/-- The names that a log holds at more than `k` places, each of them once, in the order in which
they come after having come `k` times before. -/
structure ListsAfter (k : Nat) (log names : List String) : Prop where
  nodup : names.Nodup
  mem_iff : ∀ name, name ∈ names ↔ k < log.count name
  ordered : names.Pairwise fun a b => ∃ i j, i < j ∧ ComesAt log k i a ∧ ComesAt log k j b

theorem ComesAt.append {log : List String} {k i : Nat} {name : String} (h : ComesAt log k i name)
    (more : List String) : ComesAt (log ++ more) k i name := by
  obtain ⟨hi, -⟩ := List.getElem?_eq_some_iff.1 h.1
  refine ⟨?_, ?_⟩
  · rw [List.getElem?_append_left hi, h.1]
  · rw [List.take_append_of_le_length (Nat.le_of_lt hi), h.2]

theorem comesAt_last (log : List String) (name : String) :
    ComesAt (log ++ [name]) (log.count name) log.length name := by
  refine ⟨?_, ?_⟩
  · rw [List.getElem?_append_right (Nat.le_refl _), Nat.sub_self, List.getElem?_cons_zero]
  · rw [List.take_left]

theorem exists_comesAt {log : List String} {k : Nat} {name : String} (h : k < log.count name) :
    ∃ i < log.length, ComesAt log k i name := by
  induction log using List.reverseRecOn with
  | nil => exact absurd h (Nat.not_lt_zero k)
  | append_singleton log last ih =>
    rw [List.length_append, List.length_singleton]
    by_cases hbefore : k < log.count name
    · obtain ⟨i, hi, hcomes⟩ := ih hbefore
      exact ⟨i, Nat.lt_succ_of_lt hi, hcomes.append [last]⟩
    · -- It comes for that time only at the end.
      rw [List.count_append, List.count_singleton] at h
      have hlast : last = name := by
        by_contra hne
        rw [beq_false_of_ne hne] at h
        exact hbefore h
      subst hlast
      rw [BEq.rfl, if_pos rfl] at h
      obtain rfl : log.count last = k := by omega
      exact ⟨log.length, Nat.lt_succ_self _, comesAt_last log last⟩

theorem listsAfter_nil (k : Nat) : ListsAfter k [] [] :=
  ⟨List.nodup_nil, fun _ => by simp, .nil⟩

/-- One more name joins the list when it has come `k` times before. -/
theorem ListsAfter.concat {k : Nat} {log names : List String} (h : ListsAfter k log names)
    (name : String) :
    ListsAfter k (log ++ [name]) (if log.count name = k then names ++ [name] else names) := by
  have hcount : ∀ other, (log ++ [name]).count other =
      log.count other + if name = other then 1 else 0 := by
    intro other
    rw [List.count_append, List.count_singleton]
    simp only [beq_iff_eq]
  have hordered : names.Pairwise fun a b =>
      ∃ i j, i < j ∧ ComesAt (log ++ [name]) k i a ∧ ComesAt (log ++ [name]) k j b :=
    h.ordered.imp fun ⟨i, j, hij, ha, hb⟩ => ⟨i, j, hij, ha.append [name], hb.append [name]⟩
  by_cases hk : log.count name = k
  · rw [if_pos hk]
    have hnew : name ∉ names := by
      rw [h.mem_iff]
      omega
    refine ⟨?_, fun other => ?_, ?_⟩
    · rw [← List.concat_eq_append, List.nodup_concat]
      exact ⟨hnew, h.nodup⟩
    · rw [List.mem_append, List.mem_singleton, h.mem_iff, hcount]
      by_cases hother : name = other
      · subst hother
        simp [hk]
      · simp [hother, Ne.symm hother]
    · rw [List.pairwise_append]
      refine ⟨hordered, List.pairwise_singleton _ _, fun a ha b hb => ?_⟩
      obtain rfl := List.mem_singleton.1 hb
      obtain ⟨i, hi, hcomes⟩ := exists_comesAt ((h.mem_iff a).1 ha)
      exact ⟨i, log.length, hi, hcomes.append [b], hk ▸ comesAt_last log b⟩
  · rw [if_neg hk]
    refine ⟨h.nodup, fun other => ?_, hordered⟩
    rw [h.mem_iff, hcount]
    by_cases hother : name = other
    · subst hother
      rw [if_pos rfl]
      omega
    · rw [if_neg hother, Nat.add_zero]

namespace Schema

theorem repeats_concat (seen repeated names : List String) (name : String) :
    repeats seen repeated (names ++ [name]) =
      if (name ∈ seen ∨ name ∈ names) ∧ name ∉ repeats seen repeated names then
        repeats seen repeated names ++ [name]
      else repeats seen repeated names := by
  induction names generalizing seen repeated with
  | nil => simp [repeats]
  | cons first names ih =>
    have hmem : (name ∈ first :: seen ∨ name ∈ names) ↔ (name ∈ seen ∨ name ∈ first :: names) := by
      simp only [List.mem_cons]
      tauto
    rw [List.cons_append, repeats, ih, repeats]
    simp only [hmem]

/-- A name is reported when it comes for the second time. -/
theorem listsAfter_repeats (log : List String) : ListsAfter 1 log (repeats [] [] log) := by
  induction log using List.reverseRecOn with
  | nil => exact listsAfter_nil 1
  | append_singleton log last ih =>
    have hsecond : ((last ∈ ([] : List String) ∨ last ∈ log) ∧ last ∉ repeats [] [] log) ↔
        log.count last = 1 := by
      rw [ih.mem_iff, ← List.count_pos_iff (l := log)]
      simp only [List.not_mem_nil, false_or]
      omega
    rw [repeats_concat]
    simp only [hsecond]
    exact ih.concat last

theorem length_repeats (names : List String) :
    (repeats [] [] names).length = (repeatedNames names).card := by
  have hlists := listsAfter_repeats names
  rw [← List.toFinset_card_of_nodup hlists.nodup]
  congr 1
  ext name
  have hmem : 2 ≤ names.count name → name ∈ names := fun h => List.count_pos_iff.1 (by omega)
  have hrepeated : name ∈ repeats [] [] names ↔ 2 ≤ names.count name := hlists.mem_iff name
  simpa [repeatedNames, hrepeated] using hmem

end Schema

end Ipld
