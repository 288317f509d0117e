import Ipld.Schema
import Mathlib.Data.List.Induction
import Mathlib.Data.List.Nodup

/-!
# Tables that are built entry by entry

Binding a list of names one after the other leaves each name once, in the order of the first
bindings, and every binding that is left is one of the list.  A table is determined by the order of
its names and by what it binds, and it is what comes of binding its own entries.

A schema is built in the same way from its declarations.
-/

namespace Ipld

namespace Table

variable {α : Type}

/-! ## Binding one name -/

theorem mem_put {name : String} {value : α} {entries : List (String × α)} {entry : String × α}
    (h : entry ∈ put name value entries) : entry = (name, value) ∨ entry ∈ entries := by
  induction entries with
  | nil => exact .inl (List.mem_singleton.1 h)
  | cons first rest ih =>
    obtain ⟨key, old⟩ := first
    rw [put] at h
    by_cases hkey : key = name
    · rw [if_pos hkey, List.mem_cons] at h
      rcases h with rfl | h
      · exact .inl (by rw [hkey])
      · exact .inr (List.mem_cons_of_mem _ h)
    · rw [if_neg hkey, List.mem_cons] at h
      rcases h with rfl | h
      · exact .inr List.mem_cons_self
      · exact (ih h).imp_right (List.mem_cons_of_mem _)

theorem put_of_notMem {name : String} {entries : List (String × α)}
    (h : name ∉ entries.map Prod.fst) (value : α) :
    put name value entries = entries ++ [(name, value)] := by
  induction entries with
  | nil => rfl
  | cons first rest ih =>
    rw [List.map_cons, List.mem_cons, not_or] at h
    rw [put, if_neg (Ne.symm h.1), ih h.2, List.cons_append]

/-! ## Binding a list of names -/

theorem ofList_concat (entries : List (String × α)) (entry : String × α) :
    ofList (entries ++ [entry]) = (ofList entries).insert entry.1 entry.2 := by
  rw [ofList, List.foldl_append]
  rfl

/-- The names of a table are those that were bound, in the order in which they first came. -/
theorem keys_ofList (entries : List (String × α)) :
    (ofList entries).keys = (entries.map Prod.fst).eraseDups := by
  induction entries using List.reverseRecOn with
  | nil => rfl
  | append_singleton entries entry ih =>
    rw [ofList_concat, keys_insert, ih, List.map_append, List.eraseDups_append]
    by_cases hmem : entry.1 ∈ entries.map Prod.fst
    · simp [hmem, List.removeAll]
    · simp [hmem, List.removeAll, List.eraseDups_cons]

/-- What a table binds was bound. -/
theorem mem_of_mem_ofList {entries : List (String × α)} {entry : String × α}
    (h : entry ∈ (ofList entries).entries) : entry ∈ entries := by
  induction entries using List.reverseRecOn with
  | nil => cases h
  | append_singleton entries last ih =>
    rw [ofList_concat] at h
    rw [List.mem_append, List.mem_singleton]
    exact (mem_put h).elim .inr fun h => .inl (ih h)

/-- Binding names that differ keeps all bindings as they are. -/
theorem entries_ofList {entries : List (String × α)} (h : (entries.map Prod.fst).Nodup) :
    (ofList entries).entries = entries := by
  induction entries using List.reverseRecOn with
  | nil => rfl
  | append_singleton entries last ih =>
    rw [List.map_append, List.map_singleton, ← List.concat_eq_append, List.nodup_concat] at h
    have hkeep := ih h.2
    have hnew : last.1 ∉ (ofList entries).entries.map Prod.fst := by
      rw [hkeep]
      exact h.1
    rw [ofList_concat]
    exact (put_of_notMem hnew last.2).trans (by rw [hkeep])

theorem ext_entries {s t : Table α} (h : s.entries = t.entries) : s = t := by
  cases s
  cases t
  cases h
  rfl

/-- A table is what comes of binding its own entries. -/
theorem ofList_entries (t : Table α) : ofList t.entries = t :=
  ext_entries (entries_ofList t.nodup)

/-! ## What determines a table -/

theorem get?_eq_some_iff {t : Table α} {name : String} {value : α} :
    t.get? name = some value ↔ (name, value) ∈ t.entries := by
  obtain ⟨entries, hnodup⟩ := t
  simp only [get?]
  induction entries with
  | nil => simp
  | cons first rest ih =>
    obtain ⟨key, old⟩ := first
    rw [List.map_cons, List.nodup_cons] at hnodup
    rw [List.lookup_cons, List.mem_cons]
    by_cases hkey : name = key
    · subst hkey
      have hnot : (name, value) ∉ rest := fun h => hnodup.1 (List.mem_map.2 ⟨_, h, rfl⟩)
      simp [hnot, eq_comm]
    · have hne : (name == key) = false := beq_false_of_ne hkey
      simp only [hne, Prod.mk.injEq, hkey, false_and, false_or]
      exact ih hnodup.2

/-- Two tables are the same when their names come in one order and each binding of the one is a
binding of the other. -/
theorem eq_of_keys_eq {s t : Table α} (hkeys : s.keys = t.keys)
    (hmem : ∀ entry ∈ s.entries, entry ∈ t.entries) : s = t := by
  have hlength : s.entries.length = t.entries.length := by
    simpa [keys] using congrArg List.length hkeys
  refine ext_entries (List.ext_getElem hlength fun i hs ht => ?_)
  refine List.inj_on_of_nodup_map t.nodup (hmem _ (List.getElem_mem hs)) (List.getElem_mem ht) ?_
  have hname : s.keys[i]? = t.keys[i]? := by rw [hkeys]
  simpa [keys, hs, ht] using hname

/-- A table is the same as itself, as far as its values are. -/
theorem same_self {alike : α → α → Bool} (h : ∀ value, alike value value = true) (t : Table α) :
    t.same alike t = true := by
  rw [same, BEq.rfl, Bool.true_and, List.all_eq_true]
  rintro ⟨name, value⟩ hmem
  simp only [get?_eq_some_iff.2 hmem, h]

end Table

theorem Definition.same_self (d : Definition) : d.same d = true := by
  cases d with
  | struct fields => exact Table.same_self (fun _ => BEq.rfl) fields
  | scalar kind => exact BEq.rfl
  | enum members => exact BEq.rfl
  | node value advanced => exact BEq.rfl

namespace Schema

theorem sameTypes_self (s : Schema) : s.sameTypes s = true :=
  Table.same_self Definition.same_self s.types

theorem ext_fields {s t : Schema} (htypes : s.types = t.types)
    (hdeclared : s.declared = t.declared) : s = t := by
  cases s
  cases t
  cases htypes
  cases hdeclared
  rfl

theorem types_ofDeclarations (declarations : List (String × Definition)) :
    (ofDeclarations declarations).types = .ofList declarations :=
  (List.foldl_hom Schema.types fun _ _ => rfl).symm

theorem declared_ofDeclarations (declarations : List (String × Definition)) :
    (ofDeclarations declarations).declared = declarations.map Prod.fst := by
  induction declarations using List.reverseRecOn with
  | nil => rfl
  | append_singleton declarations last ih =>
    rw [ofDeclarations, List.foldl_append, List.map_append, ← ih]
    rfl

end Schema

end Ipld
