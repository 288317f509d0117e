import Ipld.Proofs.Schema.Table

/-!
# Schemas one after the other

A table is updated with another by binding the other's names in their order.  The names of the first
stay where they are, the new ones follow, and what the second binds is what counts.  Updating with a
table that grows by one name is the same as growing by that name afterwards, so declarations may be
added to a schema one by one or as a schema of their own.
-/

namespace Ipld

namespace Table

variable {α : Type}

/-- The table with the names of another one bound in their order. -/
def update (s t : Table α) : Table α :=
  t.entries.foldl (fun s entry => s.insert entry.1 entry.2) s

/-! ## Names and values -/

theorem lookup_cons (name key : String) (value : α) (rest : List (String × α)) :
    ((key, value) :: rest).lookup name = if name = key then some value else rest.lookup name := by
  rw [List.lookup_cons]
  by_cases h : name = key
  · rw [if_pos h, beq_iff_eq.2 h]
  · rw [if_neg h, beq_false_of_ne h]

theorem lookup_put (name key : String) (value : α) (entries : List (String × α)) :
    (put key value entries).lookup name =
      if name = key then some value else entries.lookup name := by
  induction entries with
  | nil => exact lookup_cons name key value []
  | cons first rest ih =>
    obtain ⟨other, old⟩ := first
    rw [put]
    by_cases hother : other = key
    · rw [if_pos hother, lookup_cons, lookup_cons, hother]
      split
      · rfl
      · rfl
    · rw [if_neg hother, lookup_cons, lookup_cons, ih]
      by_cases h : name = other
      · rw [if_pos h, if_pos h, if_neg (h ▸ hother)]
      · rw [if_neg h, if_neg h]

theorem get?_insert (t : Table α) (name key : String) (value : α) :
    (t.insert key value).get? name = if name = key then some value else t.get? name :=
  lookup_put name key value t.entries

theorem get?_foldl_insert {entries : List (String × α)} (h : (entries.map Prod.fst).Nodup)
    (s : Table α) (name : String) :
    (entries.foldl (fun s entry => s.insert entry.1 entry.2) s).get? name =
      (entries.lookup name).or (s.get? name) := by
  induction entries generalizing s with
  | nil => rfl
  | cons entry rest ih =>
    obtain ⟨key, value⟩ := entry
    rw [List.map_cons, List.nodup_cons] at h
    rw [List.foldl_cons, ih h.2, get?_insert, lookup_cons]
    by_cases hname : name = key
    · subst hname
      have hnone : rest.lookup name = none := by
        rw [List.lookup_eq_none_iff]
        intro entry hentry
        exact bne_iff_ne.2 fun heq => h.1 (List.mem_map.2 ⟨entry, hentry, heq.symm⟩)
      rw [hnone, if_pos rfl, if_pos rfl]
      rfl
    · rw [if_neg hname, if_neg hname]

theorem get?_update (s t : Table α) (name : String) :
    (s.update t).get? name = (t.get? name).or (s.get? name) :=
  get?_foldl_insert t.nodup s name

theorem keys_foldl_insert {entries : List (String × α)} (h : (entries.map Prod.fst).Nodup)
    (s : Table α) :
    (entries.foldl (fun s entry => s.insert entry.1 entry.2) s).keys =
      s.keys ++ (entries.map Prod.fst).filter (· ∉ s.keys) := by
  induction entries generalizing s with
  | nil => exact (List.append_nil _).symm
  | cons entry rest ih =>
    obtain ⟨key, value⟩ := entry
    rw [List.map_cons, List.nodup_cons] at h
    rw [List.foldl_cons, ih h.2, keys_insert, List.map_cons]
    by_cases hkey : key ∈ s.keys
    · rw [if_pos hkey, List.filter_cons_of_neg (by simpa using hkey)]
    · -- The name has been bound first; it does not come again.
      have hfilter : (rest.map Prod.fst).filter (· ∉ s.keys ++ [key]) =
          (rest.map Prod.fst).filter (· ∉ s.keys) := by
        refine List.filter_congr fun name hname => ?_
        have hne : name ≠ key := fun heq => h.1 (heq ▸ hname)
        simp [hne]
      rw [if_neg hkey, hfilter, List.filter_cons_of_pos (by simpa using hkey), List.append_assoc,
        List.singleton_append]

theorem keys_update (s t : Table α) :
    (s.update t).keys = s.keys ++ t.keys.filter (· ∉ s.keys) :=
  keys_foldl_insert t.nodup s

/-! ## Growing by one name -/

theorem eq_of_get?_eq {s t : Table α} (hkeys : s.keys = t.keys)
    (hget : ∀ name, s.get? name = t.get? name) : s = t := by
  refine eq_of_keys_eq hkeys fun entry hentry => ?_
  have hs := get?_eq_some_iff.2 hentry
  rw [hget] at hs
  exact get?_eq_some_iff.1 hs

theorem update_insert (s t : Table α) (name : String) (value : α) :
    s.update (t.insert name value) = (s.update t).insert name value := by
  refine eq_of_get?_eq ?_ fun other => ?_
  · rw [keys_update, keys_insert, keys_insert, keys_update]
    by_cases ht : name ∈ t.keys
    · by_cases hs : name ∈ s.keys
      · simp [ht, hs]
      · simp [ht, hs]
    · by_cases hs : name ∈ s.keys
      · simp [ht, hs]
      · simp [ht, hs]
  · rw [get?_update, get?_insert, get?_insert, get?_update]
    split
    · rfl
    · rfl

end Table

namespace Schema

/-- The types of the first schema updated with those of the second, and both logs. -/
def append (s t : Schema) : Schema :=
  ⟨s.types.update t.types, s.declared ++ t.declared⟩

theorem append_empty (s : Schema) : s.append empty = s :=
  ext_fields rfl (List.append_nil _)

theorem append_add (s t : Schema) (name : String) (d : Definition) :
    s.append (t.add name d) = (s.append t).add name d :=
  ext_fields (Table.update_insert _ _ _ _) (List.append_assoc _ _ _).symm

end Schema

end Ipld
