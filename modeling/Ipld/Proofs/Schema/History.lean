import Ipld.Proofs.Schema.Append
import Ipld.Proofs.Schema.Duplicates
import Mathlib.Data.List.Dedup

/-!
# A schema as the history of its declarations

A schema has three views of the declarations that were added to it: the log of the names, the table
of what each name stands for, and the report of the names that were declared again.  The table lists
the names by their first declarations and binds them by their last ones, and the report lists them
by their second ones.  So the report is empty exactly when the table is as long as the log.
-/

namespace Ipld

namespace Table

variable {α : Type}

/-- The names of a table come in the order in which they were first bound. -/
theorem listsAfter_keys (entries : List (String × α)) :
    ListsAfter 0 (entries.map Prod.fst) (ofList entries).keys := by
  induction entries using List.reverseRecOn with
  | nil => exact listsAfter_nil 0
  | append_singleton entries last ih =>
    have hfirst : last.1 ∈ (ofList entries).keys ↔ ¬ (entries.map Prod.fst).count last.1 = 0 := by
      rw [ih.mem_iff, Nat.pos_iff_ne_zero]
    rw [ofList_concat, keys_insert, List.map_append]
    simp only [hfirst, ite_not]
    exact ih.concat last.1

/-- The last entry of a list is the one at hand, or it is behind it. -/
theorem cases_of_concat {entries before after : List (String × α)} {last entry : String × α}
    (h : entries ++ [last] = before ++ entry :: after) :
    (after = [] ∧ last = entry) ∨
      ∃ middle, after = middle ++ [last] ∧ entries = before ++ entry :: middle := by
  rcases List.eq_nil_or_concat after with rfl | ⟨middle, other, rfl⟩
  · exact .inl ⟨rfl, (List.cons.inj (List.append_inj_right' h rfl)).1⟩
  · rw [List.concat_eq_append, ← List.cons_append, ← List.append_assoc] at h
    obtain rfl := (List.cons.inj (List.append_inj_right' h rfl)).1
    exact .inr ⟨middle, List.concat_eq_append, List.append_inj_left' h rfl⟩

/-- A name is bound to what it was bound to last. -/
theorem get?_ofList_eq_some_iff {entries : List (String × α)} {name : String} {value : α} :
    (ofList entries).get? name = some value ↔
      ∃ before after, entries = before ++ (name, value) :: after ∧
        name ∉ after.map Prod.fst := by
  induction entries using List.reverseRecOn with
  | nil => simp [ofList, empty, get?]
  | append_singleton entries last ih =>
    obtain ⟨key, new⟩ := last
    rw [ofList_concat, get?_insert]
    by_cases hname : name = key
    · subst hname
      rw [if_pos rfl, Option.some.injEq]
      constructor
      · rintro rfl
        exact ⟨entries, [], rfl, List.not_mem_nil⟩
      · rintro ⟨before, after, heq, hafter⟩
        rcases cases_of_concat heq with ⟨-, hlast⟩ | ⟨middle, rfl, -⟩
        · exact (Prod.mk.inj hlast).2
        · -- The last entry is for the same name, so it may not stand behind.
          simp at hafter
    · rw [if_neg hname, ih]
      constructor
      · rintro ⟨before, after, rfl, hafter⟩
        exact ⟨before, after ++ [(key, new)], by simp, by simpa [hname] using hafter⟩
      · rintro ⟨before, after, heq, hafter⟩
        rcases cases_of_concat heq with ⟨-, hlast⟩ | ⟨middle, rfl, rfl⟩
        · exact absurd (Prod.mk.inj hlast).1.symm hname
        · rw [List.map_append, List.mem_append, not_or] at hafter
          exact ⟨before, middle, rfl, hafter.1⟩

theorem get?_eq_none_iff {t : Table α} {name : String} : t.get? name = none ↔ name ∉ t.keys := by
  rw [Option.eq_none_iff_forall_ne_some]
  simp only [ne_eq, get?_eq_some_iff, keys, List.mem_map, not_exists, not_and]
  constructor
  · rintro h ⟨key, value⟩ hmem rfl
    exact h value hmem
  · exact fun h value hmem => h (name, value) hmem rfl

end Table

/-- A list of the names of a log is as long as the log when no name is listed as repeated. -/
theorem ListsAfter.eq_nil_iff {log names repeated : List String} (hnames : ListsAfter 0 log names)
    (hrepeated : ListsAfter 1 log repeated) : repeated = [] ↔ names.length = log.length := by
  have hlength : names.length = log.dedup.length := by
    refine List.Perm.length_eq ((List.perm_ext_iff_of_nodup hnames.nodup log.nodup_dedup).2 ?_)
    intro name
    rw [hnames.mem_iff, List.count_pos_iff, List.mem_dedup]
  have hnodup : repeated = [] ↔ log.Nodup := by
    simp only [List.eq_nil_iff_forall_not_mem, hrepeated.mem_iff, Nat.not_lt,
      List.nodup_iff_count_le_one]
  rw [hnodup, hlength]
  constructor
  · intro h
    rw [h.dedup]
  · intro h
    rw [← log.dedup_sublist.eq_of_length h]
    exact log.nodup_dedup

namespace Schema

theorem names_ofDeclarations (ds : List (String × Definition)) :
    (ofDeclarations ds).names = (Table.ofList ds).keys := by
  rw [names, types_ofDeclarations]

theorem lookup_eq_ok_iff {s : Schema} {name : String} {d : Definition} :
    s.lookup name = .ok d ↔ s.types.get? name = some d := by
  rw [lookup, get?]
  cases s.types.get? name with
  | some d' => simp
  | none => simp

theorem lookup_eq_error_iff {s : Schema} {name : String} {e : Fault} :
    s.lookup name = .error e ↔ e = .unknownName name ∧ name ∉ s.names := by
  rw [names, ← Table.get?_eq_none_iff, lookup, get?]
  cases s.types.get? name with
  | some d => simp
  | none => simp [eq_comm]

/-- **The views of a schema agree on its history.**  Whatever declarations are added to the empty
schema, the log holds their names; the schema lists the names by their first declarations; a look-up
finds the last declaration of a name, and fails when there is none; the names that are reported as
repeated are listed by their second declarations; and none is reported exactly when the schema has
as many types as declarations. -/
theorem ofDeclarations_history (ds : List (String × Definition)) :
    (ofDeclarations ds).declared = ds.map Prod.fst ∧
      ListsAfter 0 (ds.map Prod.fst) (ofDeclarations ds).names ∧
      (∀ name d, (ofDeclarations ds).lookup name = .ok d ↔
        ∃ before after, ds = before ++ (name, d) :: after ∧ name ∉ after.map Prod.fst) ∧
      (∀ name e, (ofDeclarations ds).lookup name = .error e ↔
        e = .unknownName name ∧ name ∉ ds.map Prod.fst) ∧
      ListsAfter 1 (ds.map Prod.fst) (ofDeclarations ds).duplicates ∧
      ((ofDeclarations ds).duplicates = [] ↔
        (ofDeclarations ds).size = (ofDeclarations ds).declared.length) := by
  have hlog := declared_ofDeclarations ds
  have hnames : ListsAfter 0 (ds.map Prod.fst) (ofDeclarations ds).names :=
    names_ofDeclarations ds ▸ Table.listsAfter_keys ds
  have hduplicates : ListsAfter 1 (ds.map Prod.fst) (ofDeclarations ds).duplicates := by
    rw [duplicates, hlog]
    exact listsAfter_repeats _
  have hsize : (ofDeclarations ds).size = (ofDeclarations ds).names.length :=
    (List.length_map _).symm
  refine ⟨hlog, hnames, fun name d => ?_, fun name e => ?_, hduplicates, ?_⟩
  · rw [lookup_eq_ok_iff, types_ofDeclarations, Table.get?_ofList_eq_some_iff]
  · rw [lookup_eq_error_iff, hnames.mem_iff, List.count_pos_iff]
  · rw [hnames.eq_nil_iff hduplicates, hsize, hlog]

end Schema

end Ipld
