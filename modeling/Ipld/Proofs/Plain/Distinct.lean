import Ipld.Plain

/-!
# Plain data in which names do not repeat

A mapping that names two values alike cannot be told from one that names only the last.  In the
plain form of a schema all names of a mapping differ: those of types and fields come from tables,
and the others are the few fixed words of one mapping.
-/

namespace Ipld

/-- No mapping binds a name twice. -/
inductive Plain.Distinct : Plain → Prop
  | text (value : String) : Distinct (.text value)
  | flag (value : Bool) : Distinct (.flag value)
  | texts (values : List String) : Distinct (.texts values)
  | mapping {entries : List (String × Plain)} (hnames : (entries.map Prod.fst).Nodup)
    (h : ∀ e ∈ entries, e.2.Distinct) : Distinct (.mapping entries)

namespace Plain.Distinct

theorem nil : (Plain.mapping []).Distinct :=
  .mapping List.nodup_nil nofun

theorem cons {name : String} {value : Plain} {entries : List (String × Plain)}
    (hvalue : value.Distinct) (hname : name ∉ entries.map Prod.fst)
    (h : (Plain.mapping entries).Distinct) :
    (Plain.mapping ((name, value) :: entries)).Distinct := by
  cases h with
  | mapping hnames hall =>
    refine .mapping (List.nodup_cons.2 ⟨hname, hnames⟩) ?_
    rw [List.forall_mem_cons]
    exact ⟨hvalue, hall⟩

theorem single {name : String} {value : Plain} (h : value.Distinct) :
    (Plain.mapping [(name, value)]).Distinct :=
  .cons h List.not_mem_nil .nil

theorem of_single {name : String} {value : Plain} (h : (Plain.mapping [(name, value)]).Distinct) :
    value.Distinct := by
  cases h with
  | mapping _ h => exact h _ List.mem_cons_self

/-- One entry of another name, and perhaps the annotation. -/
theorem annotated {kind : String} {value : Plain} (hkind : kind ≠ "representation")
    (h : value.Distinct) (advanced : Bool) :
    (Plain.mapping ([(kind, value)] ++
      if advanced then [("representation", .mapping [("advanced", .text "RMT")])] else [])).Distinct := by
  cases advanced with
  | false => exact .single h
  | true => exact .cons h (by simpa using hkind) (.single (.single (.text _)))

/-- The bindings of a table, with their values in plain form. -/
theorem table {α : Type} {encode : α → Plain} {t : Table α}
    (h : ∀ e ∈ t.entries, (encode e.2).Distinct) :
    (Plain.mapping (t.entries.map fun e => (e.1, encode e.2))).Distinct := by
  refine .mapping ?_ fun e he => ?_
  · rw [List.map_map]
    exact t.nodup
  · obtain ⟨entry, hentry, rfl⟩ := List.mem_map.1 he
    exact h entry hentry

end Plain.Distinct

theorem Node.distinct_toPlain (n : Node) : n.toPlain.Distinct := by
  induction n with
  | scalar kind => exact .text _
  | ref name => exact .text _
  | link target => exact .single (.single (.text _))
  | list value nullable ih => exact .single (.cons ih (by simp) (.single (.flag _)))
  | map value nullable ih =>
    exact .single (.cons (.text _) (by simp) (.cons ih (by simp) (.single (.flag _))))

theorem Field.distinct_toPlain (f : Field) : f.toPlain.Distinct :=
  .cons f.type.distinct_toPlain (by simp) (.cons (.flag _) (by simp) (.single (.flag _)))

theorem Definition.distinct_toPlain (d : Definition) : d.toPlain.Distinct := by
  cases d with
  | scalar kind => exact .single .nil
  | struct fields => exact .single (.single (.table fun e _ => e.2.distinct_toPlain))
  | enum members => exact .single (.single (.texts _))
  | node value advanced =>
    have hvalue := value.distinct_toPlain
    cases value with
    | scalar kind => exact .annotated (by decide) hvalue advanced
    | ref name => exact .annotated (by decide) hvalue advanced
    | link target => exact .annotated (by decide) (.of_single hvalue) advanced
    | list value nullable => exact .annotated (by decide) (.of_single hvalue) advanced
    | map value nullable => exact .annotated (by decide) (.of_single hvalue) advanced

theorem Schema.distinct_toPlain (s : Schema) : s.toPlain.Distinct :=
  .single (.table fun e _ => e.2.distinct_toPlain)

end Ipld
