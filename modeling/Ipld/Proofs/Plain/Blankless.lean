import Ipld.Plain
import Ipld.Proofs.Schema.WellFormed

/-!
# Plain data without blanks

Every text and every name in the plain form of a schema is one word: a name that the source spells,
or one of the fixed words.  So a writer may break a long text in two wherever it likes, and
whitespace in the result always belongs to the layout.
-/

namespace Ipld

open Text

/-- No text and no name holds a blank. -/
inductive Plain.Blankless : Plain → Prop
  | text {value : String} (h : ' ' ∉ value.toList) : Blankless (.text value)
  | flag (value : Bool) : Blankless (.flag value)
  | texts {values : List String} (h : ∀ s ∈ values, ' ' ∉ s.toList) : Blankless (.texts values)
  | mapping {entries : List (String × Plain)} (hnames : ∀ e ∈ entries, ' ' ∉ e.1.toList)
    (h : ∀ e ∈ entries, e.2.Blankless) : Blankless (.mapping entries)

namespace Plain.Blankless

theorem nil : (Plain.mapping []).Blankless :=
  .mapping nofun nofun

theorem cons_iff {name : String} {value : Plain} {entries : List (String × Plain)} :
    (Plain.mapping ((name, value) :: entries)).Blankless ↔
      ' ' ∉ name.toList ∧ value.Blankless ∧ (Plain.mapping entries).Blankless := by
  constructor
  · intro h
    cases h with
    | mapping hnames h =>
      rw [List.forall_mem_cons] at hnames h
      exact ⟨hnames.1, h.1, .mapping hnames.2 h.2⟩
  · rintro ⟨hname, hvalue, hrest⟩
    cases hrest with
    | mapping hnames h =>
      exact .mapping (List.forall_mem_cons.2 ⟨hname, hnames⟩) (List.forall_mem_cons.2 ⟨hvalue, h⟩)

theorem cons {name : String} {value : Plain} {entries : List (String × Plain)}
    (hname : ' ' ∉ name.toList) (hvalue : value.Blankless) (h : (Plain.mapping entries).Blankless) :
    (Plain.mapping ((name, value) :: entries)).Blankless :=
  cons_iff.2 ⟨hname, hvalue, h⟩

theorem single {name : String} {value : Plain} (hname : ' ' ∉ name.toList)
    (hvalue : value.Blankless) : (Plain.mapping [(name, value)]).Blankless :=
  .cons hname hvalue .nil

/-- The bindings of a table, with their values in plain form. -/
theorem table {α : Type} {encode : α → Plain} {t : Table α}
    (hnames : ∀ e ∈ t.entries, ' ' ∉ e.1.toList) (h : ∀ e ∈ t.entries, (encode e.2).Blankless) :
    (Plain.mapping (t.entries.map fun e => (e.1, encode e.2))).Blankless := by
  refine .mapping ?_ ?_
  · rw [List.forall_mem_map]
    exact hnames
  · rw [List.forall_mem_map]
    exact h

/-- The entries of a definition that is a node. -/
theorem asReference {p : Plain} (h : p.Blankless) : (Plain.mapping p.asReference).Blankless := by
  cases p with
  | mapping entries => exact h
  | text value => exact .single (by decide) h
  | flag value => exact .single (by decide) h
  | texts values => exact .single (by decide) h

theorem append {es fs : List (String × Plain)} (hes : (Plain.mapping es).Blankless)
    (hfs : (Plain.mapping fs).Blankless) : (Plain.mapping (es ++ fs)).Blankless := by
  cases hes with
  | mapping hnames h =>
    cases hfs with
    | mapping hnames' h' =>
      exact .mapping (List.forall_mem_append.2 ⟨hnames, hnames'⟩)
        (List.forall_mem_append.2 ⟨h, h'⟩)

end Plain.Blankless

theorem IsIdentifier.blank_not_mem {name : String} (h : IsIdentifier name) : ' ' ∉ name.toList := by
  intro hmem
  have hword := h.1.2 ' ' hmem
  exact absurd hword (by decide)

theorem Node.Named.blankless_toPlain {n : Node} (h : n.Named) : n.toPlain.Blankless := by
  induction n with
  | scalar kind => cases kind <;> exact .text (by decide)
  | ref name => exact .text (IsIdentifier.blank_not_mem h)
  | link target =>
    exact .single (by decide) (.single (by decide) (.text (IsIdentifier.blank_not_mem h)))
  | list value nullable ih =>
    exact .single (by decide) (.cons (by decide) (ih h) (.single (by decide) (.flag _)))
  | map value nullable ih =>
    exact .single (by decide) (.cons (by decide) (.text (by decide))
      (.cons (by decide) (ih h) (.single (by decide) (.flag _))))

theorem Field.blankless_toPlain {f : Field} (h : f.type.Named) : f.toPlain.Blankless :=
  .cons (by decide) h.blankless_toPlain
    (.cons (by decide) (.flag _) (.single (by decide) (.flag _)))

theorem Definition.WellFormed.blankless_toPlain {d : Definition} (h : d.WellFormed) :
    d.toPlain.Blankless := by
  cases d with
  | scalar kind => cases kind <;> exact .single (by decide) .nil
  | struct fields =>
    exact .single (by decide) (.single (by decide)
      (.table (fun e he => (h e he).1.blank_not_mem)
        fun e he => Field.blankless_toPlain (h e he).2))
  | enum members =>
    exact .single (by decide) (.single (by decide) (.texts fun m hm => (h m hm).blank_not_mem))
  | node value advanced =>
    refine .append (Plain.Blankless.asReference h.1.blankless_toPlain) ?_
    cases advanced with
    | false => exact .nil
    | true => exact .single (by decide) (.single (by decide) (.text (by decide)))

theorem Schema.WellFormed.blankless_toPlain {s : Schema} (h : s.WellFormed) :
    s.toPlain.Blankless := by
  refine .single (by decide)
    (.table (fun e he => ?_) fun e he => (h.definitions e he).blankless_toPlain)
  have hkey : e.1 ∈ s.types.keys := List.mem_map_of_mem he
  rw [h.keys, List.mem_eraseDups] at hkey
  exact (h.names e.1 hkey).blank_not_mem

end Ipld
