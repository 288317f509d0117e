import Ipld.Proofs.Schema.Table
import Mathlib.Logic.Function.Basic

/-!
# Schemas under other names

A renaming replaces every name in a schema: those of types, fields and members, and those that links
and references go to.  When it is injective no two names fall together, so that it commutes with the
binding of a name in a table and all orders stay as they are.
-/

namespace Ipld

/-! ## Tables -/

namespace Table

variable {α β : Type} {f : String → String}

/-- The table with its names and its values replaced.  Of two names that fall together the later
one's value is kept. -/
def rename (f : String → String) (g : α → β) (t : Table α) : Table β :=
  .ofList (t.entries.map (Prod.map f g))

theorem put_map (hf : f.Injective) (g : α → β) (name : String) (value : α)
    (entries : List (String × α)) :
    put (f name) (g value) (entries.map (Prod.map f g)) =
      (put name value entries).map (Prod.map f g) := by
  induction entries with
  | nil => rfl
  | cons first rest ih =>
    obtain ⟨key, old⟩ := first
    by_cases h : key = name
    · rw [List.map_cons, Prod.map_apply, put, put, if_pos h, if_pos (congrArg f h), List.map_cons,
        Prod.map_apply]
    · have h' : f key ≠ f name := fun heq => h (hf heq)
      rw [List.map_cons, Prod.map_apply, put, put, if_neg h, if_neg h', ih, List.map_cons,
        Prod.map_apply]

theorem entries_rename (hf : f.Injective) (g : α → β) (t : Table α) :
    (t.rename f g).entries = t.entries.map (Prod.map f g) := by
  refine entries_ofList ?_
  have hnames : (t.entries.map (Prod.map f g)).map Prod.fst = (t.entries.map Prod.fst).map f := by
    rw [List.map_map, List.map_map]
    rfl
  rw [hnames]
  exact t.nodup.map hf

theorem rename_insert (hf : f.Injective) (g : α → β) (t : Table α) (name : String) (value : α) :
    (t.insert name value).rename f g = (t.rename f g).insert (f name) (g value) := by
  refine ext_entries ?_
  rw [entries_rename hf]
  change (put name value t.entries).map (Prod.map f g) =
    put (f name) (g value) (t.rename f g).entries
  rw [entries_rename hf, put_map hf]

theorem rename_id (t : Table α) : t.rename id id = t := by
  rw [rename, Prod.map_id, List.map_id, ofList_entries]

end Table

/-! ## Nodes and definitions -/

def Node.rename (f : String → String) : Node → Node
  | .scalar kind => .scalar kind
  | .link target => .link (f target)
  | .ref name => .ref (f name)
  | .list value nullable => .list (value.rename f) nullable
  | .map value nullable => .map (value.rename f) nullable

def Field.rename (f : String → String) (field : Field) : Field :=
  { field with type := field.type.rename f }

def Definition.rename (f : String → String) : Definition → Definition
  | .scalar kind => .scalar kind
  | .struct fields => .struct (fields.rename f (Field.rename f))
  | .enum members => .enum (members.map f)
  | .node value advanced => .node (value.rename f) advanced

/-- The schema with all its names replaced. -/
def Schema.rename (f : String → String) (s : Schema) : Schema :=
  ⟨s.types.rename f (Definition.rename f), s.declared.map f⟩

theorem Node.rename_id (n : Node) : n.rename id = n := by
  induction n with
  | scalar kind => rfl
  | link target => rfl
  | ref name => rfl
  | list value nullable ih => rw [rename, ih]
  | map value nullable ih => rw [rename, ih]

theorem Field.rename_id : Field.rename id = id :=
  funext fun field => by rw [rename, Node.rename_id, id_def]

theorem Definition.rename_id (d : Definition) : d.rename id = d := by
  cases d with
  | scalar kind => rfl
  | struct fields => rw [rename, Field.rename_id, Table.rename_id]
  | enum members => rw [rename, List.map_id]
  | node value advanced => rw [rename, Node.rename_id]

theorem Schema.rename_add {f : String → String} (hf : f.Injective) (s : Schema) (name : String)
    (d : Definition) : (s.add name d).rename f = (s.rename f).add (f name) (d.rename f) := by
  rw [add, add, rename, rename, Table.rename_insert hf, List.map_append, List.map_singleton]

end Ipld
