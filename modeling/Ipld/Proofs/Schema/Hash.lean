import Ipld.Draft
import Ipld.Proofs.Schema.Table
import Mathlib.Logic.Equiv.List

/-!
# Sameness and hashes

Nodes and definitions are hashed from the hashes of their parts, down to texts and truth values.  A
struct is hashed from its fields in the order in which they come, although structs are compared
without regard to that order.  So parts that are the same have the same hash, whatever the hashing
of texts and tuples, unless they are structs that list their fields in different orders; for those
equal hashes are a coincidence.
-/

namespace Ipld

/-! ## Hashes -/

/-- How texts and tuples are hashed. -/
structure Hashing where
  text : String → Int
  tuple : List Int → Int

/-- The hashing has no collisions. -/
structure Hashing.Injective (H : Hashing) : Prop where
  text : Function.Injective H.text
  tuple : Function.Injective H.tuple

/-- A truth value is hashed as the number zero or one. -/
def Hashing.flag (b : Bool) : Int :=
  if b then 1 else 0

section

variable (H : Hashing)

def Node.hash : Node → Int
  | .scalar kind => H.tuple [H.text kind.upper]
  | .link target => H.tuple [H.text target]
  | .ref name => H.tuple [H.text name]
  | .list value nullable => H.tuple [value.hash, Hashing.flag nullable]
  | .map value nullable => H.tuple [value.hash, Hashing.flag nullable]

def Field.hash (f : Field) : Int :=
  H.tuple [f.type.hash H, Hashing.flag f.optional, Hashing.flag f.nullable]

/-- The hash of a definition; the fields of a struct are hashed in their order. -/
def Definition.hash : Definition → Int
  | .scalar kind => H.tuple [H.text kind.upper]
  | .struct fields =>
    H.tuple (fields.entries.map fun entry => H.tuple [H.text entry.1, entry.2.hash H])
  | .enum members => H.tuple (members.map H.text)
  | .node value advanced => H.tuple [value.hash H, Hashing.flag advanced]

end

/-- A node or a definition. -/
inductive Part where
  | node (value : Node)
  | definition (value : Definition)

namespace Part

def toDraft : Part → Draft
  | .node value => value.toDraft
  | .definition value => value.toDraft

def hash (H : Hashing) : Part → Int
  | .node value => value.hash H
  | .definition value => value.hash H

/-- The names of the fields of a struct, in their order. -/
def fieldNames : Part → List String
  | .definition (.struct fields) => fields.keys
  | _ => []

/-- The parts are the same, but for the order of the fields of a struct. -/
inductive Rearranges : Part → Part → Prop
  | refl (a : Part) : Rearranges a a
  | struct {fields fields' : Table Field} (h : fields.entries.Perm fields'.entries) :
    Rearranges (.definition (.struct fields)) (.definition (.struct fields'))

end Part

/-! ## Drafts of nodes and definitions -/

theorem Node.toNode_toDraft (n : Node) : n.toDraft.toNode = .ok n := by
  induction n with
  | scalar kind => rfl
  | link target => rfl
  | ref name => rfl
  | list value nullable ih => rw [toDraft, Draft.toNode, ih]; rfl
  | map value nullable ih => rw [toDraft, Draft.toNode, ih]; rfl

theorem Field.toField_toDraft (f : Field) : f.toDraft.toField = .ok f := by
  rw [toDraft, Draft.toField, Node.toNode_toDraft]
  rfl

theorem toFields_ofEntries (found : Table Field) (entries : List (String × Field)) :
    Draft.toFields found (.ofEntries (entries.map fun e => (e.1, e.2.toDraft))) =
      .ok (entries.foldl (fun t entry => t.insert entry.1 entry.2) found) := by
  induction entries generalizing found with
  | nil => rfl
  | cons entry entries ih =>
    rw [List.map_cons, Drafts.ofEntries, Draft.toFields, Field.toField_toDraft]
    exact ih _

theorem Definition.toDefinition_toDraft (d : Definition) : d.toDraft.toDefinition = .ok d := by
  cases d with
  | scalar kind => rfl
  | struct fields =>
    rw [toDraft, Draft.toDefinition, toFields_ofEntries]
    exact congrArg (fun t => Except.ok (Definition.struct t)) fields.ofList_entries
  | enum members => rfl
  | node value advanced =>
    rw [toDraft, Draft.toDefinition, Node.toNode_toDraft]
    rfl

theorem Node.same_toDraft_iff {n m : Node} : n.toDraft.same m.toDraft = true ↔ n = m := by
  induction n generalizing m with
  | scalar kind => cases m <;> simp [toDraft, Draft.same]
  | link target => cases m <;> simp [toDraft, Draft.same]
  | ref name => cases m <;> simp [toDraft, Draft.same]
  | list value nullable ih => cases m <;> simp [toDraft, Draft.same, ih]
  | map value nullable ih => cases m <;> simp [toDraft, Draft.same, ih]

/-! ## Sameness -/

/-- Tables are the same when one is a rearrangement of the other. -/
theorem Table.same_beq_iff {α : Type} [BEq α] [LawfulBEq α] {s t : Table α} :
    s.same (fun f g => f == g) t = true ↔ s.entries.Perm t.entries := by
  rw [same, Bool.and_eq_true, beq_iff_eq, List.all_eq_true]
  constructor
  · rintro ⟨hsize, hall⟩
    have hsubset : s.entries ⊆ t.entries := by
      rintro ⟨name, value⟩ hmem
      specialize hall _ hmem
      cases hget : t.get? name with
      | none => simp [hget] at hall
      | some found =>
        simp only [hget, beq_iff_eq] at hall
        exact get?_eq_some_iff.1 (hall ▸ hget)
    exact ((s.nodup.of_map _).subperm hsubset).perm_of_length_le (Nat.le_of_eq hsize.symm)
  · refine fun h => ⟨h.length_eq, ?_⟩
    rintro ⟨name, value⟩ hmem
    simp only [get?_eq_some_iff.2 (h.mem_iff.1 hmem), BEq.rfl]

theorem Definition.same_iff {d e : Definition} :
    d.same e = true ↔ (Part.definition d).Rearranges (.definition e) := by
  constructor
  · intro h
    cases d with
    | struct fields =>
      cases e with
      | struct fields' => exact .struct (Table.same_beq_iff.1 h)
      | _ => exact absurd (eq_of_beq h) nofun
    | _ => exact eq_of_beq h ▸ .refl _
  · rintro (_ | h)
    · exact same_self d
    · exact Table.same_beq_iff.2 h

/-! ## Comparing nodes and definitions -/

theorem Node.toSchema_toDraft (n : Node) :
    n.toDraft.toSchema = .error (.notDefinition n.toDraft.describe) := by
  cases n <;> rfl

theorem Node.toDefinition_toDraft (n : Node) :
    n.toDraft.toDefinition = .error (.notDefinition n.toDraft.describe) := by
  cases n <;> rfl

theorem Definition.toSchema_toDraft (d : Definition) :
    d.toDraft.toSchema = .error (.notDefinition d.toDraft.describe) := by
  cases d <;> rfl

/-- Nodes are compared part by part. -/
theorem Node.compare_toDraft (n m : Node) :
    n.toDraft.compare m.toDraft = if n = m then ⟨true, some true⟩ else ⟨false, none⟩ := by
  unfold Draft.compare
  rw [n.toSchema_toDraft, n.toDefinition_toDraft]
  by_cases h : n = m
  · subst h
    rw [Node.same_toDraft_iff.2 rfl, if_pos rfl]
    cases n <;> simp [Node.toDraft]
  · rw [Bool.eq_false_iff.2 (mt Node.same_toDraft_iff.1 h), if_neg h]

/-- Definitions are compared as such. -/
theorem Definition.compare_toDraft (d e : Definition) :
    d.toDraft.compare e.toDraft =
      if d.same e then ⟨true, some (d.hashInput == e.hashInput)⟩ else ⟨false, none⟩ := by
  unfold Draft.compare
  rw [d.toSchema_toDraft, e.toSchema_toDraft, d.toDefinition_toDraft,
    e.toDefinition_toDraft]

theorem Node.compare_definition (n : Node) (d : Definition) :
    n.toDraft.compare d.toDraft = ⟨false, none⟩ := by
  have hsame : n.toDraft.same d.toDraft = false := by
    cases n <;> cases d <;> simp [toDraft, Definition.toDraft, Draft.same]
  unfold Draft.compare
  rw [n.toSchema_toDraft, n.toDefinition_toDraft, hsame]

theorem Definition.compare_node (d : Definition) (n : Node) :
    d.toDraft.compare n.toDraft = ⟨false, none⟩ := by
  have hsame : d.toDraft.same n.toDraft = false := by
    cases d <;> cases n <;> simp [toDraft, Node.toDraft, Draft.same]
  unfold Draft.compare
  rw [d.toSchema_toDraft, d.toDefinition_toDraft, n.toDefinition_toDraft, hsame]

/-! ## What sameness says of hashes -/

/-- A hashing that numbers texts and tuples. -/
def Hashing.numbering : Hashing where
  text s := Encodable.encode (s.toList.map Char.toNat)
  tuple parts := Encodable.encode parts

theorem Hashing.injective_numbering : numbering.Injective where
  text s t h := by
    have hcodes := Encodable.encode_injective (Int.ofNat.inj h)
    exact String.toList_injective (List.map_injective_iff.2 (fun _ _ => Char.toNat_inj.1) hcodes)
  tuple s t h := Encodable.encode_injective (Int.ofNat.inj h)

/-- Without collisions the hash of a struct tells the order of its fields. -/
theorem Definition.keys_eq_of_hash_eq {H : Hashing} (hH : H.Injective) {fields fields' : Table Field}
    (h : (Definition.struct fields).hash H = (Definition.struct fields').hash H) :
    fields.keys = fields'.keys := by
  let entryHash (entry : String × Field) : Int := H.tuple [H.text entry.1, entry.2.hash H]
  -- the hash of an entry determines its name
  have hname : Function.FactorsThrough Prod.fst entryHash := fun entry entry' hentry =>
    hH.text (List.cons.inj (hH.tuple hentry)).1
  obtain ⟨name, hname⟩ := Function.factorsThrough_iff _ |>.1 hname
  rw [Table.keys, Table.keys, hname, ← List.map_map, ← List.map_map]
  exact congrArg (List.map name) (hH.tuple h)

namespace Part

/-- Structs with the same fields in the same order are the same. -/
theorem Rearranges.eq_of_fieldNames_eq {a b : Part} (h : a.Rearranges b)
    (hnames : a.fieldNames = b.fieldNames) : a = b := by
  cases h with
  | refl => rfl
  | struct hperm => rw [Table.eq_of_keys_eq hnames fun _ => hperm.mem_iff.1]

theorem Rearranges.fieldNames_eq_of_hash_eq {a b : Part} (h : a.Rearranges b) {H : Hashing}
    (hH : H.Injective) (hhash : a.hash H = b.hash H) : a.fieldNames = b.fieldNames := by
  cases h with
  | refl => rfl
  | struct => exact Definition.keys_eq_of_hash_eq hH hhash

theorem same_compare_iff {a b : Part} :
    (a.toDraft.compare b.toDraft).same = true ↔ a.Rearranges b := by
  cases a with
  | node n =>
    cases b with
    | node m =>
      rw [toDraft, toDraft, Node.compare_toDraft]
      constructor
      · intro h
        split at h
        · next hnm => exact hnm ▸ .refl _
        · cases h
      · rintro ⟨⟩
        rw [if_pos rfl]
    | definition e =>
      rw [toDraft, toDraft, Node.compare_definition]
      exact iff_of_false Bool.false_ne_true nofun
  | definition d =>
    cases b with
    | node m =>
      rw [toDraft, toDraft, Definition.compare_node]
      exact iff_of_false Bool.false_ne_true nofun
    | definition e =>
      rw [toDraft, toDraft, Definition.compare_toDraft, ← Definition.same_iff]
      cases d.same e <;> simp

/-- Of parts that are the same, what the hashes are computed from is compared by the order of the
fields. -/
theorem Rearranges.sameHash_compare {a b : Part} (h : a.Rearranges b) :
    (a.toDraft.compare b.toDraft).sameHash = some (decide (a.fieldNames = b.fieldNames)) := by
  cases h with
  | refl =>
    cases a with
    | node n => simp [toDraft, Node.compare_toDraft]
    | definition d => simp [toDraft, Definition.compare_toDraft, Definition.same_self]
  | @struct fields fields' hperm =>
    have horder : (Definition.struct fields).hashInput = (Definition.struct fields').hashInput ↔
        fields.keys = fields'.keys := by
      constructor
      · exact fun hinput => congrArg (List.map Prod.fst) (HashInput.fields.inj hinput)
      · intro hkeys
        rw [Table.eq_of_keys_eq hkeys fun _ => hperm.mem_iff.1]
    rw [toDraft, toDraft, Definition.compare_toDraft, if_pos (Definition.same_iff.2 (.struct hperm)),
      beq_eq_decide]
    exact congrArg some (decide_eq_decide.2 horder)

/-- Two parts are the same just when they are rearrangements of each other.  Then their hashes are
equal, whatever the hashing, if and only if their fields come in one order; with the fields in
different orders they are equal by a collision at most. -/
theorem same_iff_and_hash_eq_iff (a b : Part) :
    ((a.toDraft.compare b.toDraft).same = true ↔ a.Rearranges b) ∧
      (a.Rearranges b →
        ((∀ H, a.hash H = b.hash H) ↔ a.fieldNames = b.fieldNames) ∧
        (∀ H : Hashing, H.Injective → a.hash H = b.hash H → a.fieldNames = b.fieldNames) ∧
        (a.toDraft.compare b.toDraft).sameHash = some (decide (a.fieldNames = b.fieldNames))) := by
  refine ⟨same_compare_iff, fun h => ⟨⟨fun hhash => ?_, fun hnames H => ?_⟩, ?_, ?_⟩⟩
  · exact h.fieldNames_eq_of_hash_eq Hashing.injective_numbering (hhash _)
  · rw [h.eq_of_fieldNames_eq hnames]
  · exact fun H hH => h.fieldNames_eq_of_hash_eq hH
  · exact h.sameHash_compare

/-- A struct whose fields are neither optional nor nullable. -/
def ofTypes (types : List (String × Node)) : Part :=
  .definition (.struct (.ofList (types.map fun entry => (entry.1, ⟨entry.2, false, false⟩))))

theorem same_iff_and_hash_eq_iff_swapped :
    (ofTypes [("x", .scalar .int), ("y", .scalar .string)]).Rearranges
        (ofTypes [("y", .scalar .string), ("x", .scalar .int)]) ∧
      Hashing.numbering.Injective ∧
      ¬ (∃ H : Hashing, H.Injective ∧
        (ofTypes [("x", .scalar .int), ("y", .scalar .string)]).hash H =
          (ofTypes [("y", .scalar .string), ("x", .scalar .int)]).hash H) := by
  have hswapped : (ofTypes [("x", .scalar .int), ("y", .scalar .string)]).Rearranges
      (ofTypes [("y", .scalar .string), ("x", .scalar .int)]) := .struct (.swap _ _ _)
  refine ⟨hswapped, Hashing.injective_numbering, ?_⟩
  rintro ⟨H, hH, hhash⟩
  have hnames := ((same_iff_and_hash_eq_iff _ _).2 hswapped).2.1 H hH hhash
  exact absurd hnames (by decide)

/-- Two structs with the same fields are the same, and yet their hashes differ. -/
theorem hash_ne_of_same :
    (ofTypes [("x", .scalar .int), ("y", .scalar .string)]).toDraft.compare
        (ofTypes [("y", .scalar .string), ("x", .scalar .int)]).toDraft = ⟨true, some false⟩ ∧
      (ofTypes [("x", .scalar .int), ("y", .scalar .string)]).hash .numbering ≠
        (ofTypes [("y", .scalar .string), ("x", .scalar .int)]).hash .numbering := by
  constructor
  · decide
  · intro hhash
    have hnames := Definition.keys_eq_of_hash_eq Hashing.injective_numbering hhash
    exact absurd hnames (by decide)

end Part

end Ipld
