import Ipld.Plain
import Ipld.Proofs.Schema.Source

/-!
# Reading plain data back

A scalar and a reference have the same plain form, a text, and so have a reference and a definition
that is a scalar node.  They are told apart because no name of a well-formed schema is reserved and
no definition is a scalar node; with that, the types of a schema are found again in its plain form,
in their order.
-/

namespace Ipld

/-! ## The decoder -/

namespace Scalar

def ofLower? (word : String) : Option Scalar :=
  all.find? (·.lower = word)

end Scalar

/-- What a text stands for: a scalar when it is a scalar's keyword, else a reference. -/
def Node.ofWord (word : String) : Node :=
  match Scalar.ofKeyword? word with
  | some kind => .scalar kind
  | none => .ref word

def Node.ofPlain? : Plain → Option Node
  | .text word => some (.ofWord word)
  | .mapping [("link", .mapping [("expectedType", .text target)])] => some (.link target)
  | .mapping [("list", .mapping [("valueType", value), ("valueNullable", .flag nullable)])] =>
    (ofPlain? value).map fun node => .list node nullable
  | .mapping [("map", .mapping [("keyType", .text "String"), ("valueType", value),
      ("valueNullable", .flag nullable)])] =>
    (ofPlain? value).map fun node => .map node nullable
  | _ => none

def Field.ofPlain? : Plain → Option Field
  | .mapping [("type", type), ("optional", .flag optional), ("nullable", .flag nullable)] =>
    (Node.ofPlain? type).map fun node => ⟨node, optional, nullable⟩
  | _ => none

/-- A table from a mapping, when each of its values can be decoded. -/
def Table.ofPlain? {α : Type} (decode : Plain → Option α) : Plain → Option (Table α)
  | .mapping entries =>
    (entries.mapM fun entry => (decode entry.2).map fun value => (entry.1, value)).map .ofList
  | _ => none

def Definition.ofEntries? : List (String × Plain) → Option Definition
  | [("struct", .mapping [("fields", fields)])] =>
    (Table.ofPlain? Field.ofPlain? fields).map .struct
  | [("enum", .mapping [("members", .texts members)])] => some (.enum members)
  | [("ref", .text name)] => some (.node (.ref name) false)
  | [(word, .mapping [])] => (Scalar.ofLower? word).map .scalar
  | [entry] => (Node.ofPlain? (.mapping [entry])).map fun value => .node value false
  | [entry, ("representation", _)] =>
    (Node.ofPlain? (.mapping [entry])).map fun value => .node value true
  | _ => none

def Definition.ofPlain? : Plain → Option Definition
  | .mapping entries => ofEntries? entries
  | _ => none

/-- The types of a schema in plain form. -/
def Plain.types? : Plain → Option (Table Definition)
  | .mapping [("types", types)] => Table.ofPlain? Definition.ofPlain? types
  | _ => none

/-! ## Texts -/

theorem Node.ofWord_keyword (kind : Scalar) : Node.ofWord kind.keyword = .scalar kind := by
  cases kind <;> decide

theorem Node.ofWord_of_isIdentifier {name : String} (h : IsIdentifier name) :
    Node.ofWord name = .ref name := by
  have hnone : Scalar.ofKeyword? name = none := by
    refine List.find?_eq_none.2 fun kind _ heq => h.2 ?_
    rw [← of_decide_eq_true heq]
    exact keyword_mem_keywords kind
  rw [Node.ofWord, hnone]

/-! ## Decoding undoes encoding -/

theorem Node.ofPlain?_toPlain {value : Node} (h : value.Named) :
    Node.ofPlain? value.toPlain = some value := by
  induction value with
  | scalar kind => rw [Node.toPlain, Node.ofPlain?, Node.ofWord_keyword]
  | link target => rw [Node.toPlain, Node.ofPlain?]
  | ref name => rw [Node.toPlain, Node.ofPlain?, Node.ofWord_of_isIdentifier h]
  | list value nullable ih => rw [Node.toPlain, Node.ofPlain?, ih h, Option.map_some]
  | map value nullable ih => rw [Node.toPlain, Node.ofPlain?, ih h, Option.map_some]

-- A reserved name would be taken for the scalar.
example : (Node.ref "Int").toPlain = (Node.scalar .int).toPlain := rfl

theorem Field.ofPlain?_toPlain {f : Field} (h : f.type.Named) :
    Field.ofPlain? f.toPlain = some f := by
  rw [Field.toPlain, Field.ofPlain?, Node.ofPlain?_toPlain h, Option.map_some]

/-- A table whose values can be decoded is found again, in its order. -/
theorem Table.ofPlain?_mapping {α : Type} {encode : α → Plain} {decode : Plain → Option α}
    {t : Table α} (h : ∀ e ∈ t.entries, decode (encode e.2) = some e.2) :
    Table.ofPlain? decode (.mapping (t.entries.map fun e => (e.1, encode e.2))) = some t := by
  have hentries : ∀ entries : List (String × α),
      (∀ e ∈ entries, decode (encode e.2) = some e.2) →
      (entries.map fun e => (e.1, encode e.2)).mapM
        (fun entry => (decode entry.2).map fun value => (entry.1, value)) = some entries := by
    intro entries hall
    induction entries with
    | nil => rfl
    | cons e entries ih =>
      rw [List.forall_mem_cons] at hall
      rw [List.map_cons, List.mapM_cons, hall.1, ih hall.2]
      rfl
  rw [Table.ofPlain?, hentries t.entries h, Option.map_some, Table.ofList_entries]

/-- A collection is one entry, and the annotation is found behind it. -/
theorem Definition.ofEntries?_collection {value : Node} (h : value.IsCollection)
    (hnamed : value.Named) (advanced : Bool) :
    Definition.ofEntries? (Definition.node value advanced).entries =
      some (.node value advanced) := by
  have hvalue := Node.ofPlain?_toPlain hnamed
  cases h <;> cases advanced
  all_goals exact congrArg (Option.map fun value => Definition.node value _) hvalue

theorem Definition.ofPlain?_toPlain {d : Definition} (h : d.WellFormed) :
    Definition.ofPlain? d.toPlain = some d := by
  rw [Definition.toPlain, Definition.ofPlain?]
  cases d with
  | scalar kind => cases kind <;> decide
  | struct fields =>
    have hfields : Table.ofPlain? Field.ofPlain?
        (.mapping (fields.entries.map fun e => (e.1, e.2.toPlain))) = some fields :=
      Table.ofPlain?_mapping fun e he => Field.ofPlain?_toPlain (h e he).2
    rw [Definition.entries, Definition.ofEntries?, hfields, Option.map_some]
  | enum members => rw [Definition.entries, Definition.ofEntries?]
  | node value advanced =>
    obtain ⟨hnamed, hscalar, hadvanced⟩ := h
    cases value with
    | scalar kind => exact absurd rfl (hscalar kind)
    | link target =>
      cases advanced with
      | false => rfl
      | true => cases hadvanced rfl
    | ref name =>
      cases advanced with
      | false => rfl
      | true => cases hadvanced rfl
    | list value nullable => exact ofEntries?_collection (.list value nullable) hnamed advanced
    | map value nullable => exact ofEntries?_collection (.map value nullable) hnamed advanced

theorem Plain.types?_toPlain {s : Schema} (h : s.WellFormed) : s.toPlain.types? = some s.types := by
  rw [Schema.toPlain, Plain.types?]
  exact Table.ofPlain?_mapping fun e he => Definition.ofPlain?_toPlain (h.definitions e he)

/-- The types of well-formed schemas are told apart by their plain forms. -/
theorem types_eq_of_toPlain_eq {s s' : Schema} (h : s.WellFormed) (h' : s'.WellFormed)
    (hplain : s'.toPlain = s.toPlain) : s'.types = s.types := by
  have htypes : some s'.types = some s.types := by
    rw [← Plain.types?_toPlain h, ← Plain.types?_toPlain h', hplain]
  exact Option.some.inj htypes

/-- **The plain form of a schema that was read has all of its types**: they are decoded from it, so
another schema that was read and has the same plain form has the same types. -/
theorem types?_toPlain_of_parse {source : String} {s : Schema} (h : parse source = .ok s) :
    s.toPlain.types? = some s.types ∧
      ∀ source' s', parse source' = .ok s' → s'.toPlain = s.toPlain → s'.types = s.types := by
  refine ⟨Plain.types?_toPlain (wellFormed_of_parse h), fun source' s' h' hplain => ?_⟩
  exact types_eq_of_toPlain_eq (wellFormed_of_parse h) (wellFormed_of_parse h') hplain

/-- A list of links under one name, and a reference to it under another. -/
def linkList : Schema :=
  .ofDeclarations [("Links", .node (.list (.link "Page") true) true),
    ("Index", .node (.ref "Links") false)]

theorem wellFormed_linkList : linkList.WellFormed := by
  have hpage : IsIdentifier "Page" := by decide
  have hlinks : IsIdentifier "Links" := by decide
  have hindex : IsIdentifier "Index" := by decide
  have hlist : (Definition.node (.list (.link "Page") true) true).WellFormed :=
    ⟨hpage, nofun, fun _ => .list _ _⟩
  have href : (Definition.node (.ref "Links") false).WellFormed := ⟨hlinks, nofun, nofun⟩
  refine wellFormed_ofDeclarations fun d hd => ?_
  rcases List.mem_pair.1 hd with rfl | rfl
  · exact ⟨hlinks, hlist⟩
  · exact ⟨hindex, href⟩

theorem parse_linkList :
    parse " type Links [ nullable & Page ] representation advanced RMT type Index Links" =
      .ok linkList := by
  have hsource : linkList.source =
      " type Links [ nullable & Page ] representation advanced RMT type Index Links" := by
    decide
  rw [← hsource]
  exact wellFormed_linkList.parse_source

theorem types?_toPlain_linkList :
    parse " type Links [ nullable & Page ] representation advanced RMT type Index Links" =
        .ok linkList ∧
      linkList.toPlain.types? = some linkList.types ∧
        ∀ source' s', parse source' = .ok s' → s'.toPlain = linkList.toPlain →
          s'.types = linkList.types :=
  ⟨parse_linkList, types?_toPlain_of_parse parse_linkList⟩

end Ipld
