import Ipld.Schema

/-!
# Plain data

The plain form of a schema is made of texts, truth values, lists of texts and mappings, so that it
can be written in any data format.  Mappings keep their order.

Scalars and references become their name; every other node becomes a mapping with one key, its kind.
A definition always becomes a mapping: a name is wrapped as a reference, and the annotation is added
as a further key.
-/

namespace Ipld

/-- Texts, truth values, lists of texts and mappings. -/
inductive Plain where
  | text (value : String)
  | flag (value : Bool)
  | texts (values : List String)
  | mapping (entries : List (String × Plain))
  deriving Repr

def Node.toPlain : Node → Plain
  | .scalar kind => .text kind.keyword
  | .ref name => .text name
  | .link target => .mapping [("link", .mapping [("expectedType", .text target)])]
  | .list value nullable =>
    .mapping [("list", .mapping [
      ("valueType", value.toPlain),
      ("valueNullable", .flag nullable)])]
  | .map value nullable =>
    .mapping [("map", .mapping [
      ("keyType", .text "String"),
      ("valueType", value.toPlain),
      ("valueNullable", .flag nullable)])]

def Field.toPlain (f : Field) : Plain :=
  .mapping [
    ("type", f.type.toPlain),
    ("optional", .flag f.optional),
    ("nullable", .flag f.nullable)]

/-- The entries of a definition that is a node; a name is wrapped as a reference. -/
def Plain.asReference : Plain → List (String × Plain)
  | .mapping entries => entries
  | other => [("ref", other)]

/-- The entries of a definition in plain form. -/
def Definition.entries : Definition → List (String × Plain)
  | .scalar kind => [(kind.lower, .mapping [])]
  | .struct fields =>
    [("struct", .mapping [
      ("fields", .mapping (fields.entries.map fun e => (e.1, e.2.toPlain)))])]
  | .enum members => [("enum", .mapping [("members", .texts members)])]
  | .node value advanced =>
    value.toPlain.asReference ++
      if advanced then [("representation", .mapping [("advanced", .text "RMT")])] else []

def Definition.toPlain (d : Definition) : Plain :=
  .mapping d.entries

/-- A schema in plain form: its types; the log of declarations is not part of it. -/
def Schema.toPlain (s : Schema) : Plain :=
  .mapping [("types", .mapping (s.types.entries.map fun e => (e.1, e.2.toPlain)))]

end Ipld
