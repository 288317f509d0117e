import Ipld.Error
import Ipld.Table

/-!
# Schemas

A schema binds type names to definitions.  A definition is a scalar, a struct with named fields, an
enum of member names, or a node: a list, a map, a link or a reference to another type.  Nodes nest;
structs and enums do not, they are referred to by name.
-/

namespace Ipld

inductive Scalar where
  | bool
  | int
  | float
  | string
  | bytes
  deriving DecidableEq, Repr

namespace Scalar

def keyword : Scalar → String
  | .bool => "Bool"
  | .int => "Int"
  | .float => "Float"
  | .string => "String"
  | .bytes => "Bytes"

def lower : Scalar → String
  | .bool => "bool"
  | .int => "int"
  | .float => "float"
  | .string => "string"
  | .bytes => "bytes"

def upper : Scalar → String
  | .bool => "BOOL"
  | .int => "INT"
  | .float => "FLOAT"
  | .string => "STRING"
  | .bytes => "BYTES"

def all : List Scalar :=
  [.bool, .int, .float, .string, .bytes]

def ofKeyword? (word : String) : Option Scalar :=
  all.find? (·.keyword = word)

theorem mem_all (k : Scalar) : k ∈ all := by
  cases k <;> decide

end Scalar

/-- The type of a value that stands somewhere in a schema. -/
inductive Node where
  | scalar (kind : Scalar)
  /-- A link to a value of the named type. -/
  | link (target : String)
  /-- A type of the schema, by its name. -/
  | ref (name : String)
  | list (value : Node) (nullable : Bool)
  /-- A map; its keys are always strings. -/
  | map (value : Node) (nullable : Bool)
  deriving DecidableEq, Repr

structure Field where
  type : Node
  optional : Bool
  nullable : Bool
  deriving DecidableEq, Repr

/-- What a type name stands for. -/
inductive Definition where
  | scalar (kind : Scalar)
  | struct (fields : Table Field)
  | enum (members : List String)
  /-- A node under a name; `advanced` when it carries the annotation
  `representation advanced RMT`. -/
  | node (value : Node) (advanced : Bool)
  deriving DecidableEq

/-- The types of one source, and the log of its declarations. -/
structure Schema where
  /-- The last definition of each name, names in order of their first declaration. -/
  types : Table Definition
  /-- Every declared name in source order, repeats included. -/
  declared : List String
  deriving DecidableEq

namespace Schema

def empty : Schema :=
  ⟨.empty, []⟩

def add (s : Schema) (name : String) (definition : Definition) : Schema :=
  ⟨s.types.insert name definition, s.declared ++ [name]⟩

def ofDeclarations (declarations : List (String × Definition)) : Schema :=
  declarations.foldl (fun s d => s.add d.1 d.2) empty

def get? (s : Schema) (name : String) : Option Definition :=
  s.types.get? name

/-- The definition of a name that has to be there. -/
def lookup (s : Schema) (name : String) : Except Fault Definition :=
  match s.get? name with
  | some definition => .ok definition
  | none => .error (.unknownName name)

def contains (s : Schema) (name : String) : Bool :=
  s.types.contains name

/-- The declared names, each once. -/
def names (s : Schema) : List String :=
  s.types.keys

def size (s : Schema) : Nat :=
  s.types.size

/-- The names that a log repeats, in the order of their first repeat; `seen` are the names met
before, `repeated` the repeats already found. -/
def repeats (seen repeated : List String) : List String → List String
  | [] => repeated
  | name :: rest =>
    repeats (name :: seen)
      (if name ∈ seen ∧ name ∉ repeated then repeated ++ [name] else repeated) rest

/-- The names declared more than once, in the order of their first repeat. -/
def duplicates (s : Schema) : List String :=
  repeats [] [] s.declared

end Schema

/-! ## Sameness

Two structs are the same when they bind the same fields, in whatever order; a hash, however, is
computed from the fields as they come. -/

/-- Whether two definitions are the same: fields of a struct are compared without regard to
order. -/
def Definition.same : Definition → Definition → Bool
  | .struct fields, .struct fields' => fields.same (fun f g => f == g) fields'
  | a, b => a == b

/-- What the hash of a definition is computed from. -/
inductive HashInput where
  | scalar (kind : Scalar)
  | fields (entries : List (String × Field))
  | members (names : List String)
  | node (value : Node) (advanced : Bool)
  deriving DecidableEq

/-- What the hash of a definition is computed from; the fields of a struct come in their order. -/
def Definition.hashInput : Definition → HashInput
  | .scalar kind => .scalar kind
  | .struct fields => .fields fields.entries
  | .enum members => .members members
  | .node value advanced => .node value advanced

/-- Whether two schemas bind the same names to the same definitions. -/
def Schema.sameTypes (s t : Schema) : Bool :=
  s.types.same Definition.same t.types

/-- Whether two schemas are the same: the same types, and the same log. -/
def Schema.same (s t : Schema) : Bool :=
  s.sameTypes t && s.declared == t.declared

end Ipld
