import Ipld.Error
import Ipld.Schema

/-!
# Drafts

A draft is a schema, or a part of one, that was put together by hand: any part, and even a foreign
value that is no part of a schema at all, may stand where another is wanted.  A draft can be
described as it is.  Before anything else is done with it, it is checked; the first part, outermost
and leftmost, that does not belong where it stands is reported with its description.
-/

namespace Ipld

open Text

/-- A value that is no part of a schema. -/
inductive Foreign where
  | nothing
  | flag (value : Bool)
  | number (value : Int)
  | text (value : String)
  deriving DecidableEq, Repr

mutual

/-- A schema or a part of one, of which nothing is known yet. -/
inductive Draft where
  | foreign (value : Foreign)
  | scalarNode (kind : Scalar)
  | link (target : String)
  | ref (name : String)
  | list (value : Draft) (nullable : Bool)
  | map (value : Draft) (nullable : Bool)
  | field (type : Draft) (optional nullable : Bool)
  | scalarType (kind : Scalar)
  | struct (fields : Drafts)
  | enum (members : List String)
  | nodeType (value : Draft) (advanced : Bool)
  | schema (types : Drafts) (declared : List String)

/-- Drafts under names, in order. -/
inductive Drafts where
  | nil
  | cons (name : String) (draft : Draft) (rest : Drafts)

end

namespace Drafts

/-- Binds a name: in place when it is there, at the end when it is not. -/
def put (name : String) (draft : Draft) : Drafts → Drafts
  | nil => cons name draft nil
  | cons key old rest =>
    if key = name then cons key draft rest else cons key old (put name draft rest)

/-- The drafts of a list, each bound after the ones before. -/
def ofList (entries : List (String × Draft)) : Drafts :=
  entries.foldl (fun ds entry => ds.put entry.1 entry.2) nil

/-- The drafts of a list as they come. -/
def ofEntries : List (String × Draft) → Drafts
  | [] => nil
  | (name, draft) :: rest => cons name draft (ofEntries rest)

def size : Drafts → Nat
  | nil => 0
  | cons _ _ rest => rest.size + 1

end Drafts

/-! ## Descriptions -/

/-- The word for a truth value. -/
def describeFlag (b : Bool) : String :=
  if b then "True" else "False"

/-- A scalar type as a member of its enumeration. -/
def Scalar.describe (kind : Scalar) : String :=
  "<ScalarKind." ++ kind.upper ++ ": " ++ quote kind.keyword ++ ">"

/-- Strings in quotes, between brackets. -/
def describeNames (names : List String) : String :=
  "[" ++ ", ".intercalate (names.map quote) ++ "]"

def Foreign.describe : Foreign → String
  | .nothing => "None"
  | .flag b => describeFlag b
  | .number n => renderInt n
  | .text s => quote s

mutual

/-- A draft in full: the kind of each part, and its contents by name. -/
def Draft.describe : Draft → String
  | .foreign value => value.describe
  | .scalarNode kind => "ScalarNode(kind=" ++ kind.describe ++ ")"
  | .link target => "LinkNode(expected_type=" ++ quote target ++ ")"
  | .ref name => "TypeRef(name=" ++ quote name ++ ")"
  | .list value nullable =>
    "ListNode(value_type=" ++ value.describe ++ ", value_nullable=" ++ describeFlag nullable ++ ")"
  | .map value nullable =>
    "MapNode(value_type=" ++ value.describe ++ ", value_nullable=" ++ describeFlag nullable ++ ")"
  | .field type optional nullable =>
    "FieldDefinition(type=" ++ type.describe ++ ", optional=" ++ describeFlag optional ++
      ", value_nullable=" ++ describeFlag nullable ++ ")"
  | .scalarType kind => "ScalarType(kind=" ++ kind.describe ++ ")"
  | .struct fields => "StructType(fields=\x7b" ++ ", ".intercalate fields.describe ++ "\x7d)"
  | .enum members => "EnumType(values=" ++ describeNames members ++ ")"
  | .nodeType value advanced =>
    "NodeType(value=" ++ value.describe ++ ", advanced=" ++ describeFlag advanced ++ ")"
  | .schema types declared =>
    "ParsedSchema(types=\x7b" ++ ", ".intercalate types.describe ++ "\x7d, declared=" ++
      describeNames declared ++ ")"

/-- Each name with what it is bound to. -/
def Drafts.describe : Drafts → List String
  | .nil => []
  | .cons name draft rest => (quote name ++ ": " ++ draft.describe) :: rest.describe

end

/-! ## Checked parts as drafts -/

def Node.toDraft : Node → Draft
  | .scalar kind => .scalarNode kind
  | .link target => .link target
  | .ref name => .ref name
  | .list value nullable => .list value.toDraft nullable
  | .map value nullable => .map value.toDraft nullable

def Field.toDraft (f : Field) : Draft :=
  .field f.type.toDraft f.optional f.nullable

def Definition.toDraft : Definition → Draft
  | .scalar kind => .scalarType kind
  | .struct fields => .struct (.ofEntries (fields.entries.map fun e => (e.1, e.2.toDraft)))
  | .enum members => .enum members
  | .node value advanced => .nodeType value.toDraft advanced

def Schema.toDraft (s : Schema) : Draft :=
  .schema (.ofEntries (s.types.entries.map fun e => (e.1, e.2.toDraft))) s.declared

def Schema.describe (s : Schema) : String :=
  s.toDraft.describe

/-! ## Checking -/

namespace Draft

def toNode : Draft → Except Fault Node
  | .scalarNode kind => .ok (.scalar kind)
  | .link target => .ok (.link target)
  | .ref name => .ok (.ref name)
  | .list value nullable => do return .list (← value.toNode) nullable
  | .map value nullable => do return .map (← value.toNode) nullable
  | other => .error (.notNode other.describe)

def toField : Draft → Except Fault Field
  | .field type optional nullable => do return ⟨← type.toNode, optional, nullable⟩
  | other => .error (.notNode other.describe)

/-- The drafts as fields, bound after those in `found`. -/
def toFields (found : Table Field) : Drafts → Except Fault (Table Field)
  | .nil => .ok found
  | .cons name draft rest => do toFields (found.insert name (← draft.toField)) rest

def toDefinition : Draft → Except Fault Definition
  | .scalarType kind => .ok (.scalar kind)
  | .struct fields => do return .struct (← toFields .empty fields)
  | .enum members => .ok (.enum members)
  | .nodeType value advanced => do return .node (← value.toNode) advanced
  | other => .error (.notDefinition other.describe)

/-- The drafts as definitions, bound after those in `found`. -/
def toTypes (found : Table Definition) : Drafts → Except Fault (Table Definition)
  | .nil => .ok found
  | .cons name draft rest => do toTypes (found.insert name (← draft.toDefinition)) rest

def toSchema : Draft → Except Fault Schema
  | .schema types declared => do return ⟨← toTypes .empty types, declared⟩
  | other => .error (.notDefinition other.describe)

end Draft

/-! ## Comparing drafts

Drafts are compared part by part, named parts without regard to order.  A truth value counts as the
number zero or one. -/

/-- A foreign value with truth values taken for numbers. -/
def Foreign.normal : Foreign → Foreign
  | .flag b => .number (if b then 1 else 0)
  | other => other

mutual

def Draft.same : Draft → Draft → Bool
  | .foreign v, .foreign w => v.normal == w.normal
  | .scalarNode k, .scalarNode l => k == l
  | .link t, .link u => t == u
  | .ref n, .ref m => n == m
  | .list v b, .list w c => v.same w && b == c
  | .map v b, .map w c => v.same w && b == c
  | .field v o b, .field w p c => v.same w && o == p && b == c
  | .scalarType k, .scalarType l => k == l
  | .struct fs, .struct gs => fs.size == gs.size && fs.within gs
  | .enum m, .enum n => m == n
  | .nodeType v a, .nodeType w b => v.same w && a == b
  | .schema ts d, .schema us e => ts.size == us.size && ts.within us && d == e
  | _, _ => false

/-- Whether every name is bound to the same in another list of drafts. -/
def Drafts.within : Drafts → Drafts → Bool
  | .nil, _ => true
  | .cons name draft rest, others =>
    draft.boundIn name others && rest.within others

/-- Whether a name is bound to a draft that is the same. -/
def Draft.boundIn (draft : Draft) (name : String) : Drafts → Bool
  | .nil => false
  | .cons key other rest => if key = name then draft.same other else draft.boundIn name rest

end

mutual

/-- What the hash of a draft is computed from, named parts in their order. -/
def Draft.hashInput : Draft → List Foreign
  | .foreign v => [v.normal]
  | .scalarNode k => [.text k.keyword]
  | .link t => [.text t]
  | .ref n => [.text n]
  | .list v b => v.hashInput ++ [(Foreign.flag b).normal]
  | .map v b => v.hashInput ++ [(Foreign.flag b).normal]
  | .field v o b => v.hashInput ++ [(Foreign.flag o).normal, (Foreign.flag b).normal]
  | .scalarType k => [.text k.keyword]
  | .struct fs => fs.hashInput
  | .enum m => m.map .text
  | .nodeType v a => v.hashInput ++ [(Foreign.flag a).normal]
  | .schema ts d => ts.hashInput ++ d.map .text

/-- What the hash of named drafts is computed from. -/
def Drafts.hashInput : Drafts → List Foreign
  | .nil => []
  | .cons name draft rest => .text name :: draft.hashInput ++ rest.hashInput

end

/-- Whether two drafts are the same, and, if so, whether their hashes are.  Schemas have no hash. -/
structure Comparison where
  same : Bool
  sameHash : Option Bool
  deriving DecidableEq, Repr

namespace Draft

/-- Compares two drafts: as definitions when both are well formed, else part by part. -/
def compare (a b : Draft) : Comparison :=
  match a.toSchema, b.toSchema, a.toDefinition, b.toDefinition with
  | .ok s, .ok t, _, _ => ⟨s.same t, none⟩
  | _, _, .ok d, .ok e =>
    if d.same e then ⟨true, some (d.hashInput == e.hashInput)⟩ else ⟨false, none⟩
  | _, _, _, _ =>
    match a.same b, a with
    | false, _ => ⟨false, none⟩
    | true, .schema .. => ⟨true, none⟩
    | true, _ => ⟨true, some (a.hashInput == b.hashInput)⟩

end Draft

end Ipld
