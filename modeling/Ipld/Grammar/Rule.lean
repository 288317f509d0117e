import Ipld.Error
import Ipld.Grammar.Terminal
import Ipld.Schema

/-!
# The grammar

The grammar is data.  A rule has productions, each of which begins with a terminal of its own, and
it may also stand for nothing at all.  No two productions of a rule begin with the same terminal, so
the next terminal always decides which production is meant.

Every rule denotes a value, and a production says how its value comes from those of its parts.  A
map key may be any scalar keyword or any name as far as the grammar goes; that it has to be `String`
is a condition on values, so whatever contains a node may denote the failure of that condition
instead.  Parts are taken in source order, so the first bad key is the one reported.
-/

namespace Ipld.Grammar

inductive Rule where
  /-- Any number of declarations. -/
  | declarations
  /-- What follows the name of a type. -/
  | definition
  /-- The annotation of a list or map, or nothing. -/
  | representation
  /-- Any number of fields. -/
  | fields
  | optional
  | nullable
  /-- The members of an enum, or nothing. -/
  | members
  /-- What follows a member. -/
  | moreMembers
  | node
  | mapKey
  deriving DecidableEq, Repr

inductive Symbol where
  | terminal (t : Terminal)
  | rule (r : Rule)
  deriving DecidableEq, Repr

/-- A value, unless a map key spoils it. -/
abbrev Checked (α : Type) := Except SchemaError α

/-- What a rule denotes. -/
abbrev Rule.Value : Rule → Type
  | .declarations => Checked (List (String × Definition))
  | .definition => Checked Definition
  | .representation => Bool
  | .fields => Checked (List (String × Field))
  | .optional => Bool
  | .nullable => Bool
  | .members => List String
  | .moreMembers => List String
  | .node => Checked Node
  | .mapKey => Checked Unit

/-- What a symbol denotes: a terminal its lexeme. -/
abbrev Symbol.Value : Symbol → Type
  | .terminal _ => Lexeme
  | .rule r => r.Value

/-- The values of a list of symbols. -/
abbrev Values : List Symbol → Type
  | [] => Unit
  | s :: rest => s.Value × Values rest

/-- The values of two lists of symbols, from those of both together. -/
def Values.split : (xs : List Symbol) → {ys : List Symbol} → Values (xs ++ ys) →
    Values xs × Values ys
  | [], _, vs => ((), vs)
  | _ :: xs, _, (v, vs) =>
    let parts := Values.split xs vs
    ((v, parts.1), parts.2)

/-- A production: the terminal it begins with, what follows, and the value of it all. -/
structure Production (r : Rule) where
  lead : Terminal
  body : List Symbol
  value : Lexeme → Values body → r.Value

/-! ## The productions -/

/-- A production that is a terminal alone. -/
def Production.single {r : Rule} (lead : Terminal) (value : Lexeme → r.Value) : Production r :=
  ⟨lead, [], fun lexeme _ => value lexeme⟩

/-- The terminals of the scalar types. -/
def scalarTerminals : List (Terminal × Scalar) :=
  [(.bool, .bool), (.string, .string), (.bytes, .bytes), (.int, .int), (.float, .float)]

/-- What stands inside the braces of a map, the closing brace, and the symbols `rest`. -/
abbrev mapBody (rest : List Symbol) : List Symbol :=
  .rule .mapKey :: .terminal .colon :: .rule .nullable :: .rule .node :: .terminal .rbrace :: rest

/-- The map with the given key and value. -/
def mapNode (key : Checked Unit) (nullable : Bool) (value : Checked Node) : Checked Node := do
  key
  return .map (← value) nullable

/-- The list with the given value. -/
def listNode (nullable : Bool) (value : Checked Node) : Checked Node := do
  return .list (← value) nullable

/-- A node as a definition. -/
def nodeDefinition (value : Checked Node) (advanced : Bool) : Checked Definition := do
  return .node (← value) advanced

/-- A map key other than `String` spoils the map. -/
def otherKey (key : Lexeme) : Checked Unit :=
  .error (.keyType key.text key.line)

def Rule.productions : (r : Rule) → List (Production r)
  | .declarations => [
    ⟨.type, [.terminal .ident, .rule .definition, .rule .declarations],
      fun _ (name, value, rest, _) => do
        let first ← value
        return (name.text, first) :: (← rest)⟩]
  | .definition =>
    (scalarTerminals.map fun (t, kind) => .single t fun _ => .ok (.scalar kind)) ++ [
    ⟨.struct, [.terminal .lbrace, .rule .fields, .terminal .rbrace],
      fun _ (_, entries, _, _) => do return .struct (.ofList (← entries))⟩,
    ⟨.enum, [.terminal .lbrace, .rule .members, .terminal .rbrace],
      fun _ (_, names, _, _) => .ok (.enum names)⟩,
    ⟨.map, .terminal .lbrace :: mapBody [.rule .representation],
      fun _ (_, key, _, mayBeNull, value, _, advanced, _) =>
        nodeDefinition (mapNode key mayBeNull value) advanced⟩,
    ⟨.lbrace, mapBody [.rule .representation],
      fun _ (key, _, mayBeNull, value, _, advanced, _) =>
        nodeDefinition (mapNode key mayBeNull value) advanced⟩,
    ⟨.list, [.rule .nullable, .rule .node, .rule .representation],
      fun _ (mayBeNull, value, advanced, _) =>
        nodeDefinition (listNode mayBeNull value) advanced⟩,
    ⟨.lsqb, [.rule .nullable, .rule .node, .terminal .rsqb, .rule .representation],
      fun _ (mayBeNull, value, _, advanced, _) =>
        nodeDefinition (listNode mayBeNull value) advanced⟩,
    ⟨.link, [.terminal .ident], fun _ (target, _) => .ok (.node (.link target.text) false)⟩,
    ⟨.ampersand, [.terminal .ident], fun _ (target, _) => .ok (.node (.link target.text) false)⟩,
    .single .ident fun name => .ok (.node (.ref name.text) false)]
  | .representation => [
    ⟨.representation, [.terminal .advanced, .terminal .rmt], fun _ _ => true⟩]
  | .fields => [
    ⟨.ident, [.rule .optional, .rule .nullable, .rule .node, .rule .fields],
      fun name (mayBeAbsent, mayBeNull, value, rest, _) => do
        let field : Field := ⟨← value, mayBeAbsent, mayBeNull⟩
        return (name.text, field) :: (← rest)⟩]
  | .optional => [.single .optional fun _ => true]
  | .nullable => [.single .nullable fun _ => true]
  | .members => [
    ⟨.ident, [.rule .moreMembers], fun name (rest, _) => name.text :: rest⟩]
  | .moreMembers => [
    ⟨.comma, [.rule .members], fun _ (rest, _) => rest⟩]
  | .node =>
    (scalarTerminals.map fun (t, kind) => .single t fun _ => .ok (.scalar kind)) ++ [
    ⟨.lsqb, [.rule .nullable, .rule .node, .terminal .rsqb],
      fun _ (mayBeNull, value, _, _) => listNode mayBeNull value⟩,
    ⟨.lbrace, mapBody [],
      fun _ (key, _, mayBeNull, value, _, _) => mapNode key mayBeNull value⟩,
    ⟨.ampersand, [.terminal .ident], fun _ (target, _) => .ok (.link target.text)⟩,
    .single .ident fun name => .ok (.ref name.text)]
  | .mapKey => [
    .single .string fun _ => .ok (),
    .single .bool otherKey, .single .bytes otherKey, .single .int otherKey,
    .single .float otherKey, .single .ident otherKey]

/-- The value of a rule that stands for nothing, when it may. -/
def Rule.empty? : (r : Rule) → Option r.Value
  | .declarations => some (.ok [])
  | .definition => none
  | .representation => some false
  | .fields => some (.ok [])
  | .optional => some false
  | .nullable => some false
  | .members => some []
  | .moreMembers => some []
  | .node => none
  | .mapKey => none

/-- The terminals that a rule can begin with. -/
def Rule.leads (r : Rule) : List Terminal :=
  r.productions.map Production.lead

end Ipld.Grammar
