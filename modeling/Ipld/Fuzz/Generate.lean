import Ipld.Random.Draw

/-!
# Random schemas

A random schema is usually valid: its declarations have the shape of the language, but a random name
may happen to be a keyword.  Names come from a short list more often than not, so that a schema may
refer to its own types and repeat them.
-/

namespace Ipld.Fuzz

open Ipld.Random

variable {σ : Type} [Source σ]

/-- The names that are drawn most. -/
def commonNames : List String :=
  ["Person", "Address", "Color", "name", "age", "friends", "red", "blue", "A", "B", "x_1"]

/-- The keywords of the scalar types. -/
def scalarNames : List String :=
  ["Bool", "String", "Bytes", "Int", "Float"]

/-- The characters of a random name. -/
def nameCharacters : List Char :=
  "abcdefghijklmnopqrstuvwxyzABCDEFGHIJKLMNOPQRSTUVWXYZ0123456789_".toList

def name : Draw σ String := do
  if ← chance 0.7 then choice commonNames
  else
    let length ← between 1 12
    return String.ofList (← choices nameCharacters length)

/-- Nothing, or a word. -/
def maybe (p : Float) (word : String) : Draw σ String := do
  return if ← chance p then word else ""

/-- A node that holds no other: a scalar, a link or a name. -/
def leaf : Draw σ String := do
  match ← between 0 2 with
  | 0 => choice scalarNames
  | 1 => return "&" ++ (← name)
  | _ => name

/-- A node at a given depth; below depth three it holds no other. -/
def node (depth : Int) : Draw σ String := do
  if _h : 3 < depth then leaf
  else if ← chance 0.4 then leaf
  else
    let nullable ← maybe 0.3 "nullable "
    if ← chance 0.5 then return "[" ++ nullable ++ (← node (depth + 1)) ++ "]"
    else return "\x7bString : " ++ nullable ++ (← node (depth + 1)) ++ "\x7d"
termination_by (4 - depth).toNat

def field : Draw σ String := do
  let optional ← maybe 0.3 "optional "
  let nullable ← maybe 0.3 "nullable "
  let fieldName ← name
  return fieldName ++ " " ++ optional ++ nullable ++ (← node 0)

/-- What follows the name of a type. -/
def definition : Draw σ String := do
  let shape ← between 0 7
  let advanced ← maybe 0.2 " representation advanced RMT"
  match shape with
  | 0 => choice scalarNames
  | 1 =>
    let fields ← times (← between 0 4) field
    return "struct \x7b " ++ "\n".intercalate fields ++ " \x7d"
  | 2 =>
    let members ← times (← between 0 4) name
    return "enum \x7b " ++ ", ".intercalate members ++ " \x7d"
  | 3 =>
    let keyword ← maybe 0.5 "map "
    return keyword ++ "\x7bString : " ++ (← node 0) ++ "\x7d" ++ advanced
  | 4 => return "list " ++ (← node 0) ++ advanced
  | 5 => return "[" ++ (← node 0) ++ "]" ++ advanced
  | 6 =>
    let mark ← choice ["link ", "&"]
    return mark ++ (← name)
  | _ => name

def declaration : Draw σ String := do
  let typeName ← name
  return "type " ++ typeName ++ " " ++ (← definition)

def schema : Draw σ String := do
  return "\n".intercalate (← times (← between 1 5) declaration)

end Ipld.Fuzz
