import Ipld.Fuzz.Generate
import Ipld.Proofs.Schema.Source

/-!
# Outlines of random schemas

A random schema is written down while it is drawn.  Here the two are taken apart: first an outline
is drawn, with every name that comes up, and then it is written.  Drawing a schema is drawing its
outline and writing it (`schema_eq`).
-/

namespace Ipld.Fuzz

open Ipld.Random

/-! ## Writing -/

/-- What follows the name of a type. -/
inductive Outline where
  | scalar (kind : Scalar)
  | struct (fields : List (String × Field))
  | enum (members : List String)
  | map (keyword : Bool) (value : Node) (advanced : Bool)
  | list (value : Node) (advanced : Bool)
  | bracketed (value : Node) (advanced : Bool)
  | link (keyword : Bool) (target : String)
  | ref (name : String)
  deriving DecidableEq

/-- A text, or nothing. -/
def optionalText (text : String) (present : Bool) : String :=
  if present then text else ""

def writeNode : Node → String
  | .scalar kind => kind.keyword
  | .link target => "&" ++ target
  | .ref name => name
  | .list value nullable =>
    "[" ++ optionalText "nullable " nullable ++ writeNode value ++ "]"
  | .map value nullable =>
    "\x7bString : " ++ optionalText "nullable " nullable ++ writeNode value ++ "\x7d"

def writeField (field : String × Field) : String :=
  field.1 ++ " " ++ optionalText "optional " field.2.optional ++
    optionalText "nullable " field.2.nullable ++ writeNode field.2.type

def writeAdvanced (advanced : Bool) : String :=
  optionalText " representation advanced RMT" advanced

def Outline.write : Outline → String
  | .scalar kind => kind.keyword
  | .struct fields => "struct \x7b " ++ "\n".intercalate (fields.map writeField) ++ " \x7d"
  | .enum members => "enum \x7b " ++ ", ".intercalate members ++ " \x7d"
  | .map keyword value advanced =>
    optionalText "map " keyword ++ "\x7bString : " ++ writeNode value ++ "\x7d" ++
      writeAdvanced advanced
  | .list value advanced => "list " ++ writeNode value ++ writeAdvanced advanced
  | .bracketed value advanced => "[" ++ writeNode value ++ "]" ++ writeAdvanced advanced
  | .link keyword target => (if keyword then "link " else "&") ++ target
  | .ref name => name

def writeDeclaration (d : String × Outline) : String :=
  "type " ++ d.1 ++ " " ++ d.2.write

def writeSchema (ds : List (String × Outline)) : String :=
  "\n".intercalate (ds.map writeDeclaration)

/-! ## Drawing -/

variable {σ : Type} [Source σ]

/-- The scalars, in the order in which they are drawn. -/
def scalars : List Scalar :=
  [.bool, .string, .bytes, .int, .float]

def drawLeaf : Draw σ Node := do
  match ← between 0 2 with
  | 0 => return .scalar (← choice scalars)
  | 1 => return .link (← name)
  | _ => return .ref (← name)

def drawNode (depth : Int) : Draw σ Node := do
  if _h : 3 < depth then drawLeaf
  else if ← chance 0.4 then drawLeaf
  else
    let nullable ← chance 0.3
    if ← chance 0.5 then return .list (← drawNode (depth + 1)) nullable
    else return .map (← drawNode (depth + 1)) nullable
termination_by (4 - depth).toNat

def drawField : Draw σ (String × Field) := do
  let optional ← chance 0.3
  let nullable ← chance 0.3
  let fieldName ← name
  return (fieldName, ⟨← drawNode 0, optional, nullable⟩)

def drawOutline : Draw σ Outline := do
  let shape ← between 0 7
  let advanced ← chance 0.2
  match shape with
  | 0 => return .scalar (← choice scalars)
  | 1 => return .struct (← times (← between 0 4) drawField)
  | 2 => return .enum (← times (← between 0 4) name)
  | 3 =>
    let keyword ← chance 0.5
    return .map keyword (← drawNode 0) advanced
  | 4 => return .list (← drawNode 0) advanced
  | 5 => return .bracketed (← drawNode 0) advanced
  | 6 =>
    let keyword ← choice [true, false]
    return .link keyword (← name)
  | _ => return .ref (← name)

def drawDeclaration : Draw σ (String × Outline) := do
  let typeName ← name
  return (typeName, ← drawOutline)

def drawSchema : Draw σ (List (String × Outline)) := do
  times (← between 1 5) drawDeclaration

/-! ## Drawing and writing -/

section

variable {α β : Type}

omit [Source σ] in
theorem elementAt_map (f : α → β) (xs : List α) (i : Nat) :
    (elementAt (xs.map f) i : Draw σ β) = f <$> elementAt xs i := by
  rw [elementAt, elementAt, List.getElem?_map]
  cases xs[i]? with
  | none => rfl
  | some x => rfl

theorem choice_map (f : α → β) (xs : List α) :
    (choice (xs.map f) : Draw σ β) = f <$> choice xs := by
  rw [choice, choice, List.length_map, map_bind]
  simp only [elementAt_map]

omit [Source σ] in
theorem times_map (f : α → β) (d : Draw σ α) (count : Nat) :
    times count (f <$> d) = List.map f <$> times count d := by
  induction count with
  | zero => rfl
  | succ count ih => simp only [times, ih, bind_map_left, map_bind, map_pure, List.map_cons]

omit [Source σ] in
theorem map_eq_of_eq_ok {d : Draw σ α} {s s' : σ} {a : α} (f : α → β) (h : d s = (.ok a, s')) :
    (f <$> d) s = (.ok (f a), s') := by
  rw [map_eq_pure_bind]
  simp only [Bind.bind, ExceptT.bind, ExceptT.mk, ExceptT.bindCont, StateT.bind, h]
  rfl

end

theorem maybe_eq (p : Float) (text : String) :
    (maybe p text : Draw σ String) = optionalText text <$> chance p := by
  simp only [maybe, bind_pure_comp]
  rfl

theorem choice_scalarNames :
    (choice scalarNames : Draw σ String) = Scalar.keyword <$> choice scalars :=
  choice_map Scalar.keyword scalars

theorem leaf_eq : (leaf : Draw σ String) = writeNode <$> drawLeaf := by
  rw [leaf, drawLeaf, map_bind]
  congr 1
  funext shape
  match shape with
  | 0 => simp only [choice_scalarNames, bind_pure_comp, Functor.map_map, writeNode]
  | 1 => simp only [bind_pure_comp, Functor.map_map, writeNode]
  | n + 2 => simp only [bind_pure_comp, Functor.map_map, writeNode, id_map']

theorem node_eq (depth : Int) : (node depth : Draw σ String) = writeNode <$> drawNode depth := by
  rw [node, drawNode]
  split
  · exact leaf_eq
  · rw [map_bind]
    congr 1
    funext flat
    cases flat with
    | true => exact leaf_eq
    | false =>
      simp only [Bool.false_eq_true, if_false, maybe_eq, bind_map_left, map_bind]
      congr 1
      funext nullable
      congr 1
      funext bracketed
      cases bracketed
      all_goals
        rw [node_eq (depth + 1)]
        simp only [Bool.false_eq_true, if_false, if_true, bind_pure_comp, Functor.map_map,
          writeNode]
termination_by (4 - depth).toNat

theorem field_eq : (field : Draw σ String) = writeField <$> drawField := by
  simp only [field, drawField, maybe_eq, node_eq, bind_map_left, map_bind, bind_pure_comp,
    Functor.map_map, writeField]

theorem definition_eq : (definition : Draw σ String) = Outline.write <$> drawOutline := by
  have hmark : (choice ["link ", "&"] : Draw σ String) =
      (fun keyword => if keyword then "link " else "&") <$> choice [true, false] :=
    choice_map (fun keyword : Bool => if keyword then "link " else "&") [true, false]
  rw [definition, drawOutline, map_bind]
  congr 1
  funext shape
  rw [maybe_eq, bind_map_left, map_bind]
  congr 1
  funext advanced
  match shape with
  | 0 => simp only [choice_scalarNames, bind_pure_comp, Functor.map_map, Outline.write]
  | 1 =>
    simp only [field_eq, times_map, map_bind, bind_pure_comp, Functor.map_map, Outline.write]
  | 2 => simp only [map_bind, bind_pure_comp, Functor.map_map, Outline.write]
  | 3 =>
    simp only [maybe_eq, node_eq, bind_map_left, map_bind, bind_pure_comp, Functor.map_map,
      Outline.write, writeAdvanced]
  | 4 => simp only [node_eq, bind_pure_comp, Functor.map_map, Outline.write, writeAdvanced]
  | 5 => simp only [node_eq, bind_pure_comp, Functor.map_map, Outline.write, writeAdvanced]
  | 6 => simp only [hmark, bind_map_left, map_bind, bind_pure_comp, Functor.map_map, Outline.write]
  | n + 7 => simp only [bind_pure_comp, Functor.map_map, Outline.write, id_map']

theorem declaration_eq : (declaration : Draw σ String) = writeDeclaration <$> drawDeclaration := by
  simp only [declaration, drawDeclaration, definition_eq, map_bind, bind_pure_comp,
    Functor.map_map, writeDeclaration]

/-- **Drawing a schema is drawing its outline and writing it.** -/
theorem schema_eq : (schema : Draw σ String) = writeSchema <$> drawSchema := by
  simp only [schema, drawSchema, declaration_eq, times_map, map_bind, bind_pure_comp,
    Functor.map_map]
  rfl

end Ipld.Fuzz
