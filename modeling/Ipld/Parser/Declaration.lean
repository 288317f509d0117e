import Ipld.Parser.Node

/-!
# Reading declarations

A source is a sequence of declarations `type Name Definition`.  A list or a map may be followed by
the annotation `representation advanced RMT`, which is taken whole or not at all; an annotation that
is left over after a definition, because it is broken off or not allowed there, is refused.

The two loops, over the fields of a struct and over the members of an enum, go on until they meet
the closing brace.
-/

namespace Ipld.Parser

/-- The words of the one annotation there is. -/
def advancedAnnotation : List String :=
  ["representation", "advanced", "RMT"]

/-- A node as a definition, with the annotation when it follows. -/
def annotate (value : Node) (ts : List Token) : Definition × List Token :=
  let advanced := acceptAll advancedAnnotation ts
  (.node value advanced.1, advanced.2)

/-- A node as a definition, with the annotation when it follows. -/
def annotated (o : Outcome Node) : Outcome Definition :=
  o.bind fun value rest => .ok (annotate value rest).1 (annotate value rest).2

/-- One field of a struct: its name, its modifiers and its node. -/
def field (ts : List Token) : Outcome (String × Field) :=
  (consume .identifier none ts).bind fun name r₁ =>
    let optional := accept .keyword (some "optional") r₁
    let nullable := accept .keyword (some "nullable") optional.2
    (node nullable.2).map fun type => (name.value, ⟨type, optional.1, nullable.1⟩)

/-- One member of an enum; a comma is needed after it unless the body ends there. -/
def member (ts : List Token) : Outcome String :=
  (consume .identifier none ts).bind fun name rest =>
    if check .symbol (some "\x7d") rest then .ok name.value rest
    else (consume .symbol (some ",") rest).map fun _ => name.value

theorem length_rest_field (ts : List Token) : (field ts).rest.length ≤ ts.length := by
  refine length_rest_bind (length_rest_consume _ _ ts) fun name r₁ => ?_
  refine length_rest_map (Nat.le_trans (length_rest_node _) ?_)
  exact Nat.le_trans (length_accept _ _ _) (length_accept _ _ _)

theorem shrinks_field (ts : List Token) : (field ts).Shrinks ts := by
  refine Outcome.shrinks_bind (shrinks_consume _ _ ts) fun name r₁ => ?_
  refine length_rest_map (Nat.le_trans (length_rest_node _) ?_)
  exact Nat.le_trans (length_accept _ _ _) (length_accept _ _ _)

theorem length_rest_afterMember (name : Token) (rest : List Token) :
    (if check .symbol (some "\x7d") rest then Outcome.ok name.value rest
      else (consume .symbol (some ",") rest).map fun _ => name.value).rest.length ≤
      rest.length := by
  split
  · exact Nat.le_refl _
  · exact length_rest_map (length_rest_consume _ _ rest)

theorem length_rest_member (ts : List Token) : (member ts).rest.length ≤ ts.length :=
  length_rest_bind (length_rest_consume _ _ ts) length_rest_afterMember

theorem shrinks_member (ts : List Token) : (member ts).Shrinks ts :=
  Outcome.shrinks_bind (shrinks_consume _ _ ts) length_rest_afterMember

/-- The fields up to the closing brace, bound one after the other. -/
def fields (found : Table Field) (ts : List Token) : Outcome (Table Field) :=
  if check .symbol (some "\x7d") ts then .ok found ts
  else
    match h : field ts with
    | .fail why rest => .fail why rest
    | .ok entry rest =>
      have := shrinks_field ts _ _ h
      fields (found.insert entry.1 entry.2) rest
termination_by ts.length

/-- The members up to the closing brace; `found` are those before, latest first. -/
def members (found : List String) (ts : List Token) : Outcome (List String) :=
  if check .symbol (some "\x7d") ts then .ok found.reverse ts
  else
    match h : member ts with
    | .fail why rest => .fail why rest
    | .ok name rest =>
      have := shrinks_member ts _ _ h
      members (name :: found) rest
termination_by ts.length

/-- What stands between braces. -/
def inBraces {α : Type} (body : List Token → Outcome α) (ts : List Token) : Outcome α :=
  (consume .symbol (some "\x7b") ts).bind fun _ r₁ =>
    (body r₁).bind fun value r₂ =>
      (consume .symbol (some "\x7d") r₂).map fun _ => value

def structBody (ts : List Token) : Outcome (Table Field) :=
  inBraces (fields .empty) ts

def enumBody (ts : List Token) : Outcome (List String) :=
  inBraces (members []) ts

/-- What follows the name of a type. -/
def definition (ts : List Token) : Outcome Definition :=
  match ts with
  | [] => .fail .ended []
  | t :: rest =>
    if checkScalar (t :: rest) then (scalar (t :: rest)).map .scalar
    else if t.is .keyword (some "struct") then (structBody rest).map .struct
    else if t.is .keyword (some "enum") then (enumBody rest).map .enum
    else if t.is .keyword (some "map") then annotated (braced rest)
    else if t.is .symbol (some "\x7b") then annotated (braced (t :: rest))
    else if t.is .keyword (some "list") then annotated (listBody rest)
    else if t.is .symbol (some "[") then annotated (bracketed (t :: rest))
    else if t.is .keyword (some "link") || t.is .symbol (some "&")
    then (link rest).map fun value => .node value false
    else (consume .identifier none (t :: rest)).map fun name => .node (.ref name.value) false

/-- One declaration: the name and its definition. -/
def declaration (ts : List Token) : Outcome (String × Definition) :=
  (consume .keyword (some "type") ts).bind fun _ r₁ =>
    (consume .identifier none r₁).bind fun name r₂ =>
      (definition r₂).bind fun value r₃ =>
        if check .keyword (some "representation") r₃ then
          (peek r₃).bind fun found left => .fail (.annotated name.value found) left
        else .ok (name.value, value) r₃

/-! ## Progress -/

theorem length_rest_fields (found : Table Field) (ts : List Token) :
    (fields found ts).rest.length ≤ ts.length := by
  fun_induction fields found ts with
  | case1 => exact Nat.le_refl _
  | case2 found ts _ why rest h =>
    have := length_rest_field ts
    rw [h] at this
    exact this
  | case3 found ts _ entry rest h hlt ih => exact Nat.le_trans ih (Nat.le_of_lt hlt)

theorem length_rest_members (found : List String) (ts : List Token) :
    (members found ts).rest.length ≤ ts.length := by
  fun_induction members found ts with
  | case1 => exact Nat.le_refl _
  | case2 found ts _ why rest h =>
    have := length_rest_member ts
    rw [h] at this
    exact this
  | case3 found ts _ name rest h hlt ih => exact Nat.le_trans ih (Nat.le_of_lt hlt)

theorem length_rest_inBraces {α : Type} {body : List Token → Outcome α}
    (hbody : ∀ ts, (body ts).rest.length ≤ ts.length) (ts : List Token) :
    (inBraces body ts).rest.length ≤ ts.length :=
  length_rest_bind (length_rest_consume _ _ ts) fun _ r₁ =>
    length_rest_bind (hbody r₁) fun _ r₂ => length_rest_map (length_rest_consume _ _ r₂)

theorem length_rest_annotate (value : Node) (ts : List Token) :
    (annotate value ts).2.length ≤ ts.length :=
  length_acceptAll advancedAnnotation ts

theorem length_rest_annotated {o : Outcome Node} {n : Nat} (ho : o.rest.length ≤ n) :
    (annotated o).rest.length ≤ n :=
  length_rest_bind ho fun value rest => length_rest_annotate value rest

theorem length_rest_listBody (ts : List Token) : (listBody ts).rest.length ≤ ts.length :=
  length_rest_map (Nat.le_trans (length_rest_node _) (length_accept _ _ ts))

theorem length_rest_definition (ts : List Token) : (definition ts).rest.length ≤ ts.length := by
  unfold definition
  split
  · exact Nat.le_refl _
  · rename_i t rest
    split
    · exact length_rest_map (length_rest_scalar _)
    split
    · exact length_rest_map (Nat.le_succ_of_le (length_rest_inBraces (length_rest_fields _) rest))
    split
    · exact length_rest_map (Nat.le_succ_of_le (length_rest_inBraces (length_rest_members _) rest))
    split
    · exact length_rest_annotated (Nat.le_succ_of_le (length_rest_braced rest))
    split
    · exact length_rest_annotated (length_rest_braced _)
    split
    · exact length_rest_annotated (Nat.le_succ_of_le (length_rest_listBody rest))
    split
    · exact length_rest_annotated (length_rest_bracketed _)
    split
    · exact length_rest_map (Nat.le_succ_of_le (length_rest_link rest))
    · exact length_rest_map (length_rest_consume _ _ _)

theorem length_rest_afterDefinition (name : Token) (value : Definition) (ts : List Token) :
    (if check .keyword (some "representation") ts then
        (peek ts).bind fun found left => Outcome.fail (.annotated name.value found) left
      else .ok (name.value, value) ts).rest.length ≤ ts.length := by
  split
  · cases ts <;> exact Nat.le_refl _
  · exact Nat.le_refl _

/-- A declaration takes at least the keyword `type`. -/
theorem shrinks_declaration (ts : List Token) : (declaration ts).Shrinks ts :=
  Outcome.shrinks_bind (shrinks_consume _ _ ts) fun _ r₁ =>
    length_rest_bind (length_rest_consume _ _ r₁) fun name r₂ =>
      length_rest_bind (length_rest_definition r₂) fun value r₃ =>
        length_rest_afterDefinition name value r₃

/-! ## Whole sources -/

/-- The declarations up to the end of the tokens, added to a schema one after the other. -/
def declarations (found : Schema) (ts : List Token) : Outcome Schema :=
  match ts with
  | [] => .ok found []
  | t :: rest =>
    match h : declaration (t :: rest) with
    | .fail why left => .fail why left
    | .ok d left =>
      have := shrinks_declaration (t :: rest) _ _ h
      declarations (found.add d.1 d.2) left
termination_by ts.length
decreasing_by exact this

def schema (ts : List Token) : Outcome Schema :=
  declarations .empty ts

end Ipld.Parser
