import Ipld.Parser.Cursor

/-!
# Reading nodes

A node is a scalar keyword, a list in brackets, a map in braces, a link or a name.  Each of them is
closed by its own last token, so the reader never has to look beyond a node to know that it ends
there; the fields of a struct, which nothing separates, depend on that.

The three productions call one another; each call is made on fewer tokens, or on the same tokens
from `node`, which decides and takes nothing.
-/

namespace Ipld.Parser

/-- Takes a keyword that is known to name a scalar type. -/
def scalar (ts : List Token) : Outcome Scalar :=
  (take ts).bind fun t rest =>
    match Scalar.ofKeyword? t.value with
    | some kind => .ok kind rest
    | none => .fail (.unknownScalar t.value) rest

/-- The name of the type a link goes to. -/
def link (ts : List Token) : Outcome Node :=
  (consume .identifier none ts).map fun t => .link t.value

/-- The key of a map, which has to be `String`. -/
def mapKey (ts : List Token) : Outcome Unit :=
  match accept .keyword (some "String") ts with
  | (true, rest) => .ok () rest
  | (false, rest) => (peek rest).bind fun found left => .fail (.key found) left

theorem shrinks_mapKey (ts : List Token) : (mapKey ts).Shrinks ts := by
  intro value rest h
  unfold mapKey accept at h
  split at h
  · rename_i left heq
    split at heq
    · rename_i hc
      obtain ⟨t, tail, rfl, -⟩ := eq_cons_of_check hc
      cases heq
      cases h
      simp
    · cases heq
  · rename_i left heq
    cases left <;> cases h

mutual

def node (ts : List Token) : Outcome Node :=
  match ts with
  | [] => .fail .ended []
  | t :: rest =>
    if checkScalar (t :: rest) then (scalar (t :: rest)).map .scalar
    else if check .symbol (some "[") (t :: rest) then bracketed (t :: rest)
    else if check .symbol (some "\x7b") (t :: rest) then braced (t :: rest)
    else if check .symbol (some "&") (t :: rest) then link rest
    else if check .keyword (some "struct") (t :: rest) || check .keyword (some "enum") (t :: rest)
    then .fail (.body t) (t :: rest)
    else (consume .identifier none (t :: rest)).map fun name => .ref name.value
termination_by (ts.length, 1)

/-- A list in brackets. -/
def bracketed (ts : List Token) : Outcome Node :=
  match hopen : consume .symbol (some "[") ts with
  | .fail why left => .fail why left
  | .ok _ r₁ =>
    let nullable := accept .keyword (some "nullable") r₁
    have : nullable.2.length < ts.length :=
      Nat.lt_of_le_of_lt (length_accept _ _ r₁) (shrinks_consume _ _ ts _ _ hopen)
    (node nullable.2).bind fun value r₃ =>
      (consume .symbol (some "]") r₃).map fun _ => .list value nullable.1
termination_by (ts.length, 0)

/-- A map in braces. -/
def braced (ts : List Token) : Outcome Node :=
  match hopen : consume .symbol (some "\x7b") ts with
  | .fail why left => .fail why left
  | .ok _ r₁ =>
    match hkey : mapKey r₁ with
    | .fail why left => .fail why left
    | .ok _ r₂ =>
      match hcolon : consume .symbol (some ":") r₂ with
      | .fail why left => .fail why left
      | .ok _ r₃ =>
        let nullable := accept .keyword (some "nullable") r₃
        have : nullable.2.length < ts.length := by
          have h₁ := shrinks_consume _ _ ts _ _ hopen
          have h₂ := shrinks_mapKey r₁ _ _ hkey
          have h₃ := shrinks_consume _ _ r₂ _ _ hcolon
          have h₄ : nullable.2.length ≤ r₃.length := length_accept _ _ r₃
          omega
        (node nullable.2).bind fun value r₄ =>
          (consume .symbol (some "\x7d") r₄).map fun _ => .map value nullable.1
termination_by (ts.length, 0)

end

/-- The body of a list after its keyword. -/
def listBody (ts : List Token) : Outcome Node :=
  let nullable := accept .keyword (some "nullable") ts
  (node nullable.2).map fun value => .list value nullable.1

/-! ## Progress -/

/-- A production never gives tokens back. -/
theorem length_rest_bind {α β : Type} {o : Outcome α} {f : α → List Token → Outcome β} {n : Nat}
    (ho : o.rest.length ≤ n) (hf : ∀ value rest, (f value rest).rest.length ≤ rest.length) :
    (o.bind f).rest.length ≤ n := by
  cases o with
  | fail why rest => exact ho
  | ok value rest => exact Nat.le_trans (hf value rest) ho

theorem length_rest_map {α β : Type} {o : Outcome α} {f : α → β} {n : Nat}
    (ho : o.rest.length ≤ n) : (o.map f).rest.length ≤ n :=
  length_rest_bind ho fun _ _ => Nat.le_refl _

theorem length_rest_take (ts : List Token) : (take ts).rest.length ≤ ts.length := by
  cases ts <;> simp [take, Outcome.rest]

theorem length_rest_scalar (ts : List Token) : (scalar ts).rest.length ≤ ts.length := by
  refine length_rest_bind (length_rest_take ts) fun t rest => ?_
  split <;> exact Nat.le_refl _

theorem length_rest_link (ts : List Token) : (link ts).rest.length ≤ ts.length :=
  length_rest_map (length_rest_consume _ _ ts)

theorem length_rest_mapKey (ts : List Token) : (mapKey ts).rest.length ≤ ts.length := by
  unfold mapKey accept
  split
  · rename_i rest heq
    split at heq
    · cases heq
      simp [Outcome.rest]
    · cases heq
  · rename_i rest heq
    split at heq
    · cases heq
    · cases heq
      cases ts <;> simp [peek, Outcome.bind, Outcome.rest]

mutual

theorem length_rest_node (ts : List Token) : (node ts).rest.length ≤ ts.length := by
  cases ts with
  | nil =>
    unfold node
    exact Nat.le_refl _
  | cons t rest =>
    unfold node
    split
    · exact length_rest_map (length_rest_scalar _)
    · split
      · exact length_rest_bracketed (t :: rest)
      · split
        · exact length_rest_braced (t :: rest)
        · split
          · exact Nat.le_succ_of_le (length_rest_link rest)
          · split
            · exact Nat.le_refl _
            · exact length_rest_map (length_rest_consume _ _ _)
termination_by (ts.length, 1)

theorem length_rest_bracketed (ts : List Token) : (bracketed ts).rest.length ≤ ts.length := by
  unfold bracketed
  split
  · rename_i why left hopen
    have := length_rest_consume .symbol (some "[") ts
    rw [hopen] at this
    exact this
  · rename_i t r₁ hopen
    have hlt : (accept .keyword (some "nullable") r₁).2.length < ts.length :=
      Nat.lt_of_le_of_lt (length_accept _ _ r₁) (shrinks_consume _ _ ts _ _ hopen)
    exact length_rest_bind
      (Nat.le_trans (length_rest_node (accept .keyword (some "nullable") r₁).2) (Nat.le_of_lt hlt))
      fun _ rest => length_rest_map (length_rest_consume _ _ rest)
termination_by (ts.length, 0)

theorem length_rest_braced (ts : List Token) : (braced ts).rest.length ≤ ts.length := by
  unfold braced
  split
  · rename_i why left hopen
    have := length_rest_consume .symbol (some "\x7b") ts
    rw [hopen] at this
    exact this
  · rename_i t r₁ hopen
    have h₁ := shrinks_consume _ _ ts _ _ hopen
    split
    · rename_i why left hkey
      have := length_rest_mapKey r₁
      rw [hkey] at this
      exact Nat.le_trans this (Nat.le_of_lt h₁)
    · rename_i u r₂ hkey
      have h₂ := shrinks_mapKey r₁ _ _ hkey
      split
      · rename_i why left hcolon
        have := length_rest_consume .symbol (some ":") r₂
        rw [hcolon] at this
        exact Nat.le_trans this (by omega)
      · rename_i v r₃ hcolon
        have h₃ := shrinks_consume _ _ r₂ _ _ hcolon
        have h₄ := length_accept .keyword (some "nullable") r₃
        have hlt : (accept .keyword (some "nullable") r₃).2.length < ts.length := by omega
        exact length_rest_bind
          (Nat.le_trans (length_rest_node (accept .keyword (some "nullable") r₃).2)
            (Nat.le_of_lt hlt))
          fun _ rest => length_rest_map (length_rest_consume _ _ rest)
termination_by (ts.length, 0)

end

end Ipld.Parser
