import Ipld.Schema
import Ipld.Token.Lexer

/-!
# Reading a token list

A production reads the tokens from the front of a list and answers with a value and the tokens that
are left, or with a failure and the tokens that were left when it failed.  It never looks at the
tokens before or at the line numbers, except to name the token it stumbled over.

That the input is exhausted is a failure without a line of its own; it is reported at the line of
the last token, which only the reader of the whole list knows (`Failure.report`).
-/

namespace Ipld.Parser

/-- Why a production failed. -/
inductive Failure where
  /-- A token is needed and there is none. -/
  | ended
  /-- A token of this kind, and of this value when one is given, is needed. -/
  | unexpected (kind : TokenKind) (value : Option String) (found : Token)
  /-- The type definition of `name` is complete, but an annotation follows it. -/
  | annotated (name : String) (found : Token)
  /-- A map key is not `String`. -/
  | key (found : Token)
  /-- A struct or enum body stands where a node is wanted. -/
  | body (found : Token)
  /-- A token was taken where there is none. -/
  | overrun
  /-- A keyword was taken for a scalar type that is none. -/
  | unknownScalar (word : String)
  deriving DecidableEq, Repr

/-- The answer of a production: a value or a failure, and the tokens left. -/
inductive Outcome (α : Type) where
  | ok (value : α) (rest : List Token)
  | fail (why : Failure) (rest : List Token)
  deriving Repr

namespace Outcome

variable {α β : Type}

def rest : Outcome α → List Token
  | .ok _ rest => rest
  | .fail _ rest => rest

/-- Goes on with another production where a first one stopped. -/
def bind (o : Outcome α) (f : α → List Token → Outcome β) : Outcome β :=
  match o with
  | .ok value rest => f value rest
  | .fail why rest => .fail why rest

/-- Turns the value into another. -/
def map (f : α → β) (o : Outcome α) : Outcome β :=
  o.bind fun value rest => .ok (f value) rest

/-- Success consumes at least one of the tokens `ts`. -/
def Shrinks (ts : List Token) (o : Outcome α) : Prop :=
  ∀ value rest, o = .ok value rest → rest.length < ts.length

theorem shrinks_bind {ts : List Token} {o : Outcome α} {f : α → List Token → Outcome β}
    (ho : o.Shrinks ts) (hf : ∀ value rest, (f value rest).rest.length ≤ rest.length) :
    (o.bind f).Shrinks ts := by
  intro value rest h
  cases o with
  | fail why left => cases h
  | ok a left =>
    have hleft := ho a left rfl
    have hrest := hf a left
    simp only [bind] at h
    rw [h] at hrest
    simp only [Outcome.rest] at hrest
    omega

end Outcome

/-- The failure as a fault of the run; `last` is the line of the last token of the whole list. -/
def Failure.report (last : Option Int) : Failure → Fault
  | .ended => .schema (.endOfInput last)
  | .unexpected kind value found =>
    .schema (.unexpectedToken (describe kind value) (describe found.kind (some found.value))
      found.line)
  | .annotated name found => .schema (.unsupportedRepresentation name found.line)
  | .key found => .schema (.keyType found.value found.line)
  | .body found => .schema (.inlineDefinition found.value found.line)
  | .overrun => .overrun
  | .unknownScalar word => .unknownScalar word

/-! ## Primitives -/

/-- Whether the next token has the given kind and value; at the end there is none. -/
def check (kind : TokenKind) (value : Option String) : List Token → Bool
  | [] => false
  | t :: _ => t.is kind value

/-- Whether the next token is the keyword of a scalar type. -/
def checkScalar : List Token → Bool
  | [] => false
  | t :: _ => t.is .keyword none && t.value ∈ Scalar.all.map Scalar.keyword

/-- The next token, without moving. -/
def peek (ts : List Token) : Outcome Token :=
  match ts with
  | [] => .fail .ended ts
  | t :: _ => .ok t ts

/-- Takes the next token, which the caller knows to be there. -/
def take (ts : List Token) : Outcome Token :=
  match ts with
  | [] => .fail .overrun ts
  | t :: rest => .ok t rest

/-- Moves over the next token when it has the given kind and value, and says whether it did. -/
def accept (kind : TokenKind) (value : Option String) (ts : List Token) : Bool × List Token :=
  if check kind value ts then (true, ts.tail) else (false, ts)

/-- Moves over all the given keywords in order, or over none of them. -/
def acceptAll (words : List String) (ts : List Token) : Bool × List Token :=
  match go words ts with
  | some rest => (true, rest)
  | none => (false, ts)
where
  /-- The tokens after the keywords, when they are all there. -/
  go : List String → List Token → Option (List Token)
    | [], ts => some ts
    | word :: words, ts => if check .keyword (some word) ts then go words ts.tail else none

/-- Takes the next token when it has the given kind and value, and fails when it has not. -/
def consume (kind : TokenKind) (value : Option String) (ts : List Token) : Outcome Token :=
  if check kind value ts then take ts
  else (peek ts).bind fun found _ => .fail (.unexpected kind value found) ts

theorem eq_cons_of_check {kind : TokenKind} {value : Option String} {ts : List Token}
    (h : check kind value ts = true) : ∃ t rest, ts = t :: rest ∧ t.is kind value = true := by
  cases ts with
  | nil => cases h
  | cons t rest => exact ⟨t, rest, rfl, h⟩

theorem consume_eq_ok {kind : TokenKind} {value : Option String} {ts rest : List Token} {t : Token}
    (h : consume kind value ts = .ok t rest) : ts = t :: rest ∧ t.is kind value = true := by
  unfold consume at h
  split at h
  · rename_i hc
    obtain ⟨u, left, rfl, hu⟩ := eq_cons_of_check hc
    cases h
    exact ⟨rfl, hu⟩
  · cases ts with
    | nil => cases h
    | cons u left => cases h

theorem shrinks_consume (kind : TokenKind) (value : Option String) (ts : List Token) :
    (consume kind value ts).Shrinks ts := by
  intro t rest h
  rw [(consume_eq_ok h).1]
  simp

theorem length_rest_consume (kind : TokenKind) (value : Option String) (ts : List Token) :
    (consume kind value ts).rest.length ≤ ts.length := by
  unfold consume
  split
  · cases ts <;> simp [take, Outcome.rest]
  · cases ts <;> simp [peek, Outcome.bind, Outcome.rest]

theorem length_accept (kind : TokenKind) (value : Option String) (ts : List Token) :
    (accept kind value ts).2.length ≤ ts.length := by
  unfold accept
  split
  · simp
  · simp

theorem length_go_acceptAll {words : List String} {ts rest : List Token}
    (h : acceptAll.go words ts = some rest) : rest.length ≤ ts.length := by
  induction words generalizing ts with
  | nil =>
    cases h
    exact Nat.le_refl _
  | cons word words ih =>
    unfold acceptAll.go at h
    split at h
    · have := ih h
      simp only [List.length_tail] at this
      omega
    · cases h

theorem length_acceptAll (words : List String) (ts : List Token) :
    (acceptAll words ts).2.length ≤ ts.length := by
  unfold acceptAll
  split
  · rename_i rest h
    exact length_go_acceptAll h
  · exact Nat.le_refl _

end Ipld.Parser
