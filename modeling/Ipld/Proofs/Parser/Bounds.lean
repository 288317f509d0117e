import Ipld.Parser
import Ipld.Proofs.Parser.Soundness

/-!
# No production leaves its tokens

The parser looks a token up by its position, which has to lie in the list.  It does so only after it
has made sure that the list goes on, so that every look-up finds the token that is next and reading
from a position is reading the tokens that are left (`LooksInside`).

From there on the list is what counts.  A production stops at a position of the list, behind its
start when it succeeds, and what it fails with is a fault of the source (`StaysInside`): no token is
taken where there is none, and no word is taken for a scalar type that is none.
-/

namespace Ipld

open Ipld.Parser

/-! ## Looking up tokens -/

namespace Cursor

/-- The token at the position; beyond the end there is none. -/
def token (c : Cursor) : Except Fault Token :=
  match c.tokens[c.pos]? with
  | some t => .ok t
  | none => .error .overrun

/-- Whether the token at the position has the given kind and value; at the end there is none. -/
def check (c : Cursor) (kind : TokenKind) (value : Option String) : Except Fault Bool :=
  if c.atEnd then .ok false else c.token.map (·.is kind value)

/-- Whether the token at the position is the keyword of a scalar type. -/
def checkScalar (c : Cursor) : Except Fault Bool :=
  (c.check .keyword none).bind fun found =>
    if found then c.token.map fun t => decide (t.value ∈ Scalar.all.map Scalar.keyword)
    else .ok false

/-- The token at the position, which has to be there. -/
def peek (c : Cursor) : Except Fault Token :=
  if c.atEnd then .error (.schema (.endOfInput c.lastLine)) else c.token

/-- Moves over the token at the position when it has the given kind and value, and says whether it
did. -/
def accept (c : Cursor) (kind : TokenKind) (value : Option String) : Except Fault Bool × Cursor :=
  match c.check kind value with
  | .ok true => (.ok true, c.advance.2)
  | .ok false => (.ok false, c)
  | .error e => (.error e, c)

/-- Moves over all the given keywords in order, or goes back to `saved`. -/
def acceptAll (saved : Nat) : List String → Cursor → Except Fault Bool × Cursor
  | [], c => (.ok true, c)
  | word :: words, c =>
    match c.accept .keyword (some word) with
    | (.ok true, c') => acceptAll saved words c'
    | (.ok false, c') => (.ok false, { c' with pos := saved })
    | (.error e, c') => (.error e, c')

/-- Takes the token at the position when it has the given kind and value, and fails when it has
not. -/
def consume (c : Cursor) (kind : TokenKind) (value : Option String) : Except Fault Token × Cursor :=
  match c.check kind value with
  | .ok true => (token { c with pos := c.advance.1 }, c.advance.2)
  | .ok false =>
    (c.peek.bind fun found => .error ((Failure.unexpected kind value found).report none), c)
  | .error e => (.error e, c)

/-- Every look-up at the position finds what is read from the tokens that are left, and where it
finds nothing the source is at fault. -/
structure LooksInside (c : Cursor) : Prop where
  check : ∀ kind value, c.check kind value = .ok (Parser.check kind value c.rest)
  checkScalar : c.checkScalar = .ok (Parser.checkScalar c.rest)
  peek : c.run Parser.peek = (c.peek, c)
  accept : ∀ kind value, c.accept kind value =
    (.ok (Parser.accept kind value c.rest).1, c.moveTo (Parser.accept kind value c.rest).2)
  acceptAll : ∀ words, acceptAll c.pos words c =
    (.ok (Parser.acceptAll words c.rest).1, c.moveTo (Parser.acceptAll words c.rest).2)
  consume : ∀ kind value, c.consume kind value = c.run (Parser.consume kind value)
  peek_error : ∀ e, c.peek = .error e → ∃ a, e = .schema a
  consume_error : ∀ kind value e, (c.consume kind value).1 = .error e → ∃ a, e = .schema a

variable {c : Cursor}

theorem rest_of_atEnd (h : c.atEnd = true) : c.rest = [] :=
  List.drop_eq_nil_of_le (of_decide_eq_true h)

/-- Before the end the next token is the first of those that are left. -/
theorem rest_of_not_atEnd (h : c.atEnd = false) :
    ∃ t, c.token = .ok t ∧ c.rest = t :: c.advance.2.rest := by
  have hlt : c.pos < c.tokens.length := Nat.lt_of_not_le (of_decide_eq_false h)
  refine ⟨c.tokens[c.pos], ?_, List.drop_eq_getElem_cons hlt⟩
  rw [token, List.getElem?_eq_getElem hlt]

theorem moveTo_rest (c : Cursor) : c.moveTo c.rest = c := by
  rw [moveTo, Nat.sub_self, Nat.add_zero]

theorem moveTo_rest_advance (h : c.atEnd = false) : c.moveTo c.advance.2.rest = c.advance.2 := by
  obtain ⟨t, -, hrest⟩ := rest_of_not_atEnd h
  have hsplit : c.rest = [t] ++ c.advance.2.rest := hrest
  rw [moveTo_of_rest hsplit]
  rfl

theorem check_eq (c : Cursor) (kind : TokenKind) (value : Option String) :
    c.check kind value = .ok (Parser.check kind value c.rest) := by
  unfold check
  cases hend : c.atEnd with
  | true =>
    rw [rest_of_atEnd hend]
    rfl
  | false =>
    obtain ⟨t, htoken, hrest⟩ := rest_of_not_atEnd hend
    rw [htoken, hrest]
    rfl

theorem checkScalar_eq (c : Cursor) : c.checkScalar = .ok (Parser.checkScalar c.rest) := by
  rw [checkScalar, check_eq]
  cases hend : c.atEnd with
  | true =>
    rw [rest_of_atEnd hend]
    rfl
  | false =>
    obtain ⟨t, htoken, hrest⟩ := rest_of_not_atEnd hend
    rw [htoken, hrest, Parser.checkScalar]
    change (if t.is .keyword none then Except.ok _ else .ok false) = _
    cases t.is .keyword none with
    | true => rfl
    | false => rfl

theorem run_peek (c : Cursor) : c.run Parser.peek = (c.peek, c) := by
  rw [run, peek]
  cases hend : c.atEnd with
  | true =>
    have hstay := c.moveTo_rest
    rw [rest_of_atEnd hend] at hstay ⊢
    exact Prod.ext rfl hstay
  | false =>
    obtain ⟨t, htoken, hrest⟩ := rest_of_not_atEnd hend
    have hstay := c.moveTo_rest
    rw [hrest] at hstay ⊢
    exact Prod.ext htoken.symm hstay

theorem accept_eq (c : Cursor) (kind : TokenKind) (value : Option String) :
    c.accept kind value =
      (.ok (Parser.accept kind value c.rest).1, c.moveTo (Parser.accept kind value c.rest).2) := by
  rw [accept, check_eq, Parser.accept]
  cases hcheck : Parser.check kind value c.rest with
  | false =>
    simp only [Bool.false_eq_true, if_false]
    rw [moveTo_rest]
  | true =>
    cases hend : c.atEnd with
    | true =>
      rw [rest_of_atEnd hend] at hcheck
      cases hcheck
    | false =>
      obtain ⟨t, -, hrest⟩ := rest_of_not_atEnd hend
      simp only [if_true]
      rw [hrest, List.tail_cons, moveTo_rest_advance hend]

theorem consume_eq (c : Cursor) (kind : TokenKind) (value : Option String) :
    c.consume kind value = c.run (Parser.consume kind value) := by
  rw [consume, check_eq, run]
  cases hend : c.atEnd with
  | true =>
    have hstay := c.moveTo_rest
    rw [rest_of_atEnd hend] at hstay ⊢
    rw [peek, if_pos hend]
    exact Prod.ext rfl hstay.symm
  | false =>
    obtain ⟨t, htoken, hrest⟩ := rest_of_not_atEnd hend
    have hstay := c.moveTo_rest
    have hmove := moveTo_rest_advance hend
    rw [peek, if_neg (by rw [hend]; exact Bool.false_ne_true), htoken]
    rw [hrest] at hstay ⊢
    have hstep := consume_step kind value (t :: c.advance.2.rest)
    generalize Parser.consume kind value (t :: c.advance.2.rest) = o at hstep
    cases hstep with
    | taken h =>
      rw [show Parser.check kind value (t :: c.advance.2.rest) = true from h]
      exact Prod.ext htoken hmove.symm
    | other h =>
      rw [show Parser.check kind value (t :: c.advance.2.rest) = false from h]
      exact Prod.ext rfl hstay.symm

theorem acceptAll_eq (saved : Nat) (words : List String) (c : Cursor) :
    acceptAll saved words c = match Parser.acceptAll.go words c.rest with
      | some rest => (.ok true, c.moveTo rest)
      | none => (.ok false, { c with pos := saved }) := by
  induction words generalizing c with
  | nil => exact Prod.ext rfl c.moveTo_rest.symm
  | cons word words ih =>
    rw [acceptAll, accept_eq, Parser.accept, Parser.acceptAll.go]
    cases hcheck : Parser.check .keyword (some word) c.rest with
    | false =>
      simp only [Bool.false_eq_true, if_false]
      rw [moveTo_rest]
    | true =>
      cases hend : c.atEnd with
      | true =>
        rw [rest_of_atEnd hend] at hcheck
        cases hcheck
      | false =>
        obtain ⟨t, -, hrest⟩ := rest_of_not_atEnd hend
        simp only [if_true]
        rw [hrest, List.tail_cons, moveTo_rest_advance hend, ih]
        cases hgo : Parser.acceptAll.go words c.advance.2.rest with
        | none => rfl
        | some rest =>
          -- Going over the first keyword and then over the others is going over all of them.
          have hlength := length_go_acceptAll hgo
          have hpos : c.pos + 1 + (c.advance.2.rest.length - rest.length) =
              c.pos + ((t :: c.advance.2.rest).length - rest.length) := by
            rw [List.length_cons]
            omega
          rw [← hrest] at hpos
          exact congrArg (fun pos => (Except.ok true, Cursor.mk c.tokens pos)) hpos

end Cursor

/-! ## Productions -/

/-- What a run from a cursor may come to: a value, with the cursor moved on, or a fault of the
source, with the cursor not moved back.  In either case it stops at a position of the list. -/
inductive Cursor.EndsInside {α : Type} (c : Cursor) : Except Fault α × Cursor → Prop
  | ok {value : α} {q : Nat} (hlt : c.pos < q) (hle : q ≤ c.tokens.length) :
    EndsInside c (.ok value, ⟨c.tokens, q⟩)
  | error {e : SchemaError} {q : Nat} (hstart : c.pos ≤ q) (hle : q ≤ c.tokens.length) :
    EndsInside c (.error (.schema e), ⟨c.tokens, q⟩)

namespace Parser

open Outcome

variable {α β : Type}

/-- Wherever the production is started in a token list, it stops inside, and what it has left are
the tokens from where it stops. -/
def StaysInside (production : List Token → Outcome α) : Prop :=
  ∀ c : Cursor, c.pos ≤ c.tokens.length →
    c.EndsInside (c.run production) ∧ (production c.rest).rest = (c.run production).2.rest

/-- If the outcome is a failure, the source is at fault. -/
def Outcome.BlamesSource (o : Outcome α) : Prop :=
  ∀ why rest, o = .fail why rest → ∀ last, ∃ e, why.report last = .schema e

/-- A production stays inside when it takes a phrase, or begins one, and no phrase is empty. -/
theorem staysInside_of_reads {Spells : List Token → α → Prop}
    {production : List Token → Outcome α} (hreads : ∀ ts, Reads Spells ts (production ts))
    (hne : ∀ value, ¬ Spells [] value) (hblames : ∀ ts, (production ts).BlamesSource) :
    StaysInside production := by
  intro c hc
  have hread := hreads c.rest
  have hblame := hblames c.rest
  have hlength : c.rest.length = c.tokens.length - c.pos := List.length_drop
  unfold Cursor.run
  generalize production c.rest = o at hread hblame
  cases o with
  | ok value left =>
    obtain ⟨read, heq, hspells⟩ := hread
    have hpos : 0 < read.length := List.length_pos_iff.2 fun h => hne value (h ▸ hspells)
    refine ⟨?_, (Cursor.rest_moveTo heq).symm⟩
    rw [heq, List.length_append] at hlength
    simp only [Cursor.moveTo_of_rest heq]
    exact .ok (by omega) (by omega)
  | fail why left =>
    obtain ⟨read, more, value, heq, -⟩ := hread
    obtain ⟨e, he⟩ := hblame why left rfl c.lastLine
    refine ⟨?_, (Cursor.rest_moveTo heq).symm⟩
    rw [heq, List.length_append] at hlength
    simp only [Cursor.moveTo_of_rest heq, he]
    exact .error (by omega) (by omega)

/-! ### Failures -/

namespace Outcome.BlamesSource

variable {o : Outcome α} {f : α → List Token → Outcome β}

/-- Run from a cursor, the failure is reported as a fault of the source. -/
theorem exists_schema_of_run {production : List Token → Outcome α} {c : Cursor} {e : Fault}
    (h : (production c.rest).BlamesSource) (he : (c.run production).1 = .error e) :
    ∃ a, e = .schema a := by
  unfold Cursor.run at he
  cases ho : production c.rest with
  | ok value left =>
    rw [ho] at he
    cases he
  | fail why left =>
    rw [ho] at he
    cases he
    exact h why left ho _

theorem of_ok (value : α) (rest : List Token) : (Outcome.ok value rest).BlamesSource :=
  fun _ _ h => nomatch h

theorem of_fail {why : Failure} (h : ∀ last, ∃ e, why.report last = .schema e)
    (rest : List Token) : (Outcome.fail why rest : Outcome α).BlamesSource := by
  rintro _ _ ⟨⟩
  exact h

/-- Productions in a row; what the second is run on may be known from the first. -/
theorem bind (h : o.BlamesSource)
    (hf : ∀ value rest, o = .ok value rest → (f value rest).BlamesSource) :
    (o.bind f).BlamesSource := by
  cases o with
  | ok value rest => exact hf value rest rfl
  | fail why rest => exact of_fail (h why rest rfl) _

theorem map (h : o.BlamesSource) (g : α → β) : (o.map g).BlamesSource :=
  h.bind fun _ _ _ => of_ok _ _

end Outcome.BlamesSource

open Outcome.BlamesSource

theorem blamesSource_consume (kind : TokenKind) (value : Option String) (ts : List Token) :
    (consume kind value ts).BlamesSource := by
  have h := consume_step kind value ts
  generalize consume kind value ts = o at h
  cases h with
  | taken => exact of_ok _ _
  | ended => exact of_fail (fun _ => ⟨_, rfl⟩) _
  | other => exact of_fail (fun _ => ⟨_, rfl⟩) _

theorem blamesSource_peek (ts : List Token) : (peek ts).BlamesSource := by
  cases ts with
  | nil => exact of_fail (fun _ => ⟨_, rfl⟩) _
  | cons t rest => exact of_ok _ _

theorem blamesSource_mapKey (ts : List Token) : (mapKey ts).BlamesSource := by
  have h := mapKey_step ts
  generalize mapKey ts = o at h
  cases h with
  | string => exact of_ok _ _
  | ended => exact of_fail (fun _ => ⟨_, rfl⟩) _
  | other => exact of_fail (fun _ => ⟨_, rfl⟩) _

theorem blamesSource_link (ts : List Token) : (link ts).BlamesSource :=
  (blamesSource_consume _ _ ts).map _

section Deeper

variable {n : Nat} (ih : ∀ ts : List Token, ts.length ≤ n → (node ts).BlamesSource)

include ih

theorem blamesSource_bracketed_of {ts : List Token} (hlen : ts.length ≤ n + 1) :
    (bracketed ts).BlamesSource := by
  rw [bracketed_eq]
  refine (blamesSource_consume _ _ ts).bind fun _ r₁ hopen => ?_
  have h₁ := shrinks_consume _ _ ts _ _ hopen
  have h₂ := length_accept .keyword (some "nullable") r₁
  exact (ih _ (by omega)).bind fun _ r₃ _ => (blamesSource_consume _ _ r₃).map _

theorem blamesSource_braced_of {ts : List Token} (hlen : ts.length ≤ n + 1) :
    (braced ts).BlamesSource := by
  rw [braced_eq]
  refine (blamesSource_consume _ _ ts).bind fun _ r₁ hopen => ?_
  have h₁ := shrinks_consume _ _ ts _ _ hopen
  refine (blamesSource_mapKey r₁).bind fun _ r₂ hkey => ?_
  have h₂ := shrinks_mapKey r₁ _ _ hkey
  refine (blamesSource_consume _ _ r₂).bind fun _ r₃ hcolon => ?_
  have h₃ := shrinks_consume _ _ r₂ _ _ hcolon
  have h₄ := length_accept .keyword (some "nullable") r₃
  exact (ih _ (by omega)).bind fun _ r₅ _ => (blamesSource_consume _ _ r₅).map _

end Deeper

theorem blamesSource_node_of_le (n : Nat) :
    ∀ ts : List Token, ts.length ≤ n → (node ts).BlamesSource := by
  have hnil : (node []).BlamesSource := by
    rw [node_nil]
    exact of_fail (fun _ => ⟨_, rfl⟩) _
  induction n with
  | zero =>
    intro ts hlen
    rw [List.length_eq_zero_iff.1 (Nat.le_zero.1 hlen)]
    exact hnil
  | succ n ih =>
    intro ts hlen
    cases ts with
    | nil => exact hnil
    | cons t rest =>
      have h := node_step t rest
      generalize node (t :: rest) = o at h
      cases h with
      | scalar => exact of_ok _ _
      | bracketed => exact blamesSource_bracketed_of ih hlen
      | braced => exact blamesSource_braced_of ih hlen
      | link => exact blamesSource_link rest
      | body => exact of_fail (fun _ => ⟨_, rfl⟩) _
      | ref => exact of_ok _ _
      | other => exact of_fail (fun _ => ⟨_, rfl⟩) _

theorem blamesSource_node (ts : List Token) : (node ts).BlamesSource :=
  blamesSource_node_of_le ts.length ts (Nat.le_refl _)

theorem blamesSource_bracketed (ts : List Token) : (bracketed ts).BlamesSource :=
  blamesSource_bracketed_of (fun ts _ => blamesSource_node ts) (Nat.le_succ ts.length)

theorem blamesSource_braced (ts : List Token) : (braced ts).BlamesSource :=
  blamesSource_braced_of (fun ts _ => blamesSource_node ts) (Nat.le_succ ts.length)

theorem blamesSource_listBody (ts : List Token) : (listBody ts).BlamesSource :=
  (blamesSource_node _).map _

theorem blamesSource_field (ts : List Token) : (field ts).BlamesSource :=
  (blamesSource_consume _ _ ts).bind fun _ _ _ => (blamesSource_node _).map _

theorem blamesSource_fields (found : Table Field) (ts : List Token) :
    (fields found ts).BlamesSource := by
  fun_induction fields found ts with
  | case1 => exact of_ok _ _
  | case2 _ ts _ why rest h => exact of_fail (blamesSource_field ts why rest h) _
  | case3 _ _ _ _ _ _ _ ih => exact ih

theorem blamesSource_member (ts : List Token) : (member ts).BlamesSource := by
  refine (blamesSource_consume _ _ ts).bind fun name rest _ => ?_
  split
  · exact of_ok _ _
  · exact (blamesSource_consume _ _ rest).map _

theorem blamesSource_members (found : List String) (ts : List Token) :
    (members found ts).BlamesSource := by
  fun_induction members found ts with
  | case1 => exact of_ok _ _
  | case2 _ ts _ why rest h => exact of_fail (blamesSource_member ts why rest h) _
  | case3 _ _ _ _ _ _ _ ih => exact ih

theorem blamesSource_inBraces {body : List Token → Outcome α}
    (hbody : ∀ ts, (body ts).BlamesSource) (ts : List Token) :
    (inBraces body ts).BlamesSource :=
  (blamesSource_consume _ _ ts).bind fun _ r₁ _ =>
    (hbody r₁).bind fun _ r₂ _ => (blamesSource_consume _ _ r₂).map _

theorem blamesSource_annotated {o : Outcome Node} (h : o.BlamesSource) :
    (annotated o).BlamesSource :=
  h.bind fun _ _ _ => of_ok _ _

theorem blamesSource_definition (ts : List Token) : (definition ts).BlamesSource := by
  cases ts with
  | nil => exact of_fail (fun _ => ⟨_, rfl⟩) _
  | cons t rest =>
    have h := definition_step t rest
    generalize definition (t :: rest) = o at h
    cases h with
    | scalar => exact of_ok _ _
    | struct => exact (blamesSource_inBraces (blamesSource_fields _) rest).map _
    | enum => exact (blamesSource_inBraces (blamesSource_members _) rest).map _
    | map => exact blamesSource_annotated (blamesSource_braced rest)
    | braced => exact blamesSource_annotated (blamesSource_braced _)
    | list => exact blamesSource_annotated (blamesSource_listBody rest)
    | bracketed => exact blamesSource_annotated (blamesSource_bracketed _)
    | link => exact (blamesSource_link rest).map _
    | ref => exact of_ok _ _
    | other => exact of_fail (fun _ => ⟨_, rfl⟩) _

theorem blamesSource_declaration (ts : List Token) : (declaration ts).BlamesSource := by
  rw [declaration_eq]
  refine (blamesSource_consume _ _ ts).bind fun _ r₁ _ =>
    (blamesSource_consume _ _ r₁).bind fun name r₂ _ =>
      (blamesSource_definition r₂).bind fun value r₃ _ => ?_
  have h := afterDefinition_step name.value value r₃
  generalize afterDefinition name.value value r₃ = o at h
  cases h with
  | annotated => exact of_fail (fun _ => ⟨_, rfl⟩) _
  | plain => exact of_ok _ _

/-! ### Phrases -/

theorem staysInside_node : StaysInside node := by
  refine staysInside_of_reads reads_node (fun value h => ?_) blamesSource_node
  have hread := node_of_spells h []
  rw [List.append_nil, node_nil] at hread
  cases hread

theorem staysInside_link : StaysInside link := by
  refine staysInside_of_reads reads_link (fun value h => ?_) blamesSource_link
  obtain ⟨name, heq, -⟩ := h
  cases heq

theorem staysInside_bracketed : StaysInside bracketed :=
  staysInside_of_reads reads_bracketed (fun _ h => nomatch h) blamesSource_bracketed

theorem staysInside_braced : StaysInside braced :=
  staysInside_of_reads reads_braced (fun _ h => nomatch h) blamesSource_braced

theorem staysInside_listBody : StaysInside listBody := by
  refine staysInside_of_reads reads_listBody (fun value h => ?_) blamesSource_listBody
  have hread := listBody_of_spells h []
  rw [List.append_nil, listBody_eq, modifier_absent rfl, Outcome.bind_ok, node_nil] at hread
  cases hread

theorem staysInside_inBraces {Spells : List Token → α → Prop} {body : List Token → Outcome α}
    (hreads : ∀ ts, Reads Spells ts (body ts)) (hblames : ∀ ts, (body ts).BlamesSource) :
    StaysInside (inBraces body) :=
  staysInside_of_reads (reads_inBraces hreads) (fun _ h => nomatch h)
    (blamesSource_inBraces hblames)

theorem staysInside_structBody : StaysInside structBody :=
  staysInside_inBraces (reads_fields .empty) (blamesSource_fields .empty)

theorem staysInside_enumBody : StaysInside enumBody :=
  staysInside_inBraces reads_members (blamesSource_members [])

theorem staysInside_definition : StaysInside definition := by
  refine staysInside_of_reads reads_definition (fun value h => ?_) blamesSource_definition
  have hread := definition_of_spells h (rfl : Unannotated [])
  rw [List.append_nil, definition_nil] at hread
  cases hread

theorem staysInside_declaration : StaysInside declaration :=
  staysInside_of_reads reads_declaration (fun _ h => nomatch h) blamesSource_declaration

end Parser

theorem Cursor.looksInside (c : Cursor) : c.LooksInside where
  check := c.check_eq
  checkScalar := c.checkScalar_eq
  peek := c.run_peek
  accept := c.accept_eq
  acceptAll words := by
    rw [acceptAll_eq, Parser.acceptAll]
    cases Parser.acceptAll.go words c.rest with
    | some rest => rfl
    | none => exact Prod.ext rfl c.moveTo_rest.symm
  consume := c.consume_eq
  peek_error e h := (blamesSource_peek c.rest).exists_schema_of_run (by rw [run_peek, h])
  consume_error kind value e h :=
    (blamesSource_consume kind value c.rest).exists_schema_of_run (by rw [← consume_eq, h])

end Ipld
