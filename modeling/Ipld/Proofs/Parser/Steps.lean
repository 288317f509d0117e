import Ipld.Proofs.Spelling

/-!
# Productions step by step

Each production is a chain of smaller ones: the equations of this module write it as one, with the
optional keywords and the annotation as productions that cannot fail.  What is proved of every
production (what it reads, where it stops, what the grammar's own machine does meanwhile) is then
proved of `consume` and of `bind`, and follows the chains.

The two productions that decide by the next token are described by a view of that decision,
`NodeStep` and `DefinitionStep`, with one case for each branch.
-/

namespace Ipld

namespace Token

theorem is_some_iff {t : Token} {kind : TokenKind} {word : String} :
    t.is kind (some word) = true ↔ t.kind = kind ∧ t.value = word := by
  obtain ⟨k, w, line⟩ := t
  simp only [Token.is, Bool.and_eq_true, beq_iff_eq, reduceCtorEq, Option.some.injEq,
    Bool.or_eq_true, false_or]
  exact ⟨fun h => ⟨h.1, h.2.symm⟩, fun h => ⟨h.1, h.2.symm⟩⟩

theorem is_none_iff {t : Token} {kind : TokenKind} : t.is kind none = true ↔ t.kind = kind := by
  simp [Token.is]

end Token

namespace Parser

namespace Outcome

variable {α β : Type}

@[simp]
theorem bind_ok (value : α) (rest : List Token) (f : α → List Token → Outcome β) :
    (ok value rest).bind f = f value rest := rfl

@[simp]
theorem bind_fail (why : Failure) (rest : List Token) (f : α → List Token → Outcome β) :
    (fail why rest).bind f = fail why rest := rfl

@[simp]
theorem map_ok (f : α → β) (value : α) (rest : List Token) :
    (ok value rest).map f = ok (f value) rest := rfl

@[simp]
theorem map_fail (f : α → β) (why : Failure) (rest : List Token) :
    (fail why rest).map f = fail why rest := rfl

end Outcome

/-! ## Keywords that may be left out -/

/-- Takes an optional keyword and says whether it was there. -/
def modifier (word : String) (ts : List Token) : Outcome Bool :=
  .ok (accept .keyword (some word) ts).1 (accept .keyword (some word) ts).2

/-- Takes the annotation when all of it is there, and says whether it was. -/
def advancedMark (ts : List Token) : Outcome Bool :=
  .ok (acceptAll advancedAnnotation ts).1 (acceptAll advancedAnnotation ts).2

/-- What an optional keyword takes: itself, or nothing. -/
inductive ModifierStep (word : String) : List Token → Outcome Bool → Prop
  | present {t : Token} {rest : List Token} (h : t.IsKeyword word) :
    ModifierStep word (t :: rest) (.ok true rest)
  | absent {ts : List Token} (h : check .keyword (some word) ts = false) :
    ModifierStep word ts (.ok false ts)

theorem modifier_present {word : String} {t : Token} (h : t.IsKeyword word) (rest : List Token) :
    modifier word (t :: rest) = .ok true rest := by
  unfold modifier accept
  rw [if_pos (show check .keyword (some word) (t :: rest) = true from h)]
  rfl

theorem modifier_absent {word : String} {ts : List Token}
    (h : check .keyword (some word) ts = false) : modifier word ts = .ok false ts := by
  simp [modifier, accept, h]

theorem modifier_step (word : String) (ts : List Token) :
    ModifierStep word ts (modifier word ts) := by
  cases h : check .keyword (some word) ts with
  | true =>
    obtain ⟨t, rest, rfl, ht⟩ := eq_cons_of_check h
    rw [modifier_present ht]
    exact .present ht
  | false =>
    rw [modifier_absent h]
    exact .absent h

/-- The tokens begin with the whole annotation. -/
inductive BeginsAdvanced : List Token → Prop
  | intro {r a m : Token} {rest : List Token} (hr : r.IsKeyword "representation")
    (ha : a.IsKeyword "advanced") (hm : m.IsKeyword "RMT") : BeginsAdvanced (r :: a :: m :: rest)

/-- What the annotation takes: all of itself, or nothing. -/
inductive AdvancedStep : List Token → Outcome Bool → Prop
  | present {r a m : Token} {rest : List Token} (hr : r.IsKeyword "representation")
    (ha : a.IsKeyword "advanced") (hm : m.IsKeyword "RMT") :
    AdvancedStep (r :: a :: m :: rest) (.ok true rest)
  | absent {ts : List Token} (h : ¬ BeginsAdvanced ts) : AdvancedStep ts (.ok false ts)

theorem go_acceptAll_cons {word : String} {words : List String} {ts rest : List Token} :
    acceptAll.go (word :: words) ts = some rest ↔
      ∃ t left, ts = t :: left ∧ t.IsKeyword word ∧ acceptAll.go words left = some rest := by
  rw [acceptAll.go]
  constructor
  · intro h
    split at h
    · rename_i hc
      obtain ⟨t, left, rfl, ht⟩ := eq_cons_of_check hc
      exact ⟨t, left, rfl, ht, h⟩
    · cases h
  · rintro ⟨t, left, rfl, ht, h⟩
    rw [if_pos (show check .keyword (some word) (t :: left) = true from ht)]
    exact h

theorem go_advanced {ts rest : List Token} :
    acceptAll.go advancedAnnotation ts = some rest ↔
      ∃ r a m, ts = r :: a :: m :: rest ∧ r.IsKeyword "representation" ∧ a.IsKeyword "advanced" ∧
        m.IsKeyword "RMT" := by
  unfold advancedAnnotation
  constructor
  · intro h
    obtain ⟨r, left₁, rfl, hr, h⟩ := go_acceptAll_cons.1 h
    obtain ⟨a, left₂, rfl, ha, h⟩ := go_acceptAll_cons.1 h
    obtain ⟨m, left₃, rfl, hm, h⟩ := go_acceptAll_cons.1 h
    cases h
    exact ⟨r, a, m, rfl, hr, ha, hm⟩
  · rintro ⟨r, a, m, rfl, hr, ha, hm⟩
    exact go_acceptAll_cons.2 ⟨r, _, rfl, hr, go_acceptAll_cons.2
      ⟨a, _, rfl, ha, go_acceptAll_cons.2 ⟨m, _, rfl, hm, rfl⟩⟩⟩

theorem advancedMark_present {r a m : Token} (hr : r.IsKeyword "representation")
    (ha : a.IsKeyword "advanced") (hm : m.IsKeyword "RMT") (rest : List Token) :
    advancedMark (r :: a :: m :: rest) = .ok true rest := by
  simp only [advancedMark, acceptAll, go_advanced.2 ⟨r, a, m, rfl, hr, ha, hm⟩]

theorem advancedMark_absent {ts : List Token} (h : ¬ BeginsAdvanced ts) :
    advancedMark ts = .ok false ts := by
  unfold advancedMark acceptAll
  cases hgo : acceptAll.go advancedAnnotation ts with
  | none => rfl
  | some rest =>
    obtain ⟨r, a, m, rfl, hr, ha, hm⟩ := go_advanced.1 hgo
    exact absurd ⟨hr, ha, hm⟩ h

theorem advancedMark_step (ts : List Token) : AdvancedStep ts (advancedMark ts) := by
  by_cases h : BeginsAdvanced ts
  · obtain ⟨hr, ha, hm⟩ := h
    rw [advancedMark_present hr ha hm]
    exact .present hr ha hm
  · rw [advancedMark_absent h]
    exact .absent h

/-! ## Single tokens -/

theorem consume_cons {kind : TokenKind} {value : Option String} {t : Token}
    (h : t.is kind value = true) (rest : List Token) :
    consume kind value (t :: rest) = .ok t rest := by
  unfold consume
  rw [if_pos (show check kind value (t :: rest) = true from h)]
  rfl

theorem consume_cons_other {kind : TokenKind} {value : Option String} {t : Token}
    (h : t.is kind value = false) (rest : List Token) :
    consume kind value (t :: rest) = .fail (.unexpected kind value t) (t :: rest) := by
  unfold consume
  rw [if_neg (show ¬ check kind value (t :: rest) = true from fun h' => by cases h.symm.trans h')]
  rfl

/-- What `consume` does: it takes the token, or finds another one, or none. -/
inductive ConsumeStep (kind : TokenKind) (value : Option String) :
    List Token → Outcome Token → Prop
  | taken {t : Token} {rest : List Token} (h : t.is kind value = true) :
    ConsumeStep kind value (t :: rest) (.ok t rest)
  | ended : ConsumeStep kind value [] (.fail .ended [])
  | other {t : Token} {rest : List Token} (h : t.is kind value = false) :
    ConsumeStep kind value (t :: rest) (.fail (.unexpected kind value t) (t :: rest))

theorem consume_step (kind : TokenKind) (value : Option String) (ts : List Token) :
    ConsumeStep kind value ts (consume kind value ts) := by
  cases ts with
  | nil => exact .ended
  | cons t rest =>
    cases h : t.is kind value with
    | true =>
      rw [consume_cons h]
      exact .taken h
    | false =>
      rw [consume_cons_other h]
      exact .other h

/-- What the key of a map takes. -/
inductive KeyStep : List Token → Outcome Unit → Prop
  | string {t : Token} {rest : List Token} (h : t.IsKeyword "String") :
    KeyStep (t :: rest) (.ok () rest)
  | ended : KeyStep [] (.fail .ended [])
  | other {t : Token} {rest : List Token} (h : ¬ t.IsKeyword "String") :
    KeyStep (t :: rest) (.fail (.key t) (t :: rest))

theorem mapKey_cons {t : Token} (h : t.IsKeyword "String") (rest : List Token) :
    mapKey (t :: rest) = .ok () rest := by
  unfold mapKey accept
  rw [if_pos (show check .keyword (some "String") (t :: rest) = true from h)]
  rfl

theorem mapKey_step (ts : List Token) : KeyStep ts (mapKey ts) := by
  cases ts with
  | nil => exact .ended
  | cons t rest =>
    unfold mapKey accept
    cases h : check .keyword (some "String") (t :: rest) with
    | true => exact .string h
    | false => exact .other fun h' => by cases h.symm.trans h'

theorem scalar_cons {t : Token} {kind : Scalar} (h : t.IsKeyword kind.keyword)
    (rest : List Token) : scalar (t :: rest) = .ok kind rest := by
  have hkind : Scalar.ofKeyword? t.value = some kind := by
    rw [(Token.is_some_iff.1 h).2]
    cases kind <;> decide
  simp [scalar, take, Outcome.bind, hkind]

theorem checkScalar_cons_iff {t : Token} {rest : List Token} :
    checkScalar (t :: rest) = true ↔ ∃ kind : Scalar, t.IsKeyword kind.keyword := by
  unfold checkScalar
  constructor
  · intro h
    obtain ⟨hk, hv⟩ := Bool.and_eq_true_iff.1 h
    obtain ⟨kind, -, hkind⟩ := List.mem_map.1 (of_decide_eq_true hv)
    exact ⟨kind, Token.is_some_iff.2 ⟨Token.is_none_iff.1 hk, hkind.symm⟩⟩
  · rintro ⟨kind, h⟩
    obtain ⟨hk, hv⟩ := Token.is_some_iff.1 h
    refine Bool.and_eq_true_iff.2 ⟨Token.is_none_iff.2 hk, decide_eq_true ?_⟩
    exact List.mem_map.2 ⟨kind, Scalar.mem_all kind, hv.symm⟩

/-! ## Nodes -/

/-- A list after its opening bracket. -/
def bracketedRest (ts : List Token) : Outcome Node :=
  (modifier "nullable" ts).bind fun nullable r₁ =>
    (node r₁).bind fun value r₂ =>
      (consume .symbol (some "]") r₂).map fun _ => .list value nullable

theorem bracketed_eq (ts : List Token) :
    bracketed ts = (consume .symbol (some "[") ts).bind fun _ rest => bracketedRest rest := by
  rw [bracketed]
  split
  · next h => simp only [h, Outcome.bind]
  · next h =>
    simp only [h]
    rfl

/-- A map after its opening brace. -/
def bracedRest (ts : List Token) : Outcome Node :=
  (mapKey ts).bind fun _ r₁ =>
    (consume .symbol (some ":") r₁).bind fun _ r₂ =>
      (modifier "nullable" r₂).bind fun nullable r₃ =>
        (node r₃).bind fun value r₄ =>
          (consume .symbol (some "\x7d") r₄).map fun _ => .map value nullable

theorem braced_eq (ts : List Token) :
    braced ts = (consume .symbol (some "\x7b") ts).bind fun _ rest => bracedRest rest := by
  rw [braced]
  split
  · next h => simp only [h, Outcome.bind]
  · next h₁ =>
    simp only [h₁, Outcome.bind_ok]
    unfold bracedRest
    split
    · next h₂ => simp only [h₂, Outcome.bind]
    · next h₂ =>
      split
      · next h₃ => simp only [h₂, h₃, Outcome.bind]
      · next h₃ => simp only [h₂, h₃, Outcome.bind, modifier]

theorem listBody_eq (ts : List Token) :
    listBody ts = (modifier "nullable" ts).bind fun nullable r₁ =>
      (node r₁).map fun value => .list value nullable :=
  rfl

/-- A token with which a node can begin. -/
def BeginsNode (t : Token) : Prop :=
  (∃ kind : Scalar, t.IsKeyword kind.keyword) ∨ t.IsSymbol "[" ∨ t.IsSymbol "\x7b" ∨
    t.IsSymbol "&" ∨ t.IsName

/-- The keyword of a definition that may not stand inside another one. -/
def BeginsBody (t : Token) : Prop :=
  t.IsKeyword "struct" ∨ t.IsKeyword "enum"

/-- How a node goes on after its first token. -/
inductive NodeStep (t : Token) (rest : List Token) : Outcome Node → Prop
  | scalar {kind : Scalar} (h : t.IsKeyword kind.keyword) :
    NodeStep t rest (.ok (.scalar kind) rest)
  | bracketed (h : t.IsSymbol "[") : NodeStep t rest (bracketed (t :: rest))
  | braced (h : t.IsSymbol "\x7b") : NodeStep t rest (braced (t :: rest))
  | link (h : t.IsSymbol "&") : NodeStep t rest (link rest)
  | body (h : BeginsBody t) : NodeStep t rest (.fail (.body t) (t :: rest))
  | ref (h : t.IsName) : NodeStep t rest (.ok (.ref t.value) rest)
  | other (h : ¬ BeginsNode t) (hbody : ¬ BeginsBody t) :
    NodeStep t rest (.fail (.unexpected .identifier none t) (t :: rest))

theorem node_step (t : Token) (rest : List Token) : NodeStep t rest (node (t :: rest)) := by
  rw [node]
  split
  · next hs =>
    obtain ⟨kind, hkind⟩ := checkScalar_cons_iff.1 hs
    rw [scalar_cons hkind]
    exact .scalar hkind
  next hs =>
  split
  · next h => exact .bracketed h
  next hlsqb =>
  split
  · next h => exact .braced h
  next hlbrace =>
  split
  · next h => exact .link h
  next hlink =>
  split
  · next h => exact .body (Bool.or_eq_true_iff.1 h)
  next hbody =>
  cases hname : t.is .identifier none with
  | true =>
    rw [consume_cons hname]
    exact .ref hname
  | false =>
    rw [consume_cons_other hname]
    refine .other ?_ fun h => hbody (Bool.or_eq_true_iff.2 h)
    rintro (h | h | h | h | h)
    · exact hs (checkScalar_cons_iff.2 h)
    · exact hlsqb h
    · exact hlbrace h
    · exact hlink h
    · cases hname.symm.trans h

theorem node_nil : node [] = .fail .ended [] := by
  rw [node]

/-! ## Definitions -/

theorem annotated_eq (o : Outcome Node) :
    annotated o = o.bind fun value r₁ => (advancedMark r₁).map fun advanced =>
      .node value advanced :=
  rfl

theorem field_eq (ts : List Token) :
    field ts = (consume .identifier none ts).bind fun name r₁ =>
      (modifier "optional" r₁).bind fun optional r₂ =>
        (modifier "nullable" r₂).bind fun nullable r₃ =>
          (node r₃).map fun value => (name.value, ⟨value, optional, nullable⟩) :=
  rfl

/-- A token with which a definition can begin. -/
def BeginsDefinition (t : Token) : Prop :=
  BeginsNode t ∨ BeginsBody t ∨ t.IsKeyword "map" ∨ t.IsKeyword "list" ∨ t.IsKeyword "link"

/-- How a definition goes on after its first token. -/
inductive DefinitionStep (t : Token) (rest : List Token) : Outcome Definition → Prop
  | scalar {kind : Scalar} (h : t.IsKeyword kind.keyword) :
    DefinitionStep t rest (.ok (.scalar kind) rest)
  | struct (h : t.IsKeyword "struct") : DefinitionStep t rest ((structBody rest).map .struct)
  | enum (h : t.IsKeyword "enum") : DefinitionStep t rest ((enumBody rest).map .enum)
  | map (h : t.IsKeyword "map") : DefinitionStep t rest (annotated (braced rest))
  | braced (h : t.IsSymbol "\x7b") : DefinitionStep t rest (annotated (braced (t :: rest)))
  | list (h : t.IsKeyword "list") : DefinitionStep t rest (annotated (listBody rest))
  | bracketed (h : t.IsSymbol "[") : DefinitionStep t rest (annotated (bracketed (t :: rest)))
  | link (h : t.IsKeyword "link" ∨ t.IsSymbol "&") :
    DefinitionStep t rest ((link rest).map fun value => .node value false)
  | ref (h : t.IsName) : DefinitionStep t rest (.ok (.node (.ref t.value) false) rest)
  | other (h : ¬ BeginsDefinition t) :
    DefinitionStep t rest (.fail (.unexpected .identifier none t) (t :: rest))

theorem definition_step (t : Token) (rest : List Token) :
    DefinitionStep t rest (definition (t :: rest)) := by
  rw [definition]
  split
  · next hs =>
    obtain ⟨kind, hkind⟩ := checkScalar_cons_iff.1 hs
    rw [scalar_cons hkind]
    exact .scalar hkind
  next hs =>
  split
  · next h => exact .struct h
  next hstruct =>
  split
  · next h => exact .enum h
  next henum =>
  split
  · next h => exact .map h
  next hmap =>
  split
  · next h => exact .braced h
  next hlbrace =>
  split
  · next h => exact .list h
  next hlist =>
  split
  · next h => exact .bracketed h
  next hlsqb =>
  split
  · next h => exact .link (Bool.or_eq_true_iff.1 h)
  next hlink =>
  cases hname : t.is .identifier none with
  | true =>
    rw [consume_cons hname]
    exact .ref hname
  | false =>
    rw [consume_cons_other hname]
    refine .other ?_
    rintro ((h | h | h | h | h) | (h | h) | h | h | h)
    · exact hs (checkScalar_cons_iff.2 h)
    · exact hlsqb h
    · exact hlbrace h
    · exact hlink (Bool.or_eq_true_iff.2 (.inr h))
    · cases hname.symm.trans h
    · exact hstruct h
    · exact henum h
    · exact hmap h
    · exact hlist h
    · exact hlink (Bool.or_eq_true_iff.2 (.inl h))

theorem definition_nil : definition [] = .fail .ended [] :=
  rfl

/-! ## Loops -/

theorem fields_eq (found : Table Field) (ts : List Token) :
    fields found ts = if check .symbol (some "\x7d") ts then .ok found ts
      else (field ts).bind fun entry rest => fields (found.insert entry.1 entry.2) rest := by
  rw [fields]
  split
  · rfl
  · split
    · next h => simp only [h, Outcome.bind]
    · next h => simp only [h, Outcome.bind]

/-- What follows a member: the closing brace, or a comma and the members after it. -/
def moreMembers (found : List String) (ts : List Token) : Outcome (List String) :=
  if check .symbol (some "\x7d") ts then .ok found.reverse ts
  else (consume .symbol (some ",") ts).bind fun _ rest => members found rest

theorem bind_member (found : List String) (ts : List Token) :
    ((member ts).bind fun name rest => members (name :: found) rest) =
      (consume .identifier none ts).bind fun name rest =>
        moreMembers (name.value :: found) rest := by
  unfold member
  cases consume .identifier none ts with
  | fail why rest => rfl
  | ok name rest =>
    rw [Outcome.bind_ok, Outcome.bind_ok, moreMembers]
    split
    · next h => rw [Outcome.bind_ok, members, if_pos h]
    · cases consume .symbol (some ",") rest with
      | fail why left => rfl
      | ok comma left => rfl

theorem members_eq (found : List String) (ts : List Token) :
    members found ts = if check .symbol (some "\x7d") ts then .ok found.reverse ts
      else (consume .identifier none ts).bind fun name rest =>
        moreMembers (name.value :: found) rest := by
  rw [← bind_member, members]
  split
  · rfl
  · split
    · next h => simp only [h, Outcome.bind]
    · next h => simp only [h, Outcome.bind]

theorem declarations_nil (found : Schema) : declarations found [] = .ok found [] := by
  rw [declarations]

theorem declarations_cons (found : Schema) (t : Token) (rest : List Token) :
    declarations found (t :: rest) =
      (declaration (t :: rest)).bind fun d left => declarations (found.add d.1 d.2) left := by
  rw [declarations]
  split
  · next h => simp only [h, Outcome.bind]
  · next h => simp only [h, Outcome.bind]

/-- What follows a complete definition: anything but an annotation. -/
def afterDefinition (name : String) (value : Definition) (ts : List Token) :
    Outcome (String × Definition) :=
  if check .keyword (some "representation") ts then
    (peek ts).bind fun found left => .fail (.annotated name found) left
  else .ok (name, value) ts

theorem declaration_eq (ts : List Token) :
    declaration ts = (consume .keyword (some "type") ts).bind fun _ r₁ =>
      (consume .identifier none r₁).bind fun name r₂ =>
        (definition r₂).bind fun value r₃ => afterDefinition name.value value r₃ :=
  rfl

/-- How a declaration ends after its definition. -/
inductive AfterStep (name : String) (value : Definition) :
    List Token → Outcome (String × Definition) → Prop
  | annotated {t : Token} {rest : List Token} (h : t.IsKeyword "representation") :
    AfterStep name value (t :: rest) (.fail (.annotated name t) (t :: rest))
  | plain {ts : List Token} (h : check .keyword (some "representation") ts = false) :
    AfterStep name value ts (.ok (name, value) ts)

theorem afterDefinition_step (name : String) (value : Definition) (ts : List Token) :
    AfterStep name value ts (afterDefinition name value ts) := by
  unfold afterDefinition
  cases h : check .keyword (some "representation") ts with
  | true =>
    obtain ⟨t, rest, rfl, ht⟩ := eq_cons_of_check h
    exact .annotated ht
  | false => exact .plain h

end Parser

end Ipld
