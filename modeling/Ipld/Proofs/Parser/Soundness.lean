import Ipld.Proofs.Parser.Completeness

/-!
# Everything that is read is spelled

The tokens a production takes spell the value it answers with.  When it fails, the tokens before the
place of the failure begin a phrase that could have been finished; so a production never goes
further than the grammar lets it.  Both are one predicate, `Reads`, which passes along the chains of
productions.
-/

namespace Ipld.Parser

variable {α β : Type}

/-- What an outcome on the tokens `ts` says about the phrases `Spells`. -/
def Reads (Spells : List Token → α → Prop) (ts : List Token) : Outcome α → Prop
  | .ok value rest => ∃ read, ts = read ++ rest ∧ Spells read value
  | .fail _ rest => ∃ read more value, ts = read ++ rest ∧ Spells (read ++ more) value

/-- A phrase and then another, which may depend on the value of the first. -/
inductive Chain (Spells : List Token → α → Prop) (Then : α → List Token → β → Prop) :
    List Token → β → Prop
  | intro {ts us : List Token} {value : α} {final : β} (h : Spells ts value)
    (hthen : Then value us final) : Chain Spells Then (ts ++ us) final

namespace Reads

variable {Spells Spells' : List Token → α → Prop} {Then : α → List Token → β → Prop}
  {ts : List Token} {o : Outcome α}

theorem mono (h : Reads Spells ts o) (himp : ∀ ts value, Spells ts value → Spells' ts value) :
    Reads Spells' ts o := by
  cases o with
  | ok value rest =>
    obtain ⟨read, heq, hread⟩ := h
    exact ⟨read, heq, himp _ _ hread⟩
  | fail why rest =>
    obtain ⟨read, more, value, heq, hread⟩ := h
    exact ⟨read, more, value, heq, himp _ _ hread⟩

/-- Where a production can fail or succeed, its phrases exist. -/
theorem exists_spells (h : Reads Spells ts o) : ∃ ts value, Spells ts value := by
  cases o with
  | ok value rest =>
    obtain ⟨read, -, hread⟩ := h
    exact ⟨read, value, hread⟩
  | fail why rest =>
    obtain ⟨read, more, value, -, hread⟩ := h
    exact ⟨read ++ more, value, hread⟩

theorem map (h : Reads Spells ts o) (f : α → β) :
    Reads (fun ts final => ∃ value, Spells ts value ∧ final = f value) ts (o.map f) := by
  cases o with
  | ok value rest =>
    obtain ⟨read, heq, hread⟩ := h
    exact ⟨read, heq, value, hread, rfl⟩
  | fail why rest =>
    obtain ⟨read, more, value, heq, hread⟩ := h
    exact ⟨read, more, f value, heq, value, hread, rfl⟩

/-- Productions in a row; the second is needed on the tokens that the first can leave. -/
theorem bind {n : Nat} {f : α → List Token → Outcome β} (h : Reads Spells ts o)
    (hlen : ∀ value rest, o = .ok value rest → rest.length ≤ n)
    (hf : ∀ value rest, rest.length ≤ n → Reads (Then value) rest (f value rest)) :
    Reads (Chain Spells Then) ts (o.bind f) := by
  cases o with
  | ok value rest =>
    obtain ⟨read, rfl, hread⟩ := h
    have hthen := hf value rest (hlen value rest rfl)
    rw [Outcome.bind_ok]
    cases hout : f value rest with
    | ok final left =>
      rw [hout] at hthen
      obtain ⟨read', rfl, hread'⟩ := hthen
      exact ⟨read ++ read', by rw [List.append_assoc], .intro hread hread'⟩
    | fail why left =>
      rw [hout] at hthen
      obtain ⟨read', more, final, rfl, hread'⟩ := hthen
      refine ⟨read ++ read', more, final, by rw [List.append_assoc], ?_⟩
      rw [List.append_assoc]
      exact .intro hread hread'
  | fail why rest =>
    obtain ⟨read, more, value, heq, hread⟩ := h
    -- The rest of the row is finished with any phrase of the second production.
    obtain ⟨us, final, hthen⟩ := (hf value [] (Nat.zero_le n)).exists_spells
    exact ⟨read, more ++ us, final, heq, by rw [← List.append_assoc]; exact .intro hread hthen⟩

theorem length_rest_le (h : Reads Spells ts o) {value : α} {rest : List Token}
    (ho : o = .ok value rest) : rest.length ≤ ts.length := by
  subst ho
  obtain ⟨read, rfl, -⟩ := h
  simp

/-- Productions in a row; the second is needed on at most as many tokens as the first got. -/
theorem bind_le {n : Nat} {f : α → List Token → Outcome β} (h : Reads Spells ts o)
    (hlen : ts.length ≤ n)
    (hf : ∀ value rest, rest.length ≤ n → Reads (Then value) rest (f value rest)) :
    Reads (Chain Spells Then) ts (o.bind f) :=
  h.bind (fun _ _ ho => Nat.le_trans (h.length_rest_le ho) hlen) hf

/-- A token that is already taken, before what is read after it. -/
theorem cons {Whole : List Token → α → Prop} {t : Token} (h : Reads Spells ts o)
    (hwhole : ∀ ts value, Spells ts value → Whole (t :: ts) value) : Reads Whole (t :: ts) o := by
  cases o with
  | ok value rest =>
    obtain ⟨read, rfl, hread⟩ := h
    exact ⟨t :: read, rfl, hwhole _ _ hread⟩
  | fail why rest =>
    obtain ⟨read, more, value, rfl, hread⟩ := h
    exact ⟨t :: read, more, value, rfl, hwhole _ _ hread⟩

end Reads

/-! ## Single tokens -/

theorem exists_is (kind : TokenKind) (value : Option String) :
    ∃ t : Token, t.is kind value = true := by
  cases value with
  | none => exact ⟨⟨kind, "", 0⟩, Token.is_none_iff.2 rfl⟩
  | some word => exact ⟨⟨kind, word, 0⟩, Token.is_some_iff.2 ⟨rfl, rfl⟩⟩

/-- One token. -/
inductive SpellsToken (kind : TokenKind) (value : Option String) : List Token → Token → Prop
  | intro {t : Token} (h : t.is kind value = true) : SpellsToken kind value [t] t

theorem reads_consume (kind : TokenKind) (value : Option String) (ts : List Token) :
    Reads (SpellsToken kind value) ts (consume kind value ts) := by
  obtain ⟨u, hu⟩ := exists_is kind value
  have h := consume_step kind value ts
  generalize consume kind value ts = o at h
  cases h with
  | taken h => exact ⟨[_], rfl, .intro h⟩
  | ended => exact ⟨[], [u], u, rfl, .intro hu⟩
  | other => exact ⟨[], [u], u, rfl, .intro hu⟩

/-- A token and then another production, which gets fewer tokens. -/
theorem reads_consume_bind {kind : TokenKind} {value : Option String} {ts : List Token} {n : Nat}
    {f : Token → List Token → Outcome β} {Then : Token → List Token → β → Prop}
    (hlen : ts.length ≤ n + 1)
    (hf : ∀ t rest, rest.length ≤ n → Reads (Then t) rest (f t rest)) :
    Reads (Chain (SpellsToken kind value) Then) ts ((consume kind value ts).bind f) := by
  refine (reads_consume kind value ts).bind (fun t rest h => ?_) hf
  have := shrinks_consume kind value ts t rest h
  omega

theorem reads_modifier (word : String) (ts : List Token) :
    Reads (SpellsModifier word) ts (modifier word ts) := by
  have h := modifier_step word ts
  generalize modifier word ts = o at h
  cases h with
  | present h => exact ⟨[_], rfl, .present h⟩
  | absent => exact ⟨[], rfl, .absent⟩

/-- The key of a map. -/
inductive SpellsKey : List Token → Unit → Prop
  | intro {t : Token} (h : t.IsKeyword "String") : SpellsKey [t] ()

theorem reads_mapKey (ts : List Token) : Reads SpellsKey ts (mapKey ts) := by
  obtain ⟨u, hu⟩ := exists_is .keyword (some "String")
  have h := mapKey_step ts
  generalize mapKey ts = o at h
  cases h with
  | string h => exact ⟨[_], rfl, .intro h⟩
  | ended => exact ⟨[], [u], (), rfl, .intro hu⟩
  | other => exact ⟨[], [u], (), rfl, .intro hu⟩

/-! ## Nodes -/

section Node

-- Nodes are read as they are spelled, as far as lists of `n` tokens go.
variable {n : Nat} (hnode : ∀ ts : List Token, ts.length ≤ n → Reads SpellsNode ts (node ts))

include hnode in
theorem reads_bracketed_of {ts : List Token} (hlen : ts.length ≤ n + 1) :
    Reads SpellsBracketed ts (bracketed ts) := by
  rw [bracketed_eq]
  unfold bracketedRest
  refine (reads_consume_bind hlen fun _ r₁ h₁ =>
    (reads_modifier "nullable" r₁).bind_le h₁ fun nullable r₂ h₂ =>
      (hnode r₂ h₂).bind_le h₂ fun value r₃ _ =>
        (reads_consume .symbol (some "]") r₃).map fun _ => Node.list value nullable).mono ?_
  rintro _ _ ⟨⟨hopen⟩, ⟨hnullable, ⟨hvalue, ⟨_, ⟨hclose⟩, rfl⟩⟩⟩⟩
  exact .intro hopen hnullable hvalue hclose

include hnode in
theorem reads_braced_of {ts : List Token} (hlen : ts.length ≤ n + 1) :
    Reads SpellsBraced ts (braced ts) := by
  rw [braced_eq]
  unfold bracedRest
  refine (reads_consume_bind hlen fun _ r₁ h₁ =>
    (reads_mapKey r₁).bind_le h₁ fun _ r₂ h₂ =>
      (reads_consume .symbol (some ":") r₂).bind_le h₂ fun _ r₃ h₃ =>
        (reads_modifier "nullable" r₃).bind_le h₃ fun nullable r₄ h₄ =>
          (hnode r₄ h₄).bind_le h₄ fun value r₅ _ =>
            (reads_consume .symbol (some "\x7d") r₅).map fun _ => Node.map value nullable).mono ?_
  rintro _ _ ⟨⟨hopen⟩, ⟨⟨hkey⟩, ⟨⟨hcolon⟩, ⟨hnullable, ⟨hvalue, ⟨_, ⟨hclose⟩, rfl⟩⟩⟩⟩⟩⟩
  exact .intro hopen hkey hcolon hnullable hvalue hclose

end Node

theorem reads_link (ts : List Token) :
    Reads (fun ts value => ∃ name : Token, ts = [name] ∧ name.IsName ∧ value = .link name.value) ts
      (link ts) := by
  refine ((reads_consume .identifier none ts).map fun t => Node.link t.value).mono ?_
  rintro _ _ ⟨t, ⟨h⟩, rfl⟩
  exact ⟨t, rfl, h, rfl⟩

theorem exists_spellsNode : ∃ ts value, SpellsNode ts value := by
  obtain ⟨u, hu⟩ := exists_is .identifier none
  exact ⟨[u], .ref u.value, .ref hu⟩

/-- A failure at the first token: nothing is read, and anything may follow. -/
theorem reads_fail {Spells : List Token → α → Prop} (h : ∃ ts value, Spells ts value)
    (why : Failure) (ts : List Token) : Reads Spells ts (.fail why ts) := by
  obtain ⟨more, value, hspells⟩ := h
  exact ⟨[], more, value, rfl, hspells⟩

theorem reads_node_of_le (n : Nat) :
    ∀ ts : List Token, ts.length ≤ n → Reads SpellsNode ts (node ts) := by
  induction n with
  | zero =>
    intro ts hlen
    rw [List.length_eq_zero_iff.1 (Nat.le_zero.1 hlen), node_nil]
    exact reads_fail exists_spellsNode .ended []
  | succ n ih =>
    intro ts hlen
    cases ts with
    | nil =>
      rw [node_nil]
      exact reads_fail exists_spellsNode .ended []
    | cons t rest =>
      have h := node_step t rest
      generalize node (t :: rest) = o at h
      cases h with
      | scalar h => exact ⟨[t], rfl, .scalar h⟩
      | bracketed => exact (reads_bracketed_of ih hlen).mono fun _ _ => .bracketed
      | braced => exact (reads_braced_of ih hlen).mono fun _ _ => .braced
      | link hlink =>
        refine (reads_link rest).cons ?_
        rintro _ _ ⟨name, rfl, hname, rfl⟩
        exact .link hlink hname
      | body => exact reads_fail exists_spellsNode _ _
      | ref h => exact ⟨[t], rfl, .ref h⟩
      | other => exact reads_fail exists_spellsNode _ _

theorem reads_node (ts : List Token) : Reads SpellsNode ts (node ts) :=
  reads_node_of_le ts.length ts (Nat.le_refl _)

theorem reads_bracketed (ts : List Token) : Reads SpellsBracketed ts (bracketed ts) :=
  reads_bracketed_of (fun ts _ => reads_node ts) (Nat.le_succ ts.length)

theorem reads_braced (ts : List Token) : Reads SpellsBraced ts (braced ts) :=
  reads_braced_of (fun ts _ => reads_node ts) (Nat.le_succ ts.length)

theorem reads_listBody (ts : List Token) : Reads SpellsListBody ts (listBody ts) := by
  rw [listBody_eq]
  refine ((reads_modifier "nullable" ts).bind_le (Nat.le_refl _) fun nullable r₁ _ =>
    (reads_node r₁).map fun value => Node.list value nullable).mono ?_
  rintro _ _ ⟨hnullable, ⟨_, hvalue, rfl⟩⟩
  exact .intro hnullable hvalue

/-! ## Bodies -/

theorem reads_field (ts : List Token) : Reads SpellsField ts (field ts) := by
  rw [field_eq]
  refine ((reads_consume .identifier none ts).bind_le (Nat.le_refl _) fun name r₁ h₁ =>
    (reads_modifier "optional" r₁).bind_le h₁ fun optional r₂ h₂ =>
      (reads_modifier "nullable" r₂).bind_le h₂ fun nullable r₃ _ =>
        (reads_node r₃).map fun value => (name.value, Field.mk value optional nullable)).mono ?_
  rintro _ _ ⟨⟨hname⟩, ⟨hoptional, ⟨hnullable, ⟨_, hvalue, rfl⟩⟩⟩⟩
  rw [List.singleton_append]
  exact .intro hname hoptional hnullable hvalue

/-- The fields that `fields` adds to those already found. -/
def SpellsFieldsAfter (found : Table Field) (ts : List Token) (all : Table Field) : Prop :=
  ∃ entries, SpellsFields ts entries ∧
    all = entries.foldl (fun t entry => t.insert entry.1 entry.2) found

theorem reads_fields_of_le (n : Nat) : ∀ (found : Table Field) (ts : List Token), ts.length ≤ n →
    Reads (SpellsFieldsAfter found) ts (fields found ts) := by
  induction n with
  | zero =>
    intro found ts hlen
    rw [List.length_eq_zero_iff.1 (Nat.le_zero.1 hlen)]
    rw [fields_eq]
    have hempty : ∃ ts all, SpellsFieldsAfter found ts all := ⟨[], found, [], .nil, rfl⟩
    exact reads_fail hempty .ended []
  | succ n ih =>
    intro found ts hlen
    rw [fields_eq]
    split
    · exact ⟨[], rfl, [], .nil, rfl⟩
    · refine ((reads_field ts).bind (fun entry rest h => ?_) fun entry rest h =>
        ih (found.insert entry.1 entry.2) rest h).mono ?_
      · have := shrinks_field ts entry rest h
        omega
      · rintro _ _ ⟨hfield, entries, hrest, rfl⟩
        exact ⟨_ :: entries, .cons hfield hrest, rfl⟩

theorem reads_fields (found : Table Field) (ts : List Token) :
    Reads (SpellsFieldsAfter found) ts (fields found ts) :=
  reads_fields_of_le ts.length found ts (Nat.le_refl _)

/-- What may stand before the closing brace of an enum after a name: a comma and perhaps more
names. -/
inductive SpellsMore : List Token → List String → Prop
  | none : SpellsMore [] []
  | comma {comma : Token} {ts : List Token} {names : List String} (hcomma : comma.IsSymbol ",")
    (hrest : SpellsMembers ts names) : SpellsMore (comma :: ts) names

theorem spellsMembers_cons {name : Token} {ts : List Token} {names : List String}
    (hname : name.IsName) (hrest : SpellsMore ts names) :
    SpellsMembers (name :: ts) (name.value :: names) := by
  cases hrest with
  | none => exact .names (.last hname)
  | comma hcomma hrest =>
    cases hrest with
    | none => exact @SpellsMembers.trailing [name] _ _ (.last hname) hcomma
    | names h => exact .names (.more hname hcomma h)
    | trailing h hcomma' => exact .trailing (.more hname hcomma h) hcomma'

/-- The members that `members` adds to those already found. -/
def SpellsMembersAfter (found : List String) (ts : List Token) (all : List String) : Prop :=
  ∃ names, SpellsMembers ts names ∧ all = found.reverse ++ names

theorem reads_moreMembers {found : List String} {n : Nat}
    (hmembers : ∀ ts : List Token, ts.length ≤ n →
      Reads (SpellsMembersAfter found) ts (members found ts))
    {ts : List Token} (hlen : ts.length ≤ n + 1) :
    Reads (fun ts all => ∃ names, SpellsMore ts names ∧ all = found.reverse ++ names) ts
      (moreMembers found ts) := by
  rw [moreMembers]
  split
  · exact ⟨[], rfl, [], .none, (List.append_nil _).symm⟩
  · refine (reads_consume_bind hlen fun _ rest h => hmembers rest h).mono ?_
    rintro _ _ ⟨⟨hcomma⟩, names, hrest, rfl⟩
    exact ⟨names, .comma hcomma hrest, rfl⟩

theorem reads_members_of_le (n : Nat) : ∀ (found : List String) (ts : List Token), ts.length ≤ n →
    Reads (SpellsMembersAfter found) ts (members found ts) := by
  induction n with
  | zero =>
    intro found ts hlen
    rw [List.length_eq_zero_iff.1 (Nat.le_zero.1 hlen), members_eq]
    have hempty : ∃ ts all, SpellsMembersAfter found ts all :=
      ⟨[], found.reverse ++ [], [], .none, rfl⟩
    exact reads_fail hempty .ended []
  | succ n ih =>
    intro found ts hlen
    rw [members_eq]
    split
    · exact ⟨[], rfl, [], .none, (List.append_nil _).symm⟩
    · refine (reads_consume_bind hlen fun name rest h =>
        reads_moreMembers (ih (name.value :: found)) (Nat.le_succ_of_le h)).mono ?_
      rintro _ _ ⟨⟨hname⟩, names, hrest, rfl⟩
      exact ⟨_, spellsMembers_cons hname hrest, by
        rw [List.reverse_cons, List.append_assoc, List.singleton_append]⟩

theorem reads_members (ts : List Token) : Reads SpellsMembers ts (members [] ts) := by
  refine (reads_members_of_le ts.length [] ts (Nat.le_refl _)).mono ?_
  rintro _ _ ⟨names, h, rfl⟩
  exact h

/-- What stands between braces. -/
inductive SpellsInBraces (Spells : List Token → α → Prop) : List Token → α → Prop
  | intro {lbrace rbrace : Token} {ts : List Token} {value : α} (hopen : lbrace.IsSymbol "\x7b")
    (hbody : Spells ts value) (hclose : rbrace.IsSymbol "\x7d") :
    SpellsInBraces Spells (lbrace :: (ts ++ [rbrace])) value

theorem reads_inBraces {Spells : List Token → α → Prop} {body : List Token → Outcome α}
    (hbody : ∀ ts, Reads Spells ts (body ts)) (ts : List Token) :
    Reads (SpellsInBraces Spells) ts (inBraces body ts) := by
  rw [inBraces]
  refine ((reads_consume .symbol (some "\x7b") ts).bind_le (Nat.le_refl _) fun _ r₁ h₁ =>
    (hbody r₁).bind_le h₁ fun value r₂ _ =>
      (reads_consume .symbol (some "\x7d") r₂).map fun _ => value).mono ?_
  rintro _ _ ⟨⟨hopen⟩, ⟨hread, ⟨_, ⟨hclose⟩, rfl⟩⟩⟩
  exact .intro hopen hread hclose

/-! ## Definitions and declarations -/

theorem reads_advancedMark (ts : List Token) : Reads SpellsAdvanced ts (advancedMark ts) := by
  have h := advancedMark_step ts
  generalize advancedMark ts = o at h
  cases h with
  | @present r a m rest hr ha hm => exact ⟨[r, a, m], rfl, .present hr ha hm⟩
  | absent => exact ⟨[], rfl, .absent⟩

/-- A node and the annotation. -/
inductive SpellsAnnotated (Spells : List Token → Node → Prop) : List Token → Definition → Prop
  | intro {ts as : List Token} {value : Node} {advanced : Bool} (h : Spells ts value)
    (hadvanced : SpellsAdvanced as advanced) :
    SpellsAnnotated Spells (ts ++ as) (.node value advanced)

theorem reads_annotated {Spells : List Token → Node → Prop} {ts : List Token} {o : Outcome Node}
    (ho : Reads Spells ts o) : Reads (SpellsAnnotated Spells) ts (annotated o) := by
  rw [annotated_eq]
  refine (ho.bind_le (Nat.le_refl _) fun value r₁ _ =>
    (reads_advancedMark r₁).map fun advanced => Definition.node value advanced).mono ?_
  rintro _ _ ⟨h, ⟨_, hadvanced, rfl⟩⟩
  exact .intro h hadvanced

theorem exists_spellsDefinition : ∃ ts value, SpellsDefinition ts value := by
  obtain ⟨u, hu⟩ := exists_is .identifier none
  exact ⟨[u], .node (.ref u.value) false, .ref hu⟩

theorem reads_definition (ts : List Token) : Reads SpellsDefinition ts (definition ts) := by
  cases ts with
  | nil =>
    rw [definition_nil]
    exact reads_fail exists_spellsDefinition .ended []
  | cons t rest =>
    have h := definition_step t rest
    generalize definition (t :: rest) = o at h
    cases h with
    | scalar h => exact ⟨[t], rfl, .scalar h⟩
    | struct hkeyword =>
      refine ((reads_inBraces (reads_fields .empty) rest).map _).cons ?_
      rintro _ _ ⟨_, ⟨hopen, ⟨entries, hfields, rfl⟩, hclose⟩, rfl⟩
      exact .struct hkeyword hopen hfields hclose
    | enum hkeyword =>
      refine ((reads_inBraces reads_members rest).map _).cons ?_
      rintro _ _ ⟨names, ⟨hopen, hmembers, hclose⟩, rfl⟩
      exact .enum hkeyword hopen hmembers hclose
    | map hkeyword =>
      refine (reads_annotated (reads_braced rest)).cons ?_
      rintro _ _ ⟨hbody, hadvanced⟩
      exact .map (.present hkeyword) hbody hadvanced
    | braced =>
      refine (reads_annotated (reads_braced _)).mono ?_
      rintro _ _ ⟨hbody, hadvanced⟩
      exact .map .absent hbody hadvanced
    | list hkeyword =>
      refine (reads_annotated (reads_listBody rest)).cons ?_
      rintro _ _ ⟨hbody, hadvanced⟩
      exact .list hkeyword hbody hadvanced
    | bracketed =>
      refine (reads_annotated (reads_bracketed _)).mono ?_
      rintro _ _ ⟨hbody, hadvanced⟩
      exact .bracketed hbody hadvanced
    | link hlink =>
      refine ((reads_link rest).map _).cons ?_
      rintro _ _ ⟨_, ⟨name, rfl, hname, rfl⟩, rfl⟩
      exact .link hlink hname
    | ref h => exact ⟨[t], rfl, .ref h⟩
    | other => exact reads_fail exists_spellsDefinition _ _

theorem reads_declaration (ts : List Token) : Reads SpellsDeclaration ts (declaration ts) := by
  rw [declaration_eq]
  refine ((reads_consume .keyword (some "type") ts).bind_le (Nat.le_refl _) fun _ r₁ h₁ =>
    (reads_consume .identifier none r₁).bind_le h₁ fun name r₂ h₂ =>
      (reads_definition r₂).bind_le h₂ fun value r₃ _ =>
        (?_ : Reads (fun ts d => ts = [] ∧ d = (name.value, value)) r₃ _)).mono ?_
  · have h := afterDefinition_step name.value value r₃
    generalize afterDefinition name.value value r₃ = o at h
    cases h with
    | annotated => exact ⟨[], [], _, rfl, rfl, rfl⟩
    | plain => exact ⟨[], rfl, rfl, rfl⟩
  · rintro _ _ ⟨⟨hkeyword⟩, ⟨⟨hname⟩, ⟨hvalue, rfl, rfl⟩⟩⟩
    rw [List.append_nil]
    exact .intro hkeyword hname hvalue

/-! ## Whole lists -/

/-- The declarations that are added to a schema. -/
def SpellsSchemaAfter (found : Schema) (ts : List Token) (all : Schema) : Prop :=
  ∃ ds, SpellsSchema ts ds ∧ all = ds.foldl (fun s d => s.add d.1 d.2) found

theorem reads_declarations_of_le (n : Nat) : ∀ (found : Schema) (ts : List Token),
    ts.length ≤ n → Reads (SpellsSchemaAfter found) ts (declarations found ts) := by
  induction n with
  | zero =>
    intro found ts hlen
    rw [List.length_eq_zero_iff.1 (Nat.le_zero.1 hlen), declarations_nil]
    exact ⟨[], rfl, [], .nil, rfl⟩
  | succ n ih =>
    intro found ts hlen
    cases ts with
    | nil =>
      rw [declarations_nil]
      exact ⟨[], rfl, [], .nil, rfl⟩
    | cons t rest =>
      rw [declarations_cons]
      refine ((reads_declaration _).bind (fun d left h => ?_) fun d left h =>
        ih (found.add d.1 d.2) left h).mono ?_
      · have := shrinks_declaration (t :: rest) d left h
        omega
      · rintro _ _ ⟨hdeclaration, ds, hrest, rfl⟩
        exact ⟨_ :: ds, .cons hdeclaration hrest, rfl⟩

/-- A schema that is read is spelled by the tokens it was read from. -/
theorem reads_schema (ts : List Token) :
    Reads (fun ts s => ∃ ds, SpellsSchema ts ds ∧ s = .ofDeclarations ds) ts (schema ts) :=
  reads_declarations_of_le ts.length .empty ts (Nat.le_refl _)

/-- Nothing is left of a schema that is read. -/
theorem rest_eq_nil_of_declarations {found s : Schema} {ts rest : List Token}
    (h : declarations found ts = .ok s rest) : rest = [] := by
  fun_induction declarations found ts with
  | case1 =>
    cases h
    rfl
  | case2 => cases h
  | case3 _ _ _ _ _ _ _ ih => exact ih h

end Ipld.Parser
