import Ipld.Proofs.Parser.Language
import Ipld.Proofs.Schema.Table
import Ipld.Proofs.Token.Scanning

/-!
# Well-formed schemas

Every name in a schema that is read from a source stands there as a name, so it is a run of name
characters and not one of the reserved words.  A type that is a node is never a scalar, which would
be a scalar definition, and only lists and maps carry the annotation.  The types are bound in the
order in which their names are first declared.
-/

namespace Ipld

/-! ## Names -/

/-- A name that a source can spell. -/
def IsIdentifier (name : String) : Prop :=
  IsRun name.toList ∧ name ∉ keywords

instance (name : String) : Decidable (IsIdentifier name) :=
  inferInstanceAs (Decidable (IsRun name.toList ∧ name ∉ keywords))

theorem keyword_mem_keywords (kind : Scalar) : kind.keyword ∈ keywords := by
  cases kind <;> decide

/-- All names in a node, of references and of links, are identifiers. -/
def Node.Named : Node → Prop
  | .scalar _ => True
  | .link target => IsIdentifier target
  | .ref name => IsIdentifier name
  | .list value _ => value.Named
  | .map value _ => value.Named

/-! ## Definitions and schemas -/

/-- The nodes that may be annotated. -/
inductive Node.IsCollection : Node → Prop
  | list (value : Node) (nullable : Bool) : IsCollection (.list value nullable)
  | map (value : Node) (nullable : Bool) : IsCollection (.map value nullable)

def Definition.WellFormed : Definition → Prop
  | .scalar _ => True
  | .struct fields => ∀ e ∈ fields.entries, IsIdentifier e.1 ∧ e.2.type.Named
  | .enum members => ∀ m ∈ members, IsIdentifier m
  | .node value advanced =>
    value.Named ∧ (∀ kind, value ≠ .scalar kind) ∧ (advanced = true → value.IsCollection)

structure Schema.WellFormed (s : Schema) : Prop where
  /-- The names of the types are the declared names, each where it is declared first. -/
  keys : s.types.keys = s.declared.eraseDups
  names : ∀ name ∈ s.declared, IsIdentifier name
  definitions : ∀ e ∈ s.types.entries, e.2.WellFormed

/-! ## The names in a source -/

theorem exists_of_mem_tokens {last before : List Char} {ps : List Piece} (h : Laid last ps)
    {t : Token} (ht : t ∈ Piece.tokens before ps) :
    ∃ word, IsWord word ∧ t.kind = kindOf word ∧ t.value = String.ofList word := by
  induction h generalizing before with
  | nil => cases ht
  | @cons p ps _ hword _ _ ih =>
    rw [Piece.tokens, List.mem_cons] at ht
    rcases ht with rfl | ht
    · exact ⟨p.word, hword, rfl, rfl⟩
    · exact ih ht

theorem isIdentifier_of_isWord {word : List Char} (h : IsWord word)
    (hkind : kindOf word = .identifier) : IsIdentifier (String.ofList word) := by
  rcases h with ⟨c, hc, rfl⟩ | hrun
  · rw [kindOf_of_isSymbol hc] at hkind
    cases hkind
  · rw [kindOf_of_isRun hrun, wordKind] at hkind
    split at hkind
    · cases hkind
    · next hnot => exact ⟨by rwa [String.toList_ofList], hnot⟩

/-- The names among the tokens are identifiers. -/
def WellNamed (ts : List Token) : Prop :=
  ∀ t ∈ ts, t.IsName → IsIdentifier t.value

theorem wellNamed_of_tokenize {source : String} {ts : List Token} (h : tokenize source = .ok ts) :
    WellNamed ts := by
  obtain ⟨l, -, rfl⟩ := exists_layout_of_tokenize h
  intro t ht hname
  obtain ⟨word, hword, hkind, hvalue⟩ := exists_of_mem_tokens l.laid ht
  rw [hvalue]
  exact isIdentifier_of_isWord hword (hkind ▸ Token.is_none_iff.1 hname)

@[simp] theorem wellNamed_cons {t : Token} {ts : List Token} :
    WellNamed (t :: ts) ↔ (t.IsName → IsIdentifier t.value) ∧ WellNamed ts :=
  List.forall_mem_cons

@[simp] theorem wellNamed_append {ts us : List Token} :
    WellNamed (ts ++ us) ↔ WellNamed ts ∧ WellNamed us :=
  List.forall_mem_append

/-! ## What well-named tokens spell -/

mutual

theorem named_of_spellsNode : ∀ {ts : List Token} {value : Node}, SpellsNode ts value →
    WellNamed ts → value.Named
  | _, _, .scalar _, _ => trivial
  | _, _, .bracketed h, hts => named_of_spellsBracketed h hts
  | _, _, .braced h, hts => named_of_spellsBraced h hts
  | _, _, .link _ hname, hts => by
    simp only [wellNamed_cons] at hts
    exact hts.2.1 hname
  | _, _, .ref hname, hts => by
    simp only [wellNamed_cons] at hts
    exact hts.1 hname

theorem named_of_spellsBracketed : ∀ {ts : List Token} {value : Node}, SpellsBracketed ts value →
    WellNamed ts → value.Named
  | _, _, .intro _ _ hvalue _, hts => by
    simp only [wellNamed_cons, wellNamed_append] at hts
    have hnamed := named_of_spellsNode hvalue hts.2.2.1
    exact hnamed

theorem named_of_spellsBraced : ∀ {ts : List Token} {value : Node}, SpellsBraced ts value →
    WellNamed ts → value.Named
  | _, _, .intro _ _ _ _ hvalue _, hts => by
    simp only [wellNamed_cons, wellNamed_append] at hts
    have hnamed := named_of_spellsNode hvalue hts.2.2.2.2.1
    exact hnamed

end

theorem isCollection_of_spellsBracketed {ts : List Token} {value : Node}
    (h : SpellsBracketed ts value) : value.IsCollection := by
  cases h with
  | intro => exact .list _ _

theorem isCollection_of_spellsBraced {ts : List Token} {value : Node}
    (h : SpellsBraced ts value) : value.IsCollection := by
  cases h with
  | intro => exact .map _ _

theorem isCollection_of_spellsListBody {ts : List Token} {value : Node}
    (h : SpellsListBody ts value) : value.IsCollection := by
  cases h with
  | intro => exact .list _ _

theorem named_of_spellsListBody {ts : List Token} {value : Node} (h : SpellsListBody ts value)
    (hts : WellNamed ts) : value.Named := by
  cases h with
  | intro _ hvalue =>
    rw [wellNamed_append] at hts
    have hnamed := named_of_spellsNode hvalue hts.2
    exact hnamed

theorem named_of_spellsField {ts : List Token} {entry : String × Field}
    (h : SpellsField ts entry) (hts : WellNamed ts) :
    IsIdentifier entry.1 ∧ entry.2.type.Named := by
  cases h with
  | intro hname _ _ hvalue =>
    simp only [wellNamed_cons, wellNamed_append] at hts
    exact ⟨hts.1 hname, named_of_spellsNode hvalue hts.2.2.2⟩

theorem named_of_spellsFields {ts : List Token} {entries : List (String × Field)}
    (h : SpellsFields ts entries) (hts : WellNamed ts) :
    ∀ e ∈ entries, IsIdentifier e.1 ∧ e.2.type.Named := by
  induction h with
  | nil => simp
  | cons hfield _ ih =>
    rw [wellNamed_append] at hts
    exact List.forall_mem_cons.2 ⟨named_of_spellsField hfield hts.1, ih hts.2⟩

theorem isIdentifier_of_spellsNames {ts : List Token} {names : List String}
    (h : SpellsNames ts names) (hts : WellNamed ts) : ∀ m ∈ names, IsIdentifier m := by
  induction h with
  | last hname =>
    intro m hm
    rw [List.mem_singleton] at hm
    subst hm
    exact hts _ List.mem_cons_self hname
  | more hname _ _ ih =>
    simp only [wellNamed_cons] at hts
    exact List.forall_mem_cons.2 ⟨hts.1 hname, ih hts.2.2⟩

theorem isIdentifier_of_spellsMembers {ts : List Token} {names : List String}
    (h : SpellsMembers ts names) (hts : WellNamed ts) : ∀ m ∈ names, IsIdentifier m := by
  cases h with
  | none => simp
  | names h => exact isIdentifier_of_spellsNames h hts
  | trailing h =>
    rw [wellNamed_append] at hts
    exact isIdentifier_of_spellsNames h hts.1

/-- A list or a map is well formed with the annotation and without. -/
theorem Node.IsCollection.wellFormed {value : Node} (h : value.IsCollection) (hnamed : value.Named)
    (advanced : Bool) : (Definition.node value advanced).WellFormed := by
  refine ⟨hnamed, fun kind => ?_, fun _ => h⟩
  rintro rfl
  cases h

theorem wellFormed_of_spellsDefinition {ts : List Token} {d : Definition}
    (h : SpellsDefinition ts d) (hts : WellNamed ts) : d.WellFormed := by
  cases h with
  | scalar => trivial
  | struct _ _ hfields _ =>
    simp only [wellNamed_cons, wellNamed_append] at hts
    exact fun e he => named_of_spellsFields hfields hts.2.2.1 e (Table.mem_of_mem_ofList he)
  | enum _ _ hmembers _ =>
    simp only [wellNamed_cons, wellNamed_append] at hts
    exact isIdentifier_of_spellsMembers hmembers hts.2.2.1
  | map _ hbody _ =>
    simp only [wellNamed_append] at hts
    exact (isCollection_of_spellsBraced hbody).wellFormed
      (named_of_spellsBraced hbody hts.2.1) _
  | list _ hbody _ =>
    simp only [wellNamed_cons, wellNamed_append] at hts
    exact (isCollection_of_spellsListBody hbody).wellFormed
      (named_of_spellsListBody hbody hts.2.1) _
  | bracketed hbody _ =>
    rw [wellNamed_append] at hts
    exact (isCollection_of_spellsBracketed hbody).wellFormed
      (named_of_spellsBracketed hbody hts.1) _
  | link _ hname =>
    simp only [wellNamed_cons] at hts
    exact ⟨hts.2.1 hname, nofun, nofun⟩
  | ref hname =>
    simp only [wellNamed_cons] at hts
    exact ⟨hts.1 hname, nofun, nofun⟩

theorem wellFormed_of_spellsSchema {ts : List Token} {ds : List (String × Definition)}
    (h : SpellsSchema ts ds) (hts : WellNamed ts) :
    ∀ d ∈ ds, IsIdentifier d.1 ∧ d.2.WellFormed := by
  induction h with
  | nil => simp
  | cons hd _ ih =>
    rw [wellNamed_append] at hts
    refine List.forall_mem_cons.2 ⟨?_, ih hts.2⟩
    cases hd with
    | intro _ hname hvalue =>
      simp only [wellNamed_cons] at hts
      exact ⟨hts.1.2.1 hname, wellFormed_of_spellsDefinition hvalue hts.1.2.2⟩

/-! ## What is read from a source -/

theorem wellFormed_ofDeclarations {ds : List (String × Definition)}
    (h : ∀ d ∈ ds, IsIdentifier d.1 ∧ d.2.WellFormed) : (Schema.ofDeclarations ds).WellFormed where
  keys := by
    rw [Schema.types_ofDeclarations, Schema.declared_ofDeclarations, Table.keys_ofList]
  names name hname := by
    rw [Schema.declared_ofDeclarations] at hname
    obtain ⟨d, hd, rfl⟩ := List.mem_map.1 hname
    exact (h d hd).1
  definitions e he := by
    rw [Schema.types_ofDeclarations] at he
    exact (h e (Table.mem_of_mem_ofList he)).2

theorem wellFormed_of_parse {source : String} {s : Schema} (h : parse source = .ok s) :
    s.WellFormed := by
  unfold parse at h
  split at h
  · next ts htokens =>
    obtain ⟨ds, hds, rfl⟩ := exists_spells_of_schema (parseTokens_eq_ok_iff_schema.1 h)
    exact wellFormed_ofDeclarations (wellFormed_of_spellsSchema hds (wellNamed_of_tokenize htokens))
  · cases h

end Ipld
