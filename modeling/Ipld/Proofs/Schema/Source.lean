import Ipld.Proofs.Schema.WellFormed

/-!
# A source for every well-formed schema

A well-formed schema is written as a source by going through its log: each declared name comes with
the definition that is bound to it, so that a name declared again is bound to the same definition
again.  Every word has one blank before it.  The scanner finds these words, they spell the
declarations, and the declarations add up to the schema.
-/

namespace Ipld

/-! ## The words of a schema -/

/-- A word that is written or left out. -/
def optionalWord (word : String) (present : Bool) : List String :=
  if present then [word] else []

def Node.words : Node → List String
  | .scalar kind => [kind.keyword]
  | .link target => ["&", target]
  | .ref name => [name]
  | .list value nullable => "[" :: (optionalWord "nullable" nullable ++ (value.words ++ ["]"]))
  | .map value nullable =>
    "\x7b" :: "String" :: ":" :: (optionalWord "nullable" nullable ++ (value.words ++ ["\x7d"]))

def fieldWords (entry : String × Field) : List String :=
  entry.1 :: (optionalWord "optional" entry.2.optional ++
    (optionalWord "nullable" entry.2.nullable ++ entry.2.type.words))

def Definition.words : Definition → List String
  | .scalar kind => [kind.keyword]
  | .struct fields => "struct" :: "\x7b" :: (fields.entries.flatMap fieldWords ++ ["\x7d"])
  | .enum members => "enum" :: "\x7b" :: (members.intersperse "," ++ ["\x7d"])
  | .node value advanced => value.words ++ if advanced then Parser.advancedAnnotation else []

def declarationWords (d : String × Definition) : List String :=
  "type" :: d.1 :: d.2.words

namespace Schema

/-- The declared names with what they are bound to. -/
def declarations (s : Schema) : List (String × Definition) :=
  s.declared.filterMap fun name => (s.types.get? name).map fun d => (name, d)

def words (s : Schema) : List String :=
  s.declarations.flatMap declarationWords

end Schema

/-! ## Words as tokens -/

/-- The token of a word on the first line. -/
def Token.ofWord (word : String) : Token :=
  ⟨kindOf word.toList, word, 1⟩

theorem isRun_of_mem_keywords {word : String} (h : word ∈ keywords) : IsRun word.toList := by
  have hall : ∀ word ∈ keywords, IsRun word.toList := by decide
  exact hall word h

theorem kindOf_toList_of_isRun {word : String} (h : IsRun word.toList) :
    kindOf word.toList = wordKind word := by
  rw [kindOf_of_isRun h, String.ofList_toList]

theorem isKeyword_ofWord {word : String} (h : word ∈ keywords) :
    (Token.ofWord word).IsKeyword word := by
  refine Token.is_some_iff.2 ⟨?_, rfl⟩
  rw [Token.ofWord, kindOf_toList_of_isRun (isRun_of_mem_keywords h), wordKind, if_pos h]

theorem isName_ofWord {name : String} (h : IsIdentifier name) : (Token.ofWord name).IsName := by
  refine Token.is_none_iff.2 ?_
  rw [Token.ofWord, kindOf_toList_of_isRun h.1, wordKind, if_neg h.2]

/-! ## The words spell the schema -/

theorem spellsModifier_optionalWord {word : String} (h : word ∈ keywords) (present : Bool) :
    SpellsModifier word ((optionalWord word present).map Token.ofWord) present := by
  cases present with
  | false => exact .absent
  | true => exact .present (isKeyword_ofWord h)

theorem spellsBracketed_words {value : Node} (h : SpellsNode (value.words.map Token.ofWord) value)
    (nullable : Bool) :
    SpellsBracketed ((Node.list value nullable).words.map Token.ofWord) (.list value nullable) := by
  simp only [Node.words, List.map_cons, List.map_append, List.map_nil]
  exact .intro (by decide) (spellsModifier_optionalWord (by decide) nullable) h (by decide)

theorem spellsBraced_words {value : Node} (h : SpellsNode (value.words.map Token.ofWord) value)
    (nullable : Bool) :
    SpellsBraced ((Node.map value nullable).words.map Token.ofWord) (.map value nullable) := by
  simp only [Node.words, List.map_cons, List.map_append, List.map_nil]
  exact .intro (by decide) (isKeyword_ofWord (by decide)) (by decide)
    (spellsModifier_optionalWord (by decide) nullable) h (by decide)

theorem spellsNode_words {value : Node} (h : value.Named) :
    SpellsNode (value.words.map Token.ofWord) value := by
  induction value with
  | scalar kind => exact .scalar (isKeyword_ofWord (keyword_mem_keywords kind))
  | link target => exact .link (by decide) (isName_ofWord h)
  | ref name => exact .ref (isName_ofWord h)
  | list value nullable ih => exact .bracketed (spellsBracketed_words (ih h) nullable)
  | map value nullable ih => exact .braced (spellsBraced_words (ih h) nullable)

theorem spellsFields_words {entries : List (String × Field)}
    (h : ∀ e ∈ entries, IsIdentifier e.1 ∧ e.2.type.Named) :
    SpellsFields ((entries.flatMap fieldWords).map Token.ofWord) entries := by
  induction entries with
  | nil => exact .nil
  | cons entry entries ih =>
    rw [List.forall_mem_cons] at h
    rw [List.flatMap_cons, List.map_append]
    refine .cons ?_ (ih h.2)
    simp only [fieldWords, List.map_cons, List.map_append]
    exact .intro (isName_ofWord h.1.1) (spellsModifier_optionalWord (by decide) _)
      (spellsModifier_optionalWord (by decide) _) (spellsNode_words h.1.2)

theorem spellsNames_words {name : String} {names : List String}
    (h : ∀ m ∈ name :: names, IsIdentifier m) :
    SpellsNames (((name :: names).intersperse ",").map Token.ofWord) (name :: names) := by
  induction names generalizing name with
  | nil => exact .last (isName_ofWord (h name List.mem_cons_self))
  | cons next names ih =>
    rw [List.forall_mem_cons] at h
    exact .more (isName_ofWord h.1) (by decide) (ih h.2)

theorem spellsMembers_words {members : List String} (h : ∀ m ∈ members, IsIdentifier m) :
    SpellsMembers ((members.intersperse ",").map Token.ofWord) members := by
  cases members with
  | nil => exact .none
  | cons name names => exact .names (spellsNames_words h)

theorem spellsAdvanced_words (advanced : Bool) :
    SpellsAdvanced ((if advanced then Parser.advancedAnnotation else []).map Token.ofWord)
      advanced := by
  cases advanced with
  | false => exact .absent
  | true =>
    exact .present (isKeyword_ofWord (by decide)) (isKeyword_ofWord (by decide))
      (isKeyword_ofWord (by decide))

theorem spellsDefinition_words {d : Definition} (h : d.WellFormed) :
    SpellsDefinition (d.words.map Token.ofWord) d := by
  cases d with
  | scalar kind => exact .scalar (isKeyword_ofWord (keyword_mem_keywords kind))
  | struct fields =>
    have hstruct : SpellsDefinition ((Definition.struct fields).words.map Token.ofWord)
        (.struct (.ofList fields.entries)) := by
      simp only [Definition.words, List.map_cons, List.map_append, List.map_nil]
      exact .struct (isKeyword_ofWord (by decide)) (by decide) (spellsFields_words h) (by decide)
    rw [Table.ofList_entries] at hstruct
    exact hstruct
  | enum members =>
    simp only [Definition.words, List.map_cons, List.map_append, List.map_nil]
    exact .enum (isKeyword_ofWord (by decide)) (by decide) (spellsMembers_words h) (by decide)
  | node value advanced =>
    obtain ⟨hnamed, hscalar, hadvanced⟩ := h
    rw [Definition.words, List.map_append]
    cases value with
    | scalar kind => exact absurd rfl (hscalar kind)
    | link target =>
      cases advanced with
      | false => exact .link (.inr (by decide)) (isName_ofWord hnamed)
      | true => cases hadvanced rfl
    | ref name =>
      cases advanced with
      | false => exact .ref (isName_ofWord hnamed)
      | true => cases hadvanced rfl
    | list value nullable =>
      have hvalue : SpellsNode (value.words.map Token.ofWord) value := spellsNode_words hnamed
      exact .bracketed (spellsBracketed_words hvalue nullable) (spellsAdvanced_words advanced)
    | map value nullable =>
      have hvalue : SpellsNode (value.words.map Token.ofWord) value := spellsNode_words hnamed
      exact .map .absent (spellsBraced_words hvalue nullable) (spellsAdvanced_words advanced)

theorem spellsSchema_words {ds : List (String × Definition)}
    (h : ∀ d ∈ ds, IsIdentifier d.1 ∧ d.2.WellFormed) :
    SpellsSchema ((ds.flatMap declarationWords).map Token.ofWord) ds := by
  induction ds with
  | nil => exact .nil
  | cons d ds ih =>
    rw [List.forall_mem_cons] at h
    rw [List.flatMap_cons, List.map_append]
    refine .cons ?_ (ih h.2)
    exact .intro (isKeyword_ofWord (by decide)) (isName_ofWord h.1.1) (spellsDefinition_words h.1.2)

/-! ## The source -/

/-- Words with one blank before each. -/
def spaced (words : List String) : List Piece :=
  words.map fun word => ⟨[' '], word.toList⟩

/-- Each of them is a word of the scanner. -/
def AreWords (words : List String) : Prop :=
  ∀ word ∈ words, IsWord word.toList

theorem laid_spaced {words : List String} (h : AreWords words) : Laid [] (spaced words) := by
  induction words with
  | nil => exact .nil .nil
  | cons word words ih =>
    have hwords : IsWord word.toList ∧ AreWords words := List.forall_mem_cons.1 h
    refine .cons ?_ hwords.1 ?_ (ih hwords.2)
    · have hblank : Filler ([] ++ (word.toList ++ Piece.text [] (spaced words))) [' '] := .blank rfl
      exact .cons hblank .nil
    · -- Every word has its blank, so that no two runs meet.
      intro q hq _ _ hgap
      cases words with
      | nil => cases hq
      | cons next words =>
        cases hq
        cases hgap

theorem tokens_spaced {words : List String} {before : List Char} (h : AreWords words)
    (hbefore : before.count '\n' = 0) :
    Piece.tokens before (spaced words) = words.map Token.ofWord := by
  -- Neither words nor blanks hold a line feed, so that every word begins on the first line.
  induction words generalizing before with
  | nil => rfl
  | cons word words ih =>
    have hwords : IsWord word.toList ∧ AreWords words := List.forall_mem_cons.1 h
    have hgap : (before ++ [' ']).count '\n' = 0 := by
      rw [List.count_append, hbefore]
      rfl
    have hnext : (before ++ [' '] ++ word.toList).count '\n' = 0 := by
      rw [List.count_append, hgap, hwords.1.count_eq_zero]
    have hrest := ih hwords.2 hnext
    rw [spaced] at hrest ⊢
    rw [List.map_cons, Piece.tokens, hrest, hgap, String.ofList_toList]
    rfl

theorem tokenize_spaced {words : List String} (h : AreWords words) :
    tokenize (String.ofList (Piece.text [] (spaced words))) = .ok (words.map Token.ofWord) := by
  rw [← tokens_spaced h List.count_nil]
  exact tokenize_layout ⟨spaced words, [], laid_spaced h⟩

/-! ### The words of a schema are words -/

@[simp] theorem areWords_nil : AreWords [] :=
  fun _ h => nomatch h

@[simp] theorem areWords_cons {word : String} {words : List String} :
    AreWords (word :: words) ↔ IsWord word.toList ∧ AreWords words :=
  List.forall_mem_cons

@[simp] theorem areWords_append {words more : List String} :
    AreWords (words ++ more) ↔ AreWords words ∧ AreWords more :=
  List.forall_mem_append

theorem areWords_flatMap {α : Type} {f : α → List String} {as : List α}
    (h : ∀ a ∈ as, AreWords (f a)) : AreWords (as.flatMap f) := by
  intro word hword
  obtain ⟨a, ha, hword⟩ := List.mem_flatMap.1 hword
  exact h a ha word hword

/-- The words that are the same in every source. -/
def fixedWords : List String :=
  keywords ++ ["\x7b", "\x7d", "[", "]", ":", ",", "&"]

theorem isWord_of_mem_fixedWords {word : String} (h : word ∈ fixedWords) : IsWord word.toList := by
  rcases List.mem_append.1 h with h | h
  · exact .inr (isRun_of_mem_keywords h)
  · have hall : ∀ word ∈ ["\x7b", "\x7d", "[", "]", ":", ",", "&"],
        word.toList.length = 1 ∧ word.toList.all isSymbol = true := by decide
    obtain ⟨hlength, hsymbol⟩ := hall word h
    obtain ⟨c, hc⟩ := List.length_eq_one_iff.1 hlength
    rw [hc, List.all_cons, List.all_nil, Bool.and_true] at hsymbol
    exact .inl ⟨c, hsymbol, hc⟩

theorem IsIdentifier.isWord {name : String} (h : IsIdentifier name) : IsWord name.toList :=
  .inr h.1

theorem keyword_mem_fixedWords (kind : Scalar) : kind.keyword ∈ fixedWords :=
  List.mem_append_left _ (keyword_mem_keywords kind)

theorem areWords_optionalWord {word : String} (h : word ∈ fixedWords) (present : Bool) :
    AreWords (optionalWord word present) := by
  cases present with
  | false => exact areWords_nil
  | true => exact areWords_cons.2 ⟨isWord_of_mem_fixedWords h, areWords_nil⟩

theorem areWords_node {value : Node} (h : value.Named) : AreWords value.words := by
  induction value with
  | scalar kind =>
    exact areWords_cons.2 ⟨isWord_of_mem_fixedWords (keyword_mem_fixedWords kind), areWords_nil⟩
  | link target =>
    have htarget : IsIdentifier target := h
    simp only [Node.words, areWords_cons]
    exact ⟨isWord_of_mem_fixedWords (by decide), htarget.isWord, areWords_nil⟩
  | ref name =>
    have hname : IsIdentifier name := h
    exact areWords_cons.2 ⟨hname.isWord, areWords_nil⟩
  | list value nullable ih =>
    simp only [Node.words, areWords_cons, areWords_append]
    exact ⟨isWord_of_mem_fixedWords (by decide), areWords_optionalWord (by decide) nullable, ih h,
      isWord_of_mem_fixedWords (by decide), areWords_nil⟩
  | map value nullable ih =>
    simp only [Node.words, areWords_cons, areWords_append]
    exact ⟨isWord_of_mem_fixedWords (by decide), isWord_of_mem_fixedWords (by decide),
      isWord_of_mem_fixedWords (by decide), areWords_optionalWord (by decide) nullable, ih h,
      isWord_of_mem_fixedWords (by decide), areWords_nil⟩

theorem areWords_field {entry : String × Field}
    (h : IsIdentifier entry.1 ∧ entry.2.type.Named) : AreWords (fieldWords entry) := by
  simp only [fieldWords, areWords_cons, areWords_append]
  exact ⟨h.1.isWord, areWords_optionalWord (by decide) _, areWords_optionalWord (by decide) _,
    areWords_node h.2⟩

theorem areWords_members {members : List String} (h : ∀ m ∈ members, IsIdentifier m) :
    AreWords (members.intersperse ",") := by
  induction members with
  | nil => exact areWords_nil
  | cons name names ih =>
    rw [List.forall_mem_cons] at h
    cases names with
    | nil => exact areWords_cons.2 ⟨h.1.isWord, areWords_nil⟩
    | cons next names =>
      simp only [List.intersperse_cons_cons, areWords_cons]
      exact ⟨h.1.isWord, isWord_of_mem_fixedWords (by decide), ih h.2⟩

theorem areWords_definition {d : Definition} (h : d.WellFormed) : AreWords d.words := by
  cases d with
  | scalar kind =>
    exact areWords_cons.2 ⟨isWord_of_mem_fixedWords (keyword_mem_fixedWords kind), areWords_nil⟩
  | struct fields =>
    simp only [Definition.words, areWords_cons, areWords_append]
    exact ⟨isWord_of_mem_fixedWords (by decide), isWord_of_mem_fixedWords (by decide),
      areWords_flatMap fun e he => areWords_field (h e he), isWord_of_mem_fixedWords (by decide),
      areWords_nil⟩
  | enum members =>
    simp only [Definition.words, areWords_cons, areWords_append]
    exact ⟨isWord_of_mem_fixedWords (by decide), isWord_of_mem_fixedWords (by decide),
      areWords_members h, isWord_of_mem_fixedWords (by decide), areWords_nil⟩
  | node value advanced =>
    rw [Definition.words, areWords_append]
    refine ⟨areWords_node h.1, ?_⟩
    cases advanced with
    | false => exact areWords_nil
    | true =>
      have hall : ∀ word ∈ Parser.advancedAnnotation, word ∈ fixedWords := by decide
      exact fun word hword => isWord_of_mem_fixedWords (hall word hword)

theorem areWords_declaration {d : String × Definition}
    (h : IsIdentifier d.1 ∧ d.2.WellFormed) : AreWords (declarationWords d) := by
  simp only [declarationWords, areWords_cons]
  exact ⟨isWord_of_mem_fixedWords (by decide), h.1.isWord, areWords_definition h.2⟩

/-! ## Writing and reading -/

namespace Schema

/-- The words of a schema, each with a blank before it. -/
def source (s : Schema) : String :=
  String.ofList (Piece.text [] (spaced s.words))

variable {s : Schema}

theorem mem_declarations_iff {d : String × Definition} :
    d ∈ s.declarations ↔ d.1 ∈ s.declared ∧ d ∈ s.types.entries := by
  simp only [declarations, List.mem_filterMap, Option.map_eq_some_iff, Table.get?_eq_some_iff]
  constructor
  · rintro ⟨name, hname, d, hd, rfl⟩
    exact ⟨hname, hd⟩
  · rintro ⟨hname, hd⟩
    exact ⟨d.1, hname, d.2, hd, rfl⟩

theorem WellFormed.wellFormed_declarations (h : s.WellFormed) :
    ∀ d ∈ s.declarations, IsIdentifier d.1 ∧ d.2.WellFormed := by
  intro d hd
  obtain ⟨hname, hentry⟩ := mem_declarations_iff.1 hd
  exact ⟨h.names d.1 hname, h.definitions d hentry⟩

/-- Every declared name is bound. -/
theorem WellFormed.map_fst_declarations (h : s.WellFormed) :
    s.declarations.map Prod.fst = s.declared := by
  rw [declarations, List.map_filterMap]
  conv_rhs => rw [← List.filterMap_some (l := s.declared)]
  refine List.filterMap_congr fun name hname => ?_
  have hkey : name ∈ s.types.keys := by
    rw [h.keys, List.mem_eraseDups]
    exact hname
  obtain ⟨⟨_, d⟩, hentry, rfl⟩ := List.mem_map.1 hkey
  rw [Table.get?_eq_some_iff.2 hentry]
  rfl

theorem WellFormed.ofDeclarations_declarations (h : s.WellFormed) :
    ofDeclarations s.declarations = s := by
  have htypes : (ofDeclarations s.declarations).types = s.types := by
    rw [types_ofDeclarations]
    -- A name that is declared again is bound again to the definition that it has already.
    refine Table.eq_of_keys_eq ?_ fun entry hentry => ?_
    · rw [Table.keys_ofList, h.map_fst_declarations, h.keys]
    · exact (mem_declarations_iff.1 (Table.mem_of_mem_ofList hentry)).2
  have hdeclared : (ofDeclarations s.declarations).declared = s.declared := by
    rw [declared_ofDeclarations, h.map_fst_declarations]
  exact ext_fields htypes hdeclared

theorem WellFormed.tokenize_source (h : s.WellFormed) :
    tokenize s.source = .ok (s.words.map Token.ofWord) :=
  tokenize_spaced (areWords_flatMap fun d hd =>
    areWords_declaration (h.wellFormed_declarations d hd))

/-- What is written is read back as it was. -/
theorem WellFormed.parse_source (h : s.WellFormed) : parse s.source = .ok s := by
  have hspells := spellsSchema_words h.wellFormed_declarations
  have hschema := schema_of_spells hspells
  rw [h.ofDeclarations_declarations] at hschema
  rw [parse, h.tokenize_source]
  exact parseTokens_eq_ok_iff_schema.2 hschema

end Schema

/-- **The schemas that sources have are the well-formed ones.** -/
theorem exists_parse_eq_ok_iff_wellFormed (s : Schema) :
    (∃ source, parse source = .ok s) ↔ s.WellFormed := by
  constructor
  · rintro ⟨source, h⟩
    exact wellFormed_of_parse h
  · intro h
    exact ⟨s.source, h.parse_source⟩

end Ipld
