import Ipld.Proofs.Fuzz.Outline
import Ipld.Proofs.Parser.Renaming
import Ipld.Proofs.Random.Draw
import Ipld.Proofs.Token.Bare

/-!
# Random schemas are read

A random schema holds nothing but blanks, symbols and names, and no name goes over into another, so
the lexer always finds the words of its outline.  These words spell the declarations of the outline
unless one of the names that were drawn is a keyword.
-/

namespace Ipld.Fuzz

open Ipld.Random

/-! ## The names in an outline -/

def nodeNames : Node → List String
  | .scalar _ => []
  | .link target => [target]
  | .ref name => [name]
  | .list value _ => nodeNames value
  | .map value _ => nodeNames value

def fieldNames (field : String × Field) : List String :=
  field.1 :: nodeNames field.2.type

def Outline.names : Outline → List String
  | .scalar _ => []
  | .struct fields => fields.flatMap fieldNames
  | .enum members => members
  | .map _ value _ => nodeNames value
  | .list value _ => nodeNames value
  | .bracketed value _ => nodeNames value
  | .link _ target => [target]
  | .ref name => [name]

def declarationNames (d : String × Outline) : List String :=
  d.1 :: d.2.names

/-- All names that were drawn for the outline of a schema. -/
def drawnNames (ds : List (String × Outline)) : List String :=
  ds.flatMap declarationNames

/-! ## The words of an outline -/

def advancedWords (advanced : Bool) : List String :=
  if advanced then Parser.advancedAnnotation else []

def Outline.words : Outline → List String
  | .scalar kind => [kind.keyword]
  | .struct fields => "struct" :: "\x7b" :: (fields.flatMap fieldWords ++ ["\x7d"])
  | .enum members => "enum" :: "\x7b" :: (members.intersperse "," ++ ["\x7d"])
  | .map keyword value advanced =>
    optionalWord "map" keyword ++ ((Node.map value false).words ++ advancedWords advanced)
  | .list value advanced => "list" :: (value.words ++ advancedWords advanced)
  | .bracketed value advanced => (Node.list value false).words ++ advancedWords advanced
  | .link keyword target => [if keyword then "link" else "&", target]
  | .ref name => [name]

def outlineWords (d : String × Outline) : List String :=
  "type" :: d.1 :: d.2.words

/-- The texts are runs of name characters. -/
def AreRuns (names : List String) : Prop :=
  ∀ name ∈ names, IsRun name.toList

theorem intercalate_nil_map {α : Type} (f : α → List String) (as : List α) :
    [].intercalate (as.map f) = as.flatMap f := by
  induction as with
  | nil => rfl
  | cons a as ih =>
    cases as with
    | nil => simp
    | cons b bs =>
      rw [List.map_cons] at ih
      rw [List.map_cons, List.map_cons, List.intercalate_cons_cons, ih, List.append_nil]
      rfl

theorem intercalate_singletons (sep : String) (words : List String) :
    [sep].intercalate (words.map fun word => [word]) = words.intersperse sep := by
  induction words with
  | nil => rfl
  | cons word words ih =>
    cases words with
    | nil => rfl
    | cons next words =>
      rw [List.map_cons] at ih
      rw [List.map_cons, List.map_cons, List.intercalate_cons_cons, ih, List.intersperse_cons_cons]
      rfl

theorem hasWords_keyword (kind : Scalar) : HasWords kind.keyword [kind.keyword] := by
  cases kind
  all_goals decide

theorem hasWords_node {value : Node} (h : AreRuns (nodeNames value)) :
    HasWords (writeNode value) value.words := by
  induction value with
  | scalar kind => exact hasWords_keyword kind
  | link target =>
    have hmark : HasWords "&" ["&"] := by decide
    exact hmark.append (.of_isRun (h target List.mem_cons_self)) (.inl (by decide))
  | ref name => exact .of_isRun (h name List.mem_cons_self)
  | list value nullable ih =>
    have hopen : HasWords ("[" ++ optionalText "nullable " nullable)
        ("[" :: optionalWord "nullable" nullable) ∧
        endsInName ("[" ++ optionalText "nullable " nullable) = false := by
      cases nullable
      all_goals decide
    have hclose : HasWords "]" ["]"] := by decide
    have hall := hopen.1.between (ih h) hclose hopen.2 (by decide)
    simpa [writeNode, Node.words] using hall
  | map value nullable ih =>
    have hopen : HasWords ("\x7bString : " ++ optionalText "nullable " nullable)
        ("\x7b" :: "String" :: ":" :: optionalWord "nullable" nullable) ∧
        endsInName ("\x7bString : " ++ optionalText "nullable " nullable) = false := by
      cases nullable
      all_goals decide
    have hclose : HasWords "\x7d" ["\x7d"] := by decide
    have hall := hopen.1.between (ih h) hclose hopen.2 (by decide)
    simpa [writeNode, Node.words] using hall

theorem hasWords_field {field : String × Field} (h : AreRuns (fieldNames field)) :
    HasWords (writeField field) (fieldWords field) := by
  obtain ⟨name, value, optional, nullable⟩ := field
  obtain ⟨hname, hvalue⟩ := List.forall_mem_cons.1 h
  -- The blank behind the name keeps it apart from the modifiers, or from the node if there is none.
  have hmodifiers :
      let text := " " ++ optionalText "optional " optional ++ optionalText "nullable " nullable
      HasWords text (optionalWord "optional" optional ++ optionalWord "nullable" nullable) ∧
        beginsInName text = false ∧ endsInName text = false ∧ text ≠ "" := by
    cases optional
    all_goals
      cases nullable
      all_goals decide
  obtain ⟨hwords, hbegins, hends, hne⟩ := hmodifiers
  have hfirst := (HasWords.of_isRun hname).append hwords (.inr hbegins)
  have hseam := (endsInName_append name hne).trans hends
  have hall := hfirst.append (hasWords_node hvalue) (.inl hseam)
  simpa [writeField, fieldWords, String.append_assoc] using hall

theorem hasWords_advanced (advanced : Bool) :
    HasWords (writeAdvanced advanced) (advancedWords advanced) ∧
      beginsInName (writeAdvanced advanced) = false := by
  cases advanced
  all_goals decide

theorem hasWords_outline {o : Outline} (h : AreRuns o.names) : HasWords o.write o.words := by
  have hclose : HasWords " \x7d" ["\x7d"] := by decide
  cases o with
  | scalar kind => exact hasWords_keyword kind
  | struct fields =>
    have hopen : HasWords "struct \x7b " ["struct", "\x7b"] := by decide
    have hbreak : HasWords "\n" [] := by decide
    have hfields : HasWords ("\n".intercalate (fields.map writeField))
        ([].intercalate (fields.map fieldWords)) := by
      refine .intercalate (fun field hfield => hasWords_field fun name hname => ?_) hbreak
        (by decide) (by decide) (by decide)
      exact h name (List.mem_flatMap_of_mem hfield hname)
    rw [intercalate_nil_map] at hfields
    have hall := hopen.between hfields hclose (by decide) (by decide)
    simpa [Outline.write, Outline.words] using hall
  | enum members =>
    have hopen : HasWords "enum \x7b " ["enum", "\x7b"] := by decide
    have hcomma : HasWords ", " [","] := by decide
    have hmembers : HasWords (", ".intercalate (members.map id))
        ([","].intercalate (members.map fun name => [name])) :=
      .intercalate (fun name hname => .of_isRun (h name hname)) hcomma (by decide) (by decide)
        (by decide)
    rw [List.map_id, intercalate_singletons] at hmembers
    have hall := hopen.between hmembers hclose (by decide) (by decide)
    simpa [Outline.write, Outline.words] using hall
  | map keyword value advanced =>
    have hkeyword : HasWords (optionalText "map " keyword) (optionalWord "map" keyword) ∧
        endsInName (optionalText "map " keyword) = false := by
      cases keyword
      all_goals decide
    have hvalue : HasWords (writeNode (.map value false)) (Node.map value false).words :=
      hasWords_node h
    obtain ⟨hadvanced, hbegins⟩ := hasWords_advanced advanced
    have hall := hkeyword.1.between hvalue hadvanced hkeyword.2 hbegins
    simpa [Outline.write, Outline.words, writeNode, optionalText, String.append_assoc] using hall
  | list value advanced =>
    have hopen : HasWords "list " ["list"] := by decide
    obtain ⟨hadvanced, hbegins⟩ := hasWords_advanced advanced
    have hall := hopen.between (hasWords_node h) hadvanced (by decide) hbegins
    simpa [Outline.write, Outline.words] using hall
  | bracketed value advanced =>
    have hvalue : HasWords (writeNode (.list value false)) (Node.list value false).words :=
      hasWords_node h
    obtain ⟨hadvanced, hbegins⟩ := hasWords_advanced advanced
    have hall := hvalue.append hadvanced (.inr hbegins)
    simpa [Outline.write, Outline.words, writeNode, optionalText, String.append_assoc] using hall
  | link keyword target =>
    have hmark : HasWords (if keyword then "link " else "&") [if keyword then "link" else "&"] ∧
        endsInName (if keyword then "link " else "&") = false := by
      cases keyword
      all_goals decide
    exact hmark.1.append (.of_isRun (h target List.mem_cons_self)) (.inl hmark.2)
  | ref name => exact .of_isRun (h name List.mem_cons_self)

theorem hasWords_declaration {d : String × Outline} (h : AreRuns (declarationNames d)) :
    HasWords (writeDeclaration d) (outlineWords d) := by
  obtain ⟨name, o⟩ := d
  obtain ⟨hname, ho⟩ := List.forall_mem_cons.1 h
  have htype : HasWords "type " ["type"] := by decide
  have hblank : HasWords " " [] := by decide
  have hhead := htype.between (.of_isRun hname) hblank (by decide) (by decide)
  have hseam : endsInName ("type " ++ name ++ " ") = false := endsInName_append _ (by decide)
  have hall := hhead.append (hasWords_outline ho) (.inl hseam)
  simpa [writeDeclaration, outlineWords] using hall

theorem hasWords_schema {ds : List (String × Outline)} (h : AreRuns (drawnNames ds)) :
    HasWords (writeSchema ds) (ds.flatMap outlineWords) := by
  have hbreak : HasWords "\n" [] := by decide
  rw [← intercalate_nil_map]
  refine .intercalate (fun d hd => hasWords_declaration fun name hname => ?_) hbreak (by decide)
    (by decide) (by decide)
  exact h name (List.mem_flatMap_of_mem hd hname)

/-! ## What the words spell -/

def Outline.definition : Outline → Definition
  | .scalar kind => .scalar kind
  | .struct fields => .struct (.ofList fields)
  | .enum members => .enum members
  | .map _ value advanced => .node (.map value false) advanced
  | .list value advanced => .node (.list value false) advanced
  | .bracketed value advanced => .node (.list value false) advanced
  | .link _ target => .node (.link target) false
  | .ref name => .node (.ref name) false

/-- The declarations that an outline is meant for. -/
def declarationsOf (ds : List (String × Outline)) : List (String × Definition) :=
  ds.map (Prod.map id Outline.definition)

theorem named_of_nodeNames {value : Node} (h : ∀ name ∈ nodeNames value, IsIdentifier name) :
    value.Named := by
  induction value with
  | scalar kind => exact trivial
  | link target => exact h target List.mem_cons_self
  | ref name => exact h name List.mem_cons_self
  | list value nullable ih => exact ih h
  | map value nullable ih => exact ih h

theorem spellsOutline_words {o : Outline} (h : ∀ name ∈ o.names, IsIdentifier name) :
    SpellsDefinition (o.words.map Token.ofWord) o.definition := by
  cases o with
  | scalar kind => exact .scalar (isKeyword_ofWord (keyword_mem_keywords kind))
  | struct fields =>
    simp only [Outline.words, List.map_cons, List.map_append, List.map_nil]
    refine .struct (isKeyword_ofWord (by decide)) (by decide) (spellsFields_words ?_) (by decide)
    intro field hfield
    have hnames : ∀ name ∈ fieldNames field, IsIdentifier name :=
      fun name hname => h name (List.mem_flatMap_of_mem hfield hname)
    rw [fieldNames, List.forall_mem_cons] at hnames
    exact ⟨hnames.1, named_of_nodeNames hnames.2⟩
  | enum members =>
    simp only [Outline.words, List.map_cons, List.map_append, List.map_nil]
    exact .enum (isKeyword_ofWord (by decide)) (by decide) (spellsMembers_words h) (by decide)
  | map keyword value advanced =>
    simp only [Outline.words, List.map_append]
    exact .map (spellsModifier_optionalWord (by decide) keyword)
      (spellsBraced_words (spellsNode_words (named_of_nodeNames h)) false)
      (spellsAdvanced_words advanced)
  | list value advanced =>
    simp only [Outline.words, List.map_cons, List.map_append]
    exact .list (isKeyword_ofWord (by decide))
      (.intro .absent (spellsNode_words (named_of_nodeNames h))) (spellsAdvanced_words advanced)
  | bracketed value advanced =>
    simp only [Outline.words, List.map_append]
    exact .bracketed (spellsBracketed_words (spellsNode_words (named_of_nodeNames h)) false)
      (spellsAdvanced_words advanced)
  | link keyword target =>
    have htarget := isName_ofWord (h target List.mem_cons_self)
    cases keyword with
    | true => exact .link (.inl (isKeyword_ofWord (by decide))) htarget
    | false => exact .link (.inr (by decide)) htarget
  | ref name => exact .ref (isName_ofWord (h name List.mem_cons_self))

theorem spellsSchema_outline {ds : List (String × Outline)}
    (h : ∀ name ∈ drawnNames ds, IsIdentifier name) :
    SpellsSchema ((ds.flatMap outlineWords).map Token.ofWord) (declarationsOf ds) := by
  induction ds with
  | nil => exact .nil
  | cons d ds ih =>
    rw [drawnNames, List.flatMap_cons, List.forall_mem_append, declarationNames,
      List.forall_mem_cons] at h
    obtain ⟨⟨hname, hd⟩, hds⟩ := h
    rw [List.flatMap_cons, List.map_append]
    refine .cons ?_ (ih hds)
    exact .intro (isKeyword_ofWord (by decide)) (isName_ofWord hname) (spellsOutline_words hd)

/-- Lines mean nothing to the parser, so the words of a bare source are all that it looks at. -/
theorem parse_of_hasWords {s : String} {words : List String} {ds : List (String × Definition)}
    (h : HasWords s words) (hds : SpellsSchema (words.map Token.ofWord) ds) :
    parse s = .ok (.ofDeclarations ds) := by
  obtain ⟨ts, htokens, hspelling⟩ := h.exists_tokenize
  have hrenames : List.Forall₂ (Token.Renames id) (words.map Token.ofWord) ts := by
    refine renames_id_of_spelling ?_
    rw [hspelling, List.map_map]
    rfl
  -- The tokens differ from the words in their lines only, which is a renaming that changes no name.
  have hadd : ∀ (x y : Schema) name d, y = x → y.add (id name) (d.rename id) = x.add name d := by
    rintro x _ name d rfl
    rw [Definition.rename_id, id_def]
  have halike := Parser.alike_declarations (fun _ _ ht => ht) Function.injective_id hadd
    (rfl : Schema.empty = Schema.empty) hrenames
  change Parser.Outcome.Alike _ _ _ (Parser.schema _) (Parser.schema ts) at halike
  rw [schema_of_spells hds] at halike
  rw [parse, htokens]
  refine parseTokens_eq_ok_iff_schema.2 ?_
  generalize Parser.schema ts = o at halike
  cases halike with
  | ok hvalue hrest =>
    cases hrest
    rw [hvalue]

/-! ## What is drawn -/

variable {σ : Type} [Source σ]

theorem gives_isRun_name : Gives (name : Draw σ String) fun n => IsRun n.toList := by
  have hchars : nameCharacters.all Text.isWordChar = true := by decide
  refine (gives_chance _).bind fun common _ => ?_
  cases common with
  | true =>
    have hcommon : ∀ n ∈ commonNames, IsRun n.toList := by decide
    exact (gives_choice (by decide)).mono hcommon
  | false =>
    refine (gives_between (by decide)).bind fun length hlength => ?_
    refine (gives_choices (by decide) length).bind fun cs hcs => .pure ?_
    rw [String.toList_ofList]
    refine ⟨?_, fun c hc => List.all_eq_true.1 hchars c (hcs.2 c hc)⟩
    rintro rfl
    have hnone : length = 0 := hcs.1.symm
    omega

theorem gives_drawLeaf : Gives (drawLeaf : Draw σ Node) fun value => AreRuns (nodeNames value) := by
  refine (gives_between (by decide)).bind fun shape _ => ?_
  split
  · exact (gives_choice (by decide)).bind fun kind _ => .pure nofun
  · exact gives_isRun_name.bind fun n hn => .pure (List.forall_mem_singleton.2 hn)
  · exact gives_isRun_name.bind fun n hn => .pure (List.forall_mem_singleton.2 hn)

theorem gives_drawNode (depth : Int) :
    Gives (drawNode depth : Draw σ Node) fun value => AreRuns (nodeNames value) := by
  rw [drawNode]
  split
  · exact gives_drawLeaf
  · refine (gives_chance _).bind fun flat _ => ?_
    cases flat with
    | true => exact gives_drawLeaf
    | false =>
      refine (gives_chance _).bind fun nullable _ => (gives_chance _).bind fun bracketed _ => ?_
      cases bracketed
      all_goals exact (gives_drawNode (depth + 1)).bind fun value hvalue => .pure hvalue
termination_by (4 - depth).toNat

theorem gives_drawField :
    Gives (drawField : Draw σ (String × Field)) fun field => AreRuns (fieldNames field) := by
  refine (gives_chance _).bind fun optional _ => (gives_chance _).bind fun nullable _ => ?_
  refine gives_isRun_name.bind fun n hn => (gives_drawNode 0).bind fun value hvalue => .pure ?_
  exact List.forall_mem_cons.2 ⟨hn, hvalue⟩

theorem gives_drawOutline : Gives (drawOutline : Draw σ Outline) fun o => AreRuns o.names := by
  refine (gives_between (by decide)).bind fun shape _ => (gives_chance _).bind fun advanced _ => ?_
  split
  · exact (gives_choice (by decide)).bind fun kind _ => .pure nofun
  · refine (gives_between (by decide)).bind fun count _ => ?_
    refine (gives_times gives_drawField count).bind fun fields hfields => .pure fun n hn => ?_
    obtain ⟨field, hfield, hn⟩ := List.mem_flatMap.1 hn
    exact hfields.2 field hfield n hn
  · refine (gives_between (by decide)).bind fun count _ => ?_
    exact (gives_times gives_isRun_name count).bind fun members hmembers => .pure hmembers.2
  · exact (gives_chance _).bind fun keyword _ =>
      (gives_drawNode 0).bind fun value hvalue => .pure hvalue
  · exact (gives_drawNode 0).bind fun value hvalue => .pure hvalue
  · exact (gives_drawNode 0).bind fun value hvalue => .pure hvalue
  · refine (gives_choice (by decide)).bind fun keyword _ => ?_
    exact gives_isRun_name.bind fun n hn => .pure (List.forall_mem_singleton.2 hn)
  · exact gives_isRun_name.bind fun n hn => .pure (List.forall_mem_singleton.2 hn)

theorem gives_drawDeclaration :
    Gives (drawDeclaration : Draw σ (String × Outline)) fun d => AreRuns (declarationNames d) :=
  gives_isRun_name.bind fun _ hn => gives_drawOutline.bind fun _ ho =>
    .pure (List.forall_mem_cons.2 ⟨hn, ho⟩)

theorem gives_drawSchema : Gives (drawSchema : Draw σ (List (String × Outline))) fun ds =>
    1 ≤ ds.length ∧ ds.length ≤ 5 ∧ AreRuns (drawnNames ds) := by
  refine (gives_between (by decide)).bind fun count hcount => ?_
  refine (gives_times gives_drawDeclaration count).mono fun ds hds => ?_
  obtain ⟨rfl, hnames⟩ := hds
  refine ⟨hcount.1, hcount.2, fun n hn => ?_⟩
  obtain ⟨d, hd, hn⟩ := List.mem_flatMap.1 hn
  exact hnames d hd n hn

/-- **A random schema is always cut into words, and it is read when no name in it is a keyword.**
Whatever the source of random words, the text is that of an outline with one to five declarations,
and the schema that is read declares their names in order. -/
theorem exists_outline_parse_schema (source : σ) :
    ∃ ds source', drawSchema source = (.ok ds, source') ∧
      schema source = (.ok (writeSchema ds), source') ∧ 1 ≤ ds.length ∧ ds.length ≤ 5 ∧
      (∃ ts, tokenize (writeSchema ds) = .ok ts) ∧
      ((∀ name ∈ drawnNames ds, name ∉ keywords) →
        ∃ s, parse (writeSchema ds) = .ok s ∧ s = .ofDeclarations (declarationsOf ds) ∧
          s.declared = ds.map Prod.fst) := by
  obtain ⟨ds, source', hdraw, hmin, hmax, hruns⟩ := gives_drawSchema source
  have hwords := hasWords_schema hruns
  obtain ⟨ts, htokens, -⟩ := hwords.exists_tokenize
  refine ⟨ds, source', hdraw, ?_, hmin, hmax, ⟨ts, htokens⟩, fun hkeywords => ?_⟩
  · rw [schema_eq]
    exact map_eq_of_eq_ok writeSchema hdraw
  · have hnames : ∀ name ∈ drawnNames ds, IsIdentifier name :=
      fun name hname => ⟨hruns name hname, hkeywords name hname⟩
    refine ⟨_, parse_of_hasWords hwords (spellsSchema_outline hnames), rfl, ?_⟩
    rw [Schema.declared_ofDeclarations, declarationsOf, List.map_map]
    rfl

/-- A map is drawn first, and then a scalar under the same name. -/
def tape : Tape :=
  ⟨[0x20000000, 0, 0, 0, 0x30000000, 0, 0, 0, 0, 0xffffffff, 0, 0, 0, 0, 0, 0, 0, 0x40000000, 0, 0,
    0x20000000]⟩

/-- A name that is declared twice is declared by both declarations. -/
theorem exists_outline_parse_schema_tape :
    ∃ ds source', drawSchema tape = (.ok ds, source') ∧ (∀ name ∈ drawnNames ds, name ∉ keywords) ∧
      ∃ s, parse (writeSchema ds) = .ok s ∧ s = .ofDeclarations (declarationsOf ds) ∧
        s.declared = ["Person", "Person"] := by
  obtain ⟨ds, source', hdraw, -, -, -, -, hparse⟩ := exists_outline_parse_schema tape
  have houtline : (drawSchema tape).1.toOption = some
      [("Person", .map true (.list (.link "Color") true) true), ("Person", .scalar .bool)] := by
    decide +kernel
  rw [hdraw] at houtline
  obtain rfl := Option.some_inj.1 houtline
  have hnames : ∀ name ∈ drawnNames
      [("Person", .map true (.list (.link "Color") true) true), ("Person", .scalar .bool)],
      name ∉ keywords := by
    decide
  exact ⟨_, source', hdraw, hnames, hparse hnames⟩

end Ipld.Fuzz
