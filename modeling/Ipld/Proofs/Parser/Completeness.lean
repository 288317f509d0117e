import Ipld.Proofs.Parser.Steps

/-!
# Everything the grammar spells is read

A production reads the tokens that spell its value and stops right after them, whatever follows.
Only a definition that may carry the annotation looks further; it needs that no annotation follows.
The bodies of structs and enums need the brace that ends them.
-/

namespace Ipld

/-- A keyword or symbol that is given has the form of one, on some line. -/
theorem Token.eq_of_is_some {t : Token} {kind : TokenKind} {word : String}
    (h : t.is kind (some word) = true) : ∃ line, t = ⟨kind, word, line⟩ := by
  obtain ⟨k, w, line⟩ := t
  obtain ⟨rfl, rfl⟩ := Token.is_some_iff.1 h
  exact ⟨line, rfl⟩

theorem Token.eq_of_isName {t : Token} (h : t.IsName) :
    ∃ line, t = ⟨.identifier, t.value, line⟩ := by
  obtain ⟨k, w, line⟩ := t
  obtain rfl := Token.is_none_iff.1 h
  exact ⟨line, rfl⟩

namespace Parser

/-! ## Nodes -/

theorem modifier_of_spells {word : String} {ts rest : List Token} {b : Bool}
    (h : SpellsModifier word ts b) (hrest : check .keyword (some word) rest = false) :
    modifier word (ts ++ rest) = .ok b rest := by
  cases h with
  | absent => exact modifier_absent hrest
  | present ht => exact modifier_present ht rest

theorem exists_cons_of_spellsBracketed {ts : List Token} {value : Node}
    (h : SpellsBracketed ts value) : ∃ t left, ts = t :: left ∧ t.IsSymbol "[" := by
  cases h with
  | intro hopen => exact ⟨_, _, rfl, hopen⟩

theorem exists_cons_of_spellsBraced {ts : List Token} {value : Node} (h : SpellsBraced ts value) :
    ∃ t left, ts = t :: left ∧ t.IsSymbol "\x7b" := by
  cases h with
  | intro hopen => exact ⟨_, _, rfl, hopen⟩

/-- A node begins with one of the tokens that can begin it. -/
theorem exists_cons_of_spellsNode {ts : List Token} {value : Node} (h : SpellsNode ts value) :
    ∃ t left, ts = t :: left ∧ BeginsNode t := by
  cases h with
  | scalar h => exact ⟨_, _, rfl, .inl ⟨_, h⟩⟩
  | bracketed h =>
    obtain ⟨t, left, rfl, ht⟩ := exists_cons_of_spellsBracketed h
    exact ⟨t, left, rfl, .inr (.inl ht)⟩
  | braced h =>
    obtain ⟨t, left, rfl, ht⟩ := exists_cons_of_spellsBraced h
    exact ⟨t, left, rfl, .inr (.inr (.inl ht))⟩
  | link hlink => exact ⟨_, _, rfl, .inr (.inr (.inr (.inl hlink)))⟩
  | ref hname => exact ⟨_, _, rfl, .inr (.inr (.inr (.inr hname)))⟩

/-- No node begins with an optional keyword. -/
theorem not_isKeyword_of_beginsNode {t : Token} {word : String} (h : BeginsNode t)
    (hword : word ∉ Scalar.all.map Scalar.keyword) : ¬ t.IsKeyword word := by
  intro ht
  obtain ⟨line, rfl⟩ := Token.eq_of_is_some ht
  rcases h with ⟨kind, h⟩ | h | h | h | h
  · obtain ⟨-, rfl⟩ := Token.is_some_iff.1 h
    exact hword (List.mem_map.2 ⟨kind, Scalar.mem_all kind, rfl⟩)
  all_goals cases h

theorem check_modifier_of_spellsNode {ts : List Token} {value : Node} {word : String}
    (h : SpellsNode ts value) (hword : word ∉ Scalar.all.map Scalar.keyword) (rest : List Token) :
    check .keyword (some word) (ts ++ rest) = false := by
  obtain ⟨t, left, rfl, ht⟩ := exists_cons_of_spellsNode h
  exact Bool.eq_false_iff.2 (not_isKeyword_of_beginsNode ht hword)

mutual

theorem node_of_spells : ∀ {ts : List Token} {value : Node}, SpellsNode ts value →
    ∀ rest, node (ts ++ rest) = .ok value rest
  | _, _, .scalar h, rest => by
    rw [List.singleton_append, node, if_pos (checkScalar_cons_iff.2 ⟨_, h⟩), scalar_cons h]
    rfl
  | _, _, .bracketed h, rest => by
    rw [← bracketed_of_spells h rest]
    obtain ⟨t, left, rfl, ht⟩ := exists_cons_of_spellsBracketed h
    obtain ⟨line, rfl⟩ := Token.eq_of_is_some ht
    simp [node, checkScalar, check, Token.is]
  | _, _, .braced h, rest => by
    rw [← braced_of_spells h rest]
    obtain ⟨t, left, rfl, ht⟩ := exists_cons_of_spellsBraced h
    obtain ⟨line, rfl⟩ := Token.eq_of_is_some ht
    simp [node, checkScalar, check, Token.is]
  | _, _, .link hlink hname, rest => by
    obtain ⟨line, rfl⟩ := Token.eq_of_is_some hlink
    simp [node, checkScalar, check, Token.is, link, consume_cons hname]
  | _, _, .ref hname, rest => by
    obtain ⟨line, heq⟩ := Token.eq_of_isName hname
    rw [heq]
    simp [node, checkScalar, check, Token.is, consume, take]

theorem bracketed_of_spells : ∀ {ts : List Token} {value : Node}, SpellsBracketed ts value →
    ∀ rest, bracketed (ts ++ rest) = .ok value rest
  | _, _, @SpellsBracketed.intro lsqb rsqb ms vs nullable value hopen hnullable hvalue hclose,
    rest => by
    have hword : check .keyword (some "nullable") (vs ++ rsqb :: rest) = false :=
      check_modifier_of_spellsNode hvalue (by decide) _
    have hread := node_of_spells hvalue (rsqb :: rest)
    simp only [List.cons_append, List.append_assoc, List.nil_append, bracketed_eq,
      bracketedRest, Outcome.bind_ok,
      Outcome.map_ok, consume_cons hopen, modifier_of_spells hnullable hword, hread,
      consume_cons hclose]

theorem braced_of_spells : ∀ {ts : List Token} {value : Node}, SpellsBraced ts value →
    ∀ rest, braced (ts ++ rest) = .ok value rest
  | _, _, @SpellsBraced.intro lbrace key colon rbrace ms vs nullable value hopen hkey hcolon
    hnullable hvalue hclose, rest => by
    have hword : check .keyword (some "nullable") (vs ++ rbrace :: rest) = false :=
      check_modifier_of_spellsNode hvalue (by decide) _
    have hread := node_of_spells hvalue (rbrace :: rest)
    simp only [List.cons_append, List.append_assoc, List.nil_append, braced_eq,
      bracedRest, Outcome.bind_ok,
      Outcome.map_ok, consume_cons hopen, mapKey_cons hkey, consume_cons hcolon,
      modifier_of_spells hnullable hword, hread, consume_cons hclose]

end

theorem listBody_of_spells {ts : List Token} {value : Node} (h : SpellsListBody ts value)
    (rest : List Token) : listBody (ts ++ rest) = .ok value rest := by
  cases h with
  | intro hnullable hvalue =>
    have hword := check_modifier_of_spellsNode hvalue (by decide : "nullable" ∉ _) rest
    rw [listBody_eq, List.append_assoc, modifier_of_spells hnullable hword, Outcome.bind_ok,
      node_of_spells hvalue rest, Outcome.map_ok]

/-! ## Bodies -/

theorem field_of_spells {ts : List Token} {entry : String × Field} (h : SpellsField ts entry)
    (rest : List Token) : field (ts ++ rest) = .ok entry rest := by
  cases h with
  | @intro name os ms vs optional nullable value hname hoptional hnullable hvalue =>
    have hnull : check .keyword (some "nullable") (vs ++ rest) = false :=
      check_modifier_of_spellsNode hvalue (by decide) _
    have hopt : check .keyword (some "optional") (ms ++ (vs ++ rest)) = false := by
      cases hnullable with
      | absent => exact check_modifier_of_spellsNode hvalue (by decide) rest
      | present ht =>
        obtain ⟨line, rfl⟩ := Token.eq_of_is_some ht
        rfl
    simp only [List.cons_append, List.append_assoc, field_eq, consume_cons hname, Outcome.bind_ok,
      modifier_of_spells hoptional hopt, modifier_of_spells hnullable hnull,
      node_of_spells hvalue rest, Outcome.map_ok]

theorem check_rbrace_of_isName {name : Token} (h : name.IsName) (rest : List Token) :
    check .symbol (some "\x7d") (name :: rest) = false := by
  obtain ⟨line, heq⟩ := Token.eq_of_isName h
  rw [heq]
  rfl

theorem check_rbrace {rbrace : Token} (h : rbrace.IsSymbol "\x7d") (rest : List Token) :
    check .symbol (some "\x7d") (rbrace :: rest) = true :=
  h

theorem fields_of_spells {fs : List Token} {entries : List (String × Field)}
    (h : SpellsFields fs entries) {rbrace : Token} (hclose : rbrace.IsSymbol "\x7d")
    (rest : List Token) (found : Table Field) :
    fields found (fs ++ rbrace :: rest) =
      .ok (entries.foldl (fun t entry => t.insert entry.1 entry.2) found) (rbrace :: rest) := by
  induction h generalizing found with
  | nil => rw [fields_eq, List.nil_append, if_pos (check_rbrace hclose rest), List.foldl_nil]
  | @cons ts us entry entries hfield hrest ih =>
    have hname : check .symbol (some "\x7d") (ts ++ us ++ rbrace :: rest) = false := by
      cases hfield with
      | intro hname => exact check_rbrace_of_isName hname _
    rw [fields_eq, hname, if_neg Bool.false_ne_true, List.append_assoc, field_of_spells hfield,
      Outcome.bind_ok, ih, List.foldl_cons]

theorem members_rbrace {rbrace : Token} (hclose : rbrace.IsSymbol "\x7d") (rest : List Token)
    (found : List String) :
    members found (rbrace :: rest) = .ok found.reverse (rbrace :: rest) := by
  rw [members_eq, if_pos (check_rbrace hclose rest)]

theorem members_name {name : Token} (hname : name.IsName) (rest : List Token)
    (found : List String) :
    members found (name :: rest) = moreMembers (name.value :: found) rest := by
  rw [members_eq, check_rbrace_of_isName hname, if_neg Bool.false_ne_true, consume_cons hname,
    Outcome.bind_ok]

theorem moreMembers_comma {comma : Token} (hcomma : comma.IsSymbol ",") (rest : List Token)
    (found : List String) : moreMembers found (comma :: rest) = members found rest := by
  obtain ⟨line, rfl⟩ := Token.eq_of_is_some hcomma
  rw [moreMembers, if_neg (by simp [check, Token.is]), consume_cons hcomma, Outcome.bind_ok]

/-- Names with commas between them, and whatever may stand before the closing brace. -/
theorem members_of_spellsNames {ts : List Token} {names : List String} (h : SpellsNames ts names)
    {rbrace : Token} (hclose : rbrace.IsSymbol "\x7d") (rest : List Token) {cs : List Token}
    (hcs : cs = [] ∨ ∃ comma : Token, comma.IsSymbol "," ∧ cs = [comma]) (found : List String) :
    members found (ts ++ (cs ++ rbrace :: rest)) =
      .ok (found.reverse ++ names) (rbrace :: rest) := by
  induction h generalizing found with
  | @last name hname =>
    rw [List.singleton_append, members_name hname]
    rcases hcs with rfl | ⟨comma, hcomma, rfl⟩
    · rw [moreMembers, List.nil_append, if_pos (check_rbrace hclose rest), List.reverse_cons]
    · rw [List.singleton_append, moreMembers_comma hcomma, members_rbrace hclose,
        List.reverse_cons]
  | @more name comma ts names hname hcomma hrest ih =>
    rw [List.cons_append, members_name hname, List.cons_append, moreMembers_comma hcomma, ih,
      List.reverse_cons, List.append_assoc, List.singleton_append]

theorem members_of_spells {ts : List Token} {names : List String} (h : SpellsMembers ts names)
    {rbrace : Token} (hclose : rbrace.IsSymbol "\x7d") (rest : List Token) :
    members [] (ts ++ rbrace :: rest) = .ok names (rbrace :: rest) := by
  cases h with
  | none => exact members_rbrace hclose rest []
  | names h => exact members_of_spellsNames h hclose rest (.inl rfl) []
  | trailing h hcomma =>
    rw [List.append_assoc]
    exact members_of_spellsNames h hclose rest (.inr ⟨_, hcomma, rfl⟩) []

theorem inBraces_of_read {α : Type} {body : List Token → Outcome α} {value : α}
    {lbrace rbrace : Token} (hopen : lbrace.IsSymbol "\x7b") (hclose : rbrace.IsSymbol "\x7d")
    {ts rest : List Token} (hbody : body (ts ++ rbrace :: rest) = .ok value (rbrace :: rest)) :
    inBraces body (lbrace :: (ts ++ rbrace :: rest)) = .ok value rest := by
  rw [inBraces, consume_cons hopen, Outcome.bind_ok, hbody, Outcome.bind_ok, consume_cons hclose,
    Outcome.map_ok]

/-! ## Definitions and declarations -/

/-- No annotation follows. -/
abbrev Unannotated (ts : List Token) : Prop :=
  check .keyword (some "representation") ts = false

theorem advancedMark_of_spells {ts rest : List Token} {advanced : Bool}
    (h : SpellsAdvanced ts advanced) (hrest : Unannotated rest) :
    advancedMark (ts ++ rest) = .ok advanced rest := by
  cases h with
  | absent =>
    refine advancedMark_absent ?_
    rintro ⟨hr, -, -⟩
    exact Bool.false_ne_true (hrest.symm.trans hr)
  | present hr ha hm => exact advancedMark_present hr ha hm rest

theorem annotated_of_spells {o : Outcome Node} {value : Node} {ts rest : List Token}
    {advanced : Bool} (ho : o = .ok value (ts ++ rest)) (h : SpellsAdvanced ts advanced)
    (hrest : Unannotated rest) : annotated o = .ok (.node value advanced) rest := by
  rw [annotated_eq, ho, Outcome.bind_ok, advancedMark_of_spells h hrest, Outcome.map_ok]

theorem definition_of_spells {ts rest : List Token} {value : Definition}
    (h : SpellsDefinition ts value) (hrest : Unannotated rest) :
    definition (ts ++ rest) = .ok value rest := by
  cases h with
  | scalar h =>
    rw [List.singleton_append, definition, if_pos (checkScalar_cons_iff.2 ⟨_, h⟩), scalar_cons h,
      Outcome.map_ok]
  | @struct keyword lbrace rbrace fs entries hkeyword hopen hfields hclose =>
    obtain ⟨line, rfl⟩ := Token.eq_of_is_some hkeyword
    have hbody := inBraces_of_read hopen hclose (fields_of_spells hfields hclose rest .empty)
    simp [definition, checkScalar, Token.is, Scalar.all, Scalar.keyword, structBody, hbody]
    rfl
  | @enum keyword lbrace rbrace ms names hkeyword hopen hmembers hclose =>
    obtain ⟨line, rfl⟩ := Token.eq_of_is_some hkeyword
    have hbody := inBraces_of_read hopen hclose (members_of_spells hmembers hclose rest)
    simp [definition, checkScalar, Token.is, Scalar.all, Scalar.keyword, enumBody, hbody]
  | @map ks ts as keyword advanced value hkeyword hbody hadvanced =>
    have hread := braced_of_spells hbody (as ++ rest)
    rw [List.append_assoc, List.append_assoc]
    refine Eq.trans ?_ (annotated_of_spells hread hadvanced hrest)
    cases hkeyword with
    | absent =>
      obtain ⟨t, left, rfl, ht⟩ := exists_cons_of_spellsBraced hbody
      obtain ⟨line, rfl⟩ := Token.eq_of_is_some ht
      simp [definition, checkScalar, Token.is]
    | present ht =>
      obtain ⟨line, rfl⟩ := Token.eq_of_is_some ht
      simp [definition, checkScalar, Token.is, Scalar.all, Scalar.keyword]
  | @list keyword ts as advanced value hkeyword hbody hadvanced =>
    have hread := listBody_of_spells hbody (as ++ rest)
    refine Eq.trans ?_ (annotated_of_spells hread hadvanced hrest)
    obtain ⟨line, rfl⟩ := Token.eq_of_is_some hkeyword
    simp [definition, checkScalar, Token.is, Scalar.all, Scalar.keyword]
  | @bracketed ts as advanced value hbody hadvanced =>
    have hread := bracketed_of_spells hbody (as ++ rest)
    rw [List.append_assoc]
    refine Eq.trans ?_ (annotated_of_spells hread hadvanced hrest)
    obtain ⟨t, left, rfl, ht⟩ := exists_cons_of_spellsBracketed hbody
    obtain ⟨line, rfl⟩ := Token.eq_of_is_some ht
    simp [definition, checkScalar, Token.is]
  | link hlink hname =>
    rcases hlink with hlink | hlink
    all_goals
      obtain ⟨line, rfl⟩ := Token.eq_of_is_some hlink
      simp [definition, checkScalar, Token.is, Scalar.all, Scalar.keyword, link,
        consume_cons hname]
  | ref hname =>
    obtain ⟨line, heq⟩ := Token.eq_of_isName hname
    rw [heq]
    simp [definition, checkScalar, check, Token.is, consume, take]

theorem declaration_of_spells {ts rest : List Token} {d : String × Definition}
    (h : SpellsDeclaration ts d) (hrest : Unannotated rest) :
    declaration (ts ++ rest) = .ok d rest := by
  cases h with
  | intro hkeyword hname hvalue =>
    rw [declaration_eq, List.cons_append, consume_cons hkeyword, Outcome.bind_ok, List.cons_append,
      consume_cons hname, Outcome.bind_ok, definition_of_spells hvalue hrest, Outcome.bind_ok,
      afterDefinition, if_neg (by rw [hrest]; exact Bool.false_ne_true)]

/-- Declarations begin with the keyword `type`, so no annotation stands before them. -/
theorem unannotated_append_of_spells {ts rest : List Token} {ds : List (String × Definition)}
    (h : SpellsSchema ts ds) (hrest : Unannotated rest) : Unannotated (ts ++ rest) := by
  cases h with
  | nil => exact hrest
  | cons hdeclaration =>
    cases hdeclaration with
    | intro hkeyword =>
      obtain ⟨line, rfl⟩ := Token.eq_of_is_some hkeyword
      rfl

theorem unannotated_of_spellsSchema {ts : List Token} {ds : List (String × Definition)}
    (h : SpellsSchema ts ds) : Unannotated ts := by
  have happend := unannotated_append_of_spells h (rfl : Unannotated [])
  rwa [List.append_nil] at happend

/-- The declarations that are spelled are added one after the other, before anything else is read. -/
theorem declarations_append_of_spells {ts rest : List Token} {ds : List (String × Definition)}
    (h : SpellsSchema ts ds) (hrest : Unannotated rest) (found : Schema) :
    declarations found (ts ++ rest) =
      declarations (ds.foldl (fun s d => s.add d.1 d.2) found) rest := by
  induction h generalizing found with
  | nil => rfl
  | @cons ts us d ds hdeclaration hds ih =>
    have hread := declaration_of_spells hdeclaration (unannotated_append_of_spells hds hrest)
    rw [List.append_assoc]
    cases hdeclaration with
    | intro =>
      rw [List.cons_append, declarations_cons, ← List.cons_append, hread, Outcome.bind_ok, ih,
        List.foldl_cons]

theorem declarations_of_spells {ts : List Token} {ds : List (String × Definition)}
    (h : SpellsSchema ts ds) (found : Schema) :
    declarations found ts = .ok (ds.foldl (fun s d => s.add d.1 d.2) found) [] := by
  rw [← declarations_nil, ← declarations_append_of_spells h (rfl : Unannotated []),
    List.append_nil]

end Parser

end Ipld
