import Ipld.Proofs.Layout
import Ipld.Proofs.Parser.Steps
import Ipld.Proofs.Schema.Rename

/-!
# Two runs of the parser

Two token lists whose words are the same, but for the names, are read in lockstep: every production
takes the same number of tokens of both and fails at the same place for the same reason.  The values
are the same under the renaming of the names, and lines play no part at all.

What is to be known of the tokens at which the two runs stand, beyond their words, is the relation
`R`: how their lines are related, or that they have the same place in their lists.
-/

namespace Ipld

/-! ## Tokens and outcomes -/

/-- The tokens are of one kind and have the same word, or two names that `f` relates. -/
structure Token.Renames (f : String → String) (t u : Token) : Prop where
  kind : u.kind = t.kind
  word : t.kind ≠ .identifier → u.value = t.value
  name : t.kind = .identifier → u.value = f t.value

namespace Token.Renames

variable {f : String → String} {t u : Token}

theorem is_none (h : t.Renames f u) (kind : TokenKind) : u.is kind none = t.is kind none := by
  rw [Token.is, Token.is, h.kind]
  rfl

theorem is_word (h : t.Renames f u) {kind : TokenKind} (hkind : kind ≠ .identifier)
    (word : String) : u.is kind (some word) = t.is kind (some word) := by
  by_cases hname : t.kind = .identifier
  · have hne : (t.kind == kind) = false := beq_false_of_ne fun heq => hkind (heq ▸ hname)
    rw [Token.is, Token.is, h.kind, hne, Bool.false_and, Bool.false_and]
  · rw [Token.is, Token.is, h.kind, h.word hname]

theorem is_keyword (h : t.Renames f u) (word : String) :
    u.is .keyword (some word) = t.is .keyword (some word) :=
  h.is_word (by decide) word

theorem is_symbol (h : t.Renames f u) (symbol : String) :
    u.is .symbol (some symbol) = t.is .symbol (some symbol) :=
  h.is_word (by decide) symbol

theorem value_eq (h : t.Renames f u) (hname : t.IsName) : u.value = f t.value :=
  h.name (Token.is_none_iff.1 hname)

end Token.Renames

/-- Tokens that differ in their lines only are a renaming that changes no name. -/
theorem renames_id_of_spelling {ts us : List Token}
    (h : us.map Token.spelling = ts.map Token.spelling) :
    List.Forall₂ (Token.Renames id) ts us := by
  induction ts generalizing us with
  | nil =>
    rw [List.map_nil, List.map_eq_nil_iff] at h
    subst h
    exact .nil
  | cons t ts ih =>
    obtain ⟨u, us, rfl, hu, hus⟩ := List.map_eq_cons_iff.1 h
    obtain ⟨hkind, hvalue⟩ := Prod.mk.inj hu
    exact .cons ⟨hkind, fun _ => hvalue, fun _ => hvalue⟩ (ih hus)

namespace Parser

section

variable (f : String → String) (R : Token → Token → Prop)

/-- The two runs fail for the same reason, at tokens that `R` relates. -/
inductive Failure.Alike : Failure → Failure → Prop
  | ended : Alike .ended .ended
  | unexpected {kind : TokenKind} {value : Option String} {t u : Token} (h : R t u) :
    Alike (.unexpected kind value t) (.unexpected kind value u)
  | annotated {name : String} {t u : Token} (h : R t u) :
    Alike (.annotated name t) (.annotated (f name) u)
  | key {t u : Token} (h : R t u) : Alike (.key t) (.key u)
  | body {t u : Token} (h : R t u) : Alike (.body t) (.body u)
  | overrun : Alike .overrun .overrun
  | unknownScalar {word : String} : Alike (.unknownScalar word) (.unknownScalar word)

/-- Both runs succeed, with values that `V` relates, or both fail; what is left is related by `R`. -/
inductive Outcome.Alike {α β : Type} (V : α → β → Prop) : Outcome α → Outcome β → Prop
  | ok {a : α} {b : β} {ts us : List Token} (hvalue : V a b) (hrest : List.Forall₂ R ts us) :
    Alike V (.ok a ts) (.ok b us)
  | fail {why why' : Failure} {ts us : List Token} (hwhy : why.Alike f R why')
    (hrest : List.Forall₂ R ts us) : Alike V (.fail why ts) (.fail why' us)

end

section Runs

variable {f : String → String} {R : Token → Token → Prop} {α β γ δ : Type}

namespace Outcome.Alike

variable {V : α → β → Prop} {W : γ → δ → Prop} {o : Outcome α} {o' : Outcome β}

/-- Both runs go on alike; the second step may use how far the first run came. -/
theorem bind (h : Alike f R V o o') {g : α → List Token → Outcome γ}
    {g' : β → List Token → Outcome δ}
    (hg : ∀ a b ts us, o = .ok a ts → V a b → List.Forall₂ R ts us →
      Alike f R W (g a ts) (g' b us)) : Alike f R W (o.bind g) (o'.bind g') := by
  cases h with
  | ok hvalue hrest => exact hg _ _ _ _ rfl hvalue hrest
  | fail hwhy hrest => exact .fail hwhy hrest

theorem mono {V' : α → β → Prop} (h : Alike f R V o o') (himp : ∀ a b, V a b → V' a b) :
    Alike f R V' o o' := by
  cases h with
  | ok hvalue hrest => exact .ok (himp _ _ hvalue) hrest
  | fail hwhy hrest => exact .fail hwhy hrest

theorem map (h : Alike f R V o o') {g : α → γ} {g' : β → δ} (hg : ∀ a b, V a b → W (g a) (g' b)) :
    Alike f R W (o.map g) (o'.map g') :=
  h.bind fun a b _ _ _ hvalue hrest => .ok (hg a b hvalue) hrest

end Outcome.Alike

open Outcome

variable (hR : ∀ t u, R t u → t.Renames f u) {ts us : List Token}

include hR

/-! ## Single tokens -/

theorem check_keyword (h : List.Forall₂ R ts us) (word : String) :
    check .keyword (some word) us = check .keyword (some word) ts := by
  cases h with
  | nil => rfl
  | cons ht _ => exact (hR _ _ ht).is_keyword word

theorem check_symbol (h : List.Forall₂ R ts us) (symbol : String) :
    check .symbol (some symbol) us = check .symbol (some symbol) ts := by
  cases h with
  | nil => rfl
  | cons ht _ => exact (hR _ _ ht).is_symbol symbol

theorem checkScalar_eq (h : List.Forall₂ R ts us) : checkScalar us = checkScalar ts := by
  cases h with
  | nil => rfl
  | @cons t u ts us ht _ =>
    have hwords := hR t u ht
    rw [checkScalar, checkScalar, hwords.is_none]
    cases hk : t.is .keyword none with
    | false => rfl
    | true =>
      have hkind : t.kind ≠ .identifier := by
        rw [Token.is_none_iff.1 hk]
        decide
      rw [hwords.word hkind]

omit hR in
theorem alike_consume {kind : TokenKind} {value : Option String}
    (his : ∀ t u, R t u → u.is kind value = t.is kind value) (h : List.Forall₂ R ts us) :
    Alike f R (fun t u => t.is kind value = true ∧ R t u) (consume kind value ts)
      (consume kind value us) := by
  cases h with
  | nil => exact .fail .ended .nil
  | @cons t u ts us ht hrest =>
    cases hc : t.is kind value with
    | true =>
      rw [consume_cons hc, consume_cons ((his t u ht).trans hc)]
      exact .ok ⟨hc, ht⟩ hrest
    | false =>
      rw [consume_cons_other hc, consume_cons_other ((his t u ht).trans hc)]
      exact .fail (.unexpected ht) (.cons ht hrest)

theorem alike_symbol (h : List.Forall₂ R ts us) (symbol : String) :
    Alike f R (fun t u => t.IsSymbol symbol ∧ R t u) (consume .symbol (some symbol) ts)
      (consume .symbol (some symbol) us) :=
  alike_consume (fun t u ht => (hR t u ht).is_symbol symbol) h

/-- A name, which the two runs see under two names. -/
theorem alike_name (h : List.Forall₂ R ts us) :
    Alike f R (fun t u => u.value = f t.value) (consume .identifier none ts)
      (consume .identifier none us) :=
  (alike_consume (fun t u ht => (hR t u ht).is_none .identifier) h).mono
    fun _ _ ht => (hR _ _ ht.2).value_eq ht.1

theorem alike_modifier (h : List.Forall₂ R ts us) (word : String) :
    Alike f R Eq (modifier word ts) (modifier word us) := by
  have hcheck := check_keyword hR h word
  unfold modifier accept
  rw [hcheck]
  cases check .keyword (some word) ts with
  | true =>
    cases h with
    | nil => exact .ok rfl .nil
    | cons _ hrest => exact .ok rfl hrest
  | false => exact .ok rfl h

theorem alike_go_acceptAll (h : List.Forall₂ R ts us) (words : List String) :
    Option.Rel (List.Forall₂ R) (acceptAll.go words ts) (acceptAll.go words us) := by
  induction words generalizing ts us with
  | nil => exact .some h
  | cons word words ih =>
    have hcheck := check_keyword hR h word
    rw [acceptAll.go, acceptAll.go, hcheck]
    split
    · cases h with
      | nil => exact ih .nil
      | cons _ hrest => exact ih hrest
    · exact .none

theorem alike_advancedMark (h : List.Forall₂ R ts us) :
    Alike f R Eq (advancedMark ts) (advancedMark us) := by
  have hgo := alike_go_acceptAll hR h advancedAnnotation
  unfold advancedMark acceptAll
  cases hts : acceptAll.go advancedAnnotation ts with
  | none =>
    rw [hts] at hgo
    cases hus : acceptAll.go advancedAnnotation us with
    | none => exact .ok rfl h
    | some _ =>
      rw [hus] at hgo
      cases hgo
  | some left =>
    rw [hts] at hgo
    cases hus : acceptAll.go advancedAnnotation us with
    | none =>
      rw [hus] at hgo
      cases hgo
    | some left' =>
      rw [hus] at hgo
      cases hgo with
      | some hleft => exact .ok rfl hleft

theorem alike_mapKey (h : List.Forall₂ R ts us) : Alike f R Eq (mapKey ts) (mapKey us) := by
  have hcheck := check_keyword hR h "String"
  unfold mapKey accept
  rw [hcheck]
  cases h with
  | nil => exact .fail .ended .nil
  | cons ht hrest =>
    cases check .keyword (some "String") _ with
    | true => exact .ok rfl hrest
    | false => exact .fail (.key ht) (.cons ht hrest)

/-! ## Nodes -/

section Deeper

variable {n : Nat}
  (ih : ∀ {ts us : List Token}, ts.length ≤ n → List.Forall₂ R ts us →
    Alike f R (fun a b => b = a.rename f) (node ts) (node us))

include ih

theorem alike_bracketed_of (hlen : ts.length ≤ n + 1) (h : List.Forall₂ R ts us) :
    Alike f R (fun a b => b = a.rename f) (bracketed ts) (bracketed us) := by
  rw [bracketed_eq, bracketed_eq]
  refine (alike_symbol hR h "[").bind fun _ _ r₁ s₁ hopen _ h₁ => ?_
  have hlen₁ := shrinks_consume _ _ ts _ _ hopen
  refine (alike_modifier hR h₁ "nullable").bind fun a b r₂ s₂ hmodifier hab h₂ => ?_
  have hlen₂ := length_accept .keyword (some "nullable") r₁
  cases hmodifier
  subst hab
  refine (ih (by omega) h₂).bind fun a b r₃ s₃ _ hvalue h₃ => ?_
  refine (alike_symbol hR h₃ "]").map fun _ _ _ => ?_
  rw [hvalue, Node.rename]

theorem alike_braced_of (hlen : ts.length ≤ n + 1) (h : List.Forall₂ R ts us) :
    Alike f R (fun a b => b = a.rename f) (braced ts) (braced us) := by
  rw [braced_eq, braced_eq]
  refine (alike_symbol hR h "\x7b").bind fun _ _ r₁ s₁ hopen _ h₁ => ?_
  have hlen₁ := shrinks_consume _ _ ts _ _ hopen
  refine (alike_mapKey hR h₁).bind fun _ _ r₂ s₂ hkey _ h₂ => ?_
  have hlen₂ := shrinks_mapKey r₁ _ _ hkey
  refine (alike_symbol hR h₂ ":").bind fun _ _ r₃ s₃ hcolon _ h₃ => ?_
  have hlen₃ := shrinks_consume _ _ r₂ _ _ hcolon
  refine (alike_modifier hR h₃ "nullable").bind fun a b r₄ s₄ hmodifier hab h₄ => ?_
  have hlen₄ := length_accept .keyword (some "nullable") r₃
  cases hmodifier
  subst hab
  refine (ih (by omega) h₄).bind fun a b r₅ s₅ _ hvalue h₅ => ?_
  refine (alike_symbol hR h₅ "\x7d").map fun _ _ _ => ?_
  rw [hvalue, Node.rename]

end Deeper

theorem alike_scalar (h : List.Forall₂ R ts us) (hscalar : checkScalar ts = true) :
    Alike f R Eq (scalar ts) (scalar us) := by
  cases h with
  | nil => cases hscalar
  | @cons t u ts us ht hrest =>
    obtain ⟨kind, hkind⟩ := checkScalar_cons_iff.1 hscalar
    have hkind' : u.IsKeyword kind.keyword := ((hR _ _ ht).is_keyword _).trans hkind
    rw [scalar_cons hkind, scalar_cons hkind']
    exact .ok rfl hrest

theorem alike_link (h : List.Forall₂ R ts us) :
    Alike f R (fun a b => b = a.rename f) (link ts) (link us) :=
  (alike_name hR h).map fun _ _ hname => by rw [hname, Node.rename]

theorem alike_node_of_le (n : Nat) {ts us : List Token} (hlen : ts.length ≤ n)
    (h : List.Forall₂ R ts us) :
    Alike f R (fun a b => b = a.rename f) (node ts) (node us) := by
  induction n generalizing ts us with
  | zero =>
    cases h with
    | nil =>
      rw [node_nil]
      exact .fail .ended .nil
    | cons => cases hlen
  | succ n ih =>
    cases h with
    | nil =>
      rw [node_nil]
      exact .fail .ended .nil
    | @cons t u ts us ht hrest =>
      have h : List.Forall₂ R (t :: ts) (u :: us) := .cons ht hrest
      rw [node, node, checkScalar_eq hR h, check_symbol hR h, check_symbol hR h, check_symbol hR h,
        check_keyword hR h, check_keyword hR h]
      split
      · next hscalar =>
        exact (alike_scalar hR h hscalar).map fun a b hab => by rw [hab, Node.rename]
      split
      · exact alike_bracketed_of hR ih hlen h
      split
      · exact alike_braced_of hR ih hlen h
      split
      · exact alike_link hR hrest
      split
      · exact .fail (.body ht) h
      · exact (alike_name hR h).map fun a b hname => by rw [hname, Node.rename]

theorem alike_node (h : List.Forall₂ R ts us) :
    Alike f R (fun a b => b = a.rename f) (node ts) (node us) :=
  alike_node_of_le hR ts.length (Nat.le_refl _) h

theorem alike_bracketed (h : List.Forall₂ R ts us) :
    Alike f R (fun a b => b = a.rename f) (bracketed ts) (bracketed us) :=
  alike_bracketed_of hR (fun _ => alike_node hR) (Nat.le_succ _) h

theorem alike_braced (h : List.Forall₂ R ts us) :
    Alike f R (fun a b => b = a.rename f) (braced ts) (braced us) :=
  alike_braced_of hR (fun _ => alike_node hR) (Nat.le_succ _) h

theorem alike_listBody (h : List.Forall₂ R ts us) :
    Alike f R (fun a b => b = a.rename f) (listBody ts) (listBody us) := by
  rw [listBody_eq, listBody_eq]
  refine (alike_modifier hR h "nullable").bind fun a b r₁ s₁ _ hab h₁ => ?_
  subst hab
  exact (alike_node hR h₁).map fun _ _ hvalue => by rw [hvalue, Node.rename]

/-! ## Bodies -/

theorem alike_field (h : List.Forall₂ R ts us) :
    Alike f R (fun a b => b = Prod.map f (Field.rename f) a) (field ts) (field us) := by
  rw [field_eq, field_eq]
  refine (alike_name hR h).bind fun name name' r₁ s₁ _ hname h₁ => ?_
  refine (alike_modifier hR h₁ "optional").bind fun a b r₂ s₂ _ hoptional h₂ => ?_
  refine (alike_modifier hR h₂ "nullable").bind fun c d r₃ s₃ _ hnullable h₃ => ?_
  subst hoptional hnullable
  refine (alike_node hR h₃).map fun _ _ hvalue => ?_
  rw [hname, hvalue, Prod.map_apply, Field.rename]

theorem alike_fields_of_le (hf : f.Injective) (n : Nat) {found : Table Field} {ts us : List Token}
    (hlen : ts.length ≤ n) (h : List.Forall₂ R ts us) :
    Alike f R (fun a b => b = a.rename f (Field.rename f)) (fields found ts)
      (fields (found.rename f (Field.rename f)) us) := by
  induction n generalizing found ts us with
  | zero =>
    cases h with
    | nil =>
      rw [fields_eq, fields_eq]
      exact .fail .ended .nil
    | cons => cases hlen
  | succ n ih =>
    rw [fields_eq, fields_eq, check_symbol hR h]
    split
    · exact .ok rfl h
    · refine (alike_field hR h).bind fun entry entry' r₁ s₁ hfield hentry h₁ => ?_
      have hlen₁ := shrinks_field ts _ _ hfield
      have hinsert := Table.rename_insert hf (Field.rename f) found entry.1 entry.2
      rw [hentry, Prod.map_fst, Prod.map_snd, ← hinsert]
      exact ih (by omega) h₁

theorem alike_members_of_le (n : Nat) {found : List String} {ts us : List Token}
    (hlen : ts.length ≤ n) (h : List.Forall₂ R ts us) :
    Alike f R (fun a b => b = a.map f) (members found ts) (members (found.map f) us) := by
  induction n generalizing found ts us with
  | zero =>
    cases h with
    | nil =>
      rw [members_eq, members_eq]
      exact .fail .ended .nil
    | cons => cases hlen
  | succ n ih =>
    rw [members_eq, members_eq, check_symbol hR h]
    split
    · exact .ok List.map_reverse.symm h
    · refine (alike_name hR h).bind fun name name' r₁ s₁ hconsume hname h₁ => ?_
      have hlen₁ := shrinks_consume _ _ ts _ _ hconsume
      rw [hname, ← List.map_cons, moreMembers, moreMembers, check_symbol hR h₁]
      split
      · exact .ok List.map_reverse.symm h₁
      · refine (alike_symbol hR h₁ ",").bind fun _ _ r₂ s₂ hcomma _ h₂ => ?_
        have hlen₂ := shrinks_consume _ _ r₁ _ _ hcomma
        exact ih (by omega) h₂

theorem alike_inBraces {V : α → β → Prop} {body : List Token → Outcome α}
    {body' : List Token → Outcome β}
    (hbody : ∀ {ts us}, List.Forall₂ R ts us → Alike f R V (body ts) (body' us))
    (h : List.Forall₂ R ts us) : Alike f R V (inBraces body ts) (inBraces body' us) := by
  rw [inBraces, inBraces]
  refine (alike_symbol hR h "\x7b").bind fun _ _ r₁ s₁ _ _ h₁ => ?_
  refine (hbody h₁).bind fun _ _ r₂ s₂ _ hvalue h₂ => ?_
  exact (alike_symbol hR h₂ "\x7d").map fun _ _ _ => hvalue

/-! ## Definitions and declarations -/

theorem alike_annotated {o o' : Outcome Node}
    (h : Alike f R (fun a b => b = a.rename f) o o') :
    Alike f R (fun a b => b = a.rename f) (annotated o) (annotated o') := by
  rw [annotated_eq, annotated_eq]
  refine h.bind fun _ _ r₁ s₁ _ hvalue h₁ => ?_
  refine (alike_advancedMark hR h₁).map fun a b hab => ?_
  rw [hvalue, hab, Definition.rename]

theorem alike_definition (hf : f.Injective) (h : List.Forall₂ R ts us) :
    Alike f R (fun a b => b = a.rename f) (definition ts) (definition us) := by
  cases h with
  | nil => exact .fail .ended .nil
  | @cons t u ts us ht hrest =>
    have h : List.Forall₂ R (t :: ts) (u :: us) := .cons ht hrest
    have hwords := hR t u ht
    rw [definition, definition, checkScalar_eq hR h, hwords.is_keyword, hwords.is_keyword,
      hwords.is_keyword, hwords.is_symbol, hwords.is_keyword, hwords.is_symbol, hwords.is_keyword,
      hwords.is_symbol]
    split
    · next hscalar =>
      exact (alike_scalar hR h hscalar).map fun a b hab => by rw [hab, Definition.rename]
    split
    · refine (alike_inBraces hR (fun h => alike_fields_of_le hR hf _ (Nat.le_refl _) h) hrest).map ?_
      exact fun a b hab => by rw [hab, Definition.rename]
    split
    · refine (alike_inBraces hR (fun h => alike_members_of_le hR _ (Nat.le_refl _) h) hrest).map ?_
      exact fun a b hab => by rw [hab, Definition.rename]
    split
    · exact alike_annotated hR (alike_braced hR hrest)
    split
    · exact alike_annotated hR (alike_braced hR h)
    split
    · exact alike_annotated hR (alike_listBody hR hrest)
    split
    · exact alike_annotated hR (alike_bracketed hR h)
    split
    · exact (alike_link hR hrest).map fun a b hab => by rw [hab, Definition.rename]
    · exact (alike_name hR h).map fun a b hname => by rw [hname, Definition.rename, Node.rename]

theorem alike_declaration (hf : f.Injective) (h : List.Forall₂ R ts us) :
    Alike f R (fun a b => b = Prod.map f (Definition.rename f) a) (declaration ts)
      (declaration us) := by
  rw [declaration_eq, declaration_eq]
  have htype := alike_consume (f := f) (fun t u ht => (hR t u ht).is_keyword "type") h
  refine htype.bind fun _ _ r₁ s₁ _ _ h₁ => ?_
  refine (alike_name hR h₁).bind fun name name' r₂ s₂ _ hname h₂ => ?_
  refine (alike_definition hR hf h₂).bind fun value value' r₃ s₃ _ hvalue h₃ => ?_
  rw [afterDefinition, afterDefinition, check_keyword hR h₃]
  split
  · next hannotated =>
    cases h₃ with
    | nil => cases hannotated
    | cons ht hrest =>
      rw [hname]
      exact .fail (.annotated ht) (.cons ht hrest)
  · rw [hname, hvalue]
    exact .ok rfl h₃

/-- **Two runs of the parser on the same words go in lockstep**, when what relates the schemas they
have found so far is kept by every declaration. -/
theorem alike_declarations (hf : f.Injective) {V : Schema → Schema → Prop}
    (hV : ∀ s s' name d, V s s' → V (s.add name d) (s'.add (f name) (d.rename f)))
    {s s' : Schema} (hs : V s s') (h : List.Forall₂ R ts us) :
    Alike f R V (declarations s ts) (declarations s' us) := by
  obtain ⟨n, hlen⟩ : ∃ n, ts.length ≤ n := ⟨_, Nat.le_refl _⟩
  induction n generalizing s s' ts us with
  | zero =>
    cases h with
    | nil =>
      rw [declarations_nil, declarations_nil]
      exact .ok hs .nil
    | cons => cases hlen
  | succ n ih =>
    cases h with
    | nil =>
      rw [declarations_nil, declarations_nil]
      exact .ok hs .nil
    | @cons t u ts us ht hrest =>
      have h : List.Forall₂ R (t :: ts) (u :: us) := .cons ht hrest
      rw [declarations_cons, declarations_cons]
      refine (alike_declaration hR hf h).bind fun d d' r₁ s₁ hdeclaration hd h₁ => ?_
      have hlen₁ := shrinks_declaration (t :: ts) _ _ hdeclaration
      rw [hd, Prod.map_fst, Prod.map_snd]
      exact ih (hV _ _ _ _ hs) h₁ (by omega)

end Runs

end Parser

end Ipld
