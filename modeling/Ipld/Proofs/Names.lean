import Ipld.Proofs.Agreement.Schemas
import Ipld.Proofs.Parser.Renaming

/-!
# Names and lines mean nothing to the parser

What the parser does with a token list depends on its keywords and symbols, and on which of its
names are the same.  So when every name is replaced, different names by different ones, the schema
comes out with its names replaced, and a list that is refused is refused at the same place for the
same reason.  A name may well be spelled like a keyword: it is a name by its kind.
-/

namespace Ipld

open Ipld.Parser

/-- The kind of an error, whatever words describe the token found. -/
def ErrorKind.unfound : ErrorKind → ErrorKind
  | .token expected _ => .token expected none
  | kind => kind

/-- The tokens have the same place in their lists. -/
def Abreast (ts us : List Token) (t u : Token) : Prop :=
  ∃ i : Nat, ts[i]? = some t ∧ us[i]? = some u

/-- The errors are of one class and want the same, on the lines of tokens that have the same place
in their lists. -/
structure Counterparts (ts us : List Token) (a b : SchemaError) : Prop where
  kind : b.kind.unfound = a.kind.unfound
  line : ∃ t u, Abreast ts us t u ∧ a.line = some t.line ∧ b.line = some u.line

variable {f : String → String} {ts us : List Token}

theorem forall₂_abreast {R : Token → Token → Prop} (h : List.Forall₂ R ts us) :
    List.Forall₂ (fun t u => R t u ∧ Abreast ts us t u) ts us := by
  obtain ⟨hlength, hget⟩ := List.forall₂_iff_get.1 h
  refine List.forall₂_iff_get.2 ⟨hlength, fun i hi hi' => ⟨hget i hi hi', i, ?_, ?_⟩⟩
  · exact List.getElem?_eq_getElem hi
  · exact List.getElem?_eq_getElem hi'

/-- The ends of two lists of one length are at the same place. -/
theorem exists_abreast_getLast? (hlength : ts.length = us.length) (hne : ts ≠ []) :
    ∃ t u, Abreast ts us t u ∧ ts.getLast? = some t ∧ us.getLast? = some u := by
  have hne' : us ≠ [] := by
    rintro rfl
    exact hne (List.length_eq_zero_iff.1 hlength)
  obtain ⟨t, ht⟩ := Option.isSome_iff_exists.1 (List.getLast?_isSome.2 hne)
  obtain ⟨u, hu⟩ := Option.isSome_iff_exists.1 (List.getLast?_isSome.2 hne')
  refine ⟨t, u, ⟨ts.length - 1, ?_, ?_⟩, ht, hu⟩
  · rw [← List.getLast?_eq_getElem?, ht]
  · rw [hlength, ← List.getLast?_eq_getElem?, hu]

/-- What is reported of two runs that fail alike. -/
theorem counterparts_of_report {R : Token → Token → Prop} {why why' : Failure} {a : SchemaError}
    (hR : ∀ t u, R t u → Abreast ts us t u) (hlength : ts.length = us.length) (hne : ts ≠ [])
    (h : why.Alike f R why') (ha : why.report (ts.getLast?.map Token.line) = .schema a) :
    ∃ b, why'.report (us.getLast?.map Token.line) = .schema b ∧ Counterparts ts us a b := by
  cases h with
  | ended =>
    obtain ⟨t, u, habreast, ht, hu⟩ := exists_abreast_getLast? hlength hne
    rw [ht] at ha
    cases ha
    rw [hu]
    exact ⟨_, rfl, rfl, t, u, habreast, rfl, rfl⟩
  | unexpected ht =>
    cases ha
    exact ⟨_, rfl, rfl, _, _, hR _ _ ht, rfl, rfl⟩
  | annotated ht =>
    cases ha
    exact ⟨_, rfl, rfl, _, _, hR _ _ ht, rfl, rfl⟩
  | key ht =>
    cases ha
    exact ⟨_, rfl, rfl, _, _, hR _ _ ht, rfl, rfl⟩
  | body ht =>
    cases ha
    exact ⟨_, rfl, rfl, _, _, hR _ _ ht, rfl, rfl⟩
  | overrun => cases ha
  | unknownScalar => cases ha

theorem alike_schema (hf : f.Injective) (h : List.Forall₂ (Token.Renames f) ts us) :
    Outcome.Alike f (fun t u => t.Renames f u ∧ Abreast ts us t u) (fun s s' => s' = s.rename f)
      (schema ts) (schema us) := by
  refine alike_declarations (fun _ _ ht => ht.1) hf ?_ rfl (forall₂_abreast h)
  rintro s _ name d rfl
  exact (Schema.rename_add hf s name d).symm

/-- **The parser does not look at names or lines.**  Token lists that differ in their lines and, by
an injective renaming, in their names are accepted together, and then one schema is the other with
its names replaced.  And they are refused together: at the same place, with errors of one class that
want the same. -/
theorem parseTokens_rename (hf : f.Injective) (h : List.Forall₂ (Token.Renames f) ts us) :
    (∀ s', parseTokens us = .ok s' ↔ ∃ s, parseTokens ts = .ok s ∧ s' = s.rename f) ∧
      ∀ e, parseTokens ts = .error e → ∃ a b, e = .schema a ∧
        parseTokens us = .error (.schema b) ∧ Counterparts ts us a b := by
  have halike := alike_schema hf h
  rw [parseTokens_eq, parseTokens_eq]
  cases hts : schema ts with
  | ok s rest =>
    rw [hts] at halike
    generalize schema us = o at halike
    cases halike with
    | ok hvalue =>
      subst hvalue
      simp [eq_comm]
  | fail why rest =>
    have hne : ts ≠ [] := by
      rintro rfl
      rw [schema, declarations_nil] at hts
      cases hts
    obtain ⟨a, ha, -⟩ := exists_report_of_schema hts (ts.getLast?.map Token.line)
    rw [hts] at halike
    generalize schema us = o at halike
    cases halike with
    | fail hwhy =>
      obtain ⟨b, hb, hcounterparts⟩ :=
        counterparts_of_report (fun _ _ ht => ht.2) h.length_eq hne hwhy ha
      simp only [ha, hb]
      refine ⟨by simp, ?_⟩
      rintro e ⟨⟩
      exact ⟨a, b, rfl, rfl, hcounterparts⟩

/-- A map under a name, with a name for its key, and both are empty. -/
def unnamed : List Token :=
  [⟨.keyword, "type", 1⟩, ⟨.identifier, "", 1⟩, ⟨.symbol, "\x7b", 2⟩, ⟨.identifier, "", 3⟩]

/-- The same with other lines, and with names that are spelled like a keyword. -/
def misnamed : List Token :=
  [⟨.keyword, "type", 7⟩, ⟨.identifier, "type", 0⟩, ⟨.symbol, "\x7b", -1⟩, ⟨.identifier, "type", 7⟩]

/-- Both lists are refused at the key. -/
theorem parseTokens_rename_misnamed :
    Function.Injective ("type" ++ ·) ∧ List.Forall₂ (Token.Renames ("type" ++ ·)) unnamed misnamed ∧
      (∀ s', parseTokens misnamed = .ok s' ↔
        ∃ s, parseTokens unnamed = .ok s ∧ s' = s.rename ("type" ++ ·)) ∧
      ∀ e, parseTokens unnamed = .error e → ∃ a b, e = .schema a ∧
        parseTokens misnamed = .error (.schema b) ∧ Counterparts unnamed misnamed a b := by
  have hf : Function.Injective ("type" ++ ·) := fun _ _ => (String.append_right_inj "type").1
  have hword : ∀ (kind : TokenKind) (word : String) (m n : Int), kind ≠ .identifier →
      Token.Renames ("type" ++ ·) ⟨kind, word, m⟩ ⟨kind, word, n⟩ :=
    fun _ _ _ _ hkind => ⟨rfl, fun _ => rfl, fun h => absurd h hkind⟩
  have hname : ∀ m n : Int,
      Token.Renames ("type" ++ ·) ⟨.identifier, "", m⟩ ⟨.identifier, "type", n⟩ :=
    fun _ _ => ⟨rfl, fun h => absurd rfl h, fun _ => rfl⟩
  have h : List.Forall₂ (Token.Renames ("type" ++ ·)) unnamed misnamed :=
    .cons (hword _ _ _ _ nofun) (.cons (hname _ _) (.cons (hword _ _ _ _ nofun)
      (.cons (hname _ _) .nil)))
  exact ⟨hf, h, parseTokens_rename hf h⟩

end Ipld
