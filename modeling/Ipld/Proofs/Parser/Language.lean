import Ipld.Parser
import Ipld.Proofs.Parser.Soundness

/-!
# The language of the parser

A token list is read exactly when it spells declarations, and the schema is then those declarations
added one after the other.  No token list spells two different lists of declarations.
-/

namespace Ipld

open Ipld.Parser

theorem parseTokens_eq (ts : List Token) :
    parseTokens ts = match schema ts with
      | .ok s _ => .ok s
      | .fail why _ => .error (why.report (ts.getLast?.map Token.line)) := by
  unfold parseTokens Cursor.run
  rw [show (Cursor.ofTokens ts).rest = ts from List.drop_zero]
  cases schema ts with
  | ok s rest => rfl
  | fail why rest => rfl

theorem parseTokens_eq_ok_iff_schema {ts : List Token} {s : Schema} :
    parseTokens ts = .ok s ↔ schema ts = .ok s [] := by
  rw [parseTokens_eq]
  cases h : schema ts with
  | ok s' rest =>
    obtain rfl := rest_eq_nil_of_declarations h
    simp
  | fail why rest => simp

theorem schema_of_spells {ts : List Token} {ds : List (String × Definition)}
    (h : SpellsSchema ts ds) : schema ts = .ok (.ofDeclarations ds) [] :=
  declarations_of_spells h .empty

theorem exists_spells_of_schema {ts rest : List Token} {s : Schema} (h : schema ts = .ok s rest) :
    ∃ ds, SpellsSchema ts ds ∧ s = .ofDeclarations ds := by
  have hread := reads_schema ts
  rw [h] at hread
  obtain ⟨read, heq, hspells⟩ := hread
  rw [rest_eq_nil_of_declarations h, List.append_nil] at heq
  rwa [heq]

/-- The first declaration of a token list is where `declaration` finds it, so the declarations that
a token list spells are found one by one. -/
theorem spellsSchema_unique {ts : List Token} {ds ds' : List (String × Definition)}
    (h : SpellsSchema ts ds) (h' : SpellsSchema ts ds') : ds = ds' := by
  induction h generalizing ds' with
  | nil =>
    generalize hts : ([] : List Token) = ts at h'
    cases h' with
    | nil => rfl
    | cons hd =>
      cases hd with
      | intro => cases hts
  | @cons ts us d ds hd hds ih =>
    generalize hall : ts ++ us = all at h'
    have hread := declaration_of_spells hd (unannotated_of_spellsSchema hds)
    cases h' with
    | nil =>
      cases hd with
      | intro => cases hall
    | cons hd' hds' =>
      have hread' := declaration_of_spells hd' (unannotated_of_spellsSchema hds')
      rw [hall, hread'] at hread
      cases hread
      rw [ih hds']

/-- **A token list is accepted exactly when it is derivable from the grammar**, the schema being the
declarations of the derivation added in order; and all derivations of a token list mean the same. -/
theorem parseTokens_eq_ok_iff (ts : List Token) :
    (∀ s, parseTokens ts = .ok s ↔ ∃ ds, SpellsSchema ts ds ∧ s = Schema.ofDeclarations ds) ∧
      ∀ ds ds', SpellsSchema ts ds → SpellsSchema ts ds' → ds = ds' := by
  refine ⟨fun s => ⟨fun h => ?_, ?_⟩, fun ds ds' h h' => spellsSchema_unique h h'⟩
  · exact exists_spells_of_schema (parseTokens_eq_ok_iff_schema.1 h)
  · rintro ⟨ds, hds, rfl⟩
    exact parseTokens_eq_ok_iff_schema.2 (schema_of_spells hds)

end Ipld
