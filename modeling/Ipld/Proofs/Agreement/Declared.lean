import Ipld.File
import Ipld.Proofs.Agreement.Schemas
import Ipld.Proofs.Token.Scanning

/-!
# What a source declares

The language of the two parsers, said without either of them: a source declares what its words
spell, whatever the gaps between them.  A parser gives a schema exactly when the source declares
something, and it is the schema of what is declared.
-/

namespace Ipld

/-- The words of the source spell these declarations. -/
def Declares (source : String) (ds : List (String × Definition)) : Prop :=
  ∃ l : Layout, source.toList = l.text ∧ SpellsSchema l.tokens ds

theorem declares_iff_tokenize {source : String} {ds : List (String × Definition)} :
    Declares source ds ↔ ∃ ts, tokenize source = .ok ts ∧ SpellsSchema ts ds := by
  constructor
  · rintro ⟨l, htext, hspells⟩
    refine ⟨l.tokens, ?_, hspells⟩
    rw [← tokenize_layout, ← htext, String.ofList_toList]
  · rintro ⟨ts, htokens, hspells⟩
    obtain ⟨l, htext, rfl⟩ := exists_layout_of_tokenize htokens
    exact ⟨l, htext, hspells⟩

theorem exists_declares_iff_of_tokenize {source : String} {ts : List Token} {s : Schema}
    (h : tokenize source = .ok ts) :
    (∃ ds, Declares source ds ∧ s = .ofDeclarations ds) ↔ parseTokens ts = .ok s := by
  simp only [declares_iff_tokenize, h, Except.ok.injEq, exists_eq_left']
  rw [parseTokens_eq_ok_iff_schema]
  constructor
  · rintro ⟨ds, hspells, rfl⟩
    exact schema_of_spells hspells
  · exact exists_spells_of_schema

theorem not_declares_of_tokenize {source : String} {e : Fault} (h : tokenize source = .error e)
    (ds : List (String × Definition)) : ¬ Declares source ds := by
  rw [declares_iff_tokenize, h]
  rintro ⟨ts, hts, -⟩
  cases hts

namespace Frontend

/-- Either parser finds what the source declares. -/
theorem parse_eq_ok_iff {f : Frontend} {source : String} {s : Schema} :
    f.parse source = .ok s ↔ ∃ ds, Declares source ds ∧ s = .ofDeclarations ds := by
  cases htokens : tokenize source with
  | ok ts =>
    rw [exists_declares_iff_of_tokenize htokens]
    cases f with
    | handwritten => rw [parse, Ipld.parse, htokens]
    | grammar =>
      obtain ⟨ls, hlexemes, hls⟩ := lexemes_of_tokenize_eq_ok htokens
      rw [parse, Grammar.parse_eq_ok_iff_completes hlexemes hls, parseTokens_eq_ok_iff_completes]
  | error e =>
    have hnone : ¬ ∃ ds, Declares source ds ∧ s = .ofDeclarations ds :=
      fun ⟨ds, hds, _⟩ => not_declares_of_tokenize htokens ds hds
    simp only [hnone, iff_false]
    cases f with
    | handwritten =>
      rw [parse, Ipld.parse, htokens]
      exact nofun
    | grammar =>
      obtain ⟨-, ls, stray, -, -, -, hlexemes⟩ := lexemes_of_tokenize_eq_error htokens
      rw [parse, Grammar.parse_of_stray hlexemes]
      split
      · exact nofun
      · exact nofun

/-- Either parser refuses a source with an error of the source. -/
theorem exists_of_parse_eq_error {f : Frontend} {source : String} {e : Fault}
    (h : f.parse source = .error e) : ∃ a, e = .schema a := by
  cases f with
  | handwritten =>
    obtain ⟨a, ha, -⟩ := Ipld.exists_of_parse_eq_error h
    exact ⟨a, ha⟩
  | grammar =>
    obtain ⟨a, ha, -⟩ := Grammar.exists_of_parse_eq_error h
    exact ⟨a, ha⟩

theorem parse_of_declares {source : String} {ds : List (String × Definition)} (f : Frontend)
    (h : Declares source ds) : f.parse source = .ok (.ofDeclarations ds) :=
  parse_eq_ok_iff.2 ⟨ds, h, rfl⟩

theorem exists_parse_eq_error {source : String} (f : Frontend) (h : ∀ ds, ¬ Declares source ds) :
    ∃ a, f.parse source = .error (.schema a) := by
  cases hparse : f.parse source with
  | ok s =>
    obtain ⟨ds, hds, -⟩ := parse_eq_ok_iff.1 hparse
    exact absurd hds (h ds)
  | error e =>
    obtain ⟨a, rfl⟩ := exists_of_parse_eq_error hparse
    exact ⟨a, rfl⟩

end Frontend

/-- Whether a source is a schema is found out by parsing it. -/
instance (source : String) : Decidable (∃ ds, Declares source ds) :=
  match h : Frontend.handwritten.parse source with
  | .ok _ => .isTrue (let ⟨ds, hds, _⟩ := Frontend.parse_eq_ok_iff.1 h; ⟨ds, hds⟩)
  | .error _ => .isFalse fun ⟨_, hds⟩ => by
      rw [Frontend.parse_of_declares _ hds] at h
      cases h

end Ipld
