import Ipld.Proofs.Agreement.Lockstep
import Ipld.Proofs.Grammar.Completion
import Ipld.Proofs.Parser.Language

/-!
# The same token lists are accepted

From where the parser fails, the grammar's run completes only if the failure is at a map key, and
then with the error of that key (`Blames.eq_of_completes`).  So the two accept the same token lists
and find the same declarations in them.
-/

namespace Ipld

open Grammar Ipld.Parser

variable {γ : Type}

namespace Parser

theorem cases_of_mem_leads_mapKey {T : Terminal} (h : T ∈ Rule.leads .mapKey) :
    T = .string ∨ T = .bool ∨ T = .bytes ∨ T = .int ∨ T = .float ∨ T = .ident := by
  revert T
  decide

/-- The keys that the grammar takes. -/
theorem exists_of_read_key {needs : List Symbol}
    {finish : Values (.rule .mapKey :: needs) → Checked γ} {t : Token} {r : Run (Checked γ)}
    (h : Run.read ⟨.rule .mapKey :: needs, finish⟩ t = some r) :
    ∃ T ∈ Rule.leads .mapKey, t.terminal? = some T ∧
      step (t.lexeme T) (.rule .mapKey :: needs) finish = some r := by
  obtain ⟨T, hT, hstep⟩ := Option.bind_eq_some_iff.1 h
  have hadvance := congrArg (Option.map Run.needs) hstep
  rw [map_needs_step] at hadvance
  rcases List.mem_append.1 (mem_expected_iff.2 ⟨_, hadvance⟩) with hmem | hmem
  · exact ⟨T, hmem, hT, hstep⟩
  · cases hmem

/-- After a key other than `String` the run can only have the error of this key. -/
theorem finish_eq_of_read_key {needs : List Symbol}
    {finish : Values (.rule .mapKey :: needs) → Checked γ} (hstrict : Strict finish) {t : Token}
    (ht : ¬ t.IsKeyword "String") {r : Run (Checked γ)}
    (h : Run.read ⟨.rule .mapKey :: needs, finish⟩ t = some r) :
    ∀ vs, r.finish vs = .error (.keyType t.value t.line.toNat) := by
  obtain ⟨T, hmem, hT, hstep⟩ := exists_of_read_key h
  have hother : step (t.lexeme T) (.rule .mapKey :: needs) finish =
      some ⟨needs, fun vs => finish (otherKey (t.lexeme T), vs)⟩ := by
    rcases cases_of_mem_leads_mapKey hmem with rfl | rfl | rfl | rfl | rfl | rfl
    · exact absurd (Token.terminal?_eq_some_iff.1 hT) ht
    all_goals rfl
  cases hother.symm.trans hstep
  exact fun vs => hstrict _ vs

theorem terminal?_of_beginsBody {t : Token} (h : BeginsBody t) :
    t.terminal? = some .struct ∨ t.terminal? = some .enum :=
  h.imp (terminal?_eq (T := .struct)) (terminal?_eq (T := .enum))

theorem read_eq_none_of_body {needs : List Symbol}
    {finish : Values (.rule .node :: needs) → Checked γ} {t : Token} (ht : BeginsBody t) :
    Run.read ⟨.rule .node :: needs, finish⟩ t = none := by
  refine Run.read_eq_none fun T hT hmem => ?_
  rcases List.mem_append.1 hmem with hmem | hmem
  · rcases terminal?_of_beginsBody ht with ht | ht
    · cases hT.symm.trans ht
      exact absurd hmem (by decide)
    · cases hT.symm.trans ht
      exact absurd hmem (by decide)
  · cases hmem

theorem read_eq_none_of_annotated {finish : Values [.rule .declarations] → Checked γ} {t : Token}
    (ht : t.IsKeyword "representation") : Run.read ⟨[.rule .declarations], finish⟩ t = none := by
  refine Run.read_eq_none fun T hT hmem => ?_
  cases hT.symm.trans (terminal?_eq (T := .representation) ht)
  exact absurd hmem (by simp [expected, Rule.leads, Rule.productions])

/-- Behind its first word, a run goes on with nothing but the rest of the annotation. -/
theorem beginsAdvanced_of_completes {finish : Values [.rule .representation, .rule .declarations] →
      Checked γ} {t : Token} {ts : List Token} {value : Checked γ}
    (ht : t.IsKeyword "representation")
    (h : Run.Completes ⟨[.rule .representation, .rule .declarations], finish⟩ (t :: ts) value) :
    BeginsAdvanced (t :: ts) := by
  have hpass : Run.Passes ⟨[.rule .representation, .rule .declarations], finish⟩ (t :: ts) ts
      ⟨[.terminal .advanced, .terminal .rmt, .rule .declarations],
        fun vs => finish (true, vs.2.2)⟩ :=
    passes_one (T := .representation) ht rfl ts
  obtain ⟨a, us, rfl, ha, h⟩ := Run.completes_terminal (hpass.completes_iff.1 h)
  obtain ⟨m, rest, rfl, hm, -⟩ := Run.completes_terminal h
  exact ⟨ht, ha, hm⟩

/-- **From where the parser fails, a run completes only with the error of a map key.** -/
theorem Blames.eq_of_completes {r : Run (Checked γ)} {ts : List Token} {why : Failure}
    {value : Checked γ} (h : Blames r ts why) (hvalue : r.Completes ts value) :
    ∃ t, why = .key t ∧ value = .error (.keyType t.value t.line.toNat) := by
  obtain ⟨r', hreads, hclose⟩ := hvalue
  cases h with
  | ended hnull =>
    cases hreads
    have hsome := isSome_close r.needs r.finish
    rw [hclose, hnull] at hsome
    cases hsome
  | unexpected hnext =>
    rw [Run.reads, Run.read_eq_none hnext] at hreads
    cases hreads
  | @key _ _ t _ hstrict ht =>
    obtain ⟨mid, hmid, hreads⟩ := Option.bind_eq_some_iff.1 hreads
    have hspoiled := Run.finish_eq_of_reads (finish_eq_of_read_key hstrict ht hmid) hreads
    exact ⟨t, rfl, eq_of_close hspoiled hclose⟩
  | body ht =>
    rw [Run.reads, read_eq_none_of_body ht] at hreads
    cases hreads
  | extra _ ht =>
    rw [Run.reads, read_eq_none_of_annotated ht] at hreads
    cases hreads
  | broken _ ht hbegins =>
    have hadvanced := beginsAdvanced_of_completes ht ⟨r', hreads, hclose⟩
    exact absurd hadvanced hbegins

/-! ## Whole lists -/

/-- A source cannot begin with an annotation, which the parser and the run notice at once. -/
theorem schema_of_check {ts : List Token}
    (h : check .keyword (some "representation") ts = true) :
    ∃ t rest, ts = t :: rest ∧ t.IsKeyword "representation" ∧
      schema ts = .fail (.unexpected .keyword (some "type") t) ts := by
  obtain ⟨t, rest, rfl, ht⟩ := eq_cons_of_check h
  obtain ⟨line, rfl⟩ := Token.eq_of_is_some ht
  refine ⟨_, rest, rfl, ht, ?_⟩
  rw [schema, declarations_cons, declaration_eq, consume_cons_other rfl]
  rfl

/-- The failure of a whole list, and where the run from the start stands at that place. -/
theorem blames_of_schema {ts rest : List Token} {why : Failure} (h : schema ts = .fail why rest) :
    (∃ t left, rest = t :: left ∧ ts = t :: left ∧ t.IsKeyword "representation" ∧
      why = .unexpected .keyword (some "type") t) ∨
    check .keyword (some "representation") ts = false ∧
      ∃ r, start.Passes ts rest r ∧ Blames r rest why := by
  cases hnext : check .keyword (some "representation") ts with
  | true =>
    obtain ⟨t, left, rfl, ht, hschema⟩ := schema_of_check hnext
    cases hschema.symm.trans h
    exact .inl ⟨t, left, rfl, rfl, ht, rfl⟩
  | false =>
    have hsim := simulates_schema hnext
    rw [h] at hsim
    exact .inr ⟨rfl, hsim⟩

/-- A run over a list that is not read completes only with the error of a map key. -/
theorem eq_of_completes_of_schema {ts rest : List Token} {why : Failure}
    {value : Checked (List (String × Definition))} (h : schema ts = .fail why rest)
    (hvalue : start.Completes ts value) :
    ∃ t, why = .key t ∧ value = .error (.keyType t.value t.line.toNat) := by
  rcases blames_of_schema h with ⟨t, left, -, rfl, ht, -⟩ | ⟨-, r, hpass, hblames⟩
  · obtain ⟨r', hreads, -⟩ := hvalue
    rw [Run.reads, show start.read t = none from read_eq_none_of_annotated ht] at hreads
    cases hreads
  · exact hblames.eq_of_completes (hpass.completes_iff.1 hvalue)

theorem completes_of_schema {ts rest : List Token} {s : Schema} (h : schema ts = .ok s rest) :
    ∃ ds, start.Completes ts (.ok ds) ∧ s = .ofDeclarations ds := by
  cases hnext : check .keyword (some "representation") ts with
  | true =>
    obtain ⟨t, left, rfl, ht, hschema⟩ := schema_of_check hnext
    cases hschema.symm.trans h
  | false =>
    have hsim := simulates_schema hnext
    rw [h] at hsim
    obtain ⟨r, hpass, rfl, ds, hs, rfl⟩ := hsim
    exact ⟨ds, hpass.completes_iff.2 ⟨_, rfl, rfl⟩, hs⟩

end Parser

/-- **A token list is read exactly when the run completes without an error**, and the declarations
are the same. -/
theorem parseTokens_eq_ok_iff_completes {ts : List Token} {s : Schema} :
    parseTokens ts = .ok s ↔ ∃ ds, start.Completes ts (.ok ds) ∧ s = .ofDeclarations ds := by
  rw [parseTokens_eq_ok_iff_schema]
  refine ⟨completes_of_schema, ?_⟩
  rintro ⟨ds, hds, rfl⟩
  cases hout : schema ts with
  | fail why rest =>
    obtain ⟨t, -, heq⟩ := eq_of_completes_of_schema hout hds
    cases heq
  | ok s' rest =>
    obtain ⟨ds', hds', rfl⟩ := completes_of_schema hout
    cases hds.unique hds'
    rw [rest_eq_nil_of_declarations hout]

end Ipld
