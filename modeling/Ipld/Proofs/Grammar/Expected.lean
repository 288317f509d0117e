import Ipld.Proofs.Agreement.Schemas
import Ipld.Proofs.Grammar.Ebnf
import Mathlib.Data.List.Permutation
import Mathlib.Data.List.Sort
import Mathlib.Data.String.Basic

/-!
# The terminals that an error offers

When the grammar's parser meets a lexeme that it cannot use, it names the terminals that it would
have taken instead.  They are exactly those with which the lexemes before can go on to a sentence of
the grammar, each named once and in order.
-/

namespace Ipld

open Grammar Text

namespace Grammar

/-- The terminals begin a sentence of the grammar as it is written. -/
def Begins (ts : List Terminal) : Prop :=
  ∃ more, Matches (.category .start) (ts ++ more)

theorem begins_iff_viable {ts : List Terminal} : Begins ts ↔ Viable ts :=
  exists_congr fun _ => sentence_iff_matches.symm

/-! ## Where a run is rejected -/

/-- A run is rejected behind lexemes that it gets over, by one that it does not expect. -/
theorem exists_of_over_eq_rejected {α : Type} {r : Run α} {ls : List Lexeme} {l : Lexeme}
    {wanted : List Terminal} (h : r.over ls = .rejected l wanted) :
    ∃ before after needs, ls = before ++ l :: after ∧
      advances (before.map Lexeme.terminal) r.needs = some needs ∧ wanted = expected needs ∧
        l.terminal ∉ expected needs := by
  induction ls generalizing r with
  | nil =>
    rw [Run.over] at h
    split at h
    · cases h
    · cases h
  | cons first ls ih =>
    have hneeds := map_needs_step first r.needs r.finish
    rw [Run.over] at h
    split at h
    · next next hstep =>
      obtain ⟨before, after, needs, rfl, hadvances, hwanted, hnot⟩ := ih h
      rw [hstep, Option.map_some] at hneeds
      refine ⟨first :: before, after, needs, rfl, ?_, hwanted, hnot⟩
      rw [List.map_cons, advances, ← hneeds, Option.bind_some, hadvances]
    · next hstep =>
      cases h
      rw [hstep, Option.map_none] at hneeds
      refine ⟨[], ls, r.needs, rfl, rfl, rfl, fun hmem => ?_⟩
      obtain ⟨next, hnext⟩ := mem_expected_iff.1 hmem
      cases hneeds.trans hnext

/-! ## The names of a set of terminals -/

theorem nodup_eraseDups : ∀ names : List String, names.eraseDups.Nodup
  | [] => List.nodup_nil
  | name :: rest => by
    rw [List.eraseDups_cons, List.nodup_cons]
    refine ⟨fun hmem => ?_, nodup_eraseDups (rest.filter fun other => !other == name)⟩
    rw [List.mem_eraseDups, List.mem_filter] at hmem
    simp at hmem
termination_by names => names.length
decreasing_by
  have := List.length_filter_le (fun other => !other == name) rest
  simp only [List.length_cons]
  omega

/-- The names are in order and each is there once. -/
theorem describeTerminals_eq (wanted : List Terminal) :
    ∃ names : List String, describeTerminals wanted = ", ".intercalate names ∧
      names.Pairwise (· < ·) ∧ ∀ name, name ∈ names ↔ ∃ T ∈ wanted, T.name = name := by
  refine ⟨_, rfl, ?_, fun name => ?_⟩
  · have hsorted := List.pairwise_mergeSort' (· ≤ ·) (wanted.map Terminal.name).eraseDups
    have hnodup : ((wanted.map Terminal.name).eraseDups.mergeSort).Nodup :=
      (List.mergeSort_perm _ _).nodup_iff.2 (nodup_eraseDups _)
    exact (hsorted.and hnodup).imp fun h => lt_of_le_of_ne h.1 h.2
  · rw [List.mem_mergeSort, List.mem_eraseDups, List.mem_map]

/-! ## What is reported -/

/-- Only a refused lexeme is reported with the terminals that were possible. -/
theorem exists_of_refuse_eq {l : Lexeme} {wanted : List Terminal} {expected found : Option String}
    {message : String} {line : Option Int}
    (h : refuse l.terminal l.text l.line wanted = ⟨.token expected found, message, line⟩) :
    expected = some (describeTerminals wanted) ∧ found = some l.describe := by
  unfold refuse at h
  split at h
  · cases h
  split at h
  · cases h
  split at h
  · cases h
  · cases h
    exact ⟨rfl, rfl⟩

/-- Everything else that the parser reports is of another kind. -/
theorem exists_rejected_of_parse {source : String} {expected found : Option String}
    {message : String} {line : Option Int}
    (h : parse source = .error (.schema ⟨.token expected found, message, line⟩)) :
    ∃ ls stray l wanted, lexemes 1 source.toList = (ls, stray) ∧
      start.over ls = .rejected l wanted ∧
        refuse l.terminal l.text l.line wanted = ⟨.token expected found, message, line⟩ := by
  cases htokens : tokenize source with
  | error e =>
    obtain ⟨-, ls, stray, -, -, -, hlexemes⟩ := lexemes_of_tokenize_eq_error htokens
    rw [parse_of_stray hlexemes] at h
    split at h
    · next hover => exact ⟨ls, _, _, _, hlexemes, hover, Fault.schema.inj (Except.error.inj h)⟩
    · cases h
  | ok ts =>
    obtain ⟨ls, hlexemes, hls⟩ := lexemes_of_tokenize_eq_ok htokens
    rw [parse_of_lexemes hlexemes] at h
    split at h
    · next hover => exact ⟨ls, _, _, _, hlexemes, hover, Fault.schema.inj (Except.error.inj h)⟩
    · unfold refuseEnd at h
      split at h
      · cases h
      · cases h
    · cases h
    · next hover =>
      obtain ⟨t, rfl⟩ := eq_keyType_of_completes ((over_eq_complete_iff hls).1 hover)
      cases h

end Grammar

/-- **The terminals offered are exactly those that can come next**: the lexemes before the reported
one begin a sentence, with that one they do not, and the names are those of all terminals with which
they do. -/
theorem expected_of_parse_eq_error {source : String} {expected found : Option String}
    {message : String} {line : Option Int}
    (h : Grammar.parse source = .error (.schema ⟨.token expected found, message, line⟩)) :
    ∃ before l after stray names,
      lexemes 1 source.toList = (before ++ l :: after, stray) ∧
        Begins (before.map Lexeme.terminal) ∧
        ¬ Begins (before.map Lexeme.terminal ++ [l.terminal]) ∧
        names.Pairwise (· < ·) ∧
        (∀ name, name ∈ names ↔
          ∃ T : Terminal, Begins (before.map Lexeme.terminal ++ [T]) ∧ T.name = name) ∧
        expected = some (", ".intercalate names) ∧
        found = some (l.terminal.lower ++ " " ++ quote l.text) := by
  obtain ⟨ls, stray, l, wanted, hlexemes, hover, hrefuse⟩ := exists_rejected_of_parse h
  obtain ⟨before, after, needs, rfl, hadvances, rfl, hnot⟩ := exists_of_over_eq_rejected hover
  obtain ⟨hexpected, hfound⟩ := exists_of_refuse_eq hrefuse
  obtain ⟨names, hnames, hsorted, hmem⟩ := describeTerminals_eq (Grammar.expected needs)
  have hnext : ∀ T, Begins (before.map Lexeme.terminal ++ [T]) ↔ T ∈ Grammar.expected needs :=
    fun T => begins_iff_viable.trans (viable_concat_iff hadvances T)
  refine ⟨before, l, after, stray, names, hlexemes, ?_, ?_, hsorted, fun name => ?_, ?_, hfound⟩
  · exact begins_iff_viable.2 (viable_iff.2 ⟨needs, hadvances⟩)
  · rw [hnext]
    exact hnot
  · simp only [hmem, hnext]
  · rw [hexpected, hnames]

/-- Behind the first member of an enum. -/
theorem expected_afterMember :
    Grammar.parse "type E enum \x7b A B \x7d" = .error (.schema
        ⟨.token (some "COMMA, RBRACE") (some "ident 'B'"),
          "Expected one of COMMA, RBRACE, found ident 'B'", some 1⟩) ∧
      ∃ before l after stray names,
        lexemes 1 "type E enum \x7b A B \x7d".toList = (before ++ l :: after, stray) ∧
        Begins (before.map Lexeme.terminal) ∧
        ¬ Begins (before.map Lexeme.terminal ++ [l.terminal]) ∧
        names.Pairwise (· < ·) ∧
        (∀ name, name ∈ names ↔
          ∃ T : Terminal, Begins (before.map Lexeme.terminal ++ [T]) ∧ T.name = name) ∧
        some "COMMA, RBRACE" = some (", ".intercalate names) ∧
        some "ident 'B'" = some (l.terminal.lower ++ " " ++ quote l.text) := by
  have h : Grammar.parse "type E enum \x7b A B \x7d" = .error (.schema
        ⟨.token (some "COMMA, RBRACE") (some "ident 'B'"),
          "Expected one of COMMA, RBRACE, found ident 'B'", some 1⟩) := by
    cbv
  exact ⟨h, expected_of_parse_eq_error h⟩

end Ipld
