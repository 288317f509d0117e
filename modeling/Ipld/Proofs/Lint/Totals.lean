import Ipld.Proofs.Agreement.Declared
import Ipld.Proofs.File
import Ipld.Proofs.Lint.Settings
import Ipld.Proofs.Schema.Duplicates
import Ipld.Proofs.Schema.Table

/-!
# What a check reports

Every file argument counts on its own: it is at fault, or it is a schema that repeats some names.
The totals are the sums, so neither the order of the arguments nor the parser makes a difference to
them, and the parser makes a difference only to how an error is worded and placed.
-/

namespace Ipld.Lint

open Command Text

/-! ## What an argument counts for -/

/-- What an argument may lead to: to no file, or to a text. -/
inductive Obtained : Except Fault String → Prop
  | missing (path : String) : Obtained (.error (.file ⟨.notFound, path⟩))
  | text (source : String) : Obtained (.ok source)

/-- An argument that is at fault: there is no text, or it is no schema. -/
def Faulty (content : Except Fault String) : Prop :=
  ∀ source ds, content = .ok source → ¬ Declares source ds

instance : DecidablePred Faulty
  | .error _ => .isTrue nofun
  | .ok source =>
    decidable_of_iff (¬ ∃ ds, Declares source ds)
      ⟨fun h _ ds heq hds => h ⟨ds, by cases heq; exact hds⟩, fun h ⟨ds, hds⟩ => h _ ds rfl hds⟩

/-- What an argument adds to the totals: one error if it is at fault, else a warning for each name
that is declared more than once. -/
inductive Counts : Except Fault String → Tally → Prop
  | faulty {content : Except Fault String} (h : Faulty content) : Counts content ⟨1, 0⟩
  | valid {source : String} {ds : List (String × Definition)} (h : Declares source ds) :
    Counts (.ok source) ⟨0, (repeatedNames (ds.map Prod.fst)).card⟩

theorem exists_counts (content : Except Fault String) : ∃ tally, Counts content tally := by
  by_cases h : Faulty content
  · exact ⟨_, .faulty h⟩
  · simp only [Faulty, not_forall, not_not] at h
    obtain ⟨source, ds, rfl, hds⟩ := h
    exact ⟨_, .valid hds⟩

theorem Counts.errors {content : Except Fault String} {tally : Tally} (h : Counts content tally) :
    tally.errors = if Faulty content then 1 else 0 := by
  cases h with
  | faulty h => rw [if_pos h]
  | valid h => rw [if_neg fun hfaulty => hfaulty _ _ rfl h]

/-! ## One file -/

variable {settings : Settings}

/-- A schema that is checked is dumped, if dumps are asked for. -/
theorem result_checkSchema (h : settings.Chosen) (path : String) (s : Schema) :
    (checkSchema settings path s).result = .ok ⟨0, s.duplicates.length⟩ := by
  unfold checkSchema
  cases hdump : settings.dump with
  | none => rfl
  | some format =>
    obtain ⟨text, htext⟩ := h.exists_dump hdump s
    have hne : format ≠ "" := by
      rintro rfl
      exact absurd (h.dump _ hdump) (by decide)
    simp [htext]

theorem checkSchema_congr {settings' : Settings} (h : settings.dump = settings'.dump)
    (path : String) (s : Schema) : checkSchema settings path s = checkSchema settings' path s := by
  rw [checkSchema, h]
  rfl

theorem checkFile_of_declares {f : Frontend} (hf : settings.frontend = .ok f) (path : String)
    {source : String} {ds : List (String × Definition)} (h : Declares source ds) :
    checkFile settings path (.ok source) = checkSchema settings path (.ofDeclarations ds) := by
  simp only [checkFile, hf, f.parse_of_declares h]

theorem exists_checkFile_of_not_declares {f : Frontend} (hf : settings.frontend = .ok f)
    (path : String) {source : String} (h : ∀ ds, ¬ Declares source ds) :
    ∃ e, f.parse source = .error (.schema e) ∧
      checkFile settings path (.ok source) = ⟨errorLine path e, .ok ⟨1, 0⟩⟩ := by
  obtain ⟨e, he⟩ := f.exists_parse_eq_error h
  exact ⟨e, he, by simp only [checkFile, hf, he]⟩

theorem result_checkFile (h : settings.Chosen) (hparser : settings.parser ≠ none) (path : String)
    {content : Except Fault String} (hobtained : Obtained content) {tally : Tally}
    (hcounts : Counts content tally) : (checkFile settings path content).result = .ok tally := by
  obtain ⟨f, hf⟩ := h.exists_frontend hparser
  cases hcounts with
  | faulty hfaulty =>
    cases hobtained with
    | missing => rfl
    | text source =>
      obtain ⟨e, -, he⟩ := exists_checkFile_of_not_declares hf path fun ds => hfaulty _ ds rfl
      rw [he]
  | valid hds =>
    rw [checkFile_of_declares hf path hds, result_checkSchema h, Schema.duplicates,
      Schema.length_repeats, Schema.declared_ofDeclarations]

/-- What is written about the file at a path. -/
def written (settings : Settings) (t : Tree) (path : String) : String :=
  (checkFile settings (Path.display path) (t.source (Path.display path))).output

/-- The parser that is asked for refuses the text with this error. -/
def Settings.Refuses (settings : Settings) (source : String) (e : SchemaError) : Prop :=
  ∃ f, settings.frontend = .ok f ∧ f.parse source = .error (.schema e)

/-- What is written about a file is the same with other settings, or it is the line of an error with
both. -/
def SameButError (settings settings' : Settings) (t : Tree) (path : String) : Prop :=
  written settings t path = written settings' t path ∨
    ∃ source e e', t.source (Path.display path) = .ok source ∧
      settings.Refuses source e ∧ settings'.Refuses source e' ∧
      written settings t path = errorLine (Path.display path) e ∧
      written settings' t path = errorLine (Path.display path) e'

theorem sameButError_of_obtained {settings' : Settings} {t : Tree} {path : String}
    (h : settings.Chosen) (h' : settings'.Chosen) (hparser : settings.parser ≠ none)
    (hparser' : settings'.parser ≠ none) (hdump : settings.dump = settings'.dump)
    (hobtained : Obtained (t.source (Path.display path))) :
    SameButError settings settings' t path := by
  obtain ⟨f, hf⟩ := h.exists_frontend hparser
  obtain ⟨f', hf'⟩ := h'.exists_frontend hparser'
  unfold SameButError written
  generalize t.source (Path.display path) = content at hobtained
  cases hobtained with
  | missing => exact .inl rfl
  | text source =>
    by_cases hvalid : ∃ ds, Declares source ds
    · obtain ⟨ds, hds⟩ := hvalid
      rw [checkFile_of_declares hf _ hds, checkFile_of_declares hf' _ hds, checkSchema_congr hdump]
      exact .inl rfl
    · rw [not_exists] at hvalid
      obtain ⟨e, he, hline⟩ := exists_checkFile_of_not_declares hf (Path.display path) hvalid
      obtain ⟨e', he', hline'⟩ := exists_checkFile_of_not_declares hf' (Path.display path) hvalid
      rw [hline, hline']
      exact .inr ⟨source, e, e', rfl, ⟨f, hf, he⟩, ⟨f', hf', he'⟩, rfl, rfl⟩

/-! ## All files -/

/-- The sums of tallies. -/
def Tally.total (tallies : List Tally) : Tally :=
  ⟨(tallies.map Tally.errors).sum, (tallies.map Tally.warnings).sum⟩

theorem Tally.total_perm {tallies tallies' : List Tally} (h : tallies.Perm tallies') :
    total tallies = total tallies' := by
  rw [total, total, (h.map Tally.errors).sum_nat, (h.map Tally.warnings).sum_nat]

/-- The files at some paths, as they are read. -/
def contents (t : Tree) (paths : List String) : List (String × Except Fault String) :=
  paths.map fun path => (Path.display path, t.source (Path.display path))

/-- The errors of the totals are the arguments at fault, one by one. -/
theorem errors_total {t : Tree} {paths : List String} {count : String → Tally}
    (h : ∀ path ∈ paths, Counts (t.source (Path.display path)) (count path)) :
    (Tally.total (paths.map count)).errors =
      paths.countP fun path => Faulty (t.source (Path.display path)) := by
  induction paths with
  | nil => rfl
  | cons path paths ih =>
    have hfirst := (h path List.mem_cons_self).errors
    have hlater : ((paths.map count).map Tally.errors).sum = _ :=
      ih fun later hmem => h later (List.mem_cons_of_mem _ hmem)
    change ((count path).errors :: (paths.map count).map Tally.errors).sum = _
    rw [List.sum_cons, hlater, hfirst, List.countP_cons, Nat.add_comm]
    simp only [decide_eq_true_eq]

/-- Files that do not end the run are written about one after the other, and what they count for is
summed up. -/
theorem checkFiles_contents {t : Tree} {paths : List String} {count : String → Tally}
    (h : ∀ path ∈ paths,
      (checkFile settings (Path.display path) (t.source (Path.display path))).result =
        .ok (count path)) :
    checkFiles settings (contents t paths) =
      ⟨String.join (paths.map (written settings t)), .ok (.total (paths.map count))⟩ := by
  induction paths with
  | nil => rfl
  | cons path paths ih =>
    have hfirst := h path List.mem_cons_self
    have hlater := ih fun later hmem => h later (List.mem_cons_of_mem _ hmem)
    rw [contents, List.map_cons, checkFiles, hfirst, ← contents, hlater]
    simp only [List.map_cons, String.join_cons]
    rfl

theorem summary_eq_empty_iff {total : Tally} :
    summary total = "" ↔ total.errors = 0 ∧ total.warnings = 0 := by
  unfold summary
  split
  · next h => exact iff_of_true rfl h
  · next h =>
    refine iff_of_false (fun heq => ?_) h
    have := congrArg String.length heq
    simp at this

/-- A run over arguments that count for something writes about them one by one and sums up. -/
theorem run_of_counts {t : Tree} {arguments paths : List String} {count : String → Tally}
    (hline : parseArguments arguments = .ok (settings, paths)) (hparser : settings.parser ≠ none)
    (hobtained : ∀ path ∈ paths, Obtained (t.source (Path.display path)))
    (hcounts : ∀ path ∈ paths, Counts (t.source (Path.display path)) (count path)) :
    checkFiles settings (contents t paths) =
        ⟨String.join (paths.map (written settings t)), .ok (.total (paths.map count))⟩ ∧
      run t arguments =
        ⟨String.join (paths.map (written settings t)) ++ summary (.total (paths.map count)), "",
          .status (if ∃ path ∈ paths, Faulty (t.source (Path.display path)) then 1 else 0)⟩ := by
  have hfiles := checkFiles_contents fun path hmem =>
    result_checkFile (chosen_of_parseArguments hline) hparser (Path.display path)
      (hobtained path hmem) (hcounts path hmem)
  have hzero : (Tally.total (paths.map count)).errors = 0 ↔
      ¬ ∃ path ∈ paths, Faulty (t.source (Path.display path)) := by
    simp [errors_total hcounts, List.countP_eq_zero]
  refine ⟨hfiles, ?_⟩
  simp only [run, hline]
  rw [← contents, report, hfiles]
  simp only [hzero, ite_not]

/-- **A check counts its arguments one by one.**  For any two command lines with the same arguments,
in whatever order, and with either parser, the totals are the number of arguments at fault and the
number of names that the others repeat; the summary is there when one of them is not zero, and the
run ends badly when an argument is at fault.  With the same dumps, what is written about a file
differs at most in an error. -/
theorem run_of_obtained {t : Tree} {arguments arguments' paths paths' : List String}
    {settings settings' : Settings} (hline : parseArguments arguments = .ok (settings, paths))
    (hline' : parseArguments arguments' = .ok (settings', paths'))
    (hparser : settings.parser ≠ none) (hparser' : settings'.parser ≠ none)
    (hperm : paths'.Perm paths)
    (hobtained : ∀ path ∈ paths, Obtained (t.source (Path.display path))) :
    ∃ count : String → Tally,
      (∀ path ∈ paths, Counts (t.source (Path.display path)) (count path)) ∧
      let total := Tally.total (paths.map count)
      let code := if ∃ path ∈ paths, Faulty (t.source (Path.display path)) then 1 else 0
      total.errors = paths.countP (fun path => Faulty (t.source (Path.display path))) ∧
      (summary total ≠ "" ↔ total.errors ≠ 0 ∨ total.warnings ≠ 0) ∧
      checkFiles settings (contents t paths) =
        ⟨String.join (paths.map (written settings t)), .ok total⟩ ∧
      checkFiles settings' (contents t paths') =
        ⟨String.join (paths'.map (written settings' t)), .ok total⟩ ∧
      run t arguments =
        ⟨String.join (paths.map (written settings t)) ++ summary total, "", .status code⟩ ∧
      run t arguments' =
        ⟨String.join (paths'.map (written settings' t)) ++ summary total, "", .status code⟩ ∧
      (settings.dump = settings'.dump →
        ∀ path ∈ paths, SameButError settings settings' t path) := by
  choose count hcount using fun path => exists_counts (t.source (Path.display path))
  have hobtained' : ∀ path ∈ paths', Obtained (t.source (Path.display path)) :=
    fun path hmem => hobtained path (hperm.mem_iff.1 hmem)
  have hrun := run_of_counts hline hparser hobtained fun path _ => hcount path
  have hrun' := run_of_counts hline' hparser' hobtained' fun path _ => hcount path
  have htotal := Tally.total_perm (hperm.map count)
  simp only [htotal, hperm.mem_iff] at hrun'
  refine ⟨count, fun path _ => hcount path, errors_total fun path _ => hcount path, ?_, hrun.1,
    hrun'.1, hrun.2, hrun'.2, fun hdump path hmem => ?_⟩
  · rw [Ne, summary_eq_empty_iff, not_and_or]
  · exact sameButError_of_obtained (chosen_of_parseArguments hline)
      (chosen_of_parseArguments hline') hparser hparser' hdump (hobtained path hmem)

/-- The current directory with a schema that repeats a name, and with a text that is no schema. -/
def twoSources : Tree :=
  (Tree.empty.plant "a" (.file (Utf8.encode "type T Int type T Bool type T Int".toList))).plant "b"
    (.file (Utf8.encode "type T".toList))

theorem run_of_obtained_twoSources :
    (∀ path ∈ ["a", "./gone", "b", "a"], Obtained (twoSources.source (Path.display path))) ∧
      (run twoSources (commandLine "peg" (some "yaml") ["a", "./gone", "b", "a"])).ending =
        .status 1 ∧
      (run twoSources (commandLine "handwritten" none ["a", "b", "a", "./gone"])).ending =
        .status 1 := by
  have hreada : twoSources.read (Path.display "a") =
      .ok (Utf8.encode "type T Int type T Bool type T Int".toList) := by decide
  have hreadb : twoSources.read (Path.display "b") = .ok (Utf8.encode "type T".toList) := by decide
  have ha := Tree.source_of_read hreada
  have hb := Tree.source_of_read hreadb
  have hgone : twoSources.source (Path.display "./gone") = .error (.file ⟨.notFound, "gone"⟩) := by
    decide
  have hobtained :
      ∀ path ∈ ["a", "./gone", "b", "a"], Obtained (twoSources.source (Path.display path)) := by
    simp only [List.mem_cons, List.not_mem_nil, or_false]
    rintro path (rfl | rfl | rfl | rfl)
    · exact ha ▸ .text _
    · exact hgone ▸ .missing _
    · exact hb ▸ .text _
    · exact ha ▸ .text _
  have hfaulty :
      ∃ path ∈ ["a", "./gone", "b", "a"], Faulty (twoSources.source (Path.display path)) :=
    ⟨"./gone", by decide, hgone ▸ nofun⟩
  have hline : parseArguments (commandLine "peg" (some "yaml") ["a", "./gone", "b", "a"]) = .ok _ :=
    parseArguments_commandLine (by decide) (by simp) nofun
  have hline' : parseArguments (commandLine "handwritten" none ["a", "b", "a", "./gone"]) = .ok _ :=
    parseArguments_commandLine (by decide) nofun nofun
  obtain ⟨count, -, -, -, -, -, hrun, hrun', -⟩ :=
    run_of_obtained hline hline' nofun nofun (by decide) hobtained
  rw [hrun, hrun', if_pos hfaulty]
  exact ⟨hobtained, rfl, rfl⟩

end Ipld.Lint
