import Ipld.Proofs.Agreement.Messages
import Ipld.Proofs.Lint.Totals

/-!
# Where the lines of a check begin

What a check writes is made of diagnostics and dumps.  Each diagnostic is one line.  A dump in YAML
ends with a line feed and one in JSON does not, so that a diagnostic right behind a dump in JSON is
no line of the output; every other diagnostic is.
-/

namespace Ipld.Lint

open Command Text

/-! ## The parts of the output -/

/-- A part of what is written. -/
inductive Part where
  | diagnostic (text : String)
  | dump (text : String)

def Part.text : Part → String
  | .diagnostic text => text
  | .dump text => text

def Part.IsDump (p : Part) : Prop :=
  ∃ text, p = .dump text

/-- The dump of a schema, if there is one. -/
def dumped? (settings : Settings) (s : Schema) : Option String :=
  settings.dump.bind fun format => (dump format s).toOption

/-- What is written about a schema: a warning for each repeated name, and the dump. -/
def schemaParts (settings : Settings) (path : String) (s : Schema) : List Part :=
  s.duplicates.map (fun name => .diagnostic (warningLine path name)) ++
    (dumped? settings s).toList.map .dump

/-- What is written about a file. -/
def fileParts (settings : Settings) (path : String) (content : Except Fault String) : List Part :=
  match content with
  | .error (.file ⟨.notFound, _⟩) => [.diagnostic (missingLine path)]
  | .error _ => []
  | .ok source =>
    match settings.frontend with
    | .error _ => []
    | .ok frontend =>
      match frontend.parse source with
      | .ok s => schemaParts settings path s
      | .error (.schema e) => [.diagnostic (errorLine path e)]
      | .error _ => []

/-- What is written about files, up to the first that ends the run. -/
def parts (settings : Settings) : List (String × Except Fault String) → List Part
  | [] => []
  | (path, content) :: rest =>
    fileParts settings path content ++
      match (checkFile settings path content).result with
      | .ok _ => parts settings rest
      | .error _ => []

/-- The parts, one after the other. -/
def writeParts (ps : List Part) : String :=
  String.join (ps.map Part.text)

variable {settings : Settings} {path : String}

theorem writeParts_append (ps qs : List Part) :
    writeParts (ps ++ qs) = writeParts ps ++ writeParts qs := by
  rw [writeParts, List.map_append, String.join_append]
  rfl

theorem writeParts_cons (p : Part) (ps : List Part) :
    writeParts (p :: ps) = p.text ++ writeParts ps :=
  String.join_cons

theorem writeParts_singleton (p : Part) : writeParts [p] = p.text := by
  rw [writeParts_cons, show writeParts [] = "" from rfl, String.append_empty]

theorem output_checkSchema (s : Schema) :
    (checkSchema settings path s).output = writeParts (schemaParts settings path s) := by
  have hwarnings : writeParts (s.duplicates.map fun name => .diagnostic (warningLine path name)) =
      String.join (s.duplicates.map (warningLine path)) := by
    rw [writeParts, List.map_map]
    rfl
  rw [schemaParts, writeParts_append, hwarnings, dumped?]
  fun_cases checkSchema settings path s with
  | case1 repeated warnings tally hdump =>
    rw [hdump]
    exact String.append_empty.symm
  | case2 repeated warnings tally hdump =>
    rw [hdump]
    exact String.append_empty.symm
  | case3 repeated warnings tally format _ hdump text htext =>
    rw [hdump, Option.bind_some, htext]
    change _ ++ text = _ ++ writeParts [.dump text]
    rw [writeParts_singleton, Part.text]
  | case4 repeated warnings format _ hdump e herror =>
    rw [hdump, Option.bind_some, herror]
    exact String.append_empty.symm

theorem output_checkFile (content : Except Fault String) :
    (checkFile settings path content).output = writeParts (fileParts settings path content) := by
  fun_cases checkFile settings path content with
  | case1 => exact (writeParts_singleton (.diagnostic _)).symm
  | case2 e hmissing =>
    simp only [fileParts]
    rfl
  | case3 source e hfrontend =>
    simp only [fileParts, hfrontend]
    rfl
  | case4 source f hfrontend s hparse =>
    simp only [fileParts, hfrontend, hparse, output_checkSchema]
  | case5 source f hfrontend e hparse =>
    simp only [fileParts, hfrontend, hparse, writeParts_singleton]
    rfl
  | case6 source f hfrontend e hschema hparse =>
    simp only [fileParts, hfrontend, hparse]
    rfl

theorem output_checkFiles (files : List (String × Except Fault String)) :
    (checkFiles settings files).output = writeParts (parts settings files) := by
  induction files with
  | nil => rfl
  | cons file files ih =>
    obtain ⟨path, content⟩ := file
    rw [parts, writeParts_append, ← output_checkFile, checkFiles]
    cases hresult : (checkFile settings path content).result with
    | ok tally =>
      simp only
      rw [ih]
    | error e =>
      exact (String.append_empty).symm

/-! ## How the parts end -/

/-- A new line begins behind the text. -/
def EndsLine (s : String) : Prop :=
  ∀ c ∈ s.toList.getLast?, c = '\n'

theorem endsLine_append_iff {s t : String} {c : Char} (h : t.toList.getLast? = some c) :
    EndsLine (s ++ t) ↔ c = '\n' := by
  have hlast : (s ++ t).toList.getLast? = some c := by
    rw [String.toList_append, List.getLast?_append, h]
    rfl
  rw [EndsLine, hlast]
  exact ⟨fun hall => hall c rfl, fun hc d hd => by cases hd; exact hc⟩

/-- A diagnostic is one line with the line feed that ends it; a dump ends with a line feed in YAML
and with a brace in JSON. -/
inductive Proper (settings : Settings) : Part → Prop
  | diagnostic {line : String} (h : OneLine line) : Proper settings (.diagnostic (line ++ "\n"))
  | yaml {text : String} (hdump : settings.dump = some "yaml")
    (h : text.toList.getLast? = some '\n') : Proper settings (.dump text)
  | json {text : String} (hdump : settings.dump = some "json")
    (h : text.toList.getLast? = some '\x7d') : Proper settings (.dump text)

theorem getLast?_feed (line : String) : (line ++ "\n").toList.getLast? = some '\n' := by
  rw [String.toList_append, List.getLast?_append]
  rfl

/-- Behind any part a new line begins, but for a dump in JSON. -/
theorem Proper.endsLine_iff {p : Part} (h : Proper settings p) (s : String) :
    EndsLine (s ++ p.text) ↔ ¬ (settings.dump = some "json" ∧ p.IsDump) := by
  cases h with
  | diagnostic =>
    rw [Part.text, endsLine_append_iff (getLast?_feed _)]
    exact iff_of_true rfl fun h => nomatch h.2
  | yaml hdump h =>
    rw [Part.text, endsLine_append_iff h]
    refine iff_of_true rfl fun hjson => ?_
    exact absurd (Option.some_inj.1 (hdump.symm.trans hjson.1)) (by decide)
  | json hdump h =>
    rw [Part.text, endsLine_append_iff h]
    exact iff_of_false (by decide) (not_not_intro ⟨hdump, _, rfl⟩)

theorem getLast?_render_yaml (s : Schema) :
    (Yaml.render s.toPlain).toList.getLast? = some '\n' := by
  rw [Schema.toPlain, Yaml.render, String.toList_ofList, Yaml.document, List.getLast?_concat]

theorem getLast?_render_json (layout : Json.Layout) (s : Schema) :
    (Json.render layout s.toPlain).toList.getLast? = some '\x7d' := by
  rw [Schema.toPlain, Json.render, String.toList_ofList, Json.value, Json.enclose]
  split
  · rfl
  · exact List.getLast?_concat

theorem proper_warning (h : OneLine path) (name : String) :
    Proper settings (.diagnostic (warningLine path name)) := by
  have hline : OneLine (path ++ ": warning: type " ++ quote name ++
      " is declared more than once; the last declaration wins") := by
    simp only [oneLine_append]
    exact ⟨⟨⟨h, by decide⟩, oneLine_quote name⟩, by decide⟩
  have hproper : Proper settings (.diagnostic _) := .diagnostic hline
  simpa [warningLine, String.append_assoc] using hproper

theorem proper_error (h : OneLine path) {e : SchemaError} (he : OneLine e.message) :
    Proper settings (.diagnostic (errorLine path e)) := by
  refine .diagnostic ?_
  simp only [oneLine_append]
  refine ⟨⟨⟨h, ?_⟩, by decide⟩, he⟩
  split
  · decide
  · split
    · decide
    · exact oneLine_append.2 ⟨by decide, oneLine_renderInt _⟩

theorem proper_dump {format text : String} (hdump : settings.dump = some format) {s : Schema}
    (h : dump format s = .ok text) : Proper settings (.dump text) := by
  unfold dump at h
  split at h
  · cases h
    exact .yaml hdump (getLast?_render_yaml s)
  · cases h
    exact .json hdump (getLast?_render_json _ s)
  · cases h

theorem proper_of_mem_schemaParts (h : OneLine path) {s : Schema} :
    ∀ p ∈ schemaParts settings path s, Proper settings p := by
  rw [schemaParts, List.forall_mem_append]
  constructor
  · intro p hp
    obtain ⟨name, -, rfl⟩ := List.mem_map.1 hp
    exact proper_warning h name
  · intro p hp
    obtain ⟨text, htext, rfl⟩ := List.mem_map.1 hp
    obtain ⟨format, hdump, htext⟩ := Option.bind_eq_some_iff.1 (Option.mem_toList.1 htext)
    cases hformat : dump format s with
    | ok text' =>
      rw [hformat] at htext
      cases htext
      exact proper_dump hdump hformat
    | error e =>
      rw [hformat] at htext
      cases htext

theorem proper_of_mem_fileParts (h : OneLine path) {content : Except Fault String} :
    ∀ p ∈ fileParts settings path content, Proper settings p := by
  unfold fileParts
  split
  · refine List.forall_mem_singleton.2 ?_
    have hline : OneLine (path ++ ": file not found") := oneLine_append.2 ⟨h, by decide⟩
    have hproper : Proper settings (.diagnostic _) := .diagnostic hline
    simpa [missingLine, String.append_assoc] using hproper
  · exact nofun
  · split
    · exact nofun
    · split
      · exact proper_of_mem_schemaParts h
      · next hparse =>
        exact List.forall_mem_singleton.2 (proper_error h (Frontend.oneLine_of_parse hparse))
      · exact nofun

theorem proper_of_mem_parts {files : List (String × Except Fault String)}
    (h : ∀ file ∈ files, OneLine file.1) : ∀ p ∈ parts settings files, Proper settings p := by
  induction files with
  | nil => exact nofun
  | cons file files ih =>
    rw [List.forall_mem_cons] at h
    rw [parts, List.forall_mem_append]
    refine ⟨proper_of_mem_fileParts h.1, ?_⟩
    split
    · exact ih h.2
    · exact nofun

/-! ## The lines of the output -/

/-- What stands between the line feeds of a text. -/
def lines (s : String) : List String :=
  (s.toList.splitOn '\n').map String.ofList

def diagnostics (ps : List Part) : List String :=
  ps.filterMap fun
    | .diagnostic text => some text
    | .dump _ => none

theorem lines_append_feed (s t : String) : lines (s ++ "\n" ++ t) = lines s ++ lines t := by
  rw [lines, String.toList_append, String.toList_append, List.append_assoc]
  change ((s.toList ++ '\n' :: t.toList).splitOn '\n').map String.ofList = _
  rw [List.splitOn_append_cons_self, List.map_append]
  rfl

theorem lines_of_oneLine {s : String} (h : OneLine s) : lines s = [s] := by
  have hfeed : '\n' ∉ s.toList := fun hmem => h _ hmem rfl
  rw [lines, List.splitOn_eq_singleton hfeed, List.map_singleton, String.ofList_toList]

/-- Where a new line begins, what follows has lines of its own. -/
theorem EndsLine.sublist_lines {s : String} (h : EndsLine s) (t : String) :
    (lines t).Sublist (lines (s ++ t)) := by
  rcases List.eq_nil_or_concat s.toList with hnil | ⟨cs, c, hcs⟩
  · rw [String.toList_eq_nil_iff.1 hnil, String.empty_append]
  · have hc : c = '\n' := h c (by rw [hcs, List.concat_eq_append, List.getLast?_concat]; rfl)
    have hs : s = String.ofList cs ++ "\n" := by
      rw [← String.toList_inj, hcs, hc, List.concat_eq_append, String.toList_append,
        String.toList_ofList]
      rfl
    rw [hs, lines_append_feed]
    exact List.sublist_append_right _ _

/-- A diagnostic stands right behind a dump in JSON. -/
def Fused (settings : Settings) (ps : List Part) : Prop :=
  settings.dump = some "json" ∧
    ∃ before dumped text after, ps = before ++ .dump dumped :: .diagnostic text :: after

theorem endsLine_empty : EndsLine "" :=
  nofun

/-- Unless one stands right behind a dump in JSON, all diagnostics are among the lines. -/
theorem exists_sublist_lines {ps : List Part} (h : ∀ p ∈ ps, Proper settings p)
    (hfused : ¬ Fused settings ps) :
    ∃ ds : List String, diagnostics ps = ds.map (· ++ "\n") ∧ ∀ before rest,
      (EndsLine before ∨ ∀ text, ps.head? ≠ some (.diagnostic text)) →
        ds.Sublist (lines (before ++ writeParts ps ++ rest)) := by
  -- What stands before the parts has to end its line only if a diagnostic comes first.
  induction ps with
  | nil => exact ⟨[], rfl, fun _ _ _ => List.nil_sublist _⟩
  | cons p ps ih =>
    rw [List.forall_mem_cons] at h
    have hfused' : ¬ Fused settings ps := fun ⟨hjson, before, dumped, text, after, heq⟩ =>
      hfused ⟨hjson, p :: before, dumped, text, after, by rw [heq]; rfl⟩
    obtain ⟨ds, hds, hlines⟩ := ih h.2 hfused'
    cases p with
    | diagnostic text =>
      obtain ⟨line, hline, rfl⟩ : ∃ line, OneLine line ∧ text = line ++ "\n" := by
        cases h.1 with
        | diagnostic hline => exact ⟨_, hline, rfl⟩
      refine ⟨line :: ds, congrArg ((line ++ "\n") :: ·) hds, fun before rest hbefore => ?_⟩
      have hends : EndsLine before := hbefore.resolve_right fun hne => hne _ rfl
      have hrest := hlines "" rest (.inl endsLine_empty)
      have hall := hends.sublist_lines (line ++ "\n" ++ (writeParts ps ++ rest))
      rw [lines_append_feed, lines_of_oneLine hline] at hall
      rw [String.empty_append] at hrest
      rw [writeParts_cons, Part.text, String.append_assoc, String.append_assoc]
      exact (hrest.cons_cons line).trans hall
    | dump text =>
      refine ⟨ds, hds, fun before rest _ => ?_⟩
      have hnext : EndsLine (before ++ text) ∨ ∀ next, ps.head? ≠ some (.diagnostic next) := by
        by_cases hjson : settings.dump = some "json"
        · -- A diagnostic right behind this dump would be fused with it.
          refine .inr fun next hnext => ?_
          obtain ⟨after, rfl⟩ := List.head?_eq_some_iff.1 hnext
          exact hfused ⟨hjson, [], text, next, after, rfl⟩
        · exact .inl ((h.1.endsLine_iff before).2 fun hboth => hjson hboth.1)
      have hrest := hlines (before ++ text) rest hnext
      rwa [writeParts_cons, Part.text, ← String.append_assoc]

/-- What a run writes: the parts, and a last line unless a failure ended the run. -/
theorem exists_output_run {t : Tree} {arguments paths : List String}
    (hline : parseArguments arguments = .ok (settings, paths)) :
    ∃ rest, (run t arguments).output = writeParts (parts settings (contents t paths)) ++ rest ∧
      (rest = "" ∨ ∃ tally, rest = summary tally) := by
  simp only [run, hline]
  rw [← contents, report, output_checkFiles]
  cases (checkFiles settings (contents t paths)).result with
  | ok tally => exact ⟨summary tally, rfl, .inr ⟨tally, rfl⟩⟩
  | error e => exact ⟨"", String.append_empty.symm, .inl rfl⟩

/-- **Every diagnostic is a line of the output, unless it stands right behind a dump in JSON.**  The
output of a run over paths without a line feed is made of diagnostics and dumps.  A diagnostic is
one line with the line feed that ends it, and a new line begins in front of it exactly when it does
not stand right behind a dump in JSON.  When none does, the diagnostics are among the lines of the
output, in order. -/
theorem endsLine_iff_of_run {t : Tree} {arguments paths : List String}
    (hline : parseArguments arguments = .ok (settings, paths))
    (hpaths : ∀ path ∈ paths, OneLine path) :
    (∃ rest, (run t arguments).output = writeParts (parts settings (contents t paths)) ++ rest ∧
        (rest = "" ∨ ∃ tally, rest = summary tally)) ∧
      (∀ before text after,
        parts settings (contents t paths) = before ++ .diagnostic text :: after →
          (∃ line, OneLine line ∧ text = line ++ "\n") ∧
            (EndsLine (writeParts before) ↔
              ¬ (settings.dump = some "json" ∧ ∃ p ∈ before.getLast?, p.IsDump))) ∧
      (¬ Fused settings (parts settings (contents t paths)) →
        ∃ ds : List String,
          diagnostics (parts settings (contents t paths)) = ds.map (· ++ "\n") ∧
            ds.Sublist (lines (run t arguments).output)) := by
  have hshown : ∀ file ∈ contents t paths, OneLine file.1 := by
    intro file hfile
    obtain ⟨path, hpath, rfl⟩ := List.mem_map.1 hfile
    exact oneLine_display (hpaths path hpath)
  have hproper : ∀ p ∈ parts settings (contents t paths), Proper settings p :=
    proper_of_mem_parts hshown
  obtain ⟨rest, houtput, hrest⟩ := exists_output_run (t := t) hline
  refine ⟨⟨rest, houtput, hrest⟩, fun before text after heq => ?_, fun hfused => ?_⟩
  · rw [heq] at hproper
    have htext := hproper _ (List.mem_append_right before List.mem_cons_self)
    refine ⟨by cases htext with | diagnostic h => exact ⟨_, h, rfl⟩, ?_⟩
    rcases List.eq_nil_or_concat before with rfl | ⟨front, p, rfl⟩
    · exact iff_of_true endsLine_empty fun h => nomatch h.2
    · rw [List.concat_eq_append] at hproper ⊢
      have hp := hproper p (by simp)
      rw [writeParts_append, writeParts_singleton, hp.endsLine_iff, List.getLast?_concat]
      simp
  · obtain ⟨ds, hds, hlines⟩ := exists_sublist_lines hproper hfused
    refine ⟨ds, hds, ?_⟩
    have hall := hlines "" rest (.inl endsLine_empty)
    rwa [String.empty_append, ← houtput] at hall

/-- The current directory with one schema. -/
def oneSource : Tree :=
  Tree.empty.plant "a" (.file (Utf8.encode "type T Int".toList))

theorem source_oneSource : oneSource.source (Path.display "a") = .ok "type T Int" := by
  have hread : oneSource.read (Path.display "a") = .ok (Utf8.encode "type T Int".toList) := by
    decide
  exact Tree.source_of_read hread

theorem source_oneSource_gone :
    oneSource.source (Path.display "gone") = .error (.file ⟨.notFound, "gone"⟩) := by
  decide

theorem parse_oneSource :
    Frontend.handwritten.parse "type T Int" = .ok (.ofDeclarations [("T", .scalar .int)]) := by
  have htokens : tokenize "type T Int" =
      .ok [⟨.keyword, "type", 1⟩, ⟨.identifier, "T", 1⟩, ⟨.keyword, "Int", 1⟩] := by cbv
  have hint : SpellsDefinition [⟨.keyword, "Int", 1⟩] (.scalar .int) := .scalar rfl
  exact Frontend.parse_of_declares _
    (declares_iff_tokenize.2 ⟨_, htokens, .cons (.intro rfl rfl hint) .nil⟩)

/-- The settings for a dump in some format. -/
def Settings.dumping (format : String) : Settings :=
  ⟨some "handwritten", some format⟩

theorem result_oneSource {format text : String} (hne : format ≠ "")
    (h : dump format (.ofDeclarations [("T", .scalar .int)]) = .ok text) :
    (checkFile (.dumping format) (Path.display "a") (.ok "type T Int")).result = .ok ⟨0, 0⟩ := by
  have hfrontend : (Settings.dumping format).frontend = .ok .handwritten := rfl
  simp only [checkFile, hfrontend, parse_oneSource]
  simp only [checkSchema, Settings.dumping, h]
  rfl

theorem parts_oneSource {format text : String} (hne : format ≠ "")
    (h : dump format (.ofDeclarations [("T", .scalar .int)]) = .ok text) :
    parts (.dumping format) (contents oneSource ["a", "gone"]) =
      [.dump text, .diagnostic "gone: file not found\n"] := by
  have hfrontend : (Settings.dumping format).frontend = .ok .handwritten := rfl
  have hdumped :
      dumped? (.dumping format) (.ofDeclarations [("T", .scalar .int)]) = some text := by
    rw [dumped?, Settings.dumping, Option.bind_some, h]
    rfl
  simp only [contents, List.map_cons, List.map_nil, source_oneSource, source_oneSource_gone, parts,
    result_oneSource hne h, fileParts, hfrontend, parse_oneSource, schemaParts, hdumped]
  rfl

theorem output_oneSource {format text : String} (hformat : format ∈ ["json", "yaml"])
    (h : dump format (.ofDeclarations [("T", .scalar .int)]) = .ok text) :
    (run oneSource (commandLine "handwritten" (some format) ["a", "gone"])).output =
      text ++ "gone: file not found\n\n1 error(s), 0 warning(s)\n" := by
  have hne : format ≠ "" := by
    rintro rfl
    simp at hformat
  have hline : parseArguments (commandLine "handwritten" (some format) ["a", "gone"]) = .ok _ :=
    parseArguments_commandLine (by decide) (by simpa using hformat) nofun
  have hresult : (checkFiles (.dumping format) (contents oneSource ["a", "gone"])).result =
      .ok ⟨1, 0⟩ := by
    simp only [contents, List.map_cons, List.map_nil, source_oneSource, source_oneSource_gone,
      checkFiles, result_oneSource hne h]
    rfl
  simp only [run, hline]
  rw [← contents, report, ← Settings.dumping, hresult, output_checkFiles, parts_oneSource hne h,
    writeParts_cons, writeParts_singleton]
  exact String.append_assoc

/-- The diagnostic behind a dump in YAML is a line. -/
theorem endsLine_iff_of_run_yaml :
    parseArguments (commandLine "handwritten" (some "yaml") ["a", "gone"]) =
        .ok (.dumping "yaml", ["a", "gone"]) ∧
      (∀ path ∈ ["a", "gone"], OneLine path) ∧
      "gone: file not found" ∈
        lines (run oneSource (commandLine "handwritten" (some "yaml") ["a", "gone"])).output := by
  have hpaths : ∀ path ∈ ["a", "gone"], OneLine path := by decide
  have hline : parseArguments (commandLine "handwritten" (some "yaml") ["a", "gone"]) =
      .ok (.dumping "yaml", ["a", "gone"]) :=
    parseArguments_commandLine (by decide) (by simp) nofun
  obtain ⟨-, -, hlines⟩ := endsLine_iff_of_run (t := oneSource) hline hpaths
  rw [parts_oneSource (by decide) rfl] at hlines
  obtain ⟨ds, hds, hsub⟩ := hlines fun hfused => absurd hfused.1 (by decide)
  have hmem : "gone: file not found" ∈ ds := by
    have hfed : "gone: file not found" ++ "\n" ∈ ds.map (· ++ "\n") := by
      rw [← hds]
      exact List.mem_singleton_self _
    obtain ⟨d, hd, heq⟩ := List.mem_map.1 hfed
    rwa [← (String.append_left_inj "\n").1 heq]
  exact ⟨hline, hpaths, hsub.mem hmem⟩

/-- The diagnostic behind a dump in JSON is not: it shares its line with the closing brace. -/
theorem notMem_lines_json :
    (∀ path ∈ ["a", "gone"], OneLine path) ∧
      .diagnostic "gone: file not found\n" ∈
        parts (.dumping "json") (contents oneSource ["a", "gone"]) ∧
      "gone: file not found" ∉
        lines (run oneSource (commandLine "handwritten" (some "json") ["a", "gone"])).output := by
  have hdump : dump "json" (.ofDeclarations [("T", .scalar .int)]) = .ok
      "\x7b\n  \"types\": \x7b\n    \"T\": \x7b\n      \"int\": \x7b\x7d\n    \x7d\n  \x7d\n\x7d" :=
    congrArg Except.ok (by decide +kernel)
  rw [parts_oneSource (by decide) hdump, output_oneSource (by decide) hdump]
  exact ⟨by decide, List.mem_cons_of_mem _ List.mem_cons_self, by decide +kernel⟩

end Ipld.Lint
