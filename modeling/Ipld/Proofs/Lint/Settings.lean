import Ipld.Lint
import Ipld.Proofs.Command

/-!
# The settings of a command line

Whatever the command line, each switch has one of its choices, if it has a value at all.  With a
parser chosen, every file can be parsed and every schema can be dumped.  And all choices can be had,
with all lists of files that are not empty.
-/

namespace Ipld.Lint

open Command

/-- Each switch has one of its choices, if it has a value. -/
structure Settings.Chosen (s : Settings) : Prop where
  parser : ∀ name ∈ s.parser, name ∈ ["handwritten", "peg"]
  dump : ∀ format ∈ s.dump, format ∈ ["json", "yaml"]

theorem mem_of_mapM_choose {s : Switch} {choices : List String} {value chosen : Option String}
    (h : value.mapM (choose s choices) = .ok chosen) : ∀ text ∈ chosen, text ∈ choices := by
  cases value with
  | none =>
    cases h
    exact nofun
  | some text =>
    simp only [Option.mapM_some, choose] at h
    split at h
    · cases h
      rintro _ ⟨⟩
      assumption
    · cases h

theorem chosen_of_apply {a b : Settings × List String} {e : Event} (ha : a.1.Chosen)
    (h : apply a e = .ok b) : b.1.Chosen := by
  obtain ⟨settings, files⟩ := a
  cases e with
  | group values =>
    cases h
    exact ha
  | switch s value =>
    rw [apply] at h
    split at h
    · cases hchosen : value.mapM (choose s ["handwritten", "peg"]) with
      | error e => rw [hchosen] at h; cases h
      | ok name =>
        rw [hchosen] at h
        cases h
        exact ⟨mem_of_mapM_choose hchosen, ha.dump⟩
    split at h
    · cases hchosen : value.mapM (choose s ["json", "yaml"]) with
      | error e => rw [hchosen] at h; cases h
      | ok format =>
        rw [hchosen] at h
        cases h
        exact ⟨ha.parser, mem_of_mapM_choose hchosen⟩
    · cases h

theorem chosen_of_parseArguments {arguments paths : List String} {settings : Settings}
    (h : parseArguments arguments = .ok (settings, paths)) : settings.Chosen :=
  Interface.parse_preserves (P := fun a => a.1.Chosen) (fun _ _ _ => chosen_of_apply)
    ⟨by decide, nofun⟩ h

/-! ## What the choices are good for -/

namespace Settings.Chosen

variable {s : Settings}

theorem exists_frontend (h : s.Chosen) (hparser : s.parser ≠ none) : ∃ f, s.frontend = .ok f := by
  obtain ⟨name, hname⟩ := Option.ne_none_iff_exists'.1 hparser
  have hmem := h.parser name hname
  rw [frontend, hname]
  simp only [List.mem_cons, List.not_mem_nil, or_false] at hmem
  rcases hmem with rfl | rfl
  · exact ⟨.handwritten, rfl⟩
  · exact ⟨.grammar, rfl⟩

theorem exists_dump (h : s.Chosen) {format : String} (hformat : s.dump = some format)
    (schema : Schema) : ∃ text, Lint.dump format schema = .ok text := by
  have hmem := h.dump format hformat
  simp only [List.mem_cons, List.not_mem_nil, or_false] at hmem
  rcases hmem with rfl | rfl
  · exact ⟨_, rfl⟩
  · exact ⟨_, rfl⟩

end Settings.Chosen

/-! ## Asking for settings -/

/-- The command line for a parser, a format of dumps if there is one, and files. -/
def commandLine (parser : String) (format : Option String) (paths : List String) : List String :=
  "--parser" :: parser :: (format.elim [] fun name => ["--dump", name]) ++ "--" :: paths

theorem classifyAll_commandLine {parser : String} {format : Option String}
    (hparser : parser ∈ ["handwritten", "peg"]) (hformat : ∀ name ∈ format, name ∈ ["json", "yaml"])
    (paths : List String) :
    interface.classifyAll (commandLine parser format paths) =
      .ok (.known parserSwitch "--parser" none :: .plain parser ::
        (format.elim [] fun name => [.known dumpSwitch "--dump" none, .plain name]) ++
          .separator :: paths.map .plain) := by
  simp only [List.mem_cons, List.not_mem_nil, or_false] at hparser
  cases format with
  | none =>
    rcases hparser with rfl | rfl
    · rfl
    · rfl
  | some name =>
    have hname := hformat name rfl
    simp only [List.mem_cons, List.not_mem_nil, or_false] at hname
    rcases hparser with rfl | rfl
    all_goals
      rcases hname with rfl | rfl
      · rfl
      · rfl

theorem read_commandLine {parser : String} {format : Option String} {paths : List String}
    (hparser : parser ∈ ["handwritten", "peg"]) (hformat : ∀ name ∈ format, name ∈ ["json", "yaml"])
    (hpaths : paths ≠ []) :
    interface.read (commandLine parser format paths) =
      (.switch parserSwitch (some parser) ::
        (format.elim [] fun name => [.switch dumpSwitch (some name)]) ++ [.group paths], none) := by
  have hfiles := Interface.events_separator (i := interface) rfl hpaths
  rw [Interface.read, classifyAll_commandLine hparser hformat]
  cases format with
  | none =>
    simp only [Option.elim_none, List.cons_append, List.nil_append]
    rw [Interface.events_switch rfl, show interface.group.isSome = true from rfl, hfiles]
  | some name =>
    simp only [Option.elim_some, List.cons_append, List.nil_append]
    rw [Interface.events_switch rfl, Interface.events_switch rfl,
      show interface.group.isSome = true from rfl, hfiles]

theorem apply_parserSwitch {name : String} (h : name ∈ ["handwritten", "peg"]) (settings : Settings)
    (files : List String) :
    apply (settings, files) (.switch parserSwitch (some name)) =
      .ok (⟨some name, settings.dump⟩, files) := by
  have hchoose : choose parserSwitch ["handwritten", "peg"] name = .ok name := if_pos h
  simp only [apply, if_true, Option.mapM_some, hchoose]
  rfl

theorem apply_dumpSwitch {name : String} (h : name ∈ ["json", "yaml"]) (settings : Settings)
    (files : List String) :
    apply (settings, files) (.switch dumpSwitch (some name)) =
      .ok (⟨settings.parser, some name⟩, files) := by
  have hchoose : choose dumpSwitch ["json", "yaml"] name = .ok name := if_pos h
  have hne : dumpSwitch ≠ parserSwitch := by decide
  simp only [apply, hne, if_false, if_true, Option.mapM_some, hchoose]
  rfl

/-- All choices can be had, for any files. -/
theorem parseArguments_commandLine {parser : String} {format : Option String} {paths : List String}
    (hparser : parser ∈ ["handwritten", "peg"]) (hformat : ∀ name ∈ format, name ∈ ["json", "yaml"])
    (hpaths : paths ≠ []) :
    parseArguments (commandLine parser format paths) = .ok (⟨some parser, format⟩, paths) := by
  rw [parseArguments, Interface.parse_of_read (read_commandLine hparser hformat hpaths)]
  cases format with
  | none =>
    simp only [Option.elim_none, List.cons_append, List.nil_append]
    rw [Interface.foldlM_cons_of_eq_ok (apply_parserSwitch hparser _ _)]
    rfl
  | some name =>
    simp only [Option.elim_some, List.cons_append, List.nil_append]
    rw [Interface.foldlM_cons_of_eq_ok (apply_parserSwitch hparser _ _),
      Interface.foldlM_cons_of_eq_ok (apply_dumpSwitch (hformat name rfl) _ _)]
    rfl

end Ipld.Lint
