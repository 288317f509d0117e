import Ipld.Command.Interface
import Ipld.File
import Ipld.Plain.Json
import Ipld.Plain.Yaml

/-!
# Checking schema files

Each file is read and parsed.  A file that is missing or does not parse counts as one error, a type
that is declared more than once as one warning; a file that parses may be dumped in plain form.  A
failure that is none of these ends the whole run, after what was written before.
-/

namespace Ipld.Lint

open Command Text

/-- How files are checked: the parser by name, unless its switch came without one, and the format of
dumps when there are any. -/
structure Settings where
  parser : Option String
  dump : Option String
  deriving DecidableEq, Repr

/-- The settings without switches. -/
def Settings.default : Settings :=
  ⟨some "handwritten", none⟩

def Settings.frontend (s : Settings) : Except Fault Frontend :=
  match s.parser with
  | none => .error (.lacking .parser)
  | some name =>
    match Frontend.ofName? name with
    | some frontend => .ok frontend
    | none => .error (.unknownName name)

/-- Errors and warnings. -/
structure Tally where
  errors : Nat
  warnings : Nat
  deriving DecidableEq, Repr

def Tally.add (a b : Tally) : Tally :=
  ⟨a.errors + b.errors, a.warnings + b.warnings⟩

/-- A schema in one of the dump formats. -/
def dump (format : String) (s : Schema) : Except Fault String :=
  match format with
  | "yaml" => .ok (Yaml.render s.toPlain)
  | "json" => .ok (Json.render (.ofIndent (some 2)) s.toPlain)
  | other => .error (.unknownName other)

/-- The line for a schema error.  Line zero is not shown. -/
def errorLine (path : String) (e : SchemaError) : String :=
  let place :=
    match e.line with
    | none => ""
    | some n => if n = 0 then "" else ":" ++ renderInt n
  path ++ place ++ ": error: " ++ e.message ++ "\n"

/-- The line for a repeated name. -/
def warningLine (path name : String) : String :=
  path ++ ": warning: type " ++ quote name ++
    " is declared more than once; the last declaration wins\n"

/-- The line for a missing file. -/
def missingLine (path : String) : String :=
  path ++ ": file not found\n"

/-- What is written, and the tally or the failure. -/
structure Findings where
  output : String
  result : Except Fault Tally

/-- Checks the schema of a file: warnings, then the dump. -/
def checkSchema (settings : Settings) (path : String) (s : Schema) : Findings :=
  let repeated := s.duplicates
  let warnings := String.join (repeated.map (warningLine path))
  let tally : Tally := ⟨0, repeated.length⟩
  match settings.dump with
  | none => ⟨warnings, .ok tally⟩
  | some "" => ⟨warnings, .ok tally⟩
  | some format =>
    match dump format s with
    | .ok text => ⟨warnings ++ text, .ok tally⟩
    | .error e => ⟨warnings, .error e⟩

/-- Checks one file, given by its path as it is shown and by what reading it gave. -/
def checkFile (settings : Settings) (path : String) (content : Except Fault String) : Findings :=
  match content with
  | .error (.file ⟨.notFound, _⟩) => ⟨missingLine path, .ok ⟨1, 0⟩⟩
  | .error e => ⟨"", .error e⟩
  | .ok source =>
    match settings.frontend with
    | .error e => ⟨"", .error e⟩
    | .ok frontend =>
      match frontend.parse source with
      | .ok s => checkSchema settings path s
      | .error (.schema e) => ⟨errorLine path e, .ok ⟨1, 0⟩⟩
      | .error e => ⟨"", .error e⟩

/-- Checks files one after the other, up to the first failure. -/
def checkFiles (settings : Settings) : List (String × Except Fault String) → Findings
  | [] => ⟨"", .ok ⟨0, 0⟩⟩
  | (path, content) :: rest =>
    let first := checkFile settings path content
    match first.result with
    | .error e => ⟨first.output, .error e⟩
    | .ok tally =>
      let later := checkFiles settings rest
      ⟨first.output ++ later.output, later.result.map tally.add⟩

/-- The last line, when there is anything to report. -/
def summary (t : Tally) : String :=
  if t.errors = 0 ∧ t.warnings = 0 then ""
  else "\n" ++ renderInt t.errors ++ " error(s), " ++ renderInt t.warnings ++ " warning(s)\n"

/-- The report of a run over files. -/
def report (settings : Settings) (files : List (String × Except Fault String)) : Report :=
  let found := checkFiles settings files
  match found.result with
  | .ok tally =>
    ⟨found.output ++ summary tally, "", .status (if tally.errors = 0 then 0 else 1)⟩
  | .error e => ⟨found.output, "", .failed e⟩

/-! ## The command line -/

def parserSwitch : Switch :=
  ⟨["--parser"], true⟩

def dumpSwitch : Switch :=
  ⟨["--dump"], true⟩

/-- The command line of the checker. -/
def interface : Interface where
  program := "ipld-schema-lint"
  usage :=
    "usage: ipld-schema-lint [-h] [--parser \x7bhandwritten,peg\x7d] [--dump \x7bjson,yaml\x7d]\n" ++
    "                        files [files ...]\n"
  help :=
    "Check IPLD schema files for errors and warnings.\n" ++
    "\n" ++
    "positional arguments:\n" ++
    "  files                 Schema files to check\n" ++
    "\n" ++
    "options:\n" ++
    "  -h, --help            show this help message and exit\n" ++
    "  --parser \x7bhandwritten,peg\x7d\n" ++
    "                        Parser implementation to use (default: handwritten)\n" ++
    "  --dump \x7bjson,yaml\x7d    Print the parsed types of each valid file in this\n" ++
    "                        format\n"
  switches := [helpSwitch, parserSwitch, dumpSwitch]
  group := some "files"

/-- One of the choices of a switch. -/
def choose (s : Switch) (choices : List String) (value : String) : Except Exit String :=
  if value ∈ choices then .ok value else .error (.refused (refuseChoice s value choices))

/-- Takes one event of the command line; the settings come with the files. -/
def apply : Settings × List String → Event → Except Exit (Settings × List String)
  | (settings, _), .group values => .ok (settings, values)
  | (settings, files), .switch s value =>
    if s = parserSwitch then do
      return (⟨← value.mapM (choose s ["handwritten", "peg"]), settings.dump⟩, files)
    else if s = dumpSwitch then do
      return (⟨settings.parser, ← value.mapM (choose s ["json", "yaml"])⟩, files)
    else .error .help

/-- The settings and the paths of a command line. -/
def parseArguments (arguments : List String) : Except Exit (Settings × List String) :=
  interface.parse apply (Settings.default, []) arguments

/-- Runs the checker on a tree of files. -/
def run (t : Tree) (arguments : List String) : Report :=
  match parseArguments arguments with
  | .error e => interface.leave e
  | .ok (settings, paths) =>
    report settings (paths.map fun path => (Path.display path, t.source (Path.display path)))

end Ipld.Lint
