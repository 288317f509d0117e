import Ipld.Command.Interface
import Ipld.Fuzz.Run

/-!
# The fuzzer's command line

The fuzzer makes its findings directory, but none above it, and runs.  Without a seed the time of
day is taken.  It ends with a bad status when there is a finding.
-/

namespace Ipld.Fuzz

open Command Ipld.Random Text

/-- What is asked for on the command line.  A switch may have come without its value. -/
structure Settings where
  minutes : Option Float
  iterations : Option (Option Int)
  seed : Option (Option Int)
  directory : Option String

/-- The settings without switches. -/
def Settings.default : Settings :=
  ⟨none, none, none, some "fuzz_findings"⟩

def Settings.limits (s : Settings) : Limits :=
  ⟨s.minutes.map .fraction, s.iterations⟩

def durationSwitch : Switch :=
  ⟨["--duration"], true⟩

def iterationsSwitch : Switch :=
  ⟨["--iterations"], true⟩

def seedSwitch : Switch :=
  ⟨["--seed"], true⟩

def directorySwitch : Switch :=
  ⟨["--findings-dir"], true⟩

/-- The command line of the fuzzer. -/
def interface : Interface where
  program := "ipld-schema-fuzz"
  usage :=
    "usage: ipld-schema-fuzz [-h] [--duration DURATION] [--iterations ITERATIONS]\n" ++
    "                        [--seed SEED] [--findings-dir FINDINGS_DIR]\n"
  help :=
    "Fuzz the IPLD schema parsers\n" ++
    "\n" ++
    "options:\n" ++
    "  -h, --help            show this help message and exit\n" ++
    "  --duration DURATION   Duration in minutes (default: run forever)\n" ++
    "  --iterations ITERATIONS\n" ++
    "                        Stop after this many inputs\n" ++
    "  --seed SEED           Random seed for reproducibility\n" ++
    "  --findings-dir FINDINGS_DIR\n" ++
    "                        Where to save findings (default: ./fuzz_findings)\n"
  switches := [helpSwitch, durationSwitch, iterationsSwitch, seedSwitch, directorySwitch]
  group := none

/-- A value read from the text after a switch, if there is any. -/
def want {α : Type} (s : Switch) (type : String) (read : String → Option α) :
    Option String → Except Exit (Option α)
  | none => .ok none
  | some text =>
    match read text with
    | some a => .ok (some a)
    | none => .error (.refused (refuseValue s type text))

/-- Takes one event of the command line. -/
def apply : Settings → Event → Except Exit Settings
  | settings, .group _ => .ok settings
  | settings, .switch s value =>
    if s = durationSwitch then do
      let minutes ← want s "float" readFloat? value
      return { settings with minutes := minutes }
    else if s = iterationsSwitch then do
      let iterations ← want s "int" readInt? value
      return { settings with iterations := some iterations }
    else if s = seedSwitch then do
      let seed ← want s "int" readInt? value
      return { settings with seed := some seed }
    else if s = directorySwitch then .ok { settings with directory := value.map Path.display }
    else .error .help

/-- The settings of a command line. -/
def parseArguments (arguments : List String) : Except Exit Settings :=
  interface.parse apply .default arguments

/-- A reading of the clock as a seed: its whole seconds. -/
def seedOf (time : Float) : Int :=
  match Decimal.read time with
  | .finite b => b.truncate
  | _ => 0

/-- What the fuzzer runs in: the judges, the time stamp of findings, the clock and the files. -/
structure World where
  judges : Judges
  stamp : String
  clock : Readings
  files : Tree

/-- The seed of a run, and what the clock says afterwards; without a switch the clock is read. -/
def World.seed (w : World) (settings : Settings) : Option Int × Readings :=
  match settings.seed with
  | some seed => (seed, w.clock)
  | none => (some (seedOf (w.clock 0)), fun read => w.clock (read + 1))

def seedLine (seed : Option Int) : String :=
  "Random seed: " ++ (seed.map renderInt).getD "[]" ++ "\n"

/-- The directory of findings, made in the files. -/
def World.prepare (w : World) (settings : Settings) : Except Fault (String × Tree) :=
  match settings.directory with
  | none => .error (.lacking .directory)
  | some directory =>
    match w.files.makeDirectory directory with
    | .ok files => .ok (directory, files)
    | .error e => .error (.file e)

/-- How a run ended that left these statistics. -/
def endingOf (result : Except Halt Unit) (stats : Stats) : Ending :=
  match result with
  | .error (.fault e) => .failed e
  | .error _ => .status 1
  | .ok () => .status (if stats.findings.isEmpty then 0 else 1)

/-- Runs the fuzzer with given settings: the report, and the files afterwards. -/
def runWith (w : World) (settings : Settings) : Report × Tree :=
  let (seed, clock) := w.seed settings
  match seed, w.prepare settings with
  | none, _ => (⟨seedLine none, "", .failed (.lacking .seed)⟩, w.files)
  | some seed, .error e => (⟨seedLine seed, "", .failed e⟩, w.files)
  | some seed, .ok (directory, files) =>
    let env : Environment := ⟨w.judges, directory, w.stamp⟩
    let (result, s) := run env settings.limits (Session.new (Twister.ofSeed seed) files clock)
    (⟨seedLine seed ++ s.output, "", endingOf result s.stats⟩, s.files)

/-- Runs the fuzzer on a command line: the report, and the files afterwards. -/
def command (w : World) (arguments : List String) : Report × Tree :=
  match parseArguments arguments with
  | .error e => (interface.leave e, w.files)
  | .ok settings => runWith w settings

end Ipld.Fuzz
