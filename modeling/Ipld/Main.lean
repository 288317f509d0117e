import Ipld.Fuzz
import Ipld.Lint
import Std.Time.DateTime

/-!
# The programs

`lint` checks schema files and `fuzz` compares the parsers; what follows the word is the command
line of the program.  Here is only what talks to the system: files, the clock and the output.
-/

namespace Ipld

open Command

/-- Whether the system's number for a failure is the given one; it may come negated. -/
def isNumber (wanted code : UInt32) : Bool :=
  code == wanted || code == 0 - wanted

/-- Why the system refused a path.  Two of the system's numbers tell apart what it files under one
heading: 21 is a directory where a file is wanted, and 36 a name that is too long. -/
def reasonOf : IO.Error → FileReason
  | .noFileOrDirectory .. => .notFound
  | .inappropriateType _ code _ => if isNumber 21 code then .isDirectory else .notDirectory
  | .alreadyExists .. => .exists
  | .invalidArgument _ code _ => if isNumber 36 code then .nameTooLong else .notFound
  | _ => .notFound

/-- Runs an action on a path and tells how the system refused it. -/
def onPath {α : Type} (path : String) (action : IO α) : IO (Except FileError α) := do
  try return .ok (← action)
  catch e => return .error ⟨reasonOf e, path⟩

/-- The text of a file of the system. -/
def readSource (path : String) : IO (Except Fault String) := do
  match ← onPath path (IO.FS.readBinFile path) with
  | .ok bytes => return decodeSource bytes.toList
  | .error e => return .error (.file e)

/-- Prints a report and gives the exit code. -/
def Command.Report.print (r : Report) : IO UInt32 := do
  IO.print r.output
  IO.eprint r.error
  match r.ending with
  | .status code => return code.toUInt32
  | .exit code => return code.toUInt32
  | .failed e =>
    IO.eprintln e.text
    return 1

namespace Lint

/-- The checker on files of the system. -/
def start (arguments : List String) : IO UInt32 := do
  match parseArguments arguments with
  | .error e => (interface.leave e).print
  | .ok (settings, paths) =>
    let files ← paths.mapM fun path => do
      let shown := Path.display path
      return (shown, ← readSource shown)
    (report settings files).print

end Lint

namespace Fuzz

open Ipld.Random

/-- The time of day in seconds. -/
def now : IO Float := do
  let t ← Std.Time.Timestamp.now
  return Float.ofInt t.toMillisecondsSinceUnixEpoch.val / 1000.0

/-- A number with at least two digits. -/
def twoDigits (n : Int) : String :=
  (if 0 ≤ n ∧ n < 10 then "0" else "") ++ Text.renderInt n

/-- A time, in seconds, as the time stamp of findings. -/
def stampOf (seconds : Int) : String :=
  let date := Std.Time.PlainDate.ofEpochDay (.ofInt (seconds / 86400))
  let rest := seconds % 86400
  Text.renderInt date.year.toInt ++ twoDigits date.month.val ++ twoDigits date.day.val ++ "_" ++
    twoDigits (rest / 3600) ++ twoDigits (rest / 60 % 60) ++ twoDigits (rest % 60)

/-- Runs an operation at the time of day, and prints what it wrote. -/
def perform {α : Type} (o : Operation Twister α) (s : Session Twister) :
    IO (Except Halt α × Session Twister) := do
  let time ← now
  let (result, s) := o { s with clock := fun _ => time }
  IO.print s.output
  return (result, { s with output := "" })

/-- Writes the findings of a session into the directory. -/
def saveAll (env : Environment) (s : Session Twister) : IO Unit := do
  for (name, bytes) in s.files.files env.directory do
    IO.FS.writeBinFile (env.directory ++ "/" ++ name) bytes.toByteArray

/-- Goes on with a run until it ends. -/
partial def goOn (env : Environment) (limits : Limits) (deadline : Option Float)
    (corpus : List String) (s : Session Twister) : IO (Except Halt Unit × Session Twister) := do
  let known := s.stats.findings.length
  let (result, s) ← perform (round env limits deadline corpus) s
  if known < s.stats.findings.length then saveAll env s
  match result with
  | .ok (some corpus) => goOn env limits deadline corpus s
  | .ok none => return (.ok (), s)
  | .error h => perform (onHalt h) s

/-- The fuzzer in a directory. -/
def runHere (limits : Limits) (seed : Int) (directory : String) : IO Report := do
  let env : Environment := ⟨.parsers, directory, stampOf (seedOf (← now))⟩
  let files := Tree.empty.makeDirectories directory
  let time ← now
  let s := Session.new (Twister.ofSeed seed) files fun _ => time
  let (deadline, s) ← perform (begin env limits) s
  let (result, s) ← goOn env limits (deadline.toOption.join) seeds s
  match result with
  | .error _ => return ⟨"", "", endingOf result s.stats⟩
  | .ok () =>
    let (result, s) ← perform finish s
    return ⟨"", "", endingOf result s.stats⟩

/-- Makes a directory, unless it is there. -/
def makeDirectory (path : String) : IO (Except Fault Unit) := do
  match ← onPath path (IO.FS.createDir path) with
  | .ok () => return .ok ()
  | .error ⟨.exists, _⟩ =>
    match ← onPath path (IO.FS.createDirAll path) with
    | .ok () => return .ok ()
    | .error _ => return .error (.file ⟨.exists, path⟩)
  | .error e => return .error (.file e)

/-- The fuzzer with given settings. -/
def runWithin (settings : Settings) (seed : Option Int) : IO Report := do
  IO.print (seedLine seed)
  match seed, settings.directory with
  | none, _ => return ⟨"", "", .failed (.lacking .seed)⟩
  | _, none => return ⟨"", "", .failed (.lacking .directory)⟩
  | some seed, some directory =>
    match ← makeDirectory directory with
    | .ok () => runHere settings.limits seed directory
    | .error e => return ⟨"", "", .failed e⟩

/-- The fuzzer on the system. -/
def start (arguments : List String) : IO UInt32 := do
  match parseArguments arguments with
  | .error e => (interface.leave e).print
  | .ok settings =>
    let seed := settings.seed.getD (some (seedOf (← now)))
    (← runWithin settings seed).print

end Fuzz

end Ipld

/-- Selects the program by its name. -/
def main (arguments : List String) : IO UInt32 :=
  match arguments with
  | "lint" :: rest => Ipld.Lint.start rest
  | "fuzz" :: rest => Ipld.Fuzz.start rest
  | _ => do
    IO.eprintln "usage: lint ... | fuzz ..."
    return 2
