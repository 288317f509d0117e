import Ipld.Decimal.Fixed
import Ipld.Digest.Md5
import Ipld.Draft
import Ipld.File
import Ipld.Random.Draw

/-!
# Comparing the parsers on one input

A session gives inputs to two judges, the two parsers of the language or stand-ins for them, and
keeps count of what they say.  Both have to accept an input with the same types or to refuse it with
a schema error.  Anything else is a finding: a time-out, a crash, or a mismatch.  A finding is
written to a file of its own, once for each input; inputs are told apart by the first digits of
their digest.
-/

namespace Ipld.Fuzz

open Ipld.Random Text

/-- What a judge says about an input. -/
inductive Verdict where
  | accepted (s : Schema)
  | refused (e : SchemaError)
  | crashed (kind message : String)
  | timedOut (message : String)
  /-- The user stops the run. -/
  | interrupted
  deriving DecidableEq

/-- The word for a fault that is no schema error. -/
def faultKind : Fault → String
  | .schema _ => "Schema"
  | .overrun => "Overrun"
  | .unknownScalar _ => "UnknownScalar"
  | .unknownName _ => "UnknownName"
  | .notNode _ => "NotNode"
  | .notDefinition _ => "NotDefinition"
  | .lacking _ => "Lacking"
  | .file _ => "File"
  | .decode _ => "Decode"

def Verdict.ofResult : Except Fault Schema → Verdict
  | .ok s => .accepted s
  | .error (.schema e) => .refused e
  | .error other => .crashed (faultKind other) other.text

/-- A judge is told how often it has been asked before, so it need not say the same about an input
that comes again. -/
abbrev Judge := Nat → String → Verdict

structure Judges where
  first : Judge
  second : Judge

/-- The two parsers as judges. -/
def Judges.parsers : Judges :=
  ⟨fun _ source => .ofResult (parse source), fun _ source => .ofResult (Grammar.parse source)⟩

/-- What a session is given: the judges, where findings go, and the time stamp they carry. -/
structure Environment where
  judges : Judges
  directory : String
  stamp : String

/-- The counters of a session, and the digests of its findings, latest first. -/
structure Stats where
  iterations : Nat
  accepted : Nat
  refused : Nat
  crashes : Nat
  timeouts : Nat
  mismatches : Nat
  findings : List String
  deriving DecidableEq, Repr

def Stats.zero : Stats :=
  ⟨0, 0, 0, 0, 0, 0, []⟩

/-- What the clock says, by how often it has been read before. -/
abbrev Readings := Nat → Float

/-- A clock that moves by the same tick each time it is read. -/
structure Clock where
  now : Float
  tick : Float

def Clock.readings (c : Clock) : Readings := fun read =>
  Nat.repeat (· + c.tick) read c.now

instance : Coe Clock Readings :=
  ⟨Clock.readings⟩

structure Session (σ : Type) where
  source : σ
  stats : Stats
  files : Tree
  output : String
  clock : Readings
  /-- How often the clock has been read. -/
  read : Nat
  /-- When the last run began. -/
  started : Float
  /-- How often the first judge has been asked, which is asked about every input. -/
  examined : Nat
  /-- How often the second judge has been asked. -/
  compared : Nat

/-- A session before its first input. -/
def Session.new {σ : Type} (source : σ) (files : Tree) (clock : Readings) : Session σ :=
  ⟨source, .zero, files, "", clock, 0, clock 0, 0, 0⟩

/-- Why an operation of a session ends early. -/
inductive Halt where
  | interrupted
  | fault (e : Fault)
  | mistake (m : Mistake)
  deriving DecidableEq, Repr

/-- An operation of a session. -/
abbrev Operation (σ : Type) := ExceptT Halt (StateM (Session σ))

variable {σ : Type}

/-- Draws from the source of the session. -/
def draw {α : Type} (d : Draw σ α) : Operation σ α := fun s =>
  match d s.source with
  | (.ok a, source) => (.ok a, { s with source := source })
  | (.error m, source) => (.error (.mistake m), { s with source := source })

def write (text : String) : Operation σ Unit :=
  modify fun s => { s with output := s.output ++ text }

/-- Changes the counters. -/
def count (f : Stats → Stats) : Operation σ Unit :=
  modify fun s => { s with stats := f s.stats }

/-- Goes on with a result, and is halted by a fault. -/
def orHalt {α : Type} : Except Fault α → Operation σ α
  | .ok a => return a
  | .error e => throw (.fault e)

def readClock : Operation σ Float := do
  let s ← get
  set { s with read := s.read + 1 }
  return s.clock s.read

/-! ## Findings -/

/-- The first eight digits of the digest of an input. -/
def digest (input : String) : String :=
  String.ofList ((Md5.hex (Utf8.encode input.toList)).take 8)

/-- The content of a finding. -/
def findingText (category detail stamp input : String) : String :=
  "Category: " ++ category ++ "\n" ++
  "Detail: " ++ detail ++ "\n" ++
  "Timestamp: " ++ stamp ++ "\n" ++
  "\n--- Input ---\n" ++
  input ++ "\n"

/-- Saves a finding, unless there is one for the same input. -/
def saveFinding (env : Environment) (input detail category : String) : Operation σ Unit := do
  let key := digest input
  let s ← get
  if key ∈ s.stats.findings then return
  count fun stats => { stats with findings := key :: stats.findings }
  let path := Path.join env.directory (category ++ "_" ++ env.stamp ++ "_" ++ key ++ ".txt")
  let bytes := Utf8.encode (findingText category detail env.stamp input).toList
  match s.files.write path bytes with
  | .error e => throw (.fault (.file e))
  | .ok files =>
    modify fun s => { s with files := files }
    write ("\n[!] Saved finding: " ++ path ++ "\n")

/-! ## Judging -/

/-- The status of a judgement and what it is about, as a mismatch reports it. -/
def Verdict.summary : Verdict → String
  | .accepted s => "ok (" ++ clip s.describe ++ ")"
  | .refused e => "error (" ++ clip e.text ++ ")"
  | .crashed kind message => kind ++ " (" ++ clip message ++ ")"
  | .timedOut message => "timeout (" ++ clip message ++ ")"
  | .interrupted => "interrupted"
where
  /-- The first two hundred characters. -/
  clip (text : String) : String :=
    String.ofList (text.toList.take 200)

/-- Stops at a verdict that is neither a schema nor a schema error; answers whether it did. -/
def stopAt (env : Environment) (input : String) : Verdict → Operation σ Bool
  | .timedOut message => do
    count fun stats => { stats with timeouts := stats.timeouts + 1 }
    saveFinding env input message "timeout"
    return true
  | .crashed kind message => do
    count fun stats => { stats with crashes := stats.crashes + 1 }
    saveFinding env input (kind ++ ": " ++ message ++ "\n<traceback>") "crash"
    return true
  | .interrupted => throw .interrupted
  | _ => return false

/-- Records that the judges differ. -/
def mismatch (env : Environment) (input detail : String) : Operation σ Bool := do
  count fun stats => { stats with mismatches := stats.mismatches + 1 }
  saveFinding env input detail "mismatch"
  return true

/-- Compares the verdicts of two judges that both came to one; answers whether they differ. -/
def compare (env : Environment) (input : String) (first second : Verdict) : Operation σ Bool := do
  match first, second with
  | .accepted s, .accepted t =>
    if s.sameTypes t then
      count fun stats => { stats with accepted := stats.accepted + 1 }
      return false
    else mismatch env input "parsers produced different ASTs"
  | .refused _, .refused _ =>
    count fun stats => { stats with refused := stats.refused + 1 }
    return false
  | _, _ =>
    mismatch env input ("handwritten=" ++ first.summary ++ " peg=" ++ second.summary)

def askFirst (env : Environment) (input : String) : Operation σ Verdict := do
  let s ← get
  set { s with examined := s.examined + 1 }
  return env.judges.first s.examined input

def askSecond (env : Environment) (input : String) : Operation σ Verdict := do
  let s ← get
  set { s with compared := s.compared + 1 }
  return env.judges.second s.compared input

/-- Gives an input to both judges; answers whether it is interesting. -/
def examine (env : Environment) (input : String) : Operation σ Bool := do
  let first ← askFirst env input
  if ← stopAt env input first then return true
  let second ← askSecond env input
  if ← stopAt env input second then return true
  compare env input first second

end Ipld.Fuzz
