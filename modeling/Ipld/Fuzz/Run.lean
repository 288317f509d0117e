import Ipld.Decimal.Shortest
import Ipld.Fuzz.Mutate
import Ipld.Fuzz.Session

/-!
# Fuzzing runs

A run gives inputs to the judges until its time is up or its inputs are spent.  An input is a new
random schema, a mutated entry of the corpus, or an entry as it is.  The corpus begins with a fixed
list of valid schemas, which it keeps; an interesting input joins it, and now and then any other.
It never grows beyond a thousand entries.

An interruption ends the run; its statistics are printed all the same.
-/

namespace Ipld.Fuzz

open Decimal Ipld.Random Text

variable {σ : Type} [Source σ]

/-- The inputs that a corpus begins with. -/
def seeds : List String := [
  "type T Bool",
  "type T String",
  "type T [String]",
  "type T list nullable Int",
  "type T \x7b String : Int \x7d",
  "type T map \x7b String : nullable [Bytes] \x7d",
  "type T &Person",
  "type T link Person",
  "type T Person",
  "type T [Int] representation advanced RMT",
  "type T \x7b String : Int \x7d representation advanced RMT",
  "type Color enum \x7b red, green, blue \x7d",
  "type Color enum \x7b red, \x7d",
  "type P struct \x7b name String age optional Int bio optional nullable String \x7d",
  "type P struct \x7b friends [Person] home &Address tags \x7b String : [String] \x7d \x7d",
  "// comment\ntype T Int /* block\ncomment */"]

/-- The most entries that a corpus may have. -/
def corpusLimit : Nat := 1000

/-- An integer as a floating-point number, for which it may be too large. -/
def asFloat (n : Int) : Except Fault Float :=
  if n.natAbs < floatLimit then .ok (Float.ofInt n) else .error (.lacking .float)

/-- A length of time in minutes: a whole number, or one with a fraction. -/
inductive Minutes where
  | whole (n : Int)
  | fraction (x : Float)

namespace Minutes

def text : Minutes → String
  | .whole n => renderInt n
  | .fraction x => natural x

def seconds : Minutes → Except Fault Float
  | .whole n => asFloat (n * 60)
  | .fraction x => .ok (x * 60.0)

/-- No time at all counts as no limit. -/
def isZero : Minutes → Bool
  | .whole n => n == 0
  | .fraction x => x == 0.0

end Minutes

/-- The limits of a run.  A limit of inputs may be asked for without a number. -/
structure Limits where
  minutes : Option Minutes
  iterations : Option (Option Int)

/-- The time limit, if it is one. -/
def Limits.duration? (limits : Limits) : Option Minutes :=
  limits.minutes.filter fun m => !m.isZero

/-- When a run that begins at `start` has to end.  A deadline at the origin of time is none. -/
def Limits.deadline? (limits : Limits) (start : Float) : Except Fault (Option Float) := do
  match limits.duration? with
  | none => return none
  | some m =>
    let deadline := start + (← m.seconds)
    return if deadline == 0.0 then none else some deadline

/-- How many inputs a run without limit may try; more than any machine gets through. -/
def unlimited : Nat := 1000000000000

/-- How often the loop of a run may go around: once more than there are inputs left. -/
def Limits.rounds (limits : Limits) (iterations : Nat) : Nat :=
  match limits.iterations with
  | some (some n) => (n - iterations).toNat + 1
  | some none => 1
  | none => unlimited

/-! ## Statistics -/

/-- The number of inputs in a second; when no time has passed there is none to be taken. -/
def rate (iterations : Nat) (elapsed : Float) : Except Fault Float :=
  if 0.0 < elapsed then (asFloat iterations).map (· / elapsed) else .ok 0.0

theorem rate_eq_error_iff {iterations : Nat} {elapsed : Float} {e : Fault} :
    rate iterations elapsed = .error e ↔
      e = .lacking .float ∧ floatLimit ≤ iterations ∧ 0.0 < elapsed := by
  unfold rate asFloat
  rw [Int.natAbs_natCast]
  split
  · next hlate =>
    split
    · next hlt => simp [Except.map, Nat.not_le.2 hlt]
    · next hge => simp [Except.map, Nat.not_lt.1 hge, hlate, eq_comm]
  · next hlate => simp [hlate]

def statsLine (stats : Stats) (elapsed perSecond : Float) : String :=
  "[" ++ fixed 1 elapsed ++ "s] iterations=" ++ renderInt stats.iterations ++
    " (" ++ fixed 0 perSecond ++ "/s) | ok=" ++ renderInt stats.accepted ++
    " reject=" ++ renderInt stats.refused ++ " | crashes=" ++ renderInt stats.crashes ++
    " timeouts=" ++ renderInt stats.timeouts ++ " mismatches=" ++ renderInt stats.mismatches ++
    " unique=" ++ renderInt stats.findings.length ++ "\n"

def printStats : Operation σ Unit := do
  let now ← readClock
  let s ← get
  let elapsed := now - s.started
  let perSecond ← orHalt (rate s.stats.iterations elapsed)
  write (statsLine s.stats elapsed perSecond)

/-! ## The loop -/

def nextInput (corpus : List String) : Draw σ String := do
  let strategy ← unit
  if strategy < 0.4 then schema
  else if strategy < 0.9 then
    let entry ← choice corpus
    let first ← mutate entry
    mutateTimes first (← between 0 2)
  else choice corpus

/-- Whether an input that is not interesting joins the corpus. -/
def joins (input : String) : Draw σ Bool := do
  return (← chance 0.01) && input.length < 1000

/-- The corpus with one more entry; when it is too long, one that is no seed is dropped. -/
def extend (corpus : List String) (input : String) : Draw σ (List String) := do
  let longer := corpus ++ [input]
  if corpusLimit < longer.length then
    return longer.eraseIdx (← between seeds.length (longer.length - 1))
  else return longer

/-- The corpus after an input: an interesting one joins it, and so does any other now and then. -/
def update (corpus : List String) (input : String) (interesting : Bool) :
    Draw σ (List String) := do
  if interesting then extend corpus input
  else if ← joins input then extend corpus input
  else return corpus

def timeIsUp (deadline : Option Float) : Operation σ Bool := do
  match deadline with
  | none => return false
  | some t => return decide (t < (← readClock))

/-- Whether the inputs are spent. -/
def isSpent (limits : Limits) : Operation σ Bool := do
  match limits.iterations with
  | none => return false
  | some none => throw (.fault (.lacking .limit))
  | some (some n) => return decide (n ≤ (← get).stats.iterations)

/-- Tries one input, and gives the corpus after it. -/
def tryInput (env : Environment) (corpus : List String) : Operation σ (List String) := do
  count fun stats => { stats with iterations := stats.iterations + 1 }
  let input ← draw (nextInput corpus)
  let interesting ← examine env input
  let corpus ← draw (update corpus input interesting)
  if (← get).stats.iterations % 1000 = 0 then printStats
  return corpus

/-- Tries one more input, unless a limit is reached; then there is no corpus any more. -/
def round (env : Environment) (limits : Limits) (deadline : Option Float)
    (corpus : List String) : Operation σ (Option (List String)) := do
  if ← timeIsUp deadline then return none
  if ← isSpent limits then return none
  return some (← tryInput env corpus)

/-- Tries inputs until a limit is reached. -/
def loop (env : Environment) (limits : Limits) (deadline : Option Float) :
    (rounds : Nat) → (corpus : List String) → Operation σ Unit
  | 0, _ => return
  | rounds + 1, corpus => do
    match ← round env limits deadline corpus with
    | none => return
    | some corpus => loop env limits deadline rounds corpus

/-- Says that the user stopped the run; other reasons go on. -/
def onHalt : Halt → Operation σ Unit
  | .interrupted => write "\n\nInterrupted by user\n"
  | other => throw other

/-- A line of sixty times the same character. -/
def ruler (c : Char) : String :=
  String.ofList (List.replicate 60 c) ++ "\n"

/-- Begins a run, and gives its deadline. -/
def begin (env : Environment) (limits : Limits) : Operation σ (Option Float) := do
  let start ← readClock
  modify fun s => { s with started := start }
  let deadline ← orHalt (limits.deadline? start)
  let duration :=
    match limits.duration? with
    | none => "unlimited"
    | some m => m.text ++ " minutes"
  write ("Starting fuzzer (seed corpus: " ++ renderInt seeds.length ++ " inputs)\n" ++
    "Duration: " ++ duration ++ "\n" ++
    "Findings directory: " ++ env.directory ++ "\n" ++ ruler '-')
  return deadline

def finish : Operation σ Unit := do
  write ("\n" ++ ruler '=' ++ "Final Statistics:\n")
  printStats

def run (env : Environment) (limits : Limits) : Operation σ Unit := do
  let deadline ← begin env limits
  let rounds := limits.rounds (← get).stats.iterations
  tryCatch (loop env limits deadline rounds seeds) onHalt
  finish

end Ipld.Fuzz
