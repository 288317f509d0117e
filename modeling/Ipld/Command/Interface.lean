import Ipld.Text.Numeral

/-!
# Command lines

A command takes switches, which begin with a hyphen, and other arguments.  A long switch may be
shortened to any beginning that no other switch shares, and its value may follow as the next
argument or after an equals sign, where `--` stands for no value at all.  After `--` as an argument
of its own nothing is a switch any more.  An argument that looks like a negative number, holds a
space or is a lone hyphen is no switch either.

A command may want a group of arguments, at least one.  The first run of arguments between switches
is that group; arguments in a later run are left over.

Reading a command line gives what was met, in order, and at the end the reason why the line as a
whole is refused, if it is.  What was met first counts first: a request for help wins over a later
mistake and loses against an earlier one.
-/

namespace Ipld.Command

open Text

/-- A switch: its names, and whether a value follows.  A switch with a short name takes none. -/
structure Switch where
  names : List String
  takesValue : Bool
  deriving DecidableEq, Repr

/-- The names of a switch as diagnostics give them. -/
def Switch.label (s : Switch) : String :=
  "/".intercalate s.names

/-- What a command takes, and how it explains itself. -/
structure Interface where
  program : String
  usage : String
  /-- What follows the usage when help is asked for. -/
  help : String
  switches : List Switch
  /-- The name of the group of arguments, when the command wants one. -/
  group : Option String

/-- What is met on a command line. -/
inductive Event where
  | switch (s : Switch) (value : Option String)
  | group (values : List String)
  deriving DecidableEq, Repr

/-- Why a command does nothing: help is asked for, or the command line is refused. -/
inductive Exit where
  | help
  | refused (message : String)
  deriving DecidableEq, Repr

/-- An argument by its first look. -/
inductive Word where
  | plain (text : String)
  /-- The first `--`. -/
  | separator
  /-- A switch with the name it is known by, and the text attached to it. -/
  | known (s : Switch) (name : String) (attached : Option String)
  /-- What looks like a switch and is none. -/
  | unknown (text : String)
  deriving DecidableEq, Repr

/-- Refuses what stands at a switch. -/
def refuseAt (s : Switch) (message : String) : String :=
  "argument " ++ s.label ++ ": " ++ message

/-- Refuses a value that is none of the choices. -/
def refuseChoice (s : Switch) (value : String) (choices : List String) : String :=
  refuseAt s ("invalid choice: " ++ quote value ++ " (choose from " ++
    ", ".intercalate (choices.map quote) ++ ")")

/-- Refuses a value that is not of the wanted type. -/
def refuseValue (s : Switch) (type value : String) : String :=
  refuseAt s ("invalid " ++ type ++ " value: " ++ quote value)

/-- An argument that looks like a negative number. -/
def isNegativeNumber (text : String) : Bool :=
  match text.toList with
  | '-' :: rest =>
    let body := if rest.getLast? = some '\n' then rest.dropLast else rest
    let whole := body.takeWhile isDecimalDigit
    match body.dropWhile isDecimalDigit with
    | [] => !whole.isEmpty
    | '.' :: places => !places.isEmpty && places.all isDecimalDigit
    | _ => false
  | _ => false

/-- A text before its first equals sign, and what follows the sign when there is one. -/
def splitEquals (text : String) : String × Option String :=
  match text.toList.dropWhile (· != '=') with
  | [] => (text, none)
  | _ :: value => (String.ofList (text.toList.takeWhile (· != '=')), some (String.ofList value))

/-- A text that begins with another. -/
def beginsWith (text start : String) : Bool :=
  start.toList.isPrefixOf text.toList

namespace Interface

/-- The switches by each of their names. -/
def named (i : Interface) : List (String × Switch) :=
  i.switches.flatMap fun s => s.names.map fun name => (name, s)

def switch? (i : Interface) (name : String) : Option Switch :=
  i.named.lookup name

/-- The switches that an argument may stand for when it is not the full name of one.  After two
hyphens it is the beginning of a name; after one it is a short name with the rest attached, or again
a beginning. -/
def candidates (i : Interface) (text : String) : List (Switch × String × Option String) :=
  match text.toList with
  | '-' :: '-' :: _ =>
    let (start, value) := splitEquals text
    i.named.filterMap fun (name, s) =>
      if beginsWith name start then some (s, name, value) else none
  | '-' :: c :: rest =>
    let short := String.ofList ['-', c]
    i.named.filterMap fun (name, s) =>
      if name = short then some (s, name, some (String.ofList rest))
      else if beginsWith name text then some (s, name, none)
      else none
  | _ => []

/-- The first look at an argument; it is refused when it may stand for several switches. -/
def classify (i : Interface) (text : String) : Except String Word :=
  if !beginsWith text "-" then .ok (.plain text)
  else
    match i.switch? text with
    | some s => .ok (.known s text none)
    | none =>
      if text = "-" then .ok (.plain text)
      else
        let (name, value) := splitEquals text
        match value, i.switch? name with
        | some v, some s => .ok (.known s name (some v))
        | _, _ =>
          match i.candidates text with
          | [(s, name, attached)] => .ok (.known s name attached)
          | [] =>
            if isNegativeNumber text || text.toList.contains ' ' then .ok (.plain text)
            else .ok (.unknown text)
          | several =>
            .error ("ambiguous option: " ++ text ++ " could match " ++
              ", ".intercalate (several.map fun c => c.2.1))

/-- The first look at all arguments; after the first `--` all are plain. -/
def classifyAll (i : Interface) : List String → Except String (List Word)
  | [] => .ok []
  | "--" :: rest => .ok (.separator :: rest.map .plain)
  | text :: rest => do
    let word ← i.classify text
    return word :: (← i.classifyAll rest)

/-- The switches meant by one that takes no value but has a text attached: each character of the
text has to be a further short name.  The first one that is not is refused together with all that
follows it, and so is any text attached to a long name. -/
def cluster (i : Interface) (s : Switch) (name : String) : List Char → Except String (List Event)
  | [] => .error (refuseAt s ("ignored explicit argument " ++ quote ""))
  | c :: rest =>
    match if beginsWith name "--" then none else i.switch? (String.ofList ['-', c]), rest with
    | none, _ =>
      .error (refuseAt s ("ignored explicit argument " ++ quote (String.ofList (c :: rest))))
    | some next, [] => .ok [.switch s none, .switch next none]
    | some next, d :: text => do
      return .switch s none :: (← i.cluster next (String.ofList ['-', c]) (d :: text))

/-- Reads the arguments after their first look.  `pending` tells that the group is still wanted,
`extra` holds what is left over and `run` the arguments since the last switch, both latest first. -/
def events (i : Interface) (pending : Bool) (extra run : List String) (filled : Bool) :
    List Word → List Event × Option String
  | [] =>
    let met := pending && filled
    let left := if met then extra else run ++ extra
    let stop : Option String :=
      match i.group with
      | some name =>
        if pending && !met then some ("the following arguments are required: " ++ name)
        else unrecognized left
      | none => unrecognized left
    (if met then [group run] else [], stop)
  | .plain text :: rest => i.events pending extra (text :: run) true rest
  | .separator :: rest => i.events pending extra ("--" :: run) filled rest
  | .unknown text :: rest =>
    flush fun pending extra => i.events pending (text :: extra) [] false rest
  | .known s _ none :: rest =>
    flush fun pending extra =>
      if s.takesValue then
        match rest with
        | .plain value :: rest' =>
          let (later, stop) := i.events pending extra [] false rest'
          (.switch s (some value) :: later, stop)
        | _ => ([], some (refuseAt s "expected one argument"))
      else
        let (later, stop) := i.events pending extra [] false rest
        (.switch s none :: later, stop)
  | .known s name (some attached) :: rest =>
    flush fun pending extra =>
      if s.takesValue then
        let (later, stop) := i.events pending extra [] false rest
        (.switch s (if attached = "--" then none else some attached) :: later, stop)
      else
        match i.cluster s name attached.toList with
        | .error message => ([], some message)
        | .ok met =>
          let (later, stop) := i.events pending extra [] false rest
          (met ++ later, stop)
where
  /-- The group, without the `--` that may stand in it. -/
  group (run : List String) : Event :=
    .group (run.reverse.erase "--")
  unrecognized (left : List String) : Option String :=
    if left.isEmpty then none
    else some ("unrecognized arguments: " ++ " ".intercalate left.reverse)
  /-- Ends a run of arguments: it is the group when that is still wanted, else it is left over. -/
  flush (next : Bool → List String → List Event × Option String) : List Event × Option String :=
    if pending && filled then
      let (later, stop) := next false extra
      (group run :: later, stop)
    else next pending (run ++ extra)

/-- Reads a command line: what is met, and why the line is refused. -/
def read (i : Interface) (arguments : List String) : List Event × Option String :=
  match i.classifyAll arguments with
  | .error message => ([], some message)
  | .ok words => i.events i.group.isSome [] [] false words

/-- Reads a command line into settings, event by event. -/
def parse {α : Type} (i : Interface) (apply : α → Event → Except Exit α) (settings : α)
    (arguments : List String) : Except Exit α := do
  let (met, stop) := i.read arguments
  let settings ← met.foldlM apply settings
  match stop with
  | none => return settings
  | some message => .error (.refused message)

/-- What is written to the output on leaving. -/
def exitOutput (i : Interface) : Exit → String
  | .help => i.usage ++ "\n" ++ i.help
  | .refused _ => ""

/-- What is written to the error stream on leaving. -/
def exitError (i : Interface) : Exit → String
  | .help => ""
  | .refused message => i.usage ++ i.program ++ ": error: " ++ message ++ "\n"

end Interface

def Exit.code : Exit → Nat
  | .help => 0
  | .refused _ => 2

def helpSwitch : Switch :=
  ⟨["-h", "--help"], false⟩

/-- How a command ended. -/
inductive Ending where
  /-- It did its work, with an exit code. -/
  | status (code : Nat)
  /-- It left before its work. -/
  | exit (code : Nat)
  | failed (fault : Fault)
  deriving DecidableEq, Repr

/-- What a command wrote, and how it ended. -/
structure Report where
  output : String
  error : String
  ending : Ending
  deriving DecidableEq, Repr

/-- The report of a command that left before its work. -/
def Interface.leave (i : Interface) (e : Exit) : Report :=
  ⟨i.exitOutput e, i.exitError e, .exit e.code⟩

end Ipld.Command
