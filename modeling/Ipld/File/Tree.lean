import Ipld.Error
import Ipld.File.Path

/-!
# File trees

A tree holds files and directories at their places.  A place is a list of names that leads there
from the current directory, or, after the name of a root, from that root.  Opening a path walks over
its names: each but the last has to be a directory, and so does one that a slash follows.  `..`
leads back to where the walk came from; above the current directory nothing is known but that it is
a directory.
-/

namespace Ipld

/-- What stands at a place of a tree. -/
inductive Entry where
  | file (bytes : List UInt8)
  | directory
  deriving DecidableEq, Repr

/-- The entries of a tree, by the names that lead to them. -/
structure Tree where
  entries : List (List String × Entry)
  deriving Repr

namespace Tree

/-- The current directory with nothing in it. -/
def empty : Tree :=
  ⟨[]⟩

/-- A place that is always a directory: the current directory, everything above it, and a root. -/
def isFixed (place : List String) : Bool :=
  place.all (· == "..") || place == ["/"] || place == ["//"]

/-- What stands at a place. -/
def entry? (t : Tree) (place : List String) : Option Entry :=
  if isFixed place then some .directory else t.entries.lookup place

/-- Puts an entry at a place, instead of the one that was there. -/
def set (t : Tree) (place : List String) (entry : Entry) : Tree :=
  ⟨(place, entry) :: t.entries.filter fun e => e.1 != place⟩

/-- The place one step up; above a root there is nothing else. -/
def up (place : List String) : List String :=
  if place == ["/"] || place == ["//"] then place
  else if isFixed place then place ++ [".."]
  else place.dropLast

/-- Walks over the names of a path from a place, and makes directories where nothing stands. -/
def clear (t : Tree) (place : List String) : List String → Tree × List String
  | [] => (t, place)
  | name :: rest =>
    if name = "" ∨ name = "." then t.clear place rest
    else if name = ".." then t.clear (up place) rest
    else
      let next := place ++ [name]
      (if (t.entry? next).isSome then t else t.set next .directory).clear next rest

/-- The place from which a path is walked. -/
def origin (path : String) : List String :=
  if Path.root path = "" then [] else [Path.root path]

/-- Makes the directory at a path and those above it. -/
def makeDirectories (t : Tree) (path : String) : Tree :=
  (t.clear (origin path) (Path.parts path)).1

/-- Puts an entry at a path, and makes directories above it. -/
def plant (t : Tree) (path : String) (entry : Entry) : Tree :=
  let (above, place) := t.clear (origin path) (Path.parts path).dropLast
  match (Path.parts path).getLast? with
  | none => above
  | some name => above.set (place ++ [name]) entry

/-- The most bytes that a name may have. -/
def nameLimit : Nat := 255

/-- The most bytes that a path may have. -/
def pathLimit : Nat := 4095

/-- Walks over the names of a path from a place that is there.  The answer is the place at the end,
which may be missing only when the last name is. -/
def walk (t : Tree) (place : List String) : List String → Except FileReason (List String)
  | [] => .ok place
  | name :: rest =>
    match t.entry? place with
    | none => .error .notFound
    | some (.file _) => .error .notDirectory
    | some .directory =>
      if name = "" ∨ name = "." then t.walk place rest
      else if name = ".." then t.walk (up place) rest
      else if nameLimit < name.utf8ByteSize then .error .nameTooLong
      else t.walk (place ++ [name]) rest

/-- The place that a path leads to. -/
def locate (t : Tree) (path : String) : Except FileReason (List String) :=
  if path.toList.contains '\x00' then .error .embeddedNul
  else if path = "" then .error .notFound
  else if pathLimit < path.utf8ByteSize then .error .nameTooLong
  else t.walk (origin path) (Path.names path)

/-- The bytes of the file at a path. -/
def read (t : Tree) (path : String) : Except FileError (List UInt8) :=
  match t.locate path with
  | .error reason => .error ⟨reason, path⟩
  | .ok place =>
    match t.entry? place with
    | some (.file bytes) => .ok bytes
    | some .directory => .error ⟨.isDirectory, path⟩
    | none => .error ⟨.notFound, path⟩

/-- Writes a file, over the one that was there. -/
def write (t : Tree) (path : String) (bytes : List UInt8) : Except FileError Tree :=
  match t.locate path with
  | .error reason => .error ⟨reason, path⟩
  | .ok place =>
    match t.entry? place with
    | some .directory => .error ⟨.isDirectory, path⟩
    | _ => .ok (t.set place (.file bytes))

/-- Makes a directory, unless it is there already. -/
def makeDirectory (t : Tree) (path : String) : Except FileError Tree :=
  match t.locate path with
  | .error reason => .error ⟨reason, path⟩
  | .ok place =>
    match t.entry? place with
    | some .directory => .ok t
    | some (.file _) => .error ⟨.exists, path⟩
    | none => .ok (t.set place .directory)

/-- The files in a directory, by name. -/
def files (t : Tree) (path : String) : List (String × List UInt8) :=
  match t.locate path with
  | .error _ => []
  | .ok place =>
    (t.entries.filterMap fun e =>
      match e.1.getLast?, e.2 with
      | some name, .file bytes => if e.1.dropLast = place then some (name, bytes) else none
      | _, _ => none).mergeSort fun a b => a.1 ≤ b.1

end Tree

end Ipld
