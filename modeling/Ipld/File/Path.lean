/-!
# Paths

A path is a sequence of names separated by slashes.  It is shown without empty names and without
the name `.`, which change nothing; `..` is kept.  A path with nothing left is shown as `.`.
-/

namespace Ipld.Path

/-- The names of a path as they are written, empty ones included. -/
def names (path : String) : List String :=
  go [] path.toList
where
  /-- The names of a path; `name` holds the characters of the first one so far, latest first. -/
  go (name : List Char) : List Char → List String
    | [] => [String.ofList name.reverse]
    | c :: rest =>
      if c = '/' then String.ofList name.reverse :: go [] rest else go (c :: name) rest

/-- The names that make a difference. -/
def parts (path : String) : List String :=
  (names path).filter fun name => name != "" && name != "."

/-- The root of a path: nothing for a relative one, and exactly two slashes are kept. -/
def root (path : String) : String :=
  match path.toList.takeWhile (· == '/') with
  | [] => ""
  | ['/', '/'] => "//"
  | _ => "/"

/-- The path as it is shown. -/
def display (path : String) : String :=
  let shown := root path ++ "/".intercalate (parts path)
  if shown = "" then "." else shown

/-- The path of `name` in the directory `directory`, as it is shown. -/
def join (directory name : String) : String :=
  if root name = "" then display (directory ++ "/" ++ name) else display name

end Ipld.Path
