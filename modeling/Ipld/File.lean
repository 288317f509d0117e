import Ipld.File.Tree
import Ipld.Grammar
import Ipld.Parser
import Ipld.Text.Newline
import Ipld.Text.Utf8

/-!
# Sources in files

A source file is UTF-8 text with line ends of any kind.  The two parsers of files differ in how they
name a path that cannot be opened: one shows it in its plain form, the other as it was given.
-/

namespace Ipld

open Text

/-- The text of a file with the given bytes. -/
def decodeSource (bytes : List UInt8) : Except Fault String :=
  match Utf8.decode bytes with
  | .ok text => .ok (String.ofList (universalNewlines text))
  | .error e => .error (.decode e)

/-- The text of the file at a path. -/
def Tree.source (t : Tree) (path : String) : Except Fault String :=
  match t.read path with
  | .ok bytes => decodeSource bytes
  | .error e => .error (.file e)

inductive Frontend where
  | handwritten
  | grammar
  deriving DecidableEq, Repr

namespace Frontend

/-- The parser by its name on the command line. -/
def ofName? : String → Option Frontend
  | "handwritten" => some .handwritten
  | "peg" => some .grammar
  | _ => none

def parse : Frontend → String → Except Fault Schema
  | .handwritten => Ipld.parse
  | .grammar => Grammar.parse

/-- The schema of the file at a path. -/
def parseFile (f : Frontend) (t : Tree) (path : String) : Except Fault Schema :=
  match f with
  | .handwritten => t.source (Path.display path) >>= f.parse
  | .grammar => t.source path >>= f.parse

end Frontend

end Ipld
