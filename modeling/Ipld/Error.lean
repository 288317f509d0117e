import Ipld.Text.Quoted

/-!
# What can go wrong

A schema source fails with a `SchemaError`: its kind, its message and, where it is known, the line.
A run can meet other failures too, which no source text is to blame for: a text or a table read past
what it holds, a file that cannot be read, bytes that are no UTF-8.  `Fault` joins them all, so that
a caller that only forgives schema errors has to say so.

The wording of every failure stands in this module.
-/

namespace Ipld

open Text

/-! ## Failures of a schema source -/

inductive ErrorKind where
  /-- No closer kind is known. -/
  | general
  /-- A character, or a comment without an end, that no token can begin with. -/
  | character
  /-- Another token was expected; both sides are described in words when they are known. -/
  | token (expected found : Option String)
  /-- The input ends where a token is still needed. -/
  | endOfInput
  /-- A map whose key is not `String`. -/
  | keyType
  /-- A representation annotation that is not allowed, or not finished. -/
  | representation
  /-- Kept for the representations of unions. -/
  | unionRepresentation
  /-- A struct or enum body where only a node may stand. -/
  | inlineDefinition
  deriving DecidableEq, Repr

/-- A failure of a schema source.  Lines count from one, but a token made by hand may carry any
integer. -/
structure SchemaError where
  kind : ErrorKind
  message : String
  line : Option Int
  deriving DecidableEq, Repr

/-- The full text: the message after its line, when there is one. -/
def SchemaError.text (e : SchemaError) : String :=
  match e.line with
  | some n => "Line " ++ renderInt n ++ ": " ++ e.message
  | none => e.message

namespace SchemaError

/-- A character that begins no token. -/
def unexpectedCharacter (c : Char) (line : Int) : SchemaError :=
  ⟨.character, "Unexpected character: " ++ quote (String.ofList [c]), some line⟩

def unterminatedComment (line : Int) : SchemaError :=
  ⟨.character, "Unterminated block comment", some line⟩

def endOfInput (line : Option Int) : SchemaError :=
  ⟨.endOfInput, "Unexpected end of input", line⟩

def unexpectedToken (expected found : String) (line : Int) : SchemaError :=
  ⟨.token (some expected) (some found), "Expected " ++ expected ++ ", found " ++ found, some line⟩

/-- One of several terminals was expected and another token found. -/
def unexpectedTerminal (expected found : String) (line : Int) : SchemaError :=
  ⟨.token (some expected) (some found),
    "Expected one of " ++ expected ++ ", found " ++ found, some line⟩

/-- The key of a map is something other than `String`. -/
def keyType (found : String) (line : Int) : SchemaError :=
  ⟨.keyType, "Map key type must be String, not " ++ quote found, some line⟩

/-- A struct or enum body stands where a node is wanted. -/
def inlineDefinition (keyword : String) (line : Int) : SchemaError :=
  ⟨.inlineDefinition,
    "Inline " ++ keyword ++ " definitions are not allowed; declare a named type instead", some line⟩

/-- An annotation is left over after the definition of `name`. -/
def unsupportedRepresentation (name : String) (line : Int) : SchemaError :=
  ⟨.representation,
    "Unsupported representation for type " ++ quote name ++
      "; only 'representation advanced RMT' on a list or map is allowed", some line⟩

/-- An annotation is broken off, or stands where none is allowed. -/
def misplacedRepresentation (line : Int) : SchemaError :=
  ⟨.representation, "Only 'representation advanced RMT' on a list or map is allowed", some line⟩

/-- The input ends inside an annotation. -/
def incompleteRepresentation : SchemaError :=
  ⟨.representation, "Incomplete 'representation advanced RMT' annotation", none⟩

end SchemaError

/-! ## Failures of reading -/

/-- Why a path cannot be opened or made. -/
inductive FileReason where
  | notFound
  | notDirectory
  | isDirectory
  | exists
  | nameTooLong
  /-- The path holds a NUL, which no file name may. -/
  | embeddedNul
  deriving DecidableEq, Repr

/-- A failure of the file system, with the path as it was asked for. -/
structure FileError where
  reason : FileReason
  path : String
  deriving DecidableEq, Repr

/-- The text of a file failure: the system's number for it, its words, and the path. -/
def FileError.text (e : FileError) : String :=
  match e.reason with
  | .notFound => "[Errno 2] No such file or directory: " ++ quote e.path
  | .notDirectory => "[Errno 20] Not a directory: " ++ quote e.path
  | .isDirectory => "[Errno 21] Is a directory: " ++ quote e.path
  | .exists => "[Errno 17] File exists: " ++ quote e.path
  | .nameTooLong => "[Errno 36] File name too long: " ++ quote e.path
  | .embeddedNul => "embedded null byte"

/-- Why a run of bytes is no UTF-8. -/
inductive DecodeReason where
  /-- No character starts with this byte. -/
  | invalidStart
  /-- The byte after the run does not continue its character. -/
  | invalidContinuation
  /-- The bytes end inside a character. -/
  | unexpectedEnd
  deriving DecidableEq, Repr

/-- Bytes that are no UTF-8: where the bad run begins, how many bytes it has, its first byte, and
what is wrong with it. -/
structure DecodeError where
  start : Nat
  length : Nat
  byte : UInt8
  reason : DecodeReason
  deriving DecidableEq, Repr

/-- The words for what is wrong with a run of bytes. -/
def DecodeReason.text : DecodeReason → String
  | .invalidStart => "invalid start byte"
  | .invalidContinuation => "invalid continuation byte"
  | .unexpectedEnd => "unexpected end of data"

/-- The text of a decoding failure; a run of several bytes is given by its first and last
position. -/
def DecodeError.text (e : DecodeError) : String :=
  let place :=
    if e.length = 1 then
      "byte 0x" ++ String.ofList (hexPadded .lower 2 e.byte.toNat) ++ " in position " ++
        renderInt e.start
    else
      "bytes in position " ++ renderInt e.start ++ "-" ++ renderInt (e.start + e.length - 1)
  "'utf-8' codec can't decode " ++ place ++ ": " ++ e.reason.text

/-- What there is none of where one is wanted: the value of a switch that came without, or a
floating-point number for a number that is too large. -/
inductive Lack where
  | parser
  /-- The number of inputs has no limit to be compared with. -/
  | limit
  | seed
  /-- No directory can be made. -/
  | directory
  /-- The number of inputs cannot be divided by the time that has passed. -/
  | float
  deriving DecidableEq, Repr

def Lack.text : Lack → String
  | .parser => "unhashable type: 'list'"
  | .limit => "'>=' not supported between instances of 'int' and 'list'"
  | .seed =>
    "The only supported seed types are: None,\nint, float, str, bytes, and bytearray."
  | .directory => "'list' object has no attribute 'mkdir'"
  | .float => "int too large to convert to float"

/-! ## All failures -/

/-- Everything a run can fail with. -/
inductive Fault where
  /-- The source is at fault. -/
  | schema (e : SchemaError)
  /-- A text or token list was read past its end. -/
  | overrun
  /-- A word was taken for a scalar type that is none. -/
  | unknownScalar (word : String)
  /-- A name was looked up that is not there. -/
  | unknownName (name : String)
  /-- A value stands where a node is wanted; it is described. -/
  | notNode (description : String)
  /-- A value stands where a type definition is wanted; it is described. -/
  | notDefinition (description : String)
  | lacking (l : Lack)
  | file (e : FileError)
  | decode (e : DecodeError)
  deriving DecidableEq, Repr

def Fault.text : Fault → String
  | .schema e => e.text
  | .overrun => "string index out of range"
  | .unknownScalar word => quote word ++ " is not a valid ScalarKind"
  | .unknownName name => quote name
  | .notNode description => "Unknown schema node: " ++ description
  | .notDefinition description => "Unknown type definition: " ++ description
  | .lacking l => l.text
  | .file e => e.text
  | .decode e => e.text

end Ipld
