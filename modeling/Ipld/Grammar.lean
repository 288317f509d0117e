import Ipld.Grammar.Machine

/-!
# The grammar's parser

The second parser of the language runs the grammar.  Since lexemes are read only as far as they are
needed, the first thing in source order that does not fit is reported, be it a lexeme or a character
that begins none.

A refused lexeme is explained by where it stands: at an annotation, at a struct or enum body inside
another type, or at a map key; anywhere else by the terminals that were possible.
-/

namespace Ipld.Grammar

open Text

/-- The terminals that stand only inside an annotation. -/
def annotationTerminals : List Terminal :=
  [.advanced, .rmt]

/-- Only the rest of an annotation may come next. -/
def insideAnnotation (wanted : List Terminal) : Bool :=
  wanted.all (· ∈ annotationTerminals)

/-- The names of a set of terminals, in order and joined by commas. -/
def describeTerminals (wanted : List Terminal) : String :=
  ", ".intercalate ((wanted.map Terminal.name).eraseDups.mergeSort)

/-- A lexeme in words; `none` for the terminal is the end of the input. -/
def Lexeme.describe (l : Lexeme) : String :=
  l.terminal.lower ++ " " ++ quote l.text

/-- Why a token is refused where only the terminals `wanted` may come. -/
def refuse (terminal : Terminal) (text : String) (line : Int) (wanted : List Terminal) :
    SchemaError :=
  if terminal = .representation ∨ insideAnnotation wanted then .misplacedRepresentation line
  else if terminal ∈ [.struct, .enum] ∧ .lsqb ∈ wanted then .inlineDefinition text line
  else if .string ∈ wanted ∧ .bool ∈ wanted ∧ .lsqb ∉ wanted then .keyType text line
  else .unexpectedTerminal (describeTerminals wanted) (terminal.lower ++ " " ++ quote text) line

/-- Why the input must not end where the terminals `wanted` may come. -/
def refuseEnd (wanted : List Terminal) : SchemaError :=
  if insideAnnotation wanted then .incompleteRepresentation else .endOfInput none

/-- The schema of a source, by the grammar. -/
def parse (source : String) : Except Fault Schema :=
  let (found, stray) := lexemes 1 source.toList
  match start.over found, stray with
  | .rejected lexeme wanted, _ =>
    .error (.schema (refuse lexeme.terminal lexeme.text lexeme.line wanted))
  | _, some s => .error (.schema (.unexpectedCharacter s.char s.line))
  | .exhausted wanted, none => .error (.schema (refuseEnd wanted))
  | .complete value, none =>
    match value with
    | .ok declarations => .ok (.ofDeclarations declarations)
    | .error e => .error (.schema e)

end Ipld.Grammar
