import Ipld.Error
import Ipld.Token

/-!
# The lexer

The lexer is a position in the source together with the tokens found so far.  It can be driven one
token at a time; every operation leaves a position behind, also when it fails, so a caller may look
at how far it came.

The source is held as two lists, the characters already passed (nearest first) and those to come.
A step that moves over a stretch of text is one `pass`, which alone keeps the line count, so the
line is always one more than the line feeds passed.
-/

namespace Ipld

open Text

/-- A position in a source, and the tokens found before it. -/
structure Lexer where
  /-- The characters already passed, nearest first. -/
  passed : List Char
  /-- The characters still to come. -/
  rest : List Char
  /-- The line of the next character; the first is line one. -/
  line : Nat
  /-- The tokens found so far, latest first. -/
  found : List Token
  deriving Repr

namespace Lexer

/-- A lexer at the start of a source. -/
def ofChars (source : List Char) : Lexer :=
  ⟨[], source, 1, []⟩

/-- A lexer at the start of a source. -/
def ofSource (source : String) : Lexer :=
  ofChars source.toList

def pos (l : Lexer) : Nat :=
  l.passed.length

def atEnd (l : Lexer) : Bool :=
  l.rest.isEmpty

/-- The tokens found so far, in source order. -/
def tokens (l : Lexer) : List Token :=
  l.found.reverse

/-- Moves over the next `n` characters. -/
def pass (l : Lexer) (n : Nat) : Lexer :=
  { l with
    passed := (l.rest.take n).reverse ++ l.passed
    rest := l.rest.drop n
    line := l.line + (l.rest.take n).count '\n' }

def add (l : Lexer) (kind : TokenKind) (value : List Char) (line : Nat) : Lexer :=
  { l with found := ⟨kind, String.ofList value, line⟩ :: l.found }

/-- The character `offset` places ahead.  Beyond the end it is NUL.  A place before the start counts
from the end of the source, and fails when the source is not that long. -/
def peek (l : Lexer) (offset : Int) : Except Fault Char :=
  let source := l.passed.reverse ++ l.rest
  let place : Int := l.pos + offset
  let index := if place < 0 then place + source.length else place
  if index < 0 then .error .overrun
  else .ok (source[index.toNat]?.getD '\x00')

/-- Takes the next character, and fails when there is none. -/
def advance (l : Lexer) : Except Fault Char × Lexer :=
  match l.rest with
  | [] => (.error .overrun, l)
  | c :: _ => (.ok c, l.pass 1)

/-- Takes the longest run of word characters as one token. -/
def identifier (l : Lexer) : Lexer :=
  let word := l.rest.takeWhile isWordChar
  (l.pass word.length).add (wordKind (String.ofList word)) word l.line

/-- Moves to the next line feed, or to the end. -/
def lineComment (l : Lexer) : Lexer :=
  l.pass (l.rest.takeWhile (· ≠ '\n')).length

/-- How many characters there are up to and with the first end of a block comment. -/
def closing : List Char → Option Nat
  | [] => none
  | '*' :: '/' :: _ => some 2
  | _ :: rest => (closing rest).map (· + 1)

/-- Moves over a block comment.  The two opening characters are taken as they are, whatever they
may be.  A comment without an end is reported at the line on which it begins, after everything is
passed. -/
def blockComment (l : Lexer) : Except Fault Unit × Lexer :=
  match l.advance with
  | (.error e, l₁) => (.error e, l₁)
  | (.ok _, l₁) =>
    match l₁.advance with
    | (.error e, l₂) => (.error e, l₂)
    | (.ok _, l₂) =>
      match closing l₂.rest with
      | some n => (.ok (), l₂.pass n)
      | none => (.error (.schema (.unterminatedComment l.line)), l₂.pass l₂.rest.length)

/-- Moves over one blank, one comment or one token.  At the end of the source it meets a NUL, which
begins no token. -/
def scan (l : Lexer) : Except Fault Unit × Lexer :=
  match l.rest with
  | [] => (.error (.schema (.unexpectedCharacter '\x00' l.line)), l)
  | c :: rest =>
    if isBlank c then (.ok (), l.pass 1)
    else if isSymbol c then (.ok (), (l.pass 1).add .symbol [c] l.line)
    else if isWordChar c then (.ok (), l.identifier)
    else if c = '/' ∧ rest.head? = some '/' then (.ok (), l.lineComment)
    else if c = '/' ∧ rest.head? = some '*' then l.blockComment
    else (.error (.schema (.unexpectedCharacter c l.line)), l)

/-! ## Progress -/

@[simp]
theorem rest_pass (l : Lexer) (n : Nat) : (l.pass n).rest = l.rest.drop n := rfl

@[simp]
theorem rest_add (l : Lexer) (kind : TokenKind) (value : List Char) (line : Nat) :
    (l.add kind value line).rest = l.rest := rfl

theorem rest_advance_ok {l l' : Lexer} {c : Char} (h : l.advance = (.ok c, l')) :
    l.rest = c :: l'.rest := by
  unfold advance at h
  split at h
  · cases h
  · rename_i c' rest hrest
    cases h
    simp [hrest]

theorem length_rest_blockComment {l l' : Lexer} (h : l.blockComment = (.ok (), l')) :
    l'.rest.length < l.rest.length := by
  unfold blockComment at h
  split at h
  · cases h
  · rename_i c₁ l₁ h₁
    have h₁ := rest_advance_ok h₁
    split at h
    · cases h
    · rename_i c₂ l₂ h₂
      have h₂ := rest_advance_ok h₂
      split at h
      · cases h
        simp only [h₁, h₂, rest_pass, List.length_drop, List.length_cons]
        omega
      · cases h

/-- A step that succeeds consumes at least one character. -/
theorem length_rest_scan {l l' : Lexer} (h : l.scan = (.ok (), l')) :
    l'.rest.length < l.rest.length := by
  unfold scan at h
  split at h
  · cases h
  · rename_i c rest hrest
    split at h
    · cases h
      simp [hrest]
    · split at h
      · cases h
        simp [hrest]
      · split at h
        · rename_i hword
          cases h
          rw [identifier, rest_add, rest_pass, hrest, List.takeWhile_cons_of_pos hword,
            List.length_drop, List.length_cons, List.length_cons]
          omega
        · split at h
          · rename_i hslash
            have htake : ('/' :: rest).takeWhile (· ≠ '\n') = '/' :: rest.takeWhile (· ≠ '\n') :=
              List.takeWhile_cons_of_pos (by decide)
            cases h
            rw [lineComment, rest_pass, hrest, hslash.1, htake, List.length_drop, List.length_cons,
              List.length_cons]
            omega
          · split at h
            · exact length_rest_blockComment h
            · cases h

/-- Moves over everything that is left, collecting tokens. -/
def tokenize (l : Lexer) : Except Fault Unit × Lexer :=
  if l.atEnd then (.ok (), l)
  else
    match h : l.scan with
    | (.error e, l') => (.error e, l')
    | (.ok (), l') =>
      have := length_rest_scan h
      l'.tokenize
termination_by l.rest.length

end Lexer

def tokenize (source : String) : Except Fault (List Token) :=
  match (Lexer.ofSource source).tokenize with
  | (.ok (), l) => .ok l.tokens
  | (.error e, _) => .error e

end Ipld
