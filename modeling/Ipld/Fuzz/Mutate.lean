import Ipld.Fuzz.Generate
import Ipld.Token

/-!
# Random changes

A text is changed by putting a token in, by cutting a stretch out, by repeating one, or by changing
the low bits of one character.  A text too short for a change is left as it is.
-/

namespace Ipld.Fuzz

open Ipld.Random

variable {σ : Type} [Source σ]

/-- The symbols, and the parts of comments. -/
def marks : List String :=
  ["\x7b", "\x7d", "[", "]", ":", ",", "&", "//", "/*", "*/", "/"]

/-- Puts a token, or blanks, at a random place. -/
def insertToken (s : String) : Draw σ String := do
  let text := s.toList
  let place ← between 0 text.length
  let keyword ← choice keywords
  let mark ← choice marks
  let fresh ← name
  let blanks := String.ofList (List.replicate (← between 1 3) ' ')
  let token ← choice [keyword, mark, fresh, blanks, "\n", "\t"]
  return String.ofList (text.take place) ++ " " ++ token ++ " " ++ String.ofList (text.drop place)

/-- The bounds of a random stretch of one to ten characters of a text that is not empty. -/
def stretch (length : Nat) : Draw σ (Nat × Nat) := do
  let first ← between 0 (length - 1)
  let last ← between (first + 1) (min (first + 10) length)
  return (first, last)

/-- Cuts out a random stretch. -/
def deleteChunk (s : String) : Draw σ String := do
  let text := s.toList
  if text.length < 2 then return s
  else
    let (first, last) ← stretch text.length
    return String.ofList (text.take first ++ text.drop last)

/-- Repeats a random stretch up to three times more. -/
def repeatChunk (s : String) : Draw σ String := do
  let text := s.toList
  if text.length < 2 then return String.ofList (text ++ text)
  else
    let (first, last) ← stretch text.length
    let chunk := (text.take last).drop first
    let copies := (List.replicate (← between 1 3) chunk).flatten
    return String.ofList (text.take last ++ copies ++ text.drop last)

/-- Changes some of the low seven bits of a random character. -/
def flipCharacter (s : String) : Draw σ String := do
  let text := s.toList
  if text.isEmpty then return s
  else
    let place ← between 0 (text.length - 1)
    let old ← elementAt text place
    let new ← character (old.toNat ^^^ (← between 1 127))
    return String.ofList (text.take place ++ new :: text.drop (place + 1))

/-- The changes there are. -/
inductive Change where
  | insertToken
  | deleteChunk
  | repeatChunk
  | flipCharacter
  deriving DecidableEq, Repr

def Change.make : Change → String → Draw σ String
  | .insertToken => Fuzz.insertToken
  | .deleteChunk => Fuzz.deleteChunk
  | .repeatChunk => Fuzz.repeatChunk
  | .flipCharacter => Fuzz.flipCharacter

def mutate (s : String) : Draw σ String := do
  let change ← choice [Change.insertToken, .deleteChunk, .repeatChunk, .flipCharacter]
  change.make s

/-- Makes several random changes. -/
def mutateTimes (s : String) : (count : Nat) → Draw σ String
  | 0 => return s
  | count + 1 => do mutateTimes (← mutate s) count

end Ipld.Fuzz
