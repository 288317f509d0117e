import Ipld.Parser.Declaration

/-!
# The hand-written parser

A cursor holds a whole token list and a position in it, which may lie beyond the end.  A production
is run at the cursor: it reads the tokens from there on, and the cursor moves by as many as it took,
whether it succeeds or fails.  `parse` runs the production of a whole schema on the tokens of a
source.
-/

namespace Ipld

/-- A position in a token list. -/
structure Cursor where
  tokens : List Token
  pos : Nat
  deriving Repr

namespace Cursor

/-- The cursor at the start of a token list. -/
def ofTokens (tokens : List Token) : Cursor :=
  ⟨tokens, 0⟩

def rest (c : Cursor) : List Token :=
  c.tokens.drop c.pos

def atEnd (c : Cursor) : Bool :=
  c.tokens.length ≤ c.pos

/-- The line of the last token of the list, where the end of the input is reported. -/
def lastLine (c : Cursor) : Option Int :=
  c.tokens.getLast?.map Token.line

/-- The cursor at the place where only `left` is still to come. -/
def moveTo (c : Cursor) (left : List Token) : Cursor :=
  { c with pos := c.pos + (c.rest.length - left.length) }

theorem moveTo_of_rest {c : Cursor} {read left : List Token} (h : c.rest = read ++ left) :
    c.moveTo left = { c with pos := c.pos + read.length } := by
  rw [moveTo, h, List.length_append, Nat.add_sub_cancel]

/-- What is left at the place that the cursor moves to. -/
theorem rest_moveTo {c : Cursor} {read left : List Token} (h : c.rest = read ++ left) :
    (c.moveTo left).rest = left := by
  rw [moveTo_of_rest h, rest, ← List.drop_drop]
  exact (congrArg (List.drop read.length) h).trans List.drop_left

/-- Moves over one token, or over nothing beyond the end, and gives the position before. -/
def advance (c : Cursor) : Nat × Cursor :=
  (c.pos, { c with pos := c.pos + 1 })

/-- Runs a production at the cursor. -/
def run {α : Type} (c : Cursor) (production : List Token → Parser.Outcome α) :
    Except Fault α × Cursor :=
  match production c.rest with
  | .ok value left => (.ok value, c.moveTo left)
  | .fail why left => (.error (why.report c.lastLine), c.moveTo left)

theorem run_eq_ok_iff {α : Type} {c d : Cursor} {production : List Token → Parser.Outcome α}
    {value : α} : c.run production = (.ok value, d) ↔
      ∃ left, production c.rest = .ok value left ∧ d = c.moveTo left := by
  unfold run
  cases production c.rest with
  | ok value' left =>
    constructor
    · rintro ⟨⟩
      exact ⟨left, rfl, rfl⟩
    · rintro ⟨_, ⟨⟩, rfl⟩
      rfl
  | fail why left => simp

end Cursor

/-- The schema of a token list. -/
def parseTokens (tokens : List Token) : Except Fault Schema :=
  ((Cursor.ofTokens tokens).run Parser.schema).1

/-- The schema of a source, by the hand-written parser. -/
def parse (source : String) : Except Fault Schema :=
  match tokenize source with
  | .ok tokens => parseTokens tokens
  | .error e => .error e

end Ipld
