import Ipld.Plain
import Ipld.Proofs.Text.Hex
import Mathlib.Data.Nat.Init

/-!
# Reading JSON

A reader of JSON texts after RFC 8259.  The text is first cut into tokens: the six structural
characters, strings, numbers and the three literal names, with whitespace between any two of them.
The values are then read from the tokens, and nothing may be left.

The reader takes no more than the grammar allows, and less in two places where the grammar allows
what other readers disagree on: half of a surrogate pair in a string, which stands for no character,
and an object with two members of one name.
-/

namespace Ipld.Json

/-- A JSON value.  A number is kept as it is written; the members of an object keep their order. -/
inductive Value where
  | null
  | flag (value : Bool)
  | number (written : String)
  | text (value : String)
  | list (items : List Value)
  | object (members : List (String × Value))
  deriving Repr

mutual

/-- Plain data as a JSON value. -/
def Value.ofPlain : Plain → Value
  | .text value => .text value
  | .flag value => .flag value
  | .texts values => .list (values.map .text)
  | .mapping entries => .object (ofEntries entries)

def Value.ofEntries : List (String × Plain) → List (String × Value)
  | [] => []
  | (name, value) :: rest => (name, .ofPlain value) :: ofEntries rest

end

namespace Reader

open Text

/-! ## Strings -/

/-- The escapes that are one letter, and the characters they stand for. -/
def letterEscapes : List (Char × Char) :=
  [('"', '"'), ('\\', '\\'), ('/', '/'), ('b', '\x08'), ('f', '\x0c'), ('n', '\n'), ('r', '\r'),
    ('t', '\t')]

/-- The second half of a surrogate pair, as an escape. -/
def lowUnit : List Char → Option (Nat × List Char)
  | '\\' :: 'u' :: rest => (readHex? 4 rest).filter fun unit => 0xdc00 ≤ unit.1 && unit.1 < 0xe000
  | _ => none

/-- A character from its code units in hexadecimal, behind `\u`.  The first half of a surrogate pair
has to be followed by the second one. -/
def codeUnits (cs : List Char) : Option (Char × List Char) :=
  match readHex? 4 cs with
  | none => none
  | some (high, rest) =>
    if 0xd800 ≤ high ∧ high < 0xdc00 then
      (lowUnit rest).map fun unit =>
        (Char.ofNat (0x10000 + (high - 0xd800) * 0x400 + (unit.1 - 0xdc00)), unit.2)
    else if 0xdc00 ≤ high ∧ high < 0xe000 then none
    else some (Char.ofNat high, rest)

/-- One character inside a string, and what follows it. -/
def char : List Char → Option (Char × List Char)
  | [] => none
  | '\\' :: 'u' :: rest => codeUnits rest
  | '\\' :: c :: rest => (letterEscapes.lookup c).map fun d => (d, rest)
  | c :: rest => if c.toNat < 0x20 ∨ c = '"' ∨ c = '\\' then none else some (c, rest)

theorem length_lowUnit {cs rest : List Char} {n : Nat} (h : lowUnit cs = some (n, rest)) :
    rest.length < cs.length := by
  unfold lowUnit at h
  split at h
  · have := length_readHex? (Option.filter_eq_some_iff.1 h).1
    simp only [List.length_cons]
    omega
  · cases h

theorem length_codeUnits {cs rest : List Char} {c : Char} (h : codeUnits cs = some (c, rest)) :
    rest.length < cs.length := by
  unfold codeUnits at h
  split at h
  · cases h
  next high left hhigh =>
  have hlength := length_readHex? hhigh
  split at h
  · obtain ⟨⟨low, last⟩, hlow, heq⟩ := Option.map_eq_some_iff.1 h
    obtain rfl : last = rest := (Prod.mk.inj heq).2
    have := length_lowUnit hlow
    omega
  · split at h
    · cases h
    · obtain ⟨-, rfl⟩ := Prod.mk.inj (Option.some.inj h)
      omega

theorem length_char {cs rest : List Char} {c : Char} (h : char cs = some (c, rest)) :
    rest.length < cs.length := by
  unfold char at h
  split at h
  · cases h
  · have := length_codeUnits h
    simp only [List.length_cons]
    omega
  · obtain ⟨d, -, heq⟩ := Option.map_eq_some_iff.1 h
    cases heq
    simp only [List.length_cons]
    omega
  · split at h
    · cases h
    · cases h
      exact Nat.lt_succ_self _

/-- The characters of a string up to its closing quote, and what follows that. -/
def chars (cs : List Char) : Option (List Char × List Char) :=
  if cs.head? = some '"' then some ([], cs.tail)
  else
    match h : char cs with
    | none => none
    | some (c, rest) =>
      have := length_char h
      (chars rest).map fun (more, left) => (c :: more, left)
termination_by cs.length

theorem length_chars {cs text rest : List Char} (h : chars cs = some (text, rest)) :
    rest.length ≤ cs.length := by
  fun_induction chars cs generalizing text with
  | case1 cs =>
    cases h
    exact List.length_tail ▸ Nat.sub_le _ _
  | case2 => cases h
  | case3 cs _ c rest' hchar hlt ih =>
    obtain ⟨⟨more, left⟩, hmore, heq⟩ := Option.map_eq_some_iff.1 h
    cases heq
    have := ih hmore
    omega

/-! ## Tokens -/

inductive Token where
  /-- One of the six structural characters. -/
  | mark (c : Char)
  | null
  | flag (value : Bool)
  | number (written : String)
  | text (value : String)
  deriving Repr

def isSpace (c : Char) : Bool :=
  c ∈ [' ', '\t', '\n', '\r']

def isMark (c : Char) : Bool :=
  c ∈ ['[', ']', '\x7b', '\x7d', ':', ',']

/-- The literal names, and what they stand for. -/
def names : List (List Char × Token) :=
  [("null".toList, .null), ("true".toList, .flag true), ("false".toList, .flag false)]

/-- The digits at the front of a text; there has to be one. -/
def digits (cs : List Char) : Option (List Char) :=
  let found := cs.takeWhile Char.isDigit
  if found.isEmpty then none else some found

/-- The whole part of a number: a zero, or digits that do not begin with one. -/
def whole (cs : List Char) : Option (List Char) :=
  if cs.head? = some '0' then some ['0'] else digits cs

/-- The fraction of a number, with its point; there may be none. -/
def fraction (cs : List Char) : Option (List Char) :=
  if cs.head? = some '.' then (digits cs.tail).map ('.' :: ·) else some []

/-- The exponent of a number, with its letter and sign; there may be none. -/
def exponent : List Char → Option (List Char)
  | [] => some []
  | e :: rest =>
    if e = 'e' ∨ e = 'E' then
      let sign := rest.take (if rest.head? = some '+' ∨ rest.head? = some '-' then 1 else 0)
      (digits (rest.drop sign.length)).map (e :: sign ++ ·)
    else some []

/-- The number at the front of a text, as it is written. -/
def number (cs : List Char) : Option (List Char) := do
  let sign := cs.take (if cs.head? = some '-' then 1 else 0)
  let m ← whole (cs.drop sign.length)
  let f ← fraction (cs.drop (sign ++ m).length)
  let e ← exponent (cs.drop (sign ++ m ++ f).length)
  return sign ++ m ++ f ++ e

/-- The literal name or number that begins with the character `c`, and what follows it. -/
def bareWord (c : Char) (rest : List Char) : Option (Token × List Char) :=
  match names.find? fun name => name.1.isPrefixOf (c :: rest) with
  | some (name, token) => some (token, rest.drop (name.length - 1))
  | none => (number (c :: rest)).map fun written =>
      (.number (String.ofList written), rest.drop (written.length - 1))

theorem length_bareWord {c : Char} {rest left : List Char} {t : Token}
    (h : bareWord c rest = some (t, left)) : left.length ≤ rest.length := by
  unfold bareWord at h
  split at h
  · cases h
    rw [List.length_drop]
    exact Nat.sub_le _ _
  · obtain ⟨written, -, heq⟩ := Option.map_eq_some_iff.1 h
    cases heq
    rw [List.length_drop]
    exact Nat.sub_le _ _

/-- The tokens of a text. -/
def tokens (cs : List Char) : Option (List Token) :=
  match cs with
  | [] => some []
  | c :: rest =>
    if isSpace c then tokens rest
    else if isMark c then (tokens rest).map (.mark c :: ·)
    else if c = '"' then
      match h : chars rest with
      | none => none
      | some (text, left) =>
        have := length_chars h
        (tokens left).map (.text (String.ofList text) :: ·)
    else
      match h : bareWord c rest with
      | none => none
      | some (t, left) =>
        have := length_bareWord h
        (tokens left).map (t :: ·)
termination_by cs.length

/-! ## Values -/

/-- A beginning of the tokens was read, and these are left. -/
abbrev Left (ts : List Token) :=
  { left : List Token // left.length < ts.length }

/-- What is left of the tokens behind the first one is less than what was there before it. -/
def Left.behind {t : Token} {ts : List Token} (left : Left ts) : Left (t :: ts) :=
  ⟨left.1, Nat.lt_succ_of_lt left.2⟩

mutual

/-- The value at the front of the tokens. -/
def value (ts : List Token) : Option (Value × Left ts) :=
  match ts with
  | .null :: rest => some (.null, ⟨rest, Nat.lt_succ_self _⟩)
  | .flag b :: rest => some (.flag b, ⟨rest, Nat.lt_succ_self _⟩)
  | .number written :: rest => some (.number written, ⟨rest, Nat.lt_succ_self _⟩)
  | .text s :: rest => some (.text s, ⟨rest, Nat.lt_succ_self _⟩)
  | .mark '[' :: rest => (list rest).map fun (items, left) => (.list items, left.behind)
  | .mark '\x7b' :: rest =>
    match object rest with
    | none => none
    | some (members, left) =>
      if (members.map Prod.fst).Nodup then some (.object members, left.behind) else none
  | _ => none
termination_by (ts.length, 0)

/-- The items of a list behind its opening bracket, up to the closing one. -/
def list (ts : List Token) : Option (List Value × Left ts) :=
  match ts with
  | .mark ']' :: rest => some ([], ⟨rest, Nat.lt_succ_self _⟩)
  | ts => items ts
termination_by (ts.length, 2)

/-- One item or more, up to the closing bracket. -/
def items (ts : List Token) : Option (List Value × Left ts) :=
  match value ts with
  | none => none
  | some (v, ⟨.mark ']' :: rest, h⟩) => some ([v], ⟨rest, Nat.lt_of_succ_lt h⟩)
  | some (v, ⟨.mark ',' :: rest, h⟩) =>
    have : rest.length < ts.length := Nat.lt_of_succ_lt h
    (items rest).map fun (more, left) => (v :: more, ⟨left.1, Nat.lt_trans left.2 this⟩)
  | some _ => none
termination_by (ts.length, 1)

/-- The members of an object behind its opening brace, up to the closing one. -/
def object (ts : List Token) : Option (List (String × Value) × Left ts) :=
  match ts with
  | .mark '\x7d' :: rest => some ([], ⟨rest, Nat.lt_succ_self _⟩)
  | ts => members ts
termination_by (ts.length, 2)

/-- One member or more, up to the closing brace. -/
def members (ts : List Token) : Option (List (String × Value) × Left ts) :=
  match ts with
  | .text name :: .mark ':' :: rest =>
    match value rest with
    | none => none
    | some (v, ⟨.mark '\x7d' :: left, h⟩) =>
      some ([(name, v)], ⟨left, Nat.lt_of_succ_lt (Nat.lt_succ_of_lt (Nat.lt_succ_of_lt h))⟩)
    | some (v, ⟨.mark ',' :: more, h⟩) =>
      have : more.length < rest.length + 2 := by
        rw [List.length_cons] at h
        omega
      (members more).map fun (found, left) => ((name, v) :: found, ⟨left.1, Nat.lt_trans left.2 this⟩)
    | some _ => none
  | _ => none
termination_by (ts.length, 1)

end

end Reader

/-- The value of a JSON text, when it is one. -/
def read? (text : String) : Option Value :=
  match Reader.tokens text.toList with
  | none => none
  | some ts =>
    match Reader.value ts with
    | some (v, ⟨[], _⟩) => some v
    | _ => none

end Ipld.Json
