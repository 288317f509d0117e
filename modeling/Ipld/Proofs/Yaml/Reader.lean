import Ipld.Proofs.Text.Hex
import Ipld.Proofs.Yaml.Resolution

/-!
# Reading YAML

A reader of YAML 1.1 documents in block style.  The text is first cut into tokens, each with its
column: the indicators `-`, `?` and `:`, keys, scalars and empty collections.  An indicator or a key
can stand at the beginning of a line and behind another indicator, and nowhere else.  The columns
then tell what belongs to what: a node has a greater column than the mapping or list around it, but
a list in a mapping may stand at the column of its key.

The reader knows a part of YAML and refuses the rest: comments, tabs, tags, anchors, block scalars,
collections in flow style that are not empty, directives and document markers, characters beyond
ASCII that are not escaped, and scalars with blanks or line breaks that are not in double quotes and
escaped there.  What it does read has no other reading in YAML.  A simple key may have any length; a
key is a scalar, and a mapping that repeats one is refused.
-/

namespace Ipld.Yaml

/-- A YAML node with its scalars resolved; entries keep their order. -/
inductive Value where
  | atom (a : Atom)
  | list (items : List Value)
  | mapping (entries : List (Atom × Value))
  deriving Repr

mutual

/-- Plain data as a YAML node; names and texts are texts. -/
def Value.ofPlain : Plain → Value
  | .text value => .atom (.text value)
  | .flag value => .atom (.flag value)
  | .texts values => .list (values.map fun value => .atom (.text value))
  | .mapping entries => .mapping (ofEntries entries)

def Value.ofEntries : List (String × Plain) → List (Atom × Value)
  | [] => []
  | (name, value) :: rest => (.text name, .ofPlain value) :: ofEntries rest

end

namespace Reader

open Text

/-! ## Scalars -/

/-- The escapes that are one character, and what they stand for. -/
def letterEscapes : List (Char × Char) :=
  [('0', '\x00'), ('a', '\x07'), ('b', '\x08'), ('t', '\t'), ('\t', '\t'), ('n', '\n'),
    ('v', '\x0b'), ('f', '\x0c'), ('r', '\r'), ('e', '\x1b'), (' ', ' '), ('"', '"'), ('/', '/'),
    ('\\', '\\'), ('N', '\u0085'), ('_', '\u00a0'), ('L', '\u2028'), ('P', '\u2029')]

/-- The escapes of code points, and how many digits follow them. -/
def codeWidths : List (Char × Nat) :=
  [('x', 2), ('u', 4), ('U', 8)]

def ofCode? (n : Nat) : Option Char :=
  if n.isValidChar then some (Char.ofNat n) else none

/-- The character for the escape `\c`, and what follows it. -/
def escape (c : Char) (rest : List Char) : Option (Char × List Char) :=
  match codeWidths.lookup c with
  | some width => (readHex? width rest).bind fun code => (ofCode? code.1).map fun d => (d, code.2)
  | none => (letterEscapes.lookup c).map fun d => (d, rest)

def isAsciiText (c : Char) : Bool :=
  0x20 ≤ c.toNat && c.toNat ≤ 0x7e

/-- What comes next in double quotes: a character, or an escaped line break with the indentation
of the next line, which stand for nothing. -/
def piece : List Char → Option (Option Char × List Char)
  | [] => none
  | '\\' :: '\n' :: ' ' :: rest => some (none, rest.dropWhile (· = ' '))
  | '\\' :: c :: rest => (escape c rest).map fun (d, left) => (some d, left)
  | c :: rest => if isAsciiText c ∧ c ≠ '"' ∧ c ≠ '\\' then some (some c, rest) else none

theorem length_escape {c d : Char} {rest left : List Char} (h : escape c rest = some (d, left)) :
    left.length ≤ rest.length := by
  unfold escape at h
  split at h
  · obtain ⟨code, hcode, h⟩ := Option.bind_eq_some_iff.1 h
    obtain ⟨e, -, heq⟩ := Option.map_eq_some_iff.1 h
    obtain rfl : code.2 = left := (Prod.mk.inj heq).2
    have := length_readHex? hcode
    omega
  · obtain ⟨e, -, heq⟩ := Option.map_eq_some_iff.1 h
    obtain rfl : rest = left := (Prod.mk.inj heq).2
    exact Nat.le_refl _

theorem length_piece {cs left : List Char} {c : Option Char} (h : piece cs = some (c, left)) :
    left.length < cs.length := by
  unfold piece at h
  split at h
  · cases h
  · next rest =>
    cases h
    have := (List.dropWhile_sublist (fun c : Char => decide (c = ' ')) (l := rest)).length_le
    simp only [List.length_cons]
    omega
  · obtain ⟨⟨d, last⟩, hescape, heq⟩ := Option.map_eq_some_iff.1 h
    obtain rfl : last = left := (Prod.mk.inj heq).2
    have := length_escape hescape
    simp only [List.length_cons]
    omega
  · split at h
    · cases h
      exact Nat.lt_succ_self _
    · cases h

/-- A text in double quotes up to the closing one, whether it stands on one line, and what follows
it. -/
def doubleQuoted (cs : List Char) : Option (List Char × Bool × List Char) :=
  if cs.head? = some '"' then some ([], true, cs.tail)
  else
    match h : piece cs with
    | none => none
    | some (c, rest) =>
      have := length_piece h
      (doubleQuoted rest).map fun (text, oneLine, left) =>
        (c.toList ++ text, c.isSome && oneLine, left)
termination_by cs.length

/-- A text in single quotes up to the closing one, and what follows it.  Two quotes stand for
one. -/
def singleQuoted : List Char → Option (List Char × List Char)
  | [] => none
  | '\'' :: '\'' :: rest => (singleQuoted rest).map fun (text, left) => ('\'' :: text, left)
  | '\'' :: rest => some ([], rest)
  | c :: rest =>
    if isAsciiText c then (singleQuoted rest).map fun (text, left) => (c :: text, left) else none

/-- The characters that no scalar without quotes begins with. -/
def indicators : List Char :=
  ['-', '?', ':', ',', '[', ']', '\x7b', '\x7d', '#', '&', '*', '!', '|', '>', '\'', '"', '%', '@',
    '\x60']

def isBareText (c : Char) : Bool :=
  isAsciiText c && c != ' '

/-- The scalar without quotes at the front of a text.  A colon behind it does not belong to it. -/
def bare (cs : List Char) : List Char :=
  let run := cs.takeWhile isBareText
  if run.getLast? = some ':' then run.dropLast else run

/-- Whether a scalar without quotes can be read as one. -/
def canStand (word : List Char) : Bool :=
  match word with
  | [] => false
  | c :: _ => c ∉ indicators && word != "...".toList

/-! ## Tokens -/

inductive Mark where
  | item
  | question
  | value
  | key (a : Atom)
  | scalar (a : Atom)
  | emptyList
  | emptyMapping
  deriving DecidableEq, Repr

/-- A token and its column; columns count from one. -/
structure Token where
  column : Nat
  mark : Mark
  deriving DecidableEq, Repr

/-- What is not an indicator: its mark, its mark as a key when it can be one, and what follows. -/
def content : List Char → Option (Mark × Option Mark × List Char)
  | '[' :: ']' :: rest => some (.emptyList, none, rest)
  | '\x7b' :: '\x7d' :: rest => some (.emptyMapping, none, rest)
  | '"' :: rest => (doubleQuoted rest).map fun (text, oneLine, left) =>
      (.scalar (.text (String.ofList text)),
        if oneLine then some (.key (.text (String.ofList text))) else none, left)
  | '\'' :: rest => (singleQuoted rest).map fun (text, left) =>
      (.scalar (.text (String.ofList text)), some (.key (.text (String.ofList text))), left)
  | cs =>
    if canStand (bare cs) then
      some (.scalar (resolve (bare cs)), some (.key (resolve (bare cs))), cs.drop (bare cs).length)
    else none

def indicator? : Char → Option Mark
  | '-' => some .item
  | '?' => some .question
  | ':' => some .value
  | _ => none

/-- A blank follows, or the end of the line. -/
def endsWord (cs : List Char) : Bool :=
  cs.head?.all fun c => c == ' ' || c == '\n'

/-- Nothing but blanks follows up to the end of the line. -/
def endsLine (cs : List Char) : Bool :=
  (cs.dropWhile (· = ' ')).head?.all (· == '\n')

theorem length_doubleQuoted {cs text left : List Char} {oneLine : Bool}
    (h : doubleQuoted cs = some (text, oneLine, left)) : left.length ≤ cs.length := by
  fun_induction doubleQuoted cs generalizing text oneLine with
  | case1 cs =>
    cases h
    exact List.length_tail ▸ Nat.sub_le _ _
  | case2 => cases h
  | case3 cs _ c rest hpiece hlt ih =>
    obtain ⟨⟨more, one, last⟩, hmore, heq⟩ := Option.map_eq_some_iff.1 h
    cases heq
    have := ih hmore
    omega

theorem length_singleQuoted {cs text left : List Char}
    (h : singleQuoted cs = some (text, left)) : left.length ≤ cs.length := by
  fun_induction singleQuoted cs generalizing text with
  | case1 => cases h
  | case2 rest ih =>
    obtain ⟨⟨more, last⟩, hmore, heq⟩ := Option.map_eq_some_iff.1 h
    cases heq
    have := ih hmore
    simp only [List.length_cons]
    omega
  | case3 =>
    cases h
    exact Nat.le_succ _
  | case4 c rest _ _ _ ih =>
    obtain ⟨⟨more, last⟩, hmore, heq⟩ := Option.map_eq_some_iff.1 h
    cases heq
    have := ih hmore
    simp only [List.length_cons]
    omega
  | case5 => cases h

theorem isPrefix_bare (cs : List Char) : bare cs <+: cs := by
  unfold bare
  simp only
  split
  · exact (List.dropLast_prefix _).trans (List.takeWhile_prefix _)
  · exact List.takeWhile_prefix _

theorem length_content {cs left : List Char} {mark : Mark} {key : Option Mark}
    (h : content cs = some (mark, key, left)) : left.length < cs.length := by
  unfold content at h
  split at h
  · cases h
    exact Nat.lt_succ_of_lt (Nat.lt_succ_self _)
  · cases h
    exact Nat.lt_succ_of_lt (Nat.lt_succ_self _)
  · obtain ⟨⟨text, one, last⟩, htext, heq⟩ := Option.map_eq_some_iff.1 h
    cases heq
    exact Nat.lt_succ_of_le (length_doubleQuoted htext)
  · obtain ⟨⟨text, last⟩, htext, heq⟩ := Option.map_eq_some_iff.1 h
    cases heq
    exact Nat.lt_succ_of_le (length_singleQuoted htext)
  · split at h
    · next hstand =>
      cases h
      have hpos : 0 < (bare cs).length := by
        rw [List.length_pos_iff]
        intro hnil
        rw [hnil] at hstand
        cases hstand
      have := (isPrefix_bare cs).length_le
      rw [List.length_drop]
      omega
    · cases h

/-- The tokens of a text that begins at `column`; `fresh` says that an indicator or a key may stand
there. -/
def tokens (fresh : Bool) (column : Nat) (cs : List Char) : Option (List Token) :=
  match cs with
  | [] => some []
  | '\n' :: rest => tokens true 1 rest
  | ' ' :: rest => tokens fresh (column + 1) rest
  | c :: rest =>
    match if fresh && endsWord rest then indicator? c else none with
    | some mark => (tokens true (column + 1) rest).map (⟨column, mark⟩ :: ·)
    | none =>
      match h : content (c :: rest) with
      | none => none
      | some (_, some key, ':' :: more) =>
        have : more.length < rest.length := Nat.lt_of_succ_lt_succ (length_content h)
        if fresh && endsWord more then
          (tokens false (column + (rest.length + 1 - more.length)) more).map (⟨column, key⟩ :: ·)
        else none
      | some (mark, _, left) =>
        have : left.length ≤ rest.length := Nat.le_of_lt_succ (length_content h)
        if endsLine left then (tokens false column left).map (⟨column, mark⟩ :: ·) else none
termination_by cs.length

/-! ## Nodes -/

/-- Whether a token belongs to what stands under a key at column `c`. -/
def within (c : Nat) (t : Token) : Bool :=
  c < t.column || t.column = c && t.mark = .item

/-- Entries that do not repeat a key. -/
def distinct (entries : List (Atom × Value)) : Option Value :=
  if (entries.map Prod.fst).Nodup then some (.mapping entries) else none

theorem length_takeWhile_le (p : Token → Bool) (ts : List Token) :
    (ts.takeWhile p).length ≤ ts.length :=
  (List.takeWhile_sublist p).length_le

theorem length_dropWhile_le (p : Token → Bool) (ts : List Token) :
    (ts.dropWhile p).length ≤ ts.length :=
  (List.dropWhile_sublist p).length_le

mutual

/-- The node that all of the tokens are; no token is null. -/
def node (ts : List Token) : Option Value :=
  match ts with
  | [] => some (.atom .null)
  | [⟨_, .scalar a⟩] => some (.atom a)
  | [⟨_, .emptyList⟩] => some (.list [])
  | [⟨_, .emptyMapping⟩] => some (.mapping [])
  | ⟨c, .item⟩ :: rest => (items c (⟨c, .item⟩ :: rest)).map .list
  | ⟨c, .key a⟩ :: rest => (entries c (⟨c, .key a⟩ :: rest)).bind distinct
  | ⟨c, .question⟩ :: rest => (entries c (⟨c, .question⟩ :: rest)).bind distinct
  | _ => none
termination_by (ts.length, 1)

/-- The items of a list at column `c`. -/
def items (c : Nat) (ts : List Token) : Option (List Value) :=
  match ts with
  | [] => some []
  | t :: rest =>
    if t = ⟨c, .item⟩ then
      have := length_takeWhile_le (c < ·.column) rest
      have := length_dropWhile_le (c < ·.column) rest
      (node (rest.takeWhile (c < ·.column))).bind fun v =>
        (items c (rest.dropWhile (c < ·.column))).map (v :: ·)
    else none
termination_by (ts.length, 0)

/-- The entries of a mapping at column `c`. -/
def entries (c : Nat) (ts : List Token) : Option (List (Atom × Value)) :=
  match ts with
  | [] => some []
  | ⟨c', .key a⟩ :: rest =>
    if c' = c then
      have := length_takeWhile_le (within c) rest
      have := length_dropWhile_le (within c) rest
      (node (rest.takeWhile (within c))).bind fun v =>
        (entries c (rest.dropWhile (within c))).map ((a, v) :: ·)
    else none
  | ⟨c', .question⟩ :: rest =>
    if c' = c then
      have := length_takeWhile_le (within c) rest
      have hle := length_dropWhile_le (within c) rest
      match node (rest.takeWhile (within c)), h : rest.dropWhile (within c) with
      | some (.atom a), t :: more =>
        if t = ⟨c, .value⟩ then
          have : more.length < rest.length := by
            rw [h] at hle
            exact hle
          have := length_takeWhile_le (within c) more
          have := length_dropWhile_le (within c) more
          (node (more.takeWhile (within c))).bind fun v =>
            (entries c (more.dropWhile (within c))).map ((a, v) :: ·)
        else none
      | _, _ => none
    else none
  | _ => none
termination_by (ts.length, 0)

end

end Reader

/-- The node of a YAML document, when the reader knows it. -/
def read? (text : String) : Option Value :=
  (Reader.tokens true 1 text.toList).bind Reader.node

end Ipld.Yaml
