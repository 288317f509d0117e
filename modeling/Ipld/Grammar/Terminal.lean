import Ipld.Text.Word

/-!
# Terminals of the grammar

The grammar tells every keyword and every symbol apart: each is a terminal of its own, and one more
terminal stands for all other words.  A lexeme is a terminal together with its text and its line.

Lexemes are read from a source by the longest match at each place.  Reading stops at the first
character that begins nothing: an unclosed block comment is such a place, for its `/` begins neither
a comment nor a lexeme.
-/

namespace Ipld.Grammar

open Text

inductive Terminal where
  | type | struct | enum | map | list | link
  | representation | advanced | rmt
  | optional | nullable
  | bool | string | bytes | int | float
  | ident
  | lbrace | rbrace | lsqb | rsqb | colon | comma | ampersand
  deriving DecidableEq, Repr

namespace Terminal

def all : List Terminal :=
  [.type, .struct, .enum, .map, .list, .link, .representation, .advanced, .rmt, .optional,
    .nullable, .bool, .string, .bytes, .int, .float, .ident, .lbrace, .rbrace, .lsqb, .rsqb,
    .colon, .comma, .ampersand]

theorem mem_all (t : Terminal) : t ∈ all := by
  cases t <;> decide

def name : Terminal → String
  | .type => "TYPE"
  | .struct => "STRUCT"
  | .enum => "ENUM"
  | .map => "MAP"
  | .list => "LIST"
  | .link => "LINK"
  | .representation => "REPRESENTATION"
  | .advanced => "ADVANCED"
  | .rmt => "RMT"
  | .optional => "OPTIONAL"
  | .nullable => "NULLABLE"
  | .bool => "BOOL"
  | .string => "STRING"
  | .bytes => "BYTES"
  | .int => "INT"
  | .float => "FLOAT"
  | .ident => "IDENT"
  | .lbrace => "LBRACE"
  | .rbrace => "RBRACE"
  | .lsqb => "LSQB"
  | .rsqb => "RSQB"
  | .colon => "COLON"
  | .comma => "COMMA"
  | .ampersand => "AMPERSAND"

/-- The name of a terminal in lower case. -/
def lower : Terminal → String
  | .type => "type"
  | .struct => "struct"
  | .enum => "enum"
  | .map => "map"
  | .list => "list"
  | .link => "link"
  | .representation => "representation"
  | .advanced => "advanced"
  | .rmt => "rmt"
  | .optional => "optional"
  | .nullable => "nullable"
  | .bool => "bool"
  | .string => "string"
  | .bytes => "bytes"
  | .int => "int"
  | .float => "float"
  | .ident => "ident"
  | .lbrace => "lbrace"
  | .rbrace => "rbrace"
  | .lsqb => "lsqb"
  | .rsqb => "rsqb"
  | .colon => "colon"
  | .comma => "comma"
  | .ampersand => "ampersand"

/-- The terminal of a word: a reserved word has its own, every other word is an identifier. -/
def ofWord (word : String) : Terminal :=
  if word = "type" then .type
  else if word = "struct" then .struct
  else if word = "enum" then .enum
  else if word = "map" then .map
  else if word = "list" then .list
  else if word = "link" then .link
  else if word = "representation" then .representation
  else if word = "advanced" then .advanced
  else if word = "RMT" then .rmt
  else if word = "optional" then .optional
  else if word = "nullable" then .nullable
  else if word = "Bool" then .bool
  else if word = "String" then .string
  else if word = "Bytes" then .bytes
  else if word = "Int" then .int
  else if word = "Float" then .float
  else .ident

/-- The terminal of a symbol. -/
def ofSymbol? : Char → Option Terminal
  | '\x7b' => some .lbrace
  | '\x7d' => some .rbrace
  | '[' => some .lsqb
  | ']' => some .rsqb
  | ':' => some .colon
  | ',' => some .comma
  | '&' => some .ampersand
  | _ => none

end Terminal

/-- A terminal in a source. -/
structure Lexeme where
  terminal : Terminal
  text : String
  line : Nat
  deriving DecidableEq, Repr

/-- A character of the source at which no lexeme and no gap begins. -/
structure Stray where
  char : Char
  line : Nat
  deriving DecidableEq, Repr

/-- What stands at the front of a source. -/
inductive Front where
  /-- Blanks or a comment. -/
  | gap (text rest : List Char)
  | lexeme (terminal : Terminal) (text rest : List Char)
  | stray (c : Char)
  | finished
  deriving Repr

/-- A blank between lexemes. -/
def isGap (c : Char) : Bool :=
  c == ' ' || c == '\t' || c == '\r' || c == '\n'

/-- The shortest text that ends a block comment, and what follows it. -/
def blockEnd? : List Char → Option (List Char × List Char)
  | [] => none
  | [_] => none
  | c :: d :: rest =>
    if c = '*' ∧ d = '/' then some (['*', '/'], rest)
    else (blockEnd? (d :: rest)).map fun p => (c :: p.1, p.2)

/-- The comment that begins at the front, and what follows it. -/
def comment? : List Char → Option (List Char × List Char)
  | '/' :: '/' :: rest =>
    some ('/' :: '/' :: rest.takeWhile (· ≠ '\n'), rest.dropWhile (· ≠ '\n'))
  | '/' :: '*' :: rest => (blockEnd? rest).map fun p => ('/' :: '*' :: p.1, p.2)
  | _ => none

/-- What stands at the front of a source: the longest run of blanks, the longest word, a symbol or a
comment. -/
def front : List Char → Front
  | [] => .finished
  | c :: rest =>
    if isGap c then .gap (c :: rest.takeWhile isGap) (rest.dropWhile isGap)
    else if isWordChar c then
      let word := c :: rest.takeWhile isWordChar
      .lexeme (Terminal.ofWord (String.ofList word)) word (rest.dropWhile isWordChar)
    else
      match Terminal.ofSymbol? c with
      | some t => .lexeme t [c] rest
      | none =>
        match comment? (c :: rest) with
        | some (text, left) => .gap text left
        | none => .stray c

theorem blockEnd?_eq_append {cs text rest : List Char} (h : blockEnd? cs = some (text, rest)) :
    cs = text ++ rest := by
  fun_induction blockEnd? cs generalizing text rest with
  | case1 => cases h
  | case2 => cases h
  | case3 d c left hend =>
    cases h
    rw [hend.1, hend.2]
    rfl
  | case4 c d left hend ih =>
    obtain ⟨p, hp, heq⟩ := Option.map_eq_some_iff.1 h
    cases heq
    rw [ih hp]
    rfl

theorem comment?_eq_append {cs text rest : List Char} (h : comment? cs = some (text, rest)) :
    cs = text ++ rest ∧ text ≠ [] := by
  unfold comment? at h
  split at h
  · cases h
    simp
  · obtain ⟨p, hp, heq⟩ := Option.map_eq_some_iff.1 h
    cases heq
    rw [blockEnd?_eq_append hp]
    simp
  · cases h

/-- A gap is the text at the front. -/
theorem front_eq_gap {cs text rest : List Char} (h : front cs = .gap text rest) :
    cs = text ++ rest ∧ text ≠ [] := by
  unfold front at h
  split at h
  · cases h
  · split at h
    · cases h
      simp
    · split at h
      · cases h
      · split at h
        · cases h
        · split at h
          · rename_i hc
            cases h
            exact comment?_eq_append hc
          · cases h

/-- A lexeme is the text at the front. -/
theorem front_eq_lexeme {cs text rest : List Char} {t : Terminal}
    (h : front cs = .lexeme t text rest) : cs = text ++ rest ∧ text ≠ [] := by
  unfold front at h
  split at h
  · cases h
  · split at h
    · cases h
    · split at h
      · cases h
        simp
      · split at h
        · cases h
          simp
        · split at h
          · cases h
          · cases h

/-- The lexemes of a source that begins at a given line, up to the first stray character. -/
def lexemes (line : Nat) (cs : List Char) : List Lexeme × Option Stray :=
  match h : front cs with
  | .finished => ([], none)
  | .stray c => ([], some ⟨c, line⟩)
  | .gap text rest =>
    have : rest.length < cs.length := by
      obtain ⟨rfl, hne⟩ := front_eq_gap h
      have := List.length_pos_iff.2 hne
      simp only [List.length_append]
      omega
    lexemes (line + text.count '\n') rest
  | .lexeme t text rest =>
    have : rest.length < cs.length := by
      obtain ⟨rfl, hne⟩ := front_eq_lexeme h
      have := List.length_pos_iff.2 hne
      simp only [List.length_append]
      omega
    let after := lexemes line rest
    (⟨t, String.ofList text, line⟩ :: after.1, after.2)
termination_by cs.length

end Ipld.Grammar
