import Ipld.Token

/-!
# Layouts of a source

A source is words with gaps between them.  A word is a symbol or a run of name characters; a gap is
any number of blanks and comments, and only between two runs it must not be empty.  Whether a text
is a comment depends on what follows it: one that begins with `//` is followed by a line feed or by
the end of the source.  So gaps are read with the rest of the source in view.

The tokens of a layout are its words, each on the line on which it begins.
-/

namespace Ipld

open Text

/-! ## Words -/

/-- A run of name characters. -/
def IsRun (word : List Char) : Prop :=
  word ≠ [] ∧ ∀ c ∈ word, isWordChar c = true

instance (word : List Char) : Decidable (IsRun word) :=
  decidable_of_iff ((!word.isEmpty && word.all isWordChar) = true) (by simp [IsRun])

def IsWord (word : List Char) : Prop :=
  (∃ c, isSymbol c = true ∧ word = [c]) ∨ IsRun word

/-- The kind of the token for a word; a run holds no symbol. -/
def kindOf (word : List Char) : TokenKind :=
  if word.any isSymbol then .symbol else wordKind (String.ofList word)

/-! ## Gaps -/

/-- Behind the text comes the first end of the block comment that it is in: no `*/` begins earlier. -/
def EndsFirst (text : List Char) : Prop :=
  ∀ before after, text ++ ['*', '/'] = before ++ '*' :: '/' :: after → after = []

/-- One blank or one comment, before the text `rest`. -/
inductive Filler (rest : List Char) : List Char → Prop
  | blank {c : Char} (hc : isBlank c = true) : Filler rest [c]
  | lineComment {text : List Char} (htext : '\n' ∉ text) (hrest : ∀ c ∈ rest.head?, c = '\n') :
    Filler rest ('/' :: '/' :: text)
  | blockComment {text : List Char} (htext : EndsFirst text) :
    Filler rest ('/' :: '*' :: (text ++ ['*', '/']))

/-- Any number of blanks and comments, before the text `rest`. -/
inductive Gap (rest : List Char) : List Char → Prop
  | nil : Gap rest []
  | cons {text more : List Char} (htext : Filler (more ++ rest) text) (hmore : Gap rest more) :
    Gap rest (text ++ more)

/-! ## Words and gaps together -/

/-- A word and the gap before it. -/
structure Piece where
  gap : List Char
  word : List Char

/-- The text of the pieces and of a gap after them. -/
def Piece.text (last : List Char) : List Piece → List Char
  | [] => last
  | p :: ps => p.gap ++ (p.word ++ Piece.text last ps)

/-- The tokens of pieces that stand behind the text `before` in their source.  Their lines are
counted from the line feeds before each word. -/
def Piece.tokens (before : List Char) : List Piece → List Token
  | [] => []
  | p :: ps =>
    ⟨kindOf p.word, String.ofList p.word, (1 + (before ++ p.gap).count '\n' : Nat)⟩ ::
      Piece.tokens (before ++ p.gap ++ p.word) ps

/-- The pieces are words and gaps of a source that ends with the gap `last`. -/
inductive Laid (last : List Char) : List Piece → Prop
  | nil (hlast : Gap [] last) : Laid last []
  | cons {p : Piece} {ps : List Piece} (hgap : Gap (p.word ++ Piece.text last ps) p.gap)
    (hword : IsWord p.word)
    (hapart : ∀ q ∈ ps.head?, IsRun p.word → IsRun q.word → q.gap ≠ []) (hrest : Laid last ps) :
    Laid last (p :: ps)

/-- A source as words with the gaps before them and a last gap. -/
structure Layout where
  pieces : List Piece
  last : List Char
  laid : Laid last pieces

namespace Layout

def text (l : Layout) : List Char :=
  Piece.text l.last l.pieces

def words (l : Layout) : List (List Char) :=
  l.pieces.map Piece.word

def tokens (l : Layout) : List Token :=
  Piece.tokens [] l.pieces

end Layout

/-! ## Kinds of words -/

/-- A token without its line. -/
def Token.spelling (t : Token) : TokenKind × String :=
  (t.kind, t.value)

theorem spelling_tokens (before : List Char) (ps : List Piece) :
    (Piece.tokens before ps).map Token.spelling =
      (ps.map Piece.word).map fun word => (kindOf word, String.ofList word) := by
  induction ps generalizing before with
  | nil => rfl
  | cons p ps ih =>
    simp only [Piece.tokens, List.map_cons, ih, Token.spelling]

theorem kindOf_of_isSymbol {c : Char} (h : isSymbol c = true) : kindOf [c] = .symbol := by
  simp [kindOf, h]

theorem cases_of_isSymbol {c : Char} (h : isSymbol c = true) :
    c = '{' ∨ c = '}' ∨ c = '[' ∨ c = ']' ∨ c = ':' ∨ c = ',' ∨ c = '&' := by
  simpa [isSymbol] using h

theorem isWordChar_of_isSymbol {c : Char} (h : isSymbol c = true) : isWordChar c = false := by
  rcases cases_of_isSymbol h with rfl | rfl | rfl | rfl | rfl | rfl | rfl
  all_goals decide

theorem isWordChar_of_isBlank {c : Char} (h : isBlank c = true) : isWordChar c = false := by
  have hcases : c = ' ' ∨ c = '\t' ∨ c = '\r' ∨ c = '\n' := by simpa [isBlank] using h
  rcases hcases with rfl | rfl | rfl | rfl
  all_goals decide

theorem not_isRun_of_isSymbol {c : Char} (h : isSymbol c = true) : ¬ IsRun [c] := by
  intro hrun
  have hc := hrun.2 c List.mem_cons_self
  rw [isWordChar_of_isSymbol h] at hc
  cases hc

theorem kindOf_of_isRun {word : List Char} (h : IsRun word) :
    kindOf word = wordKind (String.ofList word) := by
  rw [kindOf, if_neg]
  intro hany
  obtain ⟨c, hmem, hc⟩ := List.any_eq_true.1 hany
  have hword := h.2 c hmem
  rw [isWordChar_of_isSymbol hc] at hword
  cases hword

/-- No word goes over the end of a line. -/
theorem IsWord.count_eq_zero {word : List Char} (h : IsWord word) : word.count '\n' = 0 := by
  rw [List.count_eq_zero]
  intro hmem
  rcases h with ⟨c, hc, rfl⟩ | hrun
  · rw [List.mem_singleton] at hmem
    subst hmem
    cases hc
  · have := hrun.2 '\n' hmem
    exact absurd this (by decide)

/-- A gap does not begin with a name character. -/
theorem Gap.head {rest gap : List Char} (h : Gap rest gap) {c : Char} (hc : c ∈ gap.head?) :
    isWordChar c = false := by
  cases h with
  | nil => cases hc
  | cons htext _ =>
    cases htext with
    | blank hblank =>
      cases hc
      exact isWordChar_of_isBlank hblank
    | lineComment =>
      cases hc
      decide
    | blockComment =>
      cases hc
      decide

/-! ## Gaps before other texts

Only the first character of what follows a gap plays a part, and nothing at all may follow every
gap. -/

theorem Filler.congr {rest rest' text : List Char} (h : Filler rest text)
    (hhead : ∀ c ∈ rest'.head?, c ∈ rest.head?) : Filler rest' text := by
  cases h with
  | blank hc => exact .blank hc
  | lineComment htext hrest => exact .lineComment htext fun c hc => hrest c (hhead c hc)
  | blockComment htext => exact .blockComment htext

theorem Gap.congr {rest rest' gap : List Char} (h : Gap rest gap)
    (hhead : ∀ c ∈ rest'.head?, c ∈ rest.head?) : Gap rest' gap := by
  induction h with
  | nil => exact .nil
  | @cons text more htext _ ih =>
    refine .cons (htext.congr fun c hc => ?_) ih
    cases more with
    | nil => exact hhead c hc
    | cons d more => exact hc

theorem Gap.before_nil {rest gap : List Char} (h : Gap rest gap) : Gap [] gap :=
  h.congr nofun

theorem Laid.gap_last {last : List Char} {ps : List Piece} (h : Laid last ps) : Gap [] last := by
  induction h with
  | nil hlast => exact hlast
  | cons _ _ _ _ ih => exact ih

theorem IsWord.ne_nil {word : List Char} (h : IsWord word) : word ≠ [] := by
  rcases h with ⟨c, -, rfl⟩ | hrun
  · exact List.cons_ne_nil _ _
  · exact hrun.1

/-- Behind a word it does not matter what follows. -/
theorem head?_word_append {word : List Char} (h : IsWord word) (rest rest' : List Char) :
    (word ++ rest).head? = (word ++ rest').head? := by
  obtain ⟨c, left, rfl⟩ := List.exists_cons_of_ne_nil h.ne_nil
  rfl

end Ipld
