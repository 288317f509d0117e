import Ipld.Proofs.Token.Refusal

/-!
# The lexer character by character

The lexer moves over whole stretches of text.  Here each of them is gone over by single steps: look
at the next character or at the one behind it, take one character, and stop where there is none.
Taking a character fails at the end of the source, and looking beyond the end gives a NUL, which may
stand in the source as well; that the two readings agree in every state (`scanCharacters_eq`) says
that no character is ever taken where there is none, and that the NUL misleads nobody.
-/

namespace Ipld

open Text

namespace Lexer

/-- Goes on where an operation left the lexer, unless it failed. -/
def andThen {α β : Type} (o : Except Fault α × Lexer) (f : α → Lexer → Except Fault β × Lexer) :
    Except Fault β × Lexer :=
  match o with
  | (.ok a, l) => f a l
  | (.error e, l) => (.error e, l)

/-- Takes characters as long as there is one and it is of the class. -/
def advanceWhile (p : Char → Bool) (l : Lexer) : Except Fault Unit × Lexer :=
  if l.atEnd then (.ok (), l)
  else
    match l.peek 0 with
    | .error e => (.error e, l)
    | .ok c =>
      if p c then
        match h : l.advance with
        | (.error e, l') => (.error e, l')
        | (.ok _, l') =>
          have : l'.rest.length < l.rest.length := by
            rw [rest_advance_ok h]
            exact Nat.lt_succ_self _
          advanceWhile p l'
      else (.ok (), l)
termination_by l.rest.length

/-- Takes characters up to and with the first end of a block comment, and says whether there was
one. -/
def advanceToClosing (l : Lexer) : Except Fault Bool × Lexer :=
  if l.atEnd then (.ok false, l)
  else
    match l.peek 0, l.peek 1 with
    | .error e, _ => (.error e, l)
    | _, .error e => (.error e, l)
    | .ok c, .ok d =>
      if c = '*' ∧ d = '/' then
        andThen l.advance fun _ l₁ => andThen l₁.advance fun _ l₂ => (.ok true, l₂)
      else
        match h : l.advance with
        | (.error e, l') => (.error e, l')
        | (.ok _, l') =>
          have : l'.rest.length < l.rest.length := by
            rw [rest_advance_ok h]
            exact Nat.lt_succ_self _
          advanceToClosing l'
termination_by l.rest.length

/-- All characters of the source, those passed and those to come. -/
def source (l : Lexer) : List Char :=
  l.passed.reverse ++ l.rest

/-- The characters of the source from one position up to another. -/
def slice (l : Lexer) (start stop : Nat) : List Char :=
  (l.source.drop start).take (stop - start)

/-- Takes a run of word characters, which is then the word. -/
def identifierCharacters (l : Lexer) : Except Fault Unit × Lexer :=
  andThen (l.advanceWhile isWordChar) fun _ l' =>
    let word := l'.slice l.pos l'.pos
    (.ok (), l'.add (wordKind (String.ofList word)) word l.line)

/-- Takes the two opening characters and everything up to the end of the comment. -/
def blockCommentCharacters (l : Lexer) : Except Fault Unit × Lexer :=
  andThen l.advance fun _ l₁ => andThen l₁.advance fun _ l₂ =>
    andThen l₂.advanceToClosing fun closed l₃ =>
      if closed then (.ok (), l₃) else (.error (.schema (.unterminatedComment l.line)), l₃)

/-- One blank, one comment or one token, taken character by character. -/
def scanCharacters (l : Lexer) : Except Fault Unit × Lexer :=
  match l.peek 0 with
  | .error e => (.error e, l)
  | .ok c =>
    if isBlank c then andThen l.advance fun _ l' => (.ok (), l')
    else if isSymbol c then andThen l.advance fun d l' => (.ok (), l'.add .symbol [d] l'.line)
    else if isWordChar c then l.identifierCharacters
    else if c = '/' then
      match l.peek 1 with
      | .error e => (.error e, l)
      | .ok d =>
        if d = '/' then l.advanceWhile (· ≠ '\n')
        else if d = '*' then l.blockCommentCharacters
        else (.error (.schema (.unexpectedCharacter c l.line)), l)
    else (.error (.schema (.unexpectedCharacter c l.line)), l)

/-! ## The two readings agree -/

/-- Looking ahead gives the character that is so many places ahead, or a NUL. -/
theorem peek_eq (l : Lexer) (n : Nat) : l.peek n = .ok (l.rest[n]?.getD '\x00') := by
  have hplace : ¬ ((l.pos : Int) + n < 0) := by omega
  have hindex : ((l.pos : Int) + n).toNat = l.passed.reverse.length + n := by
    rw [List.length_reverse, pos]
    omega
  simp only [peek, if_neg hplace, hindex]
  rw [List.getElem?_append_right (Nat.le_add_right _ _), Nat.add_sub_cancel_left]

theorem peek_nil {l : Lexer} (h : l.rest = []) : l.peek 0 = .ok '\x00' := by
  have hpeek := l.peek_eq 0
  rw [h] at hpeek
  exact hpeek

theorem peek_zero {l : Lexer} {c : Char} {rest : List Char} (h : l.rest = c :: rest) :
    l.peek 0 = .ok c := by
  have hpeek := l.peek_eq 0
  rw [h] at hpeek
  exact hpeek

theorem peek_one {l : Lexer} {c : Char} {rest : List Char} (h : l.rest = c :: rest) :
    l.peek 1 = .ok (rest.head?.getD '\x00') := by
  have hpeek := l.peek_eq 1
  rw [h, List.getElem?_cons_succ, ← List.head?_eq_getElem?] at hpeek
  exact hpeek

theorem advance_eq {l : Lexer} {c : Char} {rest : List Char} (h : l.rest = c :: rest) :
    l.advance = (.ok c, l.pass 1) := by
  rw [advance, h]

theorem source_pass (l : Lexer) (n : Nat) : (l.pass n).source = l.source := by
  simp [source, pass]

theorem pos_pass {l : Lexer} {text left : List Char} (h : l.rest = text ++ left) :
    (l.pass text.length).pos = l.pos + text.length := by
  rw [pos, pass, h, List.take_left, List.length_append, List.length_reverse, Nat.add_comm]
  rfl

theorem drop_pos_source (l : Lexer) : l.source.drop l.pos = l.rest :=
  List.drop_left' (List.length_reverse ..)

theorem pass_zero (l : Lexer) : l.pass 0 = l := by
  simp [pass]

theorem atEnd_of_rest {l : Lexer} (h : l.rest = []) : l.atEnd = true :=
  List.isEmpty_iff.2 h

theorem not_atEnd_of_rest {l : Lexer} {c : Char} {rest : List Char} (h : l.rest = c :: rest) :
    ¬ l.atEnd = true := by
  simp [atEnd, h]

theorem rest_pass_one {l : Lexer} {c : Char} {rest : List Char} (h : l.rest = c :: rest) :
    (l.pass 1).rest = rest := by
  rw [rest_pass, h, List.drop_one, List.tail_cons]

/-- One step further along a run. -/
theorem advanceWhile_cons {l : Lexer} {c : Char} {rest : List Char} (h : l.rest = c :: rest)
    (p : Char → Bool) :
    l.advanceWhile p = if p c then (l.pass 1).advanceWhile p else (.ok (), l) := by
  rw [advanceWhile, if_neg (not_atEnd_of_rest h), peek_zero h]
  simp only
  split
  · split
    · next heq => cases heq.symm.trans (advance_eq h)
    · next heq =>
      cases heq.symm.trans (advance_eq h)
      rfl
  · rfl

theorem advanceWhile_eq (p : Char → Bool) (l : Lexer) :
    l.advanceWhile p = (.ok (), l.pass (l.rest.takeWhile p).length) := by
  generalize hrest : l.rest = rest
  induction rest generalizing l with
  | nil =>
    rw [advanceWhile, if_pos (atEnd_of_rest hrest)]
    exact Prod.ext rfl l.pass_zero.symm
  | cons c rest ih =>
    rw [advanceWhile_cons hrest]
    cases hp : p c with
    | false =>
      rw [if_neg Bool.false_ne_true, List.takeWhile_cons, hp]
      exact Prod.ext rfl l.pass_zero.symm
    | true =>
      rw [if_pos rfl, ih _ (rest_pass_one hrest), pass_pass, List.takeWhile_cons_of_pos hp,
        List.length_cons, Nat.add_comm]

/-- One step further in a comment, unless it ends here. -/
theorem advanceToClosing_cons {l : Lexer} {c : Char} {rest : List Char} (h : l.rest = c :: rest) :
    l.advanceToClosing =
      if c = '*' ∧ rest.head? = some '/' then (.ok true, l.pass 2)
      else (l.pass 1).advanceToClosing := by
  rw [advanceToClosing, if_neg (not_atEnd_of_rest h), peek_zero h, peek_one h]
  by_cases hclose : c = '*' ∧ rest.head? = some '/'
  · obtain ⟨rfl, hhead⟩ := hclose
    obtain ⟨left, rfl⟩ := List.head?_eq_some_iff.1 hhead
    simp only [List.head?_cons, Option.getD_some, and_self, if_true]
    rw [advance_eq h, andThen, advance_eq (rest_pass_one h), andThen, pass_pass]
  · -- A NUL in the place of the missing character ends no comment.
    have hgoes : ¬ (c = '*' ∧ rest.head?.getD '\x00' = '/') := by
      rintro ⟨rfl, hhead⟩
      cases rest with
      | nil => cases hhead
      | cons d rest => exact hclose ⟨rfl, congrArg some hhead⟩
    simp only [if_neg hclose, if_neg hgoes]
    split
    · next heq => cases heq.symm.trans (advance_eq h)
    · next heq =>
      cases heq.symm.trans (advance_eq h)
      rfl

theorem advanceToClosing_eq (l : Lexer) :
    l.advanceToClosing = match closing l.rest with
      | some n => (.ok true, l.pass n)
      | none => (.ok false, l.pass l.rest.length) := by
  generalize hrest : l.rest = rest
  induction rest generalizing l with
  | nil =>
    rw [advanceToClosing, if_pos (atEnd_of_rest hrest)]
    exact Prod.ext rfl l.pass_zero.symm
  | cons c rest ih =>
    rw [advanceToClosing_cons hrest]
    by_cases hclose : c = '*' ∧ rest.head? = some '/'
    · rw [if_pos hclose]
      obtain ⟨rfl, hhead⟩ := hclose
      obtain ⟨left, rfl⟩ := List.head?_eq_some_iff.1 hhead
      rfl
    · rw [if_neg hclose, closing_cons hclose, ih _ (rest_pass_one hrest)]
      cases closing rest with
      | some n => simp only [Option.map_some, pass_pass, Nat.add_comm]
      | none => simp only [Option.map_none, pass_pass, List.length_cons, Nat.add_comm]

theorem identifierCharacters_eq (l : Lexer) : l.identifierCharacters = (.ok (), l.identifier) := by
  have hsplit : l.rest = l.rest.takeWhile isWordChar ++ l.rest.dropWhile isWordChar :=
    List.takeWhile_append_dropWhile.symm
  have hword : (l.pass (l.rest.takeWhile isWordChar).length).slice l.pos
      (l.pass (l.rest.takeWhile isWordChar).length).pos = l.rest.takeWhile isWordChar := by
    rw [slice, source_pass, drop_pos_source, pos_pass hsplit, Nat.add_sub_cancel_left]
    exact (congrArg (List.take _) hsplit).trans List.take_left
  rw [identifierCharacters, advanceWhile_eq, andThen]
  simp only [hword]
  rfl

theorem blockCommentCharacters_eq (l : Lexer) : l.blockCommentCharacters = l.blockComment := by
  unfold blockCommentCharacters blockComment
  rcases l.advance with ⟨e | c, l₁⟩
  · rfl
  simp only [andThen]
  rcases l₁.advance with ⟨e | d, l₂⟩
  · rfl
  simp only [advanceToClosing_eq]
  cases closing l₂.rest with
  | some n => rfl
  | none => rfl

/-- A symbol ends no line. -/
theorem line_pass_symbol {l : Lexer} {c : Char} {rest : List Char} (h : l.rest = c :: rest)
    (hblank : ¬ isBlank c = true) : (l.pass 1).line = l.line := by
  have hfeed : ¬ c = '\n' := by
    rintro rfl
    exact hblank rfl
  have hsplit : l.rest = [c] ++ rest := h
  have hline : (l.pass 1).line = l.line + [c].count '\n' := line_pass_length hsplit
  rw [hline, List.count_singleton, beq_false_of_ne hfeed]
  rfl

/-- Taken character by character, a step of the lexer is what it is when taken at a stretch. -/
theorem scanCharacters_eq (l : Lexer) : l.scanCharacters = l.scan := by
  rw [scanCharacters, scan]
  cases hrest : l.rest with
  | nil =>
    rw [peek_nil hrest]
    rfl
  | cons c rest =>
    rw [peek_zero hrest, peek_one hrest, advance_eq hrest, identifierCharacters_eq,
      blockCommentCharacters_eq, advanceWhile_eq]
    simp only [andThen]
    by_cases hblank : isBlank c = true
    · rw [if_pos hblank, if_pos hblank]
    rw [if_neg hblank, if_neg hblank]
    by_cases hsymbol : isSymbol c = true
    · rw [if_pos hsymbol, if_pos hsymbol, line_pass_symbol hrest hblank]
    rw [if_neg hsymbol, if_neg hsymbol]
    by_cases hword : isWordChar c = true
    · rw [if_pos hword, if_pos hword]
    rw [if_neg hword, if_neg hword]
    by_cases hslash : c = '/'
    · subst hslash
      cases rest with
      | nil => rfl
      | cons d rest =>
        by_cases hline : d = '/'
        · subst hline
          rfl
        by_cases hblock : d = '*'
        · subst hblock
          rfl
        · simp [hline, hblock]
    · simp [hslash]

end Lexer

end Ipld
