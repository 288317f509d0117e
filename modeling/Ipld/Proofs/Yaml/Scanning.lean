import Ipld.Proofs.Yaml.Reader
import Mathlib.Data.List.TakeWhile

/-!
# YAML scalars read back

Each form in which a text is written is read as that text: a word that is no other scalar, a word in
single quotes, and a text in double quotes.  The last one may be folded; the reader drops each
escaped line break with the indentation behind it, so a text without blanks comes out whole.
-/

namespace Ipld.Yaml

open Reader Text

/-! ## Double quotes -/

theorem ofCode?_toNat (c : Char) : ofCode? c.toNat = some c := by
  rw [ofCode?, if_pos (show c.toNat.isValidChar from c.valid), Char.ofNat_toNat]

theorem piece_of_isBare {c : Char} (h : isBare c = true) (rest : List Char) :
    piece (c :: rest) = some (some c, rest) := by
  simp only [isBare, Bool.and_eq_true, decide_eq_true_eq, bne_iff_ne] at h
  obtain ⟨⟨⟨hlow, hhigh⟩, hquote⟩, hslash⟩ := h
  have hascii : isAsciiText c = true := by
    rw [isAsciiText, decide_eq_true hlow, decide_eq_true hhigh]
    rfl
  unfold piece
  split
  · next heq => cases heq
  · next heq =>
    cases heq
    exact absurd rfl hslash
  · next heq =>
    cases heq
    exact absurd rfl hslash
  · next heq =>
    cases heq
    rw [if_pos ⟨hascii, hquote, hslash⟩]

theorem piece_code {x : Char} {width n : Nat} {c : Char} (hx : codeWidths.lookup x = some width)
    (hbreak : x ≠ '\n') (hn : n < 16 ^ width) (hc : ofCode? n = some c) (rest : List Char) :
    piece ('\\' :: x :: (hexPadded .upper width n ++ rest)) = some (some c, rest) := by
  have hescape : escape x (hexPadded .upper width n ++ rest) = some (c, rest) := by
    rw [escape, hx]
    simp only
    rw [readHex?_hexPadded .upper hn, Option.bind_some, hc, Option.map_some]
  generalize hexPadded .upper width n ++ rest = left at hescape
  unfold piece
  split
  · next heq => cases heq
  · next heq =>
    cases heq
    exact absurd rfl hbreak
  · next heq =>
    cases heq
    rw [hescape, Option.map_some]
  · next hno heq =>
    cases heq
    exact (hno x left rfl rfl).elim

theorem piece_escapeChar (c : Char) (rest : List Char) :
    piece (escapeChar c ++ rest) = some (some c, rest) := by
  have hcode := ofCode?_toNat c
  unfold escapeChar
  split
  · next h =>
    rcases h with rfl | rfl
    · rfl
    · rfl
  split
  · next h => exact piece_code rfl (by decide) (Nat.lt_succ_of_le h) hcode rest
  split
  · next h => exact piece_code rfl (by decide) (Nat.lt_succ_of_le h) hcode rest
  · have hbounds := toNat_bounds c
    exact piece_code rfl (by decide) (by omega) hcode rest

theorem dropWhile_blanks (n : Nat) {cs : List Char} (h : cs.head? ≠ some ' ') :
    (List.replicate n ' ' ++ cs).dropWhile (· = ' ') = cs := by
  induction n with
  | zero =>
    cases cs with
    | nil => rfl
    | cons c cs =>
      have hc : ¬ (decide (c = ' ')) = true := fun heq => h (congrArg some (of_decide_eq_true heq))
      exact List.dropWhile_cons_of_neg hc
  | succ n ih =>
    rw [List.replicate_succ, List.cons_append, List.dropWhile_cons_of_pos (by decide), ih]

/-- An escaped line break and the indentation behind it stand for nothing. -/
theorem piece_foldBreak (n : Nat) {cs : List Char} (h : cs.head? ≠ some ' ') :
    piece (foldBreak (n + 1) ++ cs) = some (none, cs) := by
  rw [foldBreak, List.replicate_succ, List.cons_append, List.cons_append, List.cons_append, piece,
    dropWhile_blanks n h]

theorem doubleQuoted_of_piece {cs left : List Char} {c : Option Char}
    (h : piece cs = some (c, left)) :
    doubleQuoted cs = (doubleQuoted left).map fun (text, oneLine, last) =>
      (c.toList ++ text, c.isSome && oneLine, last) := by
  have hhead : cs.head? ≠ some '"' := by
    intro hhead
    obtain ⟨tail, rfl⟩ := List.head?_eq_some_iff.1 hhead
    cases h
  rw [doubleQuoted, if_neg hhead]
  split
  · next hnone => cases hnone.symm.trans h
  · next hsome =>
    cases hsome.symm.trans h
    rfl

theorem doubleQuoted_quote (rest : List Char) :
    doubleQuoted ('"' :: rest) = some ([], true, rest) := by
  rw [doubleQuoted, if_pos List.head?_cons]
  rfl

theorem doubleQuoted_unfolded (cs rest : List Char) :
    doubleQuoted (unfolded cs ++ '"' :: rest) = some (cs, true, rest) := by
  induction cs with
  | nil => exact doubleQuoted_quote rest
  | cons c cs ih =>
    have hpiece : piece ((if isBare c then [c] else escapeChar c) ++ (unfolded cs ++ '"' :: rest)) =
        some (some c, unfolded cs ++ '"' :: rest) := by
      split
      · next h => exact piece_of_isBare h _
      · exact piece_escapeChar c _
    rw [unfolded, List.flatMap_cons, List.append_assoc]
    rw [unfolded] at hpiece ih
    rw [doubleQuoted_of_piece hpiece, ih]
    rfl

/-- A folded text without blanks does not begin with one. -/
theorem head?_folded (indent column pending : Nat) (first : Bool) {cs : List Char}
    (h : ' ' ∉ cs) (rest : List Char) :
    (folded indent first column pending cs ++ '"' :: rest).head? ≠ some ' ' := by
  have hescape : ∀ (c : Char) (left : List Char), (escapeChar c ++ left).head? ≠ some ' ' := by
    intro c left
    unfold escapeChar
    split
    · nofun
    split
    · nofun
    split
    · nofun
    · nofun
  cases cs with
  | nil => nofun
  | cons c cs =>
    rw [folded]
    simp only
    split
    · split
      · nofun
      · intro hhead
        cases hhead
        exact h List.mem_cons_self
    · split
      · rw [List.append_assoc, List.append_assoc]
        exact hescape c _
      · rw [List.append_assoc]
        exact hescape c _

/-- Where a text is folded makes no difference.  The counts of columns only decide that, so the
induction is over them all. -/
theorem exists_doubleQuoted_folded (indent : Nat) {cs : List Char} (h : ' ' ∉ cs) (first : Bool)
    (column pending : Nat) (rest : List Char) :
    ∃ oneLine, doubleQuoted (folded (indent + 1) first column pending cs ++ '"' :: rest) =
      some (cs, oneLine, rest) := by
  induction cs generalizing first column pending with
  | nil => exact ⟨true, doubleQuoted_quote rest⟩
  | cons c cs ih =>
    rw [List.mem_cons, not_or] at h
    have hbreak : ∀ {left : List Char}, left.head? ≠ some ' ' →
        doubleQuoted (foldBreak (indent + 1) ++ left) =
          (doubleQuoted left).map fun (text, _, last) => (text, false, last) := fun hleft =>
      doubleQuoted_of_piece (piece_foldBreak indent hleft)
    have hescape := fun left => doubleQuoted_of_piece (piece_escapeChar c left)
    rw [folded]
    simp only
    split
    · next hbare =>
      have hchar := fun left => doubleQuoted_of_piece (piece_of_isBare hbare left)
      split
      · obtain ⟨oneLine, hread⟩ := ih h.2 false (indent + 1) 1
        have hhead : (c :: (folded (indent + 1) false (indent + 1) 1 cs ++ '"' :: rest)).head? ≠
            some ' ' := fun hhead => h.1 (Option.some.inj hhead).symm
        rw [List.append_assoc, List.cons_append, hbreak hhead, hchar, hread]
        exact ⟨_, rfl⟩
      · obtain ⟨oneLine, hread⟩ := ih h.2 false column (pending + 1)
        rw [List.cons_append, hchar, hread]
        exact ⟨_, rfl⟩
    · split
      · obtain ⟨oneLine, hread⟩ := ih h.2 false (indent + 1) 0
        have hhead := head?_folded (indent + 1) (indent + 1) 0 false h.2 rest
        rw [List.append_assoc, List.append_assoc, hescape, hbreak hhead, hread]
        exact ⟨_, rfl⟩
      · obtain ⟨oneLine, hread⟩ := ih h.2 false (column + pending + (escapeChar c).length) 0
        rw [List.append_assoc, hescape, hread]
        exact ⟨_, rfl⟩

/-! ## Words and single quotes -/

/-- A scalar ends here: a blank follows, the end of the line, or the colon behind a key. -/
def Ended (rest : List Char) : Prop :=
  endsWord rest = true ∨ ∃ more, rest = ':' :: more ∧ endsWord more = true

theorem isAsciiText_of_isWordChar {c : Char} (h : isWordChar c = true) (hc : c.toNat < 0x80) :
    isAsciiText c = true := by
  have hall : ∀ n < 0x80, wordIntervals.contains n = true →
      (decide (0x20 ≤ n) && decide (n ≤ 0x7e)) = true := by decide
  exact hall _ hc h

theorem isAsciiText_of_isAsciiWord {w : List Char} (h : isAsciiWord w = true) {c : Char}
    (hc : c ∈ w) : isAsciiText c = true := by
  obtain ⟨hword, hascii⟩ := Bool.and_eq_true_iff.1 (List.all_eq_true.1 h c hc)
  exact isAsciiText_of_isWordChar hword (of_decide_eq_true hascii)

/-- What stands behind the end of a word does not belong to it. -/
theorem bare_word {w rest : List Char} (hword : isAsciiWord w = true) (hrest : Ended rest) :
    bare (w ++ rest) = w := by
  have hblank : ' ' ∉ w := not_mem_of_isAsciiWord hword (by decide)
  have hcolon : ':' ∉ w := not_mem_of_isAsciiWord hword (by decide)
  have hrun : ∀ left, (w ++ left).takeWhile isBareText = w ++ left.takeWhile isBareText := by
    intro left
    refine List.takeWhile_append_of_pos fun c hc => ?_
    rw [isBareText, isAsciiText_of_isAsciiWord hword hc, Bool.true_and, bne_iff_ne]
    rintro rfl
    exact hblank hc
  have hend : ∀ {left}, endsWord left = true → left.takeWhile isBareText = [] := by
    intro left hleft
    cases left with
    | nil => rfl
    | cons c left =>
      rcases Bool.or_eq_true_iff.1 hleft with h | h
      · obtain rfl := eq_of_beq h
        rfl
      · obtain rfl := eq_of_beq h
        rfl
  unfold bare
  rcases hrest with h | ⟨more, rfl, h⟩
  · rw [hrun, hend h, List.append_nil]
    exact if_neg fun hlast => hcolon (List.mem_of_getLast? hlast)
  · -- The run goes on over the colon, which is then taken back.
    have hkey : (':' :: more).takeWhile isBareText = [':'] := by
      rw [List.takeWhile_cons_of_pos (by decide), hend h]
    rw [hrun, hkey]
    exact (if_pos List.getLast?_concat).trans List.dropLast_concat

theorem canStand_word {w : List Char} (hword : isAsciiWord w = true) (hne : w ≠ []) :
    canStand w = true := by
  obtain ⟨c, rest, rfl⟩ := List.exists_cons_of_ne_nil hne
  have hindicator : ∀ d ∈ indicators, (!isWordChar d) = true := List.all_eq_true.1 (by decide)
  have hdots : c :: rest ≠ "...".toList := fun heq =>
    not_mem_of_isAsciiWord hword (c := '.') (by decide) (heq ▸ by decide)
  rw [canStand, Bool.and_eq_true, decide_eq_true_eq, bne_iff_ne]
  refine ⟨fun hc => ?_, hdots⟩
  exact not_mem_of_isAsciiWord hword (Bool.not_eq_true' _ ▸ hindicator c hc) List.mem_cons_self

theorem content_word {w rest : List Char} (hword : isAsciiWord w = true) (hne : w ≠ [])
    (hrest : Ended rest) :
    content (w ++ rest) = some (.scalar (resolve w), some (.key (resolve w)), rest) := by
  have hbare := bare_word hword hrest
  have hstand := canStand_word hword hne
  have hmissing : ∀ {c left}, w ++ rest = c :: left → isWordChar c = true := fun heq => by
    obtain ⟨d, w', rfl⟩ := List.exists_cons_of_ne_nil hne
    obtain ⟨rfl, -⟩ := List.cons.inj heq
    exact (Bool.and_eq_true_iff.1 (List.all_eq_true.1 hword _ List.mem_cons_self)).1
  unfold content
  split
  · next heq => exact absurd (hmissing heq) (by decide)
  · next heq => exact absurd (hmissing heq) (by decide)
  · next heq => exact absurd (hmissing heq) (by decide)
  · next heq => exact absurd (hmissing heq) (by decide)
  · rw [hbare, if_pos hstand, List.drop_left]

theorem singleQuoted_word {w : List Char} (hword : isAsciiWord w = true) {rest : List Char}
    (hrest : rest.head? ≠ some '\'') : singleQuoted (w ++ '\'' :: rest) = some (w, rest) := by
  induction w with
  | nil =>
    rw [List.nil_append, singleQuoted]
    intro more heq
    exact hrest (heq ▸ rfl)
  | cons c w ih =>
    have hquote : c ≠ '\'' := fun heq =>
      not_mem_of_isAsciiWord hword (c := '\'') (by decide) (heq ▸ List.mem_cons_self)
    have hw : isAsciiWord w = true := (Bool.and_eq_true_iff.1 hword).2
    have hc : isAsciiText c = true := isAsciiText_of_isAsciiWord hword List.mem_cons_self
    rw [List.cons_append, singleQuoted, if_pos hc, ih hw]
    · rfl
    · exact fun _ heq => (hquote heq).elim
    · exact fun heq => (hquote heq).elim

theorem head?_of_ended {rest : List Char} (h : Ended rest) : rest.head? ≠ some '\'' := by
  rintro hhead
  obtain ⟨more, rfl⟩ := List.head?_eq_some_iff.1 hhead
  rcases h with h | ⟨_, h, -⟩
  · cases h
  · cases h

theorem content_quoted {w rest : List Char} (hword : isAsciiWord w = true) (hrest : Ended rest) :
    content ('\'' :: w ++ ['\''] ++ rest) =
      some (.scalar (.text (String.ofList w)), some (.key (.text (String.ofList w))), rest) := by
  rw [List.append_assoc, List.singleton_append, List.cons_append, content,
    singleQuoted_word hword (head?_of_ended hrest)]
  rfl

/-! ## Written texts -/

theorem content_keyScalar (s : String) {rest : List Char} (hrest : Ended rest) :
    content (keyScalar s ++ rest) = some (.scalar (.text s), some (.key (.text s)), rest) := by
  unfold keyScalar
  split
  · next hword =>
    split
    · rw [content_quoted hword hrest, String.ofList_toList]
    · next hreserved =>
      have hne : s.toList ≠ [] := by
        intro hnil
        rw [String.toList_eq_nil_iff.1 hnil] at hreserved
        exact hreserved (by decide)
      rw [content_word hword hne hrest,
        resolve_of_not_isReserved hword (Bool.eq_false_iff.2 hreserved)]
  · rw [List.append_assoc, List.singleton_append, List.cons_append, content,
      doubleQuoted_unfolded, Option.map_some]
    simp only [String.ofList_toList]
    rfl

theorem exists_content_scalar (indent column : Nat) {s : String} (hblank : ' ' ∉ s.toList)
    {rest : List Char} (hrest : Ended rest) :
    ∃ key, content (scalar indent column s ++ rest) = some (.scalar (.text s), key, rest) := by
  by_cases hword : isAsciiWord s.toList = true
  · refine ⟨some (.key (.text s)), ?_⟩
    have hkey := content_keyScalar s hrest
    rw [keyScalar, if_pos hword] at hkey
    rw [scalar, if_pos hword, hkey]
  · obtain ⟨oneLine, hread⟩ :=
      exists_doubleQuoted_folded (indent + 1) hblank true (column + 1) 0 rest
    rw [scalar, if_neg hword, List.append_assoc, List.singleton_append, List.cons_append, content,
      hread, Option.map_some]
    simp only [String.ofList_toList]
    exact ⟨_, rfl⟩

/-! ## Tokens -/

theorem isBareText_of_mem_bare {c : Char} {cs : List Char} (h : c ∈ bare cs) :
    isBareText c = true := by
  unfold bare at h
  simp only at h
  split at h
  · exact List.mem_takeWhile_imp (List.mem_of_mem_dropLast h)
  · exact List.mem_takeWhile_imp h

theorem indicator?_of_not_mem {c : Char} (h : c ∉ indicators) : indicator? c = none := by
  unfold indicator?
  split
  · exact absurd (by decide) h
  · exact absurd (by decide) h
  · exact absurd (by decide) h
  · rfl

/-- What is read as content begins with no indicator and no blank. -/
theorem head_of_content {c : Char} {rest : List Char} {r : Mark × Option Mark × List Char}
    (h : content (c :: rest) = some r) : c ≠ '\n' ∧ c ≠ ' ' ∧ indicator? c = none := by
  unfold content at h
  split at h
  · next heq =>
    cases heq
    decide
  · next heq =>
    cases heq
    decide
  · next heq =>
    cases heq
    decide
  · next heq =>
    cases heq
    decide
  · split at h
    · next hstand =>
      have hprefix := isPrefix_bare (c :: rest)
      have hmem := @isBareText_of_mem_bare c (c :: rest)
      cases hbare : bare (c :: rest) with
      | nil =>
        rw [hbare] at hstand
        cases hstand
      | cons d word =>
        rw [hbare] at hstand hprefix hmem
        obtain ⟨rfl, -⟩ := List.cons_prefix_cons.1 hprefix
        have htext := hmem List.mem_cons_self
        have hmark : d ∉ indicators := of_decide_eq_true (Bool.and_eq_true_iff.1 hstand).1
        refine ⟨?_, ?_, indicator?_of_not_mem hmark⟩
        · rintro rfl
          cases htext
        · rintro rfl
          cases htext
    · cases h

theorem tokens_newline (fresh : Bool) (column : Nat) (rest : List Char) :
    tokens fresh column ('\n' :: rest) = tokens true 1 rest := by
  rw [tokens]

theorem tokens_blank (fresh : Bool) (column : Nat) (rest : List Char) :
    tokens fresh column (' ' :: rest) = tokens fresh (column + 1) rest := by
  rw [tokens]

theorem tokens_blanks (fresh : Bool) (column n : Nat) (rest : List Char) :
    tokens fresh column (List.replicate n ' ' ++ rest) = tokens fresh (column + n) rest := by
  induction n generalizing column with
  | zero => rfl
  | succ n ih =>
    rw [List.replicate_succ, List.cons_append, tokens_blank, ih, Nat.add_right_comm, Nat.add_assoc]

theorem tokens_indicator {c : Char} {mark : Mark} (hc : indicator? c = some mark) (column : Nat)
    {rest : List Char} (hrest : endsWord rest = true) :
    tokens true column (c :: rest) = (tokens true (column + 1) rest).map (⟨column, mark⟩ :: ·) := by
  rw [tokens, hrest, Bool.and_self, if_pos rfl, hc]
  · rintro rfl
    cases hc
  · rintro rfl
    cases hc

/-- Content at the end of a line. -/
theorem tokens_content {cs left : List Char} {mark : Mark} {key : Option Mark}
    (h : content cs = some (mark, key, '\n' :: left)) (fresh : Bool) (column : Nat) :
    tokens fresh column cs = (tokens true 1 left).map (⟨column, mark⟩ :: ·) := by
  cases cs with
  | nil => cases h
  | cons c rest =>
    obtain ⟨hline, hblank, hindicator⟩ := head_of_content h
    rw [tokens, hindicator, ite_self]
    · simp only
      split
      · next hnone => cases hnone.symm.trans h
      · next hsome => cases hsome.symm.trans h
      · next hsome =>
        cases hsome.symm.trans h
        have hend : endsLine ('\n' :: left) = true := rfl
        rw [if_pos hend, tokens_newline]
    · exact hline
    · exact hblank

/-- A key and its colon. -/
theorem tokens_key {cs more : List Char} {mark key : Mark}
    (h : content cs = some (mark, some key, ':' :: more)) (hmore : endsWord more = true)
    (column : Nat) :
    tokens true column cs =
      (tokens false (column + (cs.length - more.length)) more).map (⟨column, key⟩ :: ·) := by
  cases cs with
  | nil => cases h
  | cons c rest =>
    obtain ⟨hline, hblank, hindicator⟩ := head_of_content h
    rw [tokens, hindicator, ite_self]
    · simp only
      split
      · next hnone => cases hnone.symm.trans h
      · next hsome =>
        cases hsome.symm.trans h
        rw [hmore, Bool.and_self, if_pos rfl, List.length_cons]
      · next hno hsome =>
        cases hsome.symm.trans h
        exact (hno _ _ rfl rfl).elim
    · exact hline
    · exact hblank

end Ipld.Yaml
