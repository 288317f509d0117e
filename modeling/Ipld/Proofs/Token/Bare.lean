import Ipld.Proofs.Token.Scanning
import Mathlib.Data.List.SplitBy

/-!
# Sources without comments

In a source of blanks, symbols and name characters there is nothing that the lexer refuses.  Its
words are found by cutting it wherever two neighbours are not both name characters, and leaving out
the blanks.  So a source that is put together of parts has the words of the parts, unless a name
goes over a seam.
-/

namespace Ipld

open Text

/-! ## The words -/

/-- There are only blanks, symbols and name characters in the source. -/
def IsBare (s : String) : Prop :=
  ∀ c ∈ s.toList, isBlank c = true ∨ isSymbol c = true ∨ isWordChar c = true

instance (s : String) : Decidable (IsBare s) :=
  List.decidableBAll _ s.toList

/-- Both are name characters, so that they stay together. -/
def sticks (c d : Char) : Bool :=
  isWordChar c && isWordChar d

/-- The words of a source without comments. -/
def wordsIn (s : String) : List String :=
  ((s.toList.splitBy sticks).filter fun word => !word.all isBlank).map String.ofList

/-- The text ends with a name, or with a part of one. -/
def endsInName (s : String) : Bool :=
  s.toList.getLast?.any isWordChar

/-- The text begins with a name, or with a part of one. -/
def beginsInName (s : String) : Bool :=
  s.toList.head?.any isWordChar

theorem endsInName_append (s : String) {t : String} (h : t ≠ "") :
    endsInName (s ++ t) = endsInName t := by
  have hne : t.toList ≠ [] := fun hnil => h (String.toList_eq_nil_iff.1 hnil)
  rw [endsInName, endsInName, String.toList_append, List.getLast?_append_of_ne_nil _ hne]

/-- No name goes over the seam. -/
theorem wordsIn_append {s t : String} (h : endsInName s = false ∨ beginsInName t = false) :
    wordsIn (s ++ t) = wordsIn s ++ wordsIn t := by
  have hseam : ∀ c ∈ s.toList.getLast?, ∀ d ∈ t.toList.head?, sticks c d = false := by
    intro c hc d hd
    rcases h with h | h
    · rw [endsInName, Option.mem_def.1 hc] at h
      rw [sticks, show isWordChar c = false from h, Bool.false_and]
    · rw [beginsInName, Option.mem_def.1 hd] at h
      rw [sticks, show isWordChar d = false from h, Bool.and_false]
  rw [wordsIn, String.toList_append, List.splitBy_append hseam, List.filter_append,
    List.map_append]
  rfl

/-- A word is not left out as a blank. -/
theorem IsWord.all_isBlank {word : List Char} (h : IsWord word) : word.all isBlank = false := by
  rw [Bool.eq_false_iff, Ne, List.all_eq_true]
  intro hall
  rcases h with ⟨c, hc, rfl⟩ | ⟨hne, hword⟩
  · have hblank := hall c List.mem_cons_self
    rcases cases_of_isSymbol hc with rfl | rfl | rfl | rfl | rfl | rfl | rfl
    all_goals cases hblank
  · obtain ⟨c, hc⟩ := List.exists_mem_of_ne_nil _ hne
    have hname := hword c hc
    rw [isWordChar_of_isBlank (hall c hc)] at hname
    cases hname

theorem wordsIn_of_isRun {name : String} (h : IsRun name.toList) : wordsIn name = [name] := by
  have hchain : name.toList.IsChain fun c d => sticks c d := by
    refine List.Pairwise.isChain (List.pairwise_of_forall_mem_list fun c hc d hd => ?_)
    rw [sticks, h.2 c hc, h.2 d hd, Bool.and_self]
  have hword : IsWord name.toList := .inr h
  rw [wordsIn, List.splitBy_of_isChain h.1 hchain, List.filter_singleton, hword.all_isBlank,
    Bool.not_false, cond_true, List.map_singleton, String.ofList_toList]

/-! ## Sources of parts -/

/-- The source is bare, and these are its words. -/
structure HasWords (s : String) (words : List String) : Prop where
  bare : IsBare s
  words : wordsIn s = words

instance (s : String) (words : List String) : Decidable (HasWords s words) :=
  decidable_of_iff (IsBare s ∧ wordsIn s = words) ⟨fun h => ⟨h.1, h.2⟩, fun h => ⟨h.1, h.2⟩⟩

namespace HasWords

theorem of_isRun {name : String} (h : IsRun name.toList) : HasWords name [name] :=
  ⟨fun c hc => .inr (.inr (h.2 c hc)), wordsIn_of_isRun h⟩

variable {s t : String} {ws vs : List String}

theorem append (hs : HasWords s ws) (ht : HasWords t vs)
    (hseam : endsInName s = false ∨ beginsInName t = false) : HasWords (s ++ t) (ws ++ vs) := by
  refine ⟨?_, ?_⟩
  · rw [IsBare, String.toList_append, List.forall_mem_append]
    exact ⟨hs.bare, ht.bare⟩
  · rw [wordsIn_append hseam, hs.words, ht.words]

/-- A part between two others, over whose seams no name goes. -/
theorem between {u : String} {us : List String} (hs : HasWords s ws) (ht : HasWords t vs)
    (hu : HasWords u us) (hends : endsInName s = false) (hbegins : beginsInName u = false) :
    HasWords (s ++ t ++ u) (ws ++ vs ++ us) :=
  (hs.append ht (.inl hends)).append hu (.inr hbegins)

/-- Parts with a separator between them, over which no name goes. -/
theorem intercalate {α : Type} {f : α → String} {g : α → List String} {as : List α}
    (h : ∀ a ∈ as, HasWords (f a) (g a)) (hs : HasWords s ws) (hne : s ≠ "")
    (hends : endsInName s = false) (hbegins : beginsInName s = false) :
    HasWords (s.intercalate (as.map f)) (ws.intercalate (as.map g)) := by
  induction as with
  | nil =>
    rw [List.map_nil, String.intercalate_nil]
    exact (by decide : HasWords "" [])
  | cons a as ih =>
    rw [List.forall_mem_cons] at h
    cases as with
    | nil => simpa using h.1
    | cons b bs =>
      have hfirst := h.1.append hs (.inr hbegins)
      have hseam : endsInName (f a ++ s) = false := (endsInName_append _ hne).trans hends
      have hall := hfirst.append (ih h.2) (.inl hseam)
      rw [List.map_cons, List.map_cons, String.intercalate_cons_cons]
      simpa [List.intercalate] using hall

end HasWords

/-! ## The layout -/

/-- Where each character sticks to the next, and there are two at least, all are name characters. -/
theorem isWordChar_of_isChain {c d : Char} {rest : List Char}
    (h : (c :: d :: rest).IsChain fun c d => sticks c d) :
    ∀ x ∈ c :: d :: rest, isWordChar x = true := by
  have hstick : isWordChar c = true ∧ isWordChar d = true :=
    Bool.and_eq_true_iff.1 (List.isChain_cons_cons.1 h).1
  induction rest generalizing c d with
  | nil => exact List.forall_mem_cons.2 ⟨hstick.1, List.forall_mem_singleton.2 hstick.2⟩
  | cons e rest ih =>
    have htail := (List.isChain_cons_cons.1 h).2
    exact List.forall_mem_cons.2
      ⟨hstick.1, ih htail (Bool.and_eq_true_iff.1 (List.isChain_cons_cons.1 htail).1)⟩

/-- A stretch of a bare source between two cuts is a blank or a word. -/
theorem isBlank_or_isWord {stretch : List Char} (hne : stretch ≠ [])
    (hbare : ∀ c ∈ stretch, isBlank c = true ∨ isSymbol c = true ∨ isWordChar c = true)
    (hchain : stretch.IsChain fun c d => sticks c d) :
    (∃ c, isBlank c = true ∧ stretch = [c]) ∨ IsWord stretch := by
  obtain ⟨c, rest, rfl⟩ := List.exists_cons_of_ne_nil hne
  cases rest with
  | nil =>
    rcases hbare c List.mem_cons_self with hc | hc | hc
    · exact .inl ⟨c, hc, rfl⟩
    · exact .inr (.inl ⟨c, hc, rfl⟩)
    · exact .inr (.inr ⟨hne, List.forall_mem_singleton.2 hc⟩)
  | cons d rest => exact .inr (.inr ⟨hne, isWordChar_of_isChain hchain⟩)

/-- A blank may be put in front of a layout. -/
theorem Laid.exists_blank {last : List Char} {ps : List Piece} (h : Laid last ps) {c : Char}
    (hc : isBlank c = true) :
    ∃ last' ps', Laid last' ps' ∧ Piece.text last' ps' = c :: Piece.text last ps ∧
      ps'.map Piece.word = ps.map Piece.word := by
  cases h with
  | nil hlast =>
    have hgap : Gap [] ([c] ++ last) := .cons (.blank hc) hlast
    exact ⟨c :: last, [], .nil hgap, rfl, rfl⟩
  | @cons p ps hgap hword hapart hrest =>
    have hgap' : Gap (p.word ++ Piece.text last ps) ([c] ++ p.gap) := .cons (.blank hc) hgap
    exact ⟨last, ⟨c :: p.gap, p.word⟩ :: ps, .cons hgap' hword hapart hrest, rfl, rfl⟩

/-- A layout that begins with a name begins with a name character. -/
theorem exists_head?_text (last : List Char) {p : Piece} (ps : List Piece) (hgap : p.gap = [])
    (hrun : IsRun p.word) :
    ∃ c, (Piece.text last (p :: ps)).head? = some c ∧ isWordChar c = true := by
  obtain ⟨c, rest, hc⟩ := List.exists_cons_of_ne_nil hrun.1
  refine ⟨c, ?_, hrun.2 c (hc ▸ List.mem_cons_self)⟩
  rw [Piece.text, hgap, hc]
  rfl

/-- Stretches that are blanks and words, and that no name goes over, are a layout. -/
theorem exists_laid_of_stretches {stretches : List (List Char)}
    (h : ∀ w ∈ stretches, (∃ c, isBlank c = true ∧ w = [c]) ∨ IsWord w)
    (hcuts : stretches.IsChain fun a b => ∃ ha hb, sticks (a.getLast ha) (b.head hb) = false) :
    ∃ last ps, Laid last ps ∧ Piece.text last ps = stretches.flatten ∧
      ps.map Piece.word = stretches.filter fun word => !word.all isBlank := by
  induction stretches with
  | nil => exact ⟨[], [], .nil .nil, rfl, rfl⟩
  | cons w stretches ih =>
    rw [List.forall_mem_cons] at h
    obtain ⟨last, ps, hlaid, htext, hwords⟩ := ih h.2 hcuts.tail
    rcases h.1 with ⟨c, hc, rfl⟩ | hword
    · obtain ⟨last', ps', hlaid', htext', hwords'⟩ := hlaid.exists_blank hc
      refine ⟨last', ps', hlaid', ?_, ?_⟩
      · rw [htext', htext]
        rfl
      · rw [hwords', hwords, List.filter_cons_of_neg]
        simpa using hc
    · have hgap : Gap (w ++ Piece.text last ps) [] := .nil
      refine ⟨last, ⟨[], w⟩ :: ps, .cons hgap hword ?_ hlaid, ?_, ?_⟩
      · -- A name right behind this one would have stayed with it.
        rintro q hq hrun hrun' hnil
        obtain ⟨ps, rfl⟩ := List.head?_eq_some_iff.1 hq
        obtain ⟨d, hd, hname⟩ := exists_head?_text last ps hnil hrun'
        rw [htext] at hd
        cases stretches with
        | nil => cases hd
        | cons v stretches =>
          obtain ⟨hw, hv, hcut⟩ := (List.isChain_cons_cons.1 hcuts).1
          rw [List.flatten_cons, List.head?_append_of_ne_nil _ hv, List.head?_eq_some_head hv] at hd
          rw [sticks, Option.some_inj.1 hd, hname, hrun.2 _ (List.getLast_mem hw)] at hcut
          cases hcut
      · rw [Piece.text, htext]
        rfl
      · rw [List.map_cons, hwords, List.filter_cons_of_pos]
        rw [hword.all_isBlank]
        rfl

/-- The lexer finds the words of a bare source. -/
theorem HasWords.exists_tokenize {s : String} {words : List String} (h : HasWords s words) :
    ∃ ts, tokenize s = .ok ts ∧
      ts.map Token.spelling = words.map fun word => (kindOf word.toList, word) := by
  have hstretches : ∀ w ∈ s.toList.splitBy sticks,
      (∃ c, isBlank c = true ∧ w = [c]) ∨ IsWord w := by
    intro w hw
    refine isBlank_or_isWord (List.ne_nil_of_mem_splitBy hw) (fun c hc => h.bare c ?_)
      (List.isChain_of_mem_splitBy hw)
    rw [← List.flatten_splitBy sticks s.toList]
    exact List.mem_flatten_of_mem hw hc
  obtain ⟨last, ps, hlaid, htext, hwords⟩ :=
    exists_laid_of_stretches hstretches (List.isChain_getLast_head_splitBy _ _)
  rw [List.flatten_splitBy] at htext
  have htokens := tokenize_layout ⟨ps, last, hlaid⟩
  rw [Layout.text, htext, String.ofList_toList] at htokens
  refine ⟨_, htokens, ?_⟩
  rw [Layout.tokens, spelling_tokens, hwords, ← h.words, wordsIn, List.map_map]
  refine List.map_congr_left fun w _ => ?_
  rw [Function.comp_apply, String.toList_ofList]

end Ipld
