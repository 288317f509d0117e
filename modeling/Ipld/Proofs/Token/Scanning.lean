import Ipld.Proofs.Layout
import Ipld.Token.Lexer
import Mathlib.Data.List.TakeWhile
import Mathlib.Logic.Relation

/-!
# The lexer finds the words of a layout

What a step of the lexer takes depends on the front of the source alone: a blank or a comment, or
else a word that goes on as far as it can (`Takes`).  This says everything that a step can do
(`takes_of_scan`, and back `scan_of_filler` and `scan_of_word`), so the lexer gets to the end of a
source exactly when the source has a layout, and the tokens it finds are those of the layout.
-/

namespace Ipld

open Text

/-! ## Comments -/

theorem endsFirst_nil : EndsFirst [] := by
  intro before after h
  have hlength := congrArg List.length h
  simp only [List.nil_append, List.length_append, List.length_cons, List.length_nil] at hlength
  exact List.length_eq_zero_iff.1 (by omega)

/-- One more character may be put in front unless it makes an end with the first of the text. -/
theorem endsFirst_cons_iff {c : Char} {text : List Char} :
    EndsFirst (c :: text) ↔ ¬ (c = '*' ∧ text.head? = some '/') ∧ EndsFirst text := by
  constructor
  · intro h
    refine ⟨?_, fun before after heq => h (c :: before) after (congrArg (c :: ·) heq)⟩
    rintro ⟨rfl, hhead⟩
    obtain ⟨rest, rfl⟩ := List.head?_eq_some_iff.1 hhead
    have := h [] (rest ++ ['*', '/']) rfl
    simp at this
  · rintro ⟨hc, h⟩ before after heq
    cases before with
    | cons d before => exact h before after (List.cons.inj heq).2
    | nil =>
      obtain ⟨hstar, heq⟩ := List.cons.inj heq
      cases text with
      | nil => cases heq
      | cons d text =>
        obtain ⟨rfl, -⟩ := List.cons.inj heq
        exact absurd ⟨hstar, rfl⟩ hc

theorem closing_cons {c : Char} {cs : List Char} (h : ¬ (c = '*' ∧ cs.head? = some '/')) :
    Lexer.closing (c :: cs) = (Lexer.closing cs).map (· + 1) := by
  rw [Lexer.closing]
  rintro rest rfl rfl
  exact h ⟨rfl, rfl⟩

theorem closing_append {text : List Char} (h : EndsFirst text) (rest : List Char) :
    Lexer.closing (text ++ '*' :: '/' :: rest) = some (text.length + 2) := by
  induction text with
  | nil => rfl
  | cons c text ih =>
    obtain ⟨hc, htext⟩ := endsFirst_cons_iff.1 h
    have hnext : ¬ (c = '*' ∧ (text ++ '*' :: '/' :: rest).head? = some '/') := by
      rintro ⟨rfl, hhead⟩
      cases text with
      | nil => cases hhead
      | cons d text => exact hc ⟨rfl, hhead⟩
    rw [List.cons_append, closing_cons hnext, ih htext, Option.map_some, List.length_cons]

theorem exists_of_closing {cs : List Char} {n : Nat} (h : Lexer.closing cs = some n) :
    ∃ text rest, cs = text ++ '*' :: '/' :: rest ∧ n = text.length + 2 ∧ EndsFirst text := by
  induction cs generalizing n with
  | nil => cases h
  | cons c cs ih =>
    by_cases hc : c = '*' ∧ cs.head? = some '/'
    · obtain ⟨rfl, hhead⟩ := hc
      obtain ⟨rest, rfl⟩ := List.head?_eq_some_iff.1 hhead
      cases h
      exact ⟨[], rest, rfl, rfl, endsFirst_nil⟩
    · rw [closing_cons hc] at h
      obtain ⟨m, hm, rfl⟩ := Option.map_eq_some_iff.1 h
      obtain ⟨text, rest, rfl, rfl, htext⟩ := ih hm
      refine ⟨c :: text, rest, rfl, rfl, endsFirst_cons_iff.2 ⟨?_, htext⟩⟩
      rintro ⟨rfl, hhead⟩
      obtain ⟨left, rfl⟩ := List.head?_eq_some_iff.1 hhead
      exact hc ⟨rfl, rfl⟩

/-! ## Stretches of text -/

/-- The longest stretch of characters of a class is where another character follows it. -/
theorem takeWhile_stretch {p : Char → Bool} {text rest : List Char} (htext : ∀ c ∈ text, p c = true)
    (hrest : ∀ c ∈ rest.head?, p c = false) : (text ++ rest).takeWhile p = text := by
  rw [List.takeWhile_append_of_pos htext]
  cases rest with
  | nil => simp
  | cons c rest => simp [hrest c rfl]

theorem head_dropWhile {p : Char → Bool} {cs : List Char} {c : Char}
    (h : c ∈ (cs.dropWhile p).head?) : p c = false := by
  cases hdrop : cs.dropWhile p with
  | nil =>
    rw [hdrop] at h
    cases h
  | cons d rest =>
    rw [hdrop] at h
    cases h
    have hne : cs.dropWhile p ≠ [] := by
      rw [hdrop]
      exact List.cons_ne_nil _ _
    have hnot := List.head_dropWhile_not p hne
    simpa [hdrop] using hnot

namespace Lexer

theorem pass_pass (l : Lexer) (m n : Nat) : (l.pass m).pass n = l.pass (m + n) := by
  simp only [pass, List.take_add, List.reverse_append, List.append_assoc, List.drop_drop,
    List.count_append, Nat.add_assoc]

theorem rest_pass_length {l : Lexer} {text left : List Char} (h : l.rest = text ++ left) :
    (l.pass text.length).rest = left := by
  rw [rest_pass, h, List.drop_left]

theorem line_pass_length {l : Lexer} {text left : List Char} (h : l.rest = text ++ left) :
    (l.pass text.length).line = l.line + text.count '\n' := by
  rw [pass, h, List.take_left]

/-- The line is one more than the line feeds passed, also behind a further stretch of text. -/
theorem line_pass_of_split {l : Lexer} {before text left : List Char} (h : l.rest = text ++ left)
    (hline : l.line = 1 + before.count '\n') :
    (l.pass text.length).line = 1 + (before ++ text).count '\n' := by
  rw [line_pass_length h, hline, List.count_append, Nat.add_assoc]

/-! ## One step -/

/-- What a step takes from the front of the source, and where it leaves the lexer. -/
inductive Takes (l : Lexer) : Lexer → Prop
  | filler {text rest : List Char} (hsplit : l.rest = text ++ rest) (htext : Filler rest text) :
    Takes l (l.pass text.length)
  | word {word rest : List Char} (hsplit : l.rest = word ++ rest) (hword : IsWord word)
    (hrest : IsRun word → ∀ c ∈ rest.head?, isWordChar c = false) :
    Takes l ((l.pass word.length).add (kindOf word) word l.line)

theorem blockComment_eq {l : Lexer} {c d : Char} {rest : List Char} (h : l.rest = c :: d :: rest) :
    l.blockComment = match closing rest with
      | some n => (.ok (), l.pass (2 + n))
      | none => (.error (.schema (.unterminatedComment l.line)), l.pass (2 + rest.length)) := by
  have hfirst : l.advance = (.ok c, l.pass 1) := by rw [advance, h]
  have hrest₁ : (l.pass 1).rest = d :: rest := by rw [rest_pass, h]; rfl
  have hsecond : (l.pass 1).advance = (.ok d, l.pass 2) := by rw [advance, hrest₁, pass_pass]
  have hrest₂ : (l.pass 2).rest = rest := by rw [rest_pass, h]; rfl
  unfold blockComment
  simp only [hfirst, hsecond, hrest₂]
  cases closing rest with
  | some n => simp only [pass_pass]
  | none => simp only [pass_pass]

theorem takes_of_scan {l l' : Lexer} (h : l.scan = (.ok (), l')) : Takes l l' := by
  unfold scan at h
  split at h
  · cases h
  rename_i c rest hrest
  split at h
  · rename_i hblank
    cases h
    have htext : Filler rest [c] := .blank hblank
    exact .filler hrest htext
  split at h
  · rename_i hsymbol
    cases h
    rw [← kindOf_of_isSymbol hsymbol]
    have hword : IsWord [c] := .inl ⟨c, hsymbol, rfl⟩
    exact .word hrest hword fun hrun => absurd hrun (not_isRun_of_isSymbol hsymbol)
  split at h
  · rename_i hword
    cases h
    have hrun : IsRun (l.rest.takeWhile isWordChar) := by
      refine ⟨?_, fun d hd => List.mem_takeWhile_imp hd⟩
      rw [hrest, List.takeWhile_cons_of_pos hword]
      exact List.cons_ne_nil _ _
    rw [identifier, ← kindOf_of_isRun hrun]
    exact .word List.takeWhile_append_dropWhile.symm (.inr hrun) fun _ d hd => head_dropWhile hd
  split at h
  · rename_i hslash
    cases h
    obtain ⟨rfl, hhead⟩ := hslash
    obtain ⟨left, rfl⟩ := List.head?_eq_some_iff.1 hhead
    have hstretch : l.rest.takeWhile (· ≠ '\n') = '/' :: '/' :: left.takeWhile (· ≠ '\n') := by
      simp [hrest]
    rw [lineComment, hstretch]
    have htext : Filler (left.dropWhile (· ≠ '\n'))
        ('/' :: '/' :: left.takeWhile (· ≠ '\n')) := by
      refine .lineComment (fun hmem => ?_) fun d hd => ?_
      · have := List.mem_takeWhile_imp hmem
        simp at this
      · have := head_dropWhile hd
        simpa using this
    refine .filler ?_ htext
    rw [hrest, List.cons_append, List.cons_append, List.takeWhile_append_dropWhile]
  split at h
  · rename_i hstar
    obtain ⟨rfl, hhead⟩ := hstar
    obtain ⟨left, rfl⟩ := List.head?_eq_some_iff.1 hhead
    rw [blockComment_eq hrest] at h
    cases hclosing : closing left with
    | none =>
      rw [hclosing] at h
      cases h
    | some n =>
      rw [hclosing] at h
      cases h
      obtain ⟨text, after, rfl, rfl, htext⟩ := exists_of_closing hclosing
      have hlength : 2 + (text.length + 2) = ('/' :: '*' :: (text ++ ['*', '/'])).length := by
        simp only [List.length_cons, List.length_append, List.length_nil]
        omega
      have hfiller : Filler after ('/' :: '*' :: (text ++ ['*', '/'])) := .blockComment htext
      rw [hlength]
      refine .filler ?_ hfiller
      rw [hrest]
      simp
  · cases h

theorem scan_of_filler {l : Lexer} {text rest : List Char} (hsplit : l.rest = text ++ rest)
    (htext : Filler rest text) : l.scan = (.ok (), l.pass text.length) := by
  cases htext with
  | @blank c hc =>
    have hrest : l.rest = c :: rest := hsplit
    simp only [scan, hrest, hc, if_true, List.length_singleton]
  | @lineComment comment hcomment hfeed =>
    have hrest : l.rest = '/' :: '/' :: (comment ++ rest) := hsplit
    have hstretch : l.rest.takeWhile (· ≠ '\n') = '/' :: '/' :: comment := by
      rw [hsplit]
      refine takeWhile_stretch (fun c hc => ?_) fun c hc => by simp [hfeed c hc]
      rcases List.mem_cons.1 hc with rfl | hc
      · decide
      rcases List.mem_cons.1 hc with rfl | hc
      · decide
      · exact decide_eq_true fun heq => hcomment (heq ▸ hc)
    have hscan : l.scan = (.ok (), l.lineComment) := by
      rw [scan, hrest]
      rfl
    rw [hscan, lineComment, hstretch]
  | @blockComment comment hcomment =>
    have hrest : l.rest = '/' :: '*' :: (comment ++ '*' :: '/' :: rest) := by
      rw [hsplit]
      simp
    have hscan : l.scan = l.blockComment := by
      rw [scan, hrest]
      rfl
    rw [hscan, blockComment_eq hrest, closing_append hcomment]
    simp only [List.length_cons, List.length_append, List.length_nil]
    congr 2
    omega

theorem scan_of_word {l : Lexer} {word rest : List Char} (hsplit : l.rest = word ++ rest)
    (hword : IsWord word) (hrest : IsRun word → ∀ c ∈ rest.head?, isWordChar c = false) :
    l.scan = (.ok (), (l.pass word.length).add (kindOf word) word l.line) := by
  rcases hword with ⟨c, hc, rfl⟩ | hrun
  · have hfront : l.rest = c :: rest := hsplit
    have hblank : isBlank c = false := by
      rcases cases_of_isSymbol hc with rfl | rfl | rfl | rfl | rfl | rfl | rfl
      all_goals rfl
    simp [scan, hfront, hblank, hc, kindOf_of_isSymbol hc]
  · obtain ⟨c, left, rfl⟩ := List.exists_cons_of_ne_nil hrun.1
    have hfront : l.rest = c :: (left ++ rest) := hsplit
    have hc : isWordChar c = true := hrun.2 c List.mem_cons_self
    have hblank : isBlank c ≠ true := by
      intro h
      rw [isWordChar_of_isBlank h] at hc
      cases hc
    have hsymbol : isSymbol c ≠ true := by
      intro h
      rw [isWordChar_of_isSymbol h] at hc
      cases hc
    have hstretch : l.rest.takeWhile isWordChar = c :: left := by
      rw [hsplit]
      exact takeWhile_stretch hrun.2 (hrest hrun)
    rw [scan, hfront]
    simp only [if_neg hblank, if_neg hsymbol, if_pos hc]
    rw [identifier, hstretch, kindOf_of_isRun hrun]

/-! ## Whole sources -/

theorem tokenize_of_scan {l l' : Lexer} (h : l.scan = (.ok (), l')) :
    l.tokenize = l'.tokenize := by
  have hlt := length_rest_scan h
  have hend : ¬ l.atEnd = true := by
    intro hend
    rw [List.isEmpty_iff.1 hend] at hlt
    cases hlt
  rw [tokenize, if_neg hend]
  split
  · next heq =>
    rw [h] at heq
    cases heq
  · next heq =>
    rw [h] at heq
    cases heq
    rfl

theorem tokenize_nil {l : Lexer} (h : l.rest = []) : l.tokenize = (.ok (), l) := by
  have hend : l.atEnd = true := List.isEmpty_iff.2 h
  rw [tokenize, if_pos hend]

end Lexer

/-! ## Steps one after the other -/

namespace Lexer

/-- The lexer gets from one place to another by steps that succeed. -/
abbrev Reaches : Lexer → Lexer → Prop :=
  Relation.ReflTransGen fun l l' => l.scan = (.ok (), l')

theorem tokenize_of_reaches {l l' : Lexer} (h : l.Reaches l') : l.tokenize = l'.tokenize := by
  induction h with
  | refl => rfl
  | tail _ hscan ih => rw [ih, tokenize_of_scan hscan]

/-- Tokens are found by getting to the end. -/
theorem reaches_of_tokenize {l l' : Lexer} (h : l.tokenize = (.ok (), l')) :
    l.Reaches l' ∧ l'.rest = [] := by
  fun_induction tokenize l with
  | case1 l hend =>
    cases h
    exact ⟨.refl, List.isEmpty_iff.1 hend⟩
  | case2 => cases h
  | case3 l hend left hscan hlt ih =>
    obtain ⟨hreaches, hrest⟩ := ih h
    exact ⟨.head hscan hreaches, hrest⟩

/-- No tokens are found when the lexer gets to a place, not the end, where its step fails. -/
theorem exists_reaches_of_tokenize {l l' : Lexer} {e : Fault} (h : l.tokenize = (.error e, l')) :
    ∃ m, l.Reaches m ∧ m.rest ≠ [] ∧ m.scan = (.error e, l') := by
  fun_induction tokenize l with
  | case1 => cases h
  | case2 l hend e left hscan =>
    cases h
    exact ⟨l, .refl, fun hrest => hend (List.isEmpty_iff.2 hrest), hscan⟩
  | case3 l hend left hscan hlt ih =>
    obtain ⟨m, hreaches, hm⟩ := ih h
    exact ⟨m, .head hscan hreaches, hm⟩

end Lexer

/-! ### Every text that is passed over has a layout -/

/-- A blank or a comment in front belongs to the first gap. -/
theorem exists_laid_filler {last text left : List Char} {ps : List Piece} (h : Laid last ps)
    (hlast : Gap left last) (htext : Filler (Piece.text last ps ++ left) text) :
    ∃ last' ps', Laid last' ps' ∧ Gap left last' ∧
      Piece.text last' ps' = text ++ Piece.text last ps ∧
      ∀ before, Piece.tokens before ps' = Piece.tokens (before ++ text) ps := by
  cases h with
  | nil =>
    have hgap : Gap left (text ++ last) := .cons htext hlast
    exact ⟨text ++ last, [], .nil hgap.before_nil, hgap, rfl, fun _ => rfl⟩
  | @cons p ps hgap hword hapart hrest =>
    have htext' : Filler (p.gap ++ (p.word ++ Piece.text last ps)) text := by
      refine htext.congr fun c hc => ?_
      rw [Piece.text, List.append_assoc, List.append_assoc]
      cases hempty : p.gap with
      | nil =>
        rw [hempty, List.nil_append] at hc
        rwa [List.nil_append, head?_word_append hword _ (Piece.text last ps)]
      | cons d gap =>
        rw [hempty] at hc
        exact hc
    refine ⟨last, ⟨text ++ p.gap, p.word⟩ :: ps, .cons (.cons htext' hgap) hword hapart hrest,
      hlast, ?_, ?_⟩
    · simp only [Piece.text, List.append_assoc]
    · intro before
      simp only [Piece.tokens, List.append_assoc]

theorem exists_laid_of_reaches {l l' : Lexer} (h : l.Reaches l') {before : List Char}
    (hline : l.line = 1 + before.count '\n') :
    ∃ last ps, Laid last ps ∧ Gap l'.rest last ∧ l.rest = Piece.text last ps ++ l'.rest ∧
      l'.found = (Piece.tokens before ps).reverse ++ l.found ∧
      l'.line = 1 + (before ++ Piece.text last ps).count '\n' := by
  induction h using Relation.ReflTransGen.head_induction_on generalizing before with
  | refl => exact ⟨[], [], .nil .nil, .nil, rfl, rfl, by rw [Piece.text, List.append_nil, hline]⟩
  | @head l left hscan _ ih =>
    cases Lexer.takes_of_scan hscan with
    | @filler text rest hsplit htext =>
      obtain ⟨last, ps, hlaid, hlast, hrest, hfound, hline'⟩ :=
        ih (Lexer.line_pass_of_split hsplit hline)
      rw [Lexer.rest_pass_length hsplit] at hrest
      subst hrest
      obtain ⟨last', ps', hlaid', hlast', htext', htokens⟩ := exists_laid_filler hlaid hlast htext
      refine ⟨last', ps', hlaid', hlast', ?_, ?_, ?_⟩
      · rw [hsplit, htext', List.append_assoc]
      · rw [hfound, htokens]
        rfl
      · rw [hline', htext', List.append_assoc]
    | @word word rest hsplit hword hapart =>
      have hline₁ := Lexer.line_pass_of_split hsplit hline
      obtain ⟨last, ps, hlaid, hlast, hrest, hfound, hline'⟩ := ih hline₁
      rw [Lexer.rest_add, Lexer.rest_pass_length hsplit] at hrest
      subst hrest
      refine ⟨last, ⟨[], word⟩ :: ps, .cons .nil hword ?_ hlaid, hlast, ?_, ?_, ?_⟩
      · -- Two runs without a gap would have been one word.
        intro q hq hrun hrun' hgap
        obtain ⟨qs, rfl⟩ := List.head?_eq_some_iff.1 hq
        obtain ⟨c, left, hcons⟩ := List.exists_cons_of_ne_nil hrun'.1
        have hhead : c ∈ (Piece.text last (q :: qs) ++ l'.rest).head? := by
          rw [Piece.text, hgap, hcons]
          rfl
        have hword := hrun'.2 c (by rw [hcons]; exact List.mem_cons_self)
        rw [hapart hrun c hhead] at hword
        cases hword
      · rw [hsplit, Piece.text, List.nil_append, List.append_assoc]
      · rw [hfound, Piece.tokens, List.append_nil, ← hline, List.reverse_cons]
        exact List.append_cons _ _ _
      · rw [hline', Piece.text, List.nil_append, List.append_assoc]

/-! ### Every layout is passed over -/

theorem reaches_of_gap {l : Lexer} {gap rest : List Char} (hgap : Gap rest gap)
    (hsplit : l.rest = gap ++ rest) : l.Reaches (l.pass gap.length) := by
  induction hgap generalizing l with
  | nil =>
    have hstay : l.pass 0 = l := by simp [Lexer.pass]
    rw [List.length_nil, hstay]
  | @cons text more htext hmore ih =>
    rw [List.append_assoc] at hsplit
    rw [List.length_append, ← Lexer.pass_pass]
    exact .head (Lexer.scan_of_filler hsplit htext) (ih (Lexer.rest_pass_length hsplit))

/-- Behind a run, what may follow does not go on with it. -/
theorem head_text_of_laid {last left : List Char} {ps : List Piece} (h : Laid last ps)
    (hlast : Gap left last) (hleft : ∀ c ∈ left.head?, isWordChar c = false)
    (hapart : ∀ q ∈ ps.head?, IsRun q.word → q.gap ≠ []) {c : Char}
    (hc : c ∈ (Piece.text last ps ++ left).head?) : isWordChar c = false := by
  cases h with
  | nil =>
    rw [Piece.text] at hc
    cases last with
    | nil => exact hleft c hc
    | cons d last => exact hlast.head hc
  | @cons q ps hgap hword _ _ =>
    rw [Piece.text] at hc
    by_cases hempty : q.gap = []
    · rcases hword with ⟨d, hd, hword⟩ | hrun
      · rw [hempty, hword] at hc
        cases hc
        exact isWordChar_of_isSymbol hd
      · exact absurd hempty (hapart q rfl hrun)
    · obtain ⟨d, more, hcons⟩ := List.exists_cons_of_ne_nil hempty
      refine hgap.head ?_
      rw [hcons] at hc ⊢
      exact hc

theorem exists_reaches_of_laid {last before left : List Char} {ps : List Piece} (h : Laid last ps)
    (hlast : Gap left last) (hleft : ∀ c ∈ left.head?, isWordChar c = false) {l : Lexer}
    (hrest : l.rest = Piece.text last ps ++ left) (hline : l.line = 1 + before.count '\n') :
    ∃ l', l.Reaches l' ∧ l'.rest = left ∧
      l'.found = (Piece.tokens before ps).reverse ++ l.found ∧
      l'.line = 1 + (before ++ Piece.text last ps).count '\n' := by
  induction h generalizing l before with
  | nil =>
    exact ⟨l.pass last.length, reaches_of_gap hlast hrest, Lexer.rest_pass_length hrest, rfl,
      Lexer.line_pass_of_split hrest hline⟩
  | @cons p ps hgap hword hapart hlaid ih =>
    rw [Piece.text, List.append_assoc, List.append_assoc] at hrest
    have hgap' : Gap (p.word ++ (Piece.text last ps ++ left)) p.gap := by
      refine hgap.congr fun c hc => ?_
      rwa [head?_word_append hword _ (Piece.text last ps ++ left)]
    have hsplit := Lexer.rest_pass_length hrest
    have hline' := Lexer.line_pass_of_split hrest hline
    have hscan := Lexer.scan_of_word hsplit hword fun hrun c hc =>
      head_text_of_laid hlaid hlast hleft (fun q hq => hapart q hq hrun) hc
    obtain ⟨l', hreaches, hrest', hfound, hline''⟩ := ih
      (l := ((l.pass p.gap.length).pass p.word.length).add (kindOf p.word) p.word
        (l.pass p.gap.length).line) (Lexer.rest_pass_length hsplit)
      (Lexer.line_pass_of_split hsplit hline')
    refine ⟨l', (reaches_of_gap hgap' hrest).trans (.head hscan hreaches), hrest', ?_, ?_⟩
    · rw [hfound, Piece.tokens, ← hline', List.reverse_cons]
      exact List.append_cons _ _ _
    · rw [hline'', Piece.text]
      simp only [List.append_assoc]

/-! ## Tokens and layouts -/

theorem exists_layout_of_tokenize {source : String} {ts : List Token}
    (h : tokenize source = .ok ts) : ∃ l : Layout, source.toList = l.text ∧ ts = l.tokens := by
  unfold tokenize at h
  split at h
  · next l' heq =>
    cases h
    have hline : (Lexer.ofSource source).line = 1 + ([] : List Char).count '\n' := rfl
    obtain ⟨hreaches, hend⟩ := Lexer.reaches_of_tokenize heq
    obtain ⟨last, ps, hlaid, -, hrest, hfound, -⟩ := exists_laid_of_reaches hreaches hline
    rw [hend, List.append_nil] at hrest
    refine ⟨⟨ps, last, hlaid⟩, hrest, ?_⟩
    rw [Lexer.tokens, hfound, List.reverse_append, List.reverse_reverse]
    rfl
  · cases h

theorem tokenize_layout (l : Layout) : tokenize (String.ofList l.text) = .ok l.tokens := by
  have hrest : (Lexer.ofSource (String.ofList l.text)).rest =
      Piece.text l.last l.pieces ++ [] := by
    rw [List.append_nil]
    exact String.toList_ofList
  have hline : (Lexer.ofSource (String.ofList l.text)).line = 1 + ([] : List Char).count '\n' := rfl
  obtain ⟨l', hreaches, hend, hfound, -⟩ :=
    exists_reaches_of_laid l.laid l.laid.gap_last nofun hrest hline
  rw [tokenize, Lexer.tokenize_of_reaches hreaches, Lexer.tokenize_nil hend]
  simp only
  rw [Lexer.tokens, hfound, List.reverse_append, List.reverse_reverse]
  rfl

/-- **The tokens of a source are those of its layouts**, and the words of a layout alone decide the
kinds and values of its tokens. -/
theorem tokenize_eq_ok_iff_layout :
    (∀ source ts, tokenize source = .ok ts ↔
        ∃ l : Layout, source.toList = l.text ∧ ts = l.tokens) ∧
      ∀ l l' : Layout, l.words = l'.words → ∃ ts ts',
        tokenize (String.ofList l.text) = .ok ts ∧ tokenize (String.ofList l'.text) = .ok ts' ∧
          ts.map Token.spelling = ts'.map Token.spelling := by
  refine ⟨fun source ts => ⟨exists_layout_of_tokenize, ?_⟩, fun l l' hwords => ?_⟩
  · rintro ⟨l, htext, rfl⟩
    rw [← tokenize_layout, ← htext, String.ofList_toList]
  · refine ⟨l.tokens, l'.tokens, tokenize_layout l, tokenize_layout l', ?_⟩
    have hspelling : l.pieces.map Piece.word = l'.pieces.map Piece.word := hwords
    rw [Layout.tokens, Layout.tokens, spelling_tokens, spelling_tokens, hspelling]

end Ipld
