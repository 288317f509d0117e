import Ipld.File
import Ipld.Proofs.Agreement.Refusals
import Ipld.Proofs.Text.Newline

/-!
# Carriage returns before line feeds

A carriage return is a blank, and inside a comment it is any character; so one that stands before a
line feed may go, wherever it is.  No two characters come together that were apart, for the line
feed still stands between them.  The words of the source stay where they are, on the same lines, and
so does the place where nothing begins.
-/

namespace Ipld

open Grammar Text

/-! ## Gaps -/

theorem EndsFirst.withoutReturns {text : List Char} (h : EndsFirst text)
    (hpaired : ReturnsPaired text) : EndsFirst (withoutReturns text) := by
  induction text with
  | nil => exact h
  | cons c text ih =>
    obtain ⟨hc, htext⟩ := endsFirst_cons_iff.1 h
    have hpaired' := (returnsPaired_cons_iff.1 hpaired).2
    by_cases hreturn : c = '\r'
    · subst hreturn
      exact ih htext hpaired'
    · rw [withoutReturns_cons hreturn, endsFirst_cons_iff]
      refine ⟨fun hstar => hc ⟨hstar.1, ?_⟩, ih htext hpaired'⟩
      exact head?_of_withoutReturns hpaired' hstar.2 (by decide)

/-- A blank may go entirely; a comment stays one. -/
theorem Filler.withoutReturns {rest text : List Char} (h : Filler rest text)
    (hpaired : ReturnsPaired (text ++ rest)) :
    withoutReturns text = [] ∨ Filler (withoutReturns rest) (withoutReturns text) := by
  cases h with
  | @blank c hc =>
    by_cases hreturn : c = '\r'
    · exact .inl (by rw [hreturn]; rfl)
    · rw [withoutReturns_cons hreturn]
      exact .inr (.blank hc)
  | @lineComment text htext hrest =>
    refine .inr ?_
    rw [withoutReturns_cons (by decide), withoutReturns_cons (by decide)]
    refine .lineComment (fun hmem => htext (List.mem_of_mem_filter hmem)) fun c hc => ?_
    rcases head?_withoutReturns hpaired.of_append hc with hhead | ⟨hfeed, -⟩
    · exact hrest c hhead
    · exact hfeed
  | @blockComment text htext =>
    refine .inr ?_
    have hinner : ReturnsPaired (text ++ ['*', '/'] ++ rest) :=
      (returnsPaired_cons_iff.1 (returnsPaired_cons_iff.1 hpaired).2).2
    rw [List.append_assoc] at hinner
    have hends := htext.withoutReturns (hinner.left_of_append nofun)
    rw [withoutReturns_cons (by decide), withoutReturns_cons (by decide), withoutReturns_append]
    exact .blockComment hends

theorem Gap.withoutReturns {rest gap : List Char} (h : Gap rest gap)
    (hpaired : ReturnsPaired (gap ++ rest)) :
    Gap (withoutReturns rest) (withoutReturns gap) := by
  induction h with
  | nil => exact .nil
  | @cons text more htext _ ih =>
    rw [List.append_assoc] at hpaired
    have hmore := ih hpaired.of_append
    rw [withoutReturns_append]
    rcases htext.withoutReturns hpaired with hnil | hfiller
    · rwa [hnil]
    · rw [withoutReturns_append] at hfiller
      exact .cons hfiller hmore

/-! ## Layouts -/

theorem IsWord.notMem_return {word : List Char} (h : IsWord word) : '\r' ∉ word := by
  intro hmem
  rcases h with ⟨c, hc, rfl⟩ | hrun
  · rw [List.mem_singleton] at hmem
    subst hmem
    cases hc
  · exact absurd (hrun.2 _ hmem) (by decide)

theorem IsWord.head?_ne_feed {word : List Char} (h : IsWord word) (rest : List Char) :
    (word ++ rest).head? ≠ some '\n' := by
  intro hhead
  obtain ⟨c, left, rfl⟩ := List.exists_cons_of_ne_nil h.ne_nil
  cases hhead
  have hcount := h.count_eq_zero
  simp at hcount

/-- A layout ends with its last gap. -/
theorem suffix_text (last : List Char) (ps : List Piece) : last <:+ Piece.text last ps := by
  induction ps with
  | nil => exact List.suffix_rfl
  | cons p ps ih =>
    rw [Piece.text, ← List.append_assoc]
    exact ih.trans (List.suffix_append _ _)

/-- The piece with the returns of its gap left out. -/
def Piece.withoutReturns (p : Piece) : Piece :=
  { p with gap := Text.withoutReturns p.gap }

theorem text_withoutReturns {last : List Char} {ps : List Piece} (h : Laid last ps) :
    Piece.text (withoutReturns last) (ps.map Piece.withoutReturns) =
      withoutReturns (Piece.text last ps) := by
  induction h with
  | nil => rfl
  | @cons p ps _ hword _ _ ih =>
    rw [List.map_cons, Piece.text, ih, Piece.text, withoutReturns_append, withoutReturns_append,
      withoutReturns_eq_self hword.notMem_return]
    rfl

theorem Laid.withoutReturns {last : List Char} {ps : List Piece} (h : Laid last ps)
    (hpaired : ReturnsPaired (Piece.text last ps)) :
    Laid (withoutReturns last) (ps.map Piece.withoutReturns) := by
  induction h with
  | nil hlast =>
    have hgap := hlast.withoutReturns (by rwa [List.append_nil])
    exact .nil hgap
  | @cons p ps hgap hword hapart hrest ih =>
    have hbehind : ReturnsPaired (Piece.text last ps) := hpaired.of_append.of_append
    refine .cons ?_ hword ?_ (ih hbehind)
    · have hgap' := hgap.withoutReturns hpaired
      rwa [withoutReturns_append, withoutReturns_eq_self hword.notMem_return,
        ← text_withoutReturns hrest] at hgap'
    · -- A gap of returns only would stand before a word, not before a line feed.
      intro q hq hrun hrun' hnil
      cases hrest with
      | nil => cases hq
      | @cons q ps _ hword' _ _ =>
        cases hq
        have hgap' : ReturnsPaired q.gap := hbehind.left_of_append (hword'.head?_ne_feed _)
        exact hapart q rfl hrun hrun' (eq_nil_of_withoutReturns hgap' hnil)

theorem tokens_withoutReturns {before before' : List Char} (ps : List Piece)
    (h : before'.count '\n' = before.count '\n') :
    Piece.tokens before' (ps.map Piece.withoutReturns) = Piece.tokens before ps := by
  induction ps generalizing before before' with
  | nil => rfl
  | cons p ps ih =>
    have hgap : (before' ++ withoutReturns p.gap).count '\n' = (before ++ p.gap).count '\n' := by
      rw [List.count_append, List.count_append, h, count_withoutReturns]
    have hrest : (before' ++ withoutReturns p.gap ++ p.word).count '\n' =
        (before ++ p.gap ++ p.word).count '\n' := by
      rw [List.count_append, hgap, ← List.count_append]
    rw [List.map_cons, Piece.tokens, Piece.tokens, Piece.withoutReturns, hgap, ih hrest]

namespace Layout

def withoutReturns (l : Layout) (h : ReturnsPaired l.text) : Layout :=
  ⟨_, _, l.laid.withoutReturns h⟩

variable {l : Layout} (h : ReturnsPaired l.text)

theorem text_withoutReturns : (l.withoutReturns h).text = Text.withoutReturns l.text :=
  Ipld.text_withoutReturns l.laid

theorem tokens_withoutReturns : (l.withoutReturns h).tokens = l.tokens :=
  Ipld.tokens_withoutReturns l.pieces rfl

end Layout

/-! ## Places where nothing begins -/

theorem infix_of_withoutReturns {text : List Char} (hpaired : ReturnsPaired text)
    (h : ['*', '/'] <:+: withoutReturns text) : ['*', '/'] <:+: text := by
  induction text with
  | nil => exact h
  | cons c text ih =>
    have hpaired' := (returnsPaired_cons_iff.1 hpaired).2
    by_cases hreturn : c = '\r'
    · subst hreturn
      exact List.infix_cons (ih hpaired' h)
    · rw [withoutReturns_cons hreturn, List.infix_cons_iff] at h
      rcases h with hprefix | hinfix
      · obtain ⟨rfl, hslash⟩ := List.cons_prefix_cons.1 hprefix
        obtain ⟨after, hafter⟩ := hslash
        have hhead : (withoutReturns text).head? = some '/' := by rw [← hafter]; rfl
        obtain ⟨left, rfl⟩ :=
          List.head?_eq_some_iff.1 (head?_of_withoutReturns hpaired' hhead (by decide))
        exact ⟨[], left, rfl⟩
      · exact List.infix_cons (ih hpaired' hinfix)

theorem Stops.head?_ne_feed {line : Nat} {rest : List Char} {a : SchemaError}
    (h : Stops line rest a) : rest.head? ≠ some '\n' := by
  obtain ⟨c, hhead, hc⟩ := h.exists_head
  rw [hhead]
  rintro ⟨⟩
  cases hc.blank

theorem Stops.withoutReturns {line : Nat} {rest : List Char} {a : SchemaError}
    (h : Stops line rest a) (hpaired : ReturnsPaired rest) :
    Stops line (withoutReturns rest) a := by
  cases h with
  | @character c rest h =>
    have hreturn : c ≠ '\r' := by
      rintro rfl
      cases h.blank
    have hpaired' := (returnsPaired_cons_iff.1 hpaired).2
    rw [withoutReturns_cons hreturn]
    refine .character ⟨h.blank, h.symbol, h.word, fun hc => ⟨fun hhead => ?_, fun hhead => ?_⟩⟩
    · exact (h.comment hc).1 (head?_of_withoutReturns hpaired' hhead (by decide))
    · exact (h.comment hc).2 (head?_of_withoutReturns hpaired' hhead (by decide))
  | @comment rest h =>
    have hpaired' := (returnsPaired_cons_iff.1 (returnsPaired_cons_iff.1 hpaired).2).2
    rw [withoutReturns_cons (by decide), withoutReturns_cons (by decide)]
    exact .comment fun hinfix => h (infix_of_withoutReturns hpaired' hinfix)

/-! ## Whole sources -/

variable {text : List Char}

/-- Without the returns, nothing begins at the same place. -/
theorem exists_stops_withoutReturns {l : Layout} {rest : List Char} {a : SchemaError}
    (h : ReturnsPaired (l.text ++ rest)) (hlast : Gap rest l.last)
    (hstops : Stops (1 + l.text.count '\n') rest a) :
    ∃ l' : Layout, withoutReturns (l.text ++ rest) = l'.text ++ withoutReturns rest ∧
      l'.tokens = l.tokens ∧ l'.text.count '\n' = l.text.count '\n' ∧
      Gap (withoutReturns rest) l'.last ∧ Stops (1 + l'.text.count '\n') (withoutReturns rest) a := by
  have hl : ReturnsPaired l.text := h.left_of_append hstops.head?_ne_feed
  have hcount : (l.withoutReturns hl).text.count '\n' = l.text.count '\n' := by
    rw [l.text_withoutReturns, count_withoutReturns]
  have hgap : ReturnsPaired (l.last ++ rest) := by
    obtain ⟨before, hbefore⟩ := suffix_text l.last l.pieces
    rw [Layout.text, ← hbefore, List.append_assoc] at h
    exact h.of_append
  refine ⟨l.withoutReturns hl, ?_, l.tokens_withoutReturns hl, hcount, hlast.withoutReturns hgap, ?_⟩
  · rw [withoutReturns_append, l.text_withoutReturns]
  · rw [hcount]
    exact hstops.withoutReturns h.of_append

theorem tokenize_withoutReturns (h : ReturnsPaired text) :
    tokenize (String.ofList (withoutReturns text)) = tokenize (String.ofList text) := by
  cases htokens : tokenize (String.ofList text) with
  | ok ts =>
    obtain ⟨l, htext, rfl⟩ := exists_layout_of_tokenize htokens
    rw [String.toList_ofList] at htext
    subst htext
    rw [← l.text_withoutReturns h, tokenize_layout, l.tokens_withoutReturns h]
  | error e =>
    obtain ⟨l, rest, a, htext, hlast, hstops, rfl⟩ := tokenize_eq_error_iff.1 htokens
    rw [String.toList_ofList] at htext
    subst htext
    obtain ⟨l', htext', -, -, hlast', hstops'⟩ := exists_stops_withoutReturns h hlast hstops
    rw [htext', tokenize_of_stops l' hlast' hstops']

theorem lexemes_unique {ts : List Token} {ls ls' : List Lexeme}
    (h : List.Forall₂ Token.Lexes ts ls) (h' : List.Forall₂ Token.Lexes ts ls') : ls = ls' := by
  induction h generalizing ls' with
  | nil =>
    cases h'
    rfl
  | @cons t l ts ls ht _ ih =>
    cases h' with
    | @cons _ l' _ _ ht' hrest' =>
      have hterminal : l.terminal = l'.terminal :=
        Option.some_inj.1 (ht.terminal.symm.trans ht'.terminal)
      rw [ih hrest', ← lexeme_eq_of_lexes ht, ← lexeme_eq_of_lexes ht', hterminal]

/-- The grammar finds the same lexemes and the same stray character. -/
theorem lexemes_withoutReturns (h : ReturnsPaired text) :
    lexemes 1 (withoutReturns text) = lexemes 1 text := by
  cases htokens : tokenize (String.ofList text) with
  | ok ts =>
    have htokens' := (tokenize_withoutReturns h).trans htokens
    obtain ⟨ls, hlexemes, hls⟩ := lexemes_of_tokenize_eq_ok htokens
    obtain ⟨ls', hlexemes', hls'⟩ := lexemes_of_tokenize_eq_ok htokens'
    rw [String.toList_ofList] at hlexemes hlexemes'
    rw [hlexemes, hlexemes', lexemes_unique hls hls']
  | error e =>
    obtain ⟨l, rest, a, htext, hlast, hstops, rfl⟩ := tokenize_eq_error_iff.1 htokens
    rw [String.toList_ofList] at htext
    subst htext
    obtain ⟨l', htext', htokens', hcount, hlast', hstops'⟩ :=
      exists_stops_withoutReturns h hlast hstops
    obtain ⟨ls, c, hhead, hlexemes, hls⟩ := exists_lexemes_of_stops l hlast hstops
    obtain ⟨ls', c', hhead', hlexemes', hls'⟩ := exists_lexemes_of_stops l' hlast' hstops'
    rw [htokens'] at hls'
    have hchar : c' = c := by
      refine Option.some_inj.1 ((head?_of_withoutReturns h.of_append hhead' ?_).symm.trans hhead)
      exact fun hfeed => hstops'.head?_ne_feed (hhead'.trans (congrArg some hfeed))
    rw [htext', hlexemes, hlexemes', lexemes_unique hls hls', hchar, hcount]

/-- **Carriage returns before line feeds make no difference**, to neither parser and in no error. -/
theorem parse_withoutReturns (f : Frontend) (h : ReturnsPaired text) :
    f.parse (String.ofList (withoutReturns text)) = f.parse (String.ofList text) := by
  cases f with
  | handwritten =>
    change parse _ = parse _
    rw [parse, parse, tokenize_withoutReturns h]
  | grammar =>
    change Grammar.parse _ = Grammar.parse _
    simp only [Grammar.parse, String.toList_ofList, lexemes_withoutReturns h]

end Ipld
