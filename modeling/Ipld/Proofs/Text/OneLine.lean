import Ipld.File.Path
import Ipld.Proofs.Text.Hex
import Ipld.Proofs.Text.Numeral
import Ipld.Text.Quoted

/-!
# Texts without line feeds

What a diagnostic is made of stays on one line: fixed words, numbers, texts in quotes whatever they
are, and paths that are given without a line feed.
-/

namespace Ipld

open Text

/-- What holds of each character of some texts and of what stands between them holds of each
character of the whole. -/
theorem forall_mem_intercalate {P : Char → Prop} {s : String} {ts : List String}
    (hs : ∀ c ∈ s.toList, P c) (hts : ∀ t ∈ ts, ∀ c ∈ t.toList, P c) :
    ∀ c ∈ (s.intercalate ts).toList, P c := by
  induction ts with
  | nil => exact nofun
  | cons t ts ih =>
    rw [List.forall_mem_cons] at hts
    cases ts with
    | nil =>
      rw [String.intercalate_singleton]
      exact hts.1
    | cons u us =>
      simp only [String.intercalate_cons_cons, String.toList_append, List.forall_mem_append]
      exact ⟨⟨hts.1, hs⟩, ih hts.2⟩

/-- There is no line feed in the text. -/
def OneLine (s : String) : Prop :=
  ∀ c ∈ s.toList, c ≠ '\n'

instance (s : String) : Decidable (OneLine s) :=
  List.decidableBAll _ s.toList

theorem oneLine_append {s t : String} : OneLine (s ++ t) ↔ OneLine s ∧ OneLine t := by
  simp only [OneLine, String.toList_append, List.forall_mem_append]

theorem oneLine_ofList {cs : List Char} : OneLine (String.ofList cs) ↔ ∀ c ∈ cs, c ≠ '\n' := by
  rw [OneLine, String.toList_ofList]

theorem oneLine_renderInt (n : Int) : OneLine (renderInt n) := by
  have hdecimal : ∀ n, ∀ c ∈ decimal n, c ≠ '\n' := forall_mem_decimal (by decide)
  rw [renderInt, oneLine_ofList]
  cases n with
  | ofNat n => exact hdecimal n
  | negSucc n => exact List.forall_mem_cons.2 ⟨by decide, hdecimal _⟩

/-! ## Quotes -/

theorem ne_feed_of_mem_hexPadded (style : LetterCase) (width n : Nat) :
    ∀ c ∈ hexPadded style width n, c ≠ '\n' := by
  have hall : ∀ d < 16, hexDigit style d ≠ '\n' := by
    cases style <;> decide
  exact forall_mem_hexPadded (P := (· ≠ '\n')) hall width n

theorem quoteFor_ne_feed (text : List Char) : quoteFor text ≠ '\n' := by
  unfold quoteFor
  split
  · decide
  · decide

theorem ne_feed_of_mem_escape {mark : Char} (hmark : mark ≠ '\n') (width n : Nat) :
    ∀ d ∈ '\\' :: mark :: hexPadded .lower width n, d ≠ '\n' :=
  List.forall_mem_cons.2
    ⟨by decide, List.forall_mem_cons.2 ⟨hmark, ne_feed_of_mem_hexPadded .lower width n⟩⟩

/-- A line feed is escaped, and no escape holds one. -/
theorem ne_feed_of_mem_quotedChar {q : Char} (hq : q ≠ '\n') (c : Char) :
    ∀ d ∈ quotedChar q c, d ≠ '\n' := by
  unfold quotedChar
  split
  · next hc =>
    rcases hc with rfl | rfl
    · exact List.forall_mem_cons.2 ⟨by decide, List.forall_mem_singleton.2 hq⟩
    · simp
  split
  · simp
  split
  · simp
  split
  · simp
  split
  · next hfeed _ _ _ => exact List.forall_mem_singleton.2 hfeed
  split
  · exact ne_feed_of_mem_escape (by decide) 2 _
  split
  · exact ne_feed_of_mem_escape (by decide) 4 _
  · exact ne_feed_of_mem_escape (by decide) 8 _

theorem oneLine_quote (s : String) : OneLine (quote s) := by
  have hquote := quoteFor_ne_feed s.toList
  rw [quote, oneLine_ofList, quoted, List.forall_mem_append, List.forall_mem_cons,
    List.forall_mem_singleton]
  refine ⟨⟨hquote, fun d hd => ?_⟩, hquote⟩
  obtain ⟨c, -, hd⟩ := List.mem_flatMap.1 hd
  exact ne_feed_of_mem_quotedChar hquote c d hd

/-! ## Paths -/

theorem oneLine_of_mem_go {name cs : List Char} (hname : ∀ c ∈ name, c ≠ '\n')
    (hcs : ∀ c ∈ cs, c ≠ '\n') : ∀ part ∈ Path.names.go name cs, OneLine part := by
  have hreverse : ∀ {cs : List Char}, (∀ c ∈ cs, c ≠ '\n') → OneLine (String.ofList cs.reverse) :=
    fun h => oneLine_ofList.2 fun c hc => h c (List.mem_reverse.1 hc)
  induction cs generalizing name with
  | nil => exact List.forall_mem_singleton.2 (hreverse hname)
  | cons c cs ih =>
    rw [List.forall_mem_cons] at hcs
    rw [Path.names.go]
    split
    · exact List.forall_mem_cons.2 ⟨hreverse hname, ih (List.forall_mem_nil _) hcs.2⟩
    · exact ih (List.forall_mem_cons.2 ⟨hcs.1, hname⟩) hcs.2

theorem oneLine_root (path : String) : OneLine (Path.root path) := by
  unfold Path.root
  split
  · decide
  · decide
  · decide

theorem oneLine_display {path : String} (h : OneLine path) : OneLine (Path.display path) := by
  have hparts : ∀ part ∈ Path.parts path, OneLine part :=
    fun part hpart => oneLine_of_mem_go (List.forall_mem_nil _) h part (List.mem_filter.1 hpart).1
  unfold Path.display
  simp only
  split
  · decide
  · have hslash : OneLine "/" := by decide
    exact oneLine_append.2 ⟨oneLine_root path, forall_mem_intercalate hslash hparts⟩

end Ipld
