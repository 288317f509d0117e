import Ipld.Command.Interface
import Ipld.Proofs.Text.Numeral
import Mathlib.Data.List.TakeWhile

/-!
# Reading command lines

An integer is never read as a switch, be it negative or not.  A switch that takes a value is met
with the argument behind it, and arguments without switches behind them are the group.  What every
event keeps holds of the settings in the end.
-/

namespace Ipld.Command.Interface

open Text

variable {i : Interface}

/-! ## The first look -/

theorem classify_of_not_beginsWith {text : String} (h : beginsWith text "-" = false) :
    i.classify text = .ok (.plain text) := by
  simp [classify, h]

theorem classifyAll_cons {text : String} (h : text ≠ "--") {word : Word} {rest : List String}
    {words : List Word} (hword : i.classify text = .ok word)
    (hrest : i.classifyAll rest = .ok words) :
    i.classifyAll (text :: rest) = .ok (word :: words) := by
  rw [classifyAll]
  · rw [hword, hrest]
    rfl
  · exact h

theorem beginsWith_hyphen {text : String} {c : Char} {cs : List Char} (h : text.toList = c :: cs) :
    beginsWith text "-" = ('-' == c) := by
  rw [beginsWith, h]
  exact Bool.and_true _

/-- What follows a hyphen decides whether a text is read as a switch. -/
theorem classify_of_isNegativeNumber {c : Char} {rest : List Char}
    (hnames : ∀ entry ∈ i.named, entry.1.toList[1]? ≠ some c) (hc : c ≠ '-')
    (hsign : '=' ∉ c :: rest) (hnumber : isNegativeNumber (String.ofList ('-' :: c :: rest)) = true) :
    i.classify (String.ofList ('-' :: c :: rest)) =
      .ok (.plain (String.ofList ('-' :: c :: rest))) := by
  have hlist : (String.ofList ('-' :: c :: rest)).toList = '-' :: c :: rest := String.toList_ofList
  generalize htext : String.ofList ('-' :: c :: rest) = text at hlist hnumber
  have hbegins : beginsWith text "-" = true := by
    rw [beginsWith_hyphen hlist]
    rfl
  have hswitch : i.switch? text = none := by
    rw [switch?, List.lookup_eq_none_iff]
    intro entry hentry
    have hne : text ≠ entry.1 := by
      rintro rfl
      exact hnames entry hentry (by rw [hlist]; rfl)
    simpa using hne
  have hhyphen : text ≠ "-" := by
    rintro rfl
    cases hlist
  have hdrop : text.toList.dropWhile (· != '=') = [] := by
    rw [hlist, List.dropWhile_eq_nil_iff]
    rintro d hd
    rcases List.mem_cons.1 hd with rfl | hd
    · decide
    · simpa using fun heq : d = '=' => hsign (heq ▸ hd)
  have hsplit : splitEquals text = (text, none) := by
    rw [splitEquals, hdrop]
  have hcandidates : i.candidates text = [] := by
    unfold candidates
    rw [hlist]
    split
    · next heq =>
      cases heq
      exact absurd rfl hc
    · next d more _ heq =>
      cases heq
      rw [List.filterMap_eq_nil_iff]
      intro entry hentry
      have hentry := hnames entry hentry
      have hshort : entry.1 ≠ String.ofList ['-', c] := by
        intro heq
        rw [heq, String.toList_ofList] at hentry
        exact hentry rfl
      have hstart : beginsWith entry.1 text = false := by
        rw [beginsWith, hlist, Bool.eq_false_iff]
        intro hprefix
        obtain ⟨left, hleft⟩ := List.isPrefixOf_iff_prefix.1 hprefix
        rw [← hleft] at hentry
        exact hentry rfl
      simp only [if_neg hshort, hstart, Bool.false_eq_true, if_false]
    · rfl
  rw [classify]
  simp [hbegins, hswitch, hhyphen, hsplit, hcandidates, hnumber]

theorem isNegativeNumber_decimal (n : Nat) :
    isNegativeNumber (String.ofList ('-' :: decimal n)) = true := by
  have hdigit : ∀ c ∈ decimal n, isDecimalDigit c = true := forall_mem_decimal (by decide) n
  have hfeed : (decimal n).getLast? ≠ some '\n' := by
    intro hlast
    exact absurd (hdigit _ (List.mem_of_getLast? hlast)) (by decide)
  have hdrop : (decimal n).dropWhile isDecimalDigit = [] := List.dropWhile_eq_nil_iff.2 hdigit
  have htake : (decimal n).takeWhile isDecimalDigit = decimal n :=
    List.takeWhile_eq_self_iff.2 hdigit
  unfold isNegativeNumber
  rw [String.toList_ofList]
  simp only [if_neg hfeed, hdrop, htake]
  simpa using decimal_ne_nil n

/-- An integer is no switch, where no switch begins with a hyphen and a digit. -/
theorem classify_renderInt
    (hnames : ∀ entry ∈ i.named, entry.1.toList[1]?.any isDecimalDigit = false) (k : Int) :
    i.classify (renderInt k) = .ok (.plain (renderInt k)) := by
  cases k with
  | ofNat n =>
    refine classify_of_not_beginsWith ?_
    have hhead : ∀ c ∈ decimal n, c ≠ '-' := forall_mem_decimal (by decide) n
    obtain ⟨c, cs, heq⟩ := List.exists_cons_of_ne_nil (decimal_ne_nil n)
    rw [heq] at hhead
    have hc : ('-' == c) = false := beq_false_of_ne (hhead c List.mem_cons_self).symm
    have hlist : (renderInt (.ofNat n)).toList = c :: cs := by
      rw [renderInt, signedDecimal, heq, String.toList_ofList]
    rw [beginsWith_hyphen hlist, hc]
  | negSucc n =>
    have hdigits : ∀ c ∈ decimal (n + 1), isDecimalDigit c = true :=
      forall_mem_decimal (by decide) (n + 1)
    have hnumber := isNegativeNumber_decimal (n + 1)
    have hsign : ∀ c ∈ decimal (n + 1), c ≠ '=' ∧ c ≠ '-' := forall_mem_decimal (by decide) (n + 1)
    obtain ⟨c, cs, heq⟩ := List.exists_cons_of_ne_nil (decimal_ne_nil (n + 1))
    rw [renderInt, signedDecimal, heq]
    rw [heq] at hdigits hnumber hsign
    refine classify_of_isNegativeNumber (fun entry hentry hc => ?_) (hsign c List.mem_cons_self).2
      (fun hmem => (hsign _ hmem).1 rfl) hnumber
    have hnot := hnames entry hentry
    rw [hc, Option.any_some, hdigits c List.mem_cons_self] at hnot
    cases hnot

/-! ## Switches and the group -/

theorem events_switch {s : Switch} (hs : s.takesValue = true) (pending : Bool) (extra : List String)
    (name value : String) (rest : List Word) :
    i.events pending extra [] false (.known s name none :: .plain value :: rest) =
      (.switch s (some value) :: (i.events pending extra [] false rest).1,
        (i.events pending extra [] false rest).2) := by
  simp [events, events.flush, hs]

theorem events_plain {name : String} (hgroup : i.group = some name) {values : List String}
    (run : List String) (filled : Bool) (hfilled : filled = true ∨ values ≠ []) :
    i.events true [] run filled (values.map .plain) =
      ([.group ((run.reverse ++ values).erase "--")], none) := by
  induction values generalizing run filled with
  | nil =>
    have hfilled : filled = true := by simpa using hfilled
    simp [events, events.group, events.unrecognized, hgroup, hfilled]
  | cons value values ih =>
    rw [List.map_cons, events, ih _ _ (.inl rfl)]
    simp

/-- Behind the separator everything belongs to the group. -/
theorem events_separator {name : String} (hgroup : i.group = some name) {values : List String}
    (hvalues : values ≠ []) :
    i.events true [] [] false (.separator :: values.map .plain) = ([.group values], none) := by
  rw [events, events_plain hgroup ["--"] false (.inr hvalues), List.reverse_singleton,
    List.singleton_append, List.erase_cons_head]

/-! ## Events -/

theorem foldlM_cons_of_eq_ok {α β ε : Type} {f : α → β → Except ε α} {a a' : α} {b : β}
    (h : f a b = .ok a') (bs : List β) : (b :: bs).foldlM f a = bs.foldlM f a' := by
  rw [List.foldlM_cons, h]
  rfl

/-- A line that is not refused as a whole leads to what its events lead to. -/
theorem parse_of_read {α : Type} {apply : α → Event → Except Exit α} {arguments : List String}
    {met : List Event} (h : i.read arguments = (met, none)) (start : α) :
    i.parse apply start arguments = met.foldlM apply start := by
  rw [parse, h]
  cases hmet : met.foldlM apply start with
  | ok result => simp only [hmet]; rfl
  | error e => simp only [hmet]; rfl

theorem foldlM_preserves {α β ε : Type} {f : α → β → Except ε α} {P : α → Prop}
    (hstep : ∀ a b a', P a → f a b = .ok a' → P a') {bs : List β} {start result : α}
    (hstart : P start) (h : bs.foldlM f start = .ok result) : P result := by
  induction bs generalizing start with
  | nil =>
    cases h
    exact hstart
  | cons b bs ih =>
    rw [List.foldlM_cons] at h
    cases hnext : f start b with
    | error e => rw [hnext] at h; cases h
    | ok next =>
      rw [hnext] at h
      exact ih (hstep start b next hstart hnext) h

/-- What holds at first and is kept by every event holds in the end. -/
theorem parse_preserves {α : Type} {apply : α → Event → Except Exit α} {P : α → Prop}
    {start result : α} {arguments : List String}
    (happly : ∀ a e b, P a → apply a e = .ok b → P b) (hstart : P start)
    (h : i.parse apply start arguments = .ok result) : P result := by
  unfold parse at h
  cases hmet : (i.read arguments).1.foldlM apply start with
  | error e => simp only [hmet] at h; cases h
  | ok a =>
    simp only [hmet] at h
    cases hstop : (i.read arguments).2 with
    | none =>
      simp only [hstop] at h
      cases h
      exact foldlM_preserves happly hstart hmet
    | some message => simp only [hstop] at h; cases h

end Ipld.Command.Interface
