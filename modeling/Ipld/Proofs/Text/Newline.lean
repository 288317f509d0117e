import Ipld.Text.Newline

/-!
# Carriage returns that belong to a line end

In a text with line ends of one or two characters every carriage return is followed by a line feed.
Such a text is read from a file as if it had no carriage returns at all, and a text that has none
may be written with either kind of line end.
-/

namespace Ipld.Text

/-- Every carriage return is followed by a line feed. -/
def ReturnsPaired (text : List Char) : Prop :=
  ∀ before after, text = before ++ '\r' :: after → after.head? = some '\n'

def withoutReturns (text : List Char) : List Char :=
  text.filter (· ≠ '\r')

/-- The text with a carriage return before every line feed. -/
def withReturns (text : List Char) : List Char :=
  text.flatMap fun c => if c = '\n' then ['\r', '\n'] else [c]

variable {c : Char} {text rest : List Char}

theorem returnsPaired_nil : ReturnsPaired [] := by
  intro before after h
  cases before <;> cases h

theorem returnsPaired_cons_iff :
    ReturnsPaired (c :: text) ↔ (c = '\r' → text.head? = some '\n') ∧ ReturnsPaired text := by
  constructor
  · intro h
    refine ⟨?_, fun before after heq => h (c :: before) after (congrArg (c :: ·) heq)⟩
    rintro rfl
    exact h [] text rfl
  · rintro ⟨hc, h⟩ before after heq
    cases before with
    | nil =>
      obtain ⟨rfl, rfl⟩ := List.cons.inj heq
      exact hc rfl
    | cons d before => exact h before after (List.cons.inj heq).2

theorem ReturnsPaired.of_append {before : List Char} (h : ReturnsPaired (before ++ text)) :
    ReturnsPaired text := by
  rintro left after rfl
  exact h (before ++ left) after (List.append_assoc _ _ _).symm

/-- Before anything but a line feed no return is left open. -/
theorem ReturnsPaired.left_of_append (h : ReturnsPaired (text ++ rest))
    (hrest : rest.head? ≠ some '\n') : ReturnsPaired text := by
  rintro before after rfl
  have hhead := h before (after ++ rest) (List.append_assoc _ _ _)
  cases after with
  | nil => exact absurd hhead hrest
  | cons d after => exact hhead

/-! ## Texts without returns -/

theorem withoutReturns_cons (h : c ≠ '\r') :
    withoutReturns (c :: text) = c :: withoutReturns text := by
  simp [withoutReturns, h]

@[simp]
theorem withoutReturns_append :
    withoutReturns (text ++ rest) = withoutReturns text ++ withoutReturns rest :=
  List.filter_append text rest

theorem withoutReturns_eq_self (h : '\r' ∉ text) : withoutReturns text = text :=
  List.filter_eq_self.2 fun _ hc => decide_eq_true fun heq => h (heq ▸ hc)

/-- No line is lost. -/
theorem count_withoutReturns : (withoutReturns text).count '\n' = text.count '\n' :=
  List.count_filter rfl

/-- The first character is kept, unless it is a return; then the line feed behind it comes first. -/
theorem head?_withoutReturns (h : ReturnsPaired text) (hc : c ∈ (withoutReturns text).head?) :
    c ∈ text.head? ∨ c = '\n' ∧ text.head? = some '\r' := by
  cases text with
  | nil => cases hc
  | cons d text =>
    by_cases hd : d = '\r'
    · subst hd
      obtain ⟨left, rfl⟩ := List.head?_eq_some_iff.1 ((returnsPaired_cons_iff.1 h).1 rfl)
      cases hc
      exact .inr ⟨rfl, rfl⟩
    · rw [withoutReturns_cons hd] at hc
      exact .inl hc

theorem head?_of_withoutReturns (h : ReturnsPaired text)
    (hc : (withoutReturns text).head? = some c) (hfeed : c ≠ '\n') : text.head? = some c :=
  (head?_withoutReturns h hc).resolve_right fun hreturn => hfeed hreturn.1

theorem eq_nil_of_withoutReturns (h : ReturnsPaired text) (hnil : withoutReturns text = []) :
    text = [] := by
  cases text with
  | nil => rfl
  | cons d text =>
    by_cases hd : d = '\r'
    · subst hd
      obtain ⟨left, rfl⟩ := List.head?_eq_some_iff.1 ((returnsPaired_cons_iff.1 h).1 rfl)
      cases hnil
    · rw [withoutReturns_cons hd] at hnil
      cases hnil

/-! ## Reading from a file -/

/-- What is read from a file has lost its returns. -/
theorem universalNewlines_eq_withoutReturns (h : ReturnsPaired text) :
    universalNewlines text = withoutReturns text := by
  fun_induction universalNewlines text with
  | case1 => rfl
  | case2 rest ih =>
    rw [ih (returnsPaired_cons_iff.1 (returnsPaired_cons_iff.1 h).2).2]
    rfl
  | case3 rest hrest ih =>
    obtain ⟨left, rfl⟩ := List.head?_eq_some_iff.1 ((returnsPaired_cons_iff.1 h).1 rfl)
    exact absurd rfl (hrest left)
  | case4 c rest _ hc ih =>
    rw [ih (returnsPaired_cons_iff.1 h).2, withoutReturns_cons hc]

/-! ## Longer line ends -/

theorem withoutReturns_withReturns_cons (hc : c ≠ '\r') :
    withoutReturns (withReturns (c :: text)) = c :: withoutReturns (withReturns text) := by
  rw [withReturns, List.flatMap_cons, withoutReturns_append, ← withReturns]
  split
  · next hfeed =>
    subst hfeed
    rfl
  · rw [withoutReturns_cons hc]
    rfl

theorem withoutReturns_withReturns (h : '\r' ∉ text) :
    withoutReturns (withReturns text) = text := by
  induction text with
  | nil => rfl
  | cons c text ih =>
    rw [List.mem_cons, not_or] at h
    rw [withoutReturns_withReturns_cons (Ne.symm h.1), ih h.2]

theorem returnsPaired_withReturns (h : '\r' ∉ text) : ReturnsPaired (withReturns text) := by
  induction text with
  | nil => exact returnsPaired_nil
  | cons c text ih =>
    rw [List.mem_cons, not_or] at h
    rw [withReturns, List.flatMap_cons, ← withReturns]
    split
    · refine returnsPaired_cons_iff.2 ⟨fun _ => rfl, returnsPaired_cons_iff.2 ⟨?_, ih h.2⟩⟩
      exact nofun
    · exact returnsPaired_cons_iff.2 ⟨fun hc => absurd hc.symm h.1, ih h.2⟩

end Ipld.Text
