import Ipld.Proofs.Grammar.Reading

/-!
# Complete runs

A run completes on a token list when it gets over all of it and needs nothing more.  What a run
needs after a step depends on the terminal alone (`map_needs_step`), and whether it may end depends
on what it needs alone (`isSome_close`), so completeness is a matter of the terminals and only the
value is one of the texts.
-/

namespace Ipld

namespace Grammar

variable {α : Type}

/-! ## Steps of a run -/

theorem map_needs_step (l : Lexeme) (needs : List Symbol) (finish : Values needs → α) :
    (step l needs finish).map Run.needs = advance l.terminal needs := by
  induction needs with
  | nil => rfl
  | cons s rest ih =>
    cases s with
    | terminal T =>
      rw [step, advance]
      split
      · rfl
      · rfl
    | rule r =>
      rw [step, advance]
      cases r.productions.find? fun p => p.lead = l.terminal with
      | some p => rfl
      | none =>
        cases r.empty? with
        | some value => exact ih _
        | none => rfl

theorem isSome_close (needs : List Symbol) (finish : Values needs → α) :
    (close needs finish).isSome = nullable needs := by
  induction needs with
  | nil => rfl
  | cons s rest ih =>
    cases s with
    | terminal T => rfl
    | rule r =>
      rw [close, nullable]
      cases r.empty? with
      | some value => exact ih _
      | none => rfl

/-- A value that does not depend on what is still to come stays the same. -/
theorem finish_eq_of_step {l : Lexeme} {needs : List Symbol} {finish : Values needs → α}
    {r : Run α} {c : α} (hfinish : ∀ vs, finish vs = c) (h : step l needs finish = some r) :
    ∀ vs, r.finish vs = c := by
  induction needs with
  | nil => cases h
  | cons s rest ih =>
    cases s with
    | terminal T =>
      rw [step] at h
      split at h
      · cases h
        exact fun vs => hfinish _
      · cases h
    | rule rule =>
      rw [step] at h
      split at h
      · cases h
        exact fun vs => hfinish _
      · split at h
        · exact ih (fun vs => hfinish _) h
        · cases h

theorem eq_of_close {needs : List Symbol} {finish : Values needs → α} {c value : α}
    (hfinish : ∀ vs, finish vs = c) (h : close needs finish = some value) : value = c := by
  induction needs with
  | nil =>
    cases h
    exact hfinish ()
  | cons s rest ih =>
    cases s with
    | terminal T => cases h
    | rule rule =>
      rw [close] at h
      split at h
      · exact ih (fun vs => hfinish _) h
      · cases h

namespace Run

theorem read_eq_none {r : Run α} {t : Token} (h : ∀ T ∈ t.terminal?, T ∉ expected r.needs) :
    r.read t = none := by
  cases ht : t.terminal? with
  | none =>
    rw [read, ht]
    rfl
  | some T =>
    rw [read_eq ht, ← Option.map_eq_none_iff (f := Run.needs), map_needs_step]
    refine Option.eq_none_iff_forall_ne_some.2 fun next hnext => ?_
    exact h T ht (mem_expected_iff.2 ⟨next, hnext⟩)

theorem finish_eq_of_reads {r r' : Run α} {ts : List Token} {c : α}
    (hfinish : ∀ vs, r.finish vs = c) (h : r.reads ts = some r') : ∀ vs, r'.finish vs = c := by
  induction ts generalizing r with
  | nil =>
    cases h
    exact hfinish
  | cons t ts ih =>
    obtain ⟨mid, hmid, h⟩ := Option.bind_eq_some_iff.1 h
    obtain ⟨T, -, hstep⟩ := Option.bind_eq_some_iff.1 hmid
    exact ih (finish_eq_of_step hfinish hstep) h

/-! ## Complete runs -/

/-- The run gets over all the tokens, may end there, and has the value `value`. -/
def Completes (r : Run α) (ts : List Token) (value : α) : Prop :=
  ∃ r', r.reads ts = some r' ∧ close r'.needs r'.finish = some value

variable {r r' : Run α} {ts rest : List Token} {value value' : α}

theorem Completes.unique (h : r.Completes ts value) (h' : r.Completes ts value') :
    value = value' := by
  obtain ⟨r₁, hreads, hclose⟩ := h
  obtain ⟨r₂, hreads', hclose'⟩ := h'
  cases hreads.symm.trans hreads'
  cases hclose.symm.trans hclose'
  rfl

theorem Skips.completes_iff (h : r.Skips (next? ts) r') :
    r.Completes ts value ↔ r'.Completes ts value := by
  cases ts with
  | nil =>
    have hclose := h.close_eq
    simp only [Completes, reads, Option.some.injEq, exists_eq_left', hclose]
  | cons t ts =>
    have hread : r.read t = r'.read t := h.read_eq
    simp only [Completes, reads, hread]

theorem Passes.completes_iff (h : r.Passes ts rest r') :
    r.Completes ts value ↔ r'.Completes rest value := by
  obtain ⟨taken, mid, rfl, hreads, hskips⟩ := h
  rw [← hskips.completes_iff]
  simp only [Completes, reads_append, hreads, Option.bind_some]

theorem completes_terminal {T : Terminal} {needs : List Symbol}
    {finish : Values (.terminal T :: needs) → α}
    (h : Completes ⟨.terminal T :: needs, finish⟩ ts value) :
    ∃ t rest, ts = t :: rest ∧ t.is T.kind T.word? = true ∧
      Completes ⟨needs, fun vs => finish (t.lexeme T, vs)⟩ rest value := by
  obtain ⟨r', hreads, hclose⟩ := h
  cases ts with
  | nil =>
    cases hreads
    cases hclose
  | cons t rest =>
    obtain ⟨mid, hmid, hreads⟩ := Option.bind_eq_some_iff.1 hreads
    obtain ⟨U, hU, hstep⟩ := Option.bind_eq_some_iff.1 hmid
    rw [step] at hstep
    split at hstep
    · rename_i heq
      obtain rfl : U = T := heq
      cases hstep
      exact ⟨t, rest, rfl, Token.terminal?_eq_some_iff.1 hU, r', hreads, hclose⟩
    · cases hstep

end Run

end Grammar

end Ipld
