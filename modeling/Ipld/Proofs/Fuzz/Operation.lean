import Ipld.Fuzz.Session
import Ipld.Proofs.Random.Draw

/-!
# How an operation ends

`Ends o Q H s` says of an operation that begins in the session `s`: if it gives a value, `Q` holds
of the value and of the session afterwards; if it is halted, `H` holds of the reason and of the
session then.  Sequences are taken apart, and each basic operation is replaced by what it does to
the session.
-/

namespace Ipld.Fuzz

open Ipld.Random

variable {σ α β : Type}

/-- What holds when the operation has ended, be it with a value or early. -/
def Ends (o : Operation σ α) (Q : α → Session σ → Prop) (H : Halt → Session σ → Prop)
    (s : Session σ) : Prop :=
  match o s with
  | (.ok a, s') => Q a s'
  | (.error h, s') => H h s'

variable {o : Operation σ α} {f : α → Operation σ β} {Q Q' : α → Session σ → Prop}
  {R : β → Session σ → Prop} {H : Halt → Session σ → Prop} {s : Session σ}

theorem Ends.mono (h : Ends o Q H s) (himp : ∀ a s', Q a s' → Q' a s') : Ends o Q' H s := by
  unfold Ends at *
  split
  · next heq =>
    rw [heq] at h
    exact himp _ _ h
  · next heq =>
    rw [heq] at h
    exact h

theorem Ends.of_eq_ok {a : α} {s' : Session σ} (h : Ends o Q H s) (heq : o s = (.ok a, s')) :
    Q a s' := by
  unfold Ends at h
  rw [heq] at h
  exact h

theorem Ends.of_eq_error {e : Halt} {s' : Session σ} (h : Ends o Q H s)
    (heq : o s = (.error e, s')) : H e s' := by
  unfold Ends at h
  rw [heq] at h
  exact h

/-- An operation that nothing can halt gives a value. -/
theorem Ends.exists_ok (h : Ends o Q (fun _ _ => False) s) :
    ∃ a s', o s = (.ok a, s') ∧ Q a s' := by
  unfold Ends at h
  split at h
  · next a s' heq => exact ⟨a, s', heq, h⟩
  · exact h.elim

@[simp]
theorem ends_bind : Ends (o >>= f) R H s ↔ Ends o (fun a s' => Ends (f a) R H s') H s := by
  simp only [Ends, Bind.bind, ExceptT.bind, ExceptT.mk, ExceptT.bindCont, StateT.bind]
  cases h : o s with
  | mk result s' =>
    cases result with
    | ok a => rfl
    | error e => rfl

@[simp]
theorem ends_pure {a : α} : Ends (pure a : Operation σ α) Q H s ↔ Q a s :=
  Iff.rfl

@[simp]
theorem ends_map {g : α → β} : Ends (g <$> o) R H s ↔ Ends o (fun a s' => R (g a) s') H s := by
  rw [map_eq_pure_bind, ends_bind]
  rfl

@[simp]
theorem ends_throw {e : Halt} : Ends (throw e : Operation σ α) Q H s ↔ H e s :=
  Iff.rfl

@[simp]
theorem ends_get {Q : Session σ → Session σ → Prop} :
    Ends (get : Operation σ (Session σ)) Q H s ↔ Q s s :=
  Iff.rfl

@[simp]
theorem ends_modify {g : Session σ → Session σ} {Q : Unit → Session σ → Prop} :
    Ends (modify g : Operation σ Unit) Q H s ↔ Q () (g s) :=
  Iff.rfl

@[simp]
theorem ends_count {g : Stats → Stats} {Q : Unit → Session σ → Prop} :
    Ends (count g : Operation σ Unit) Q H s ↔ Q () { s with stats := g s.stats } :=
  Iff.rfl

@[simp]
theorem ends_write {text : String} {Q : Unit → Session σ → Prop} :
    Ends (write text : Operation σ Unit) Q H s ↔ Q () { s with output := s.output ++ text } :=
  Iff.rfl

@[simp]
theorem ends_readClock {Q : Float → Session σ → Prop} :
    Ends (readClock : Operation σ Float) Q H s ↔ Q (s.clock s.read) { s with read := s.read + 1 } :=
  Iff.rfl

@[simp]
theorem ends_askFirst {env : Environment} {input : String} {Q : Verdict → Session σ → Prop} :
    Ends (askFirst env input) Q H s ↔
      Q (env.judges.first s.examined input) { s with examined := s.examined + 1 } :=
  Iff.rfl

@[simp]
theorem ends_askSecond {env : Environment} {input : String} {Q : Verdict → Session σ → Prop} :
    Ends (askSecond env input) Q H s ↔
      Q (env.judges.second s.compared input) { s with compared := s.compared + 1 } :=
  Iff.rfl

theorem Ends.orHalt {result : Except Fault α} (hok : ∀ a, result = .ok a → Q a s)
    (herror : ∀ e, result = .error e → H (.fault e) s) : Ends (orHalt result) Q H s := by
  cases result with
  | ok a => exact hok a rfl
  | error e => exact herror e rfl

/-- What the draw gives is left to its specification; only the source of the session changes. -/
theorem Ends.draw {d : Draw σ α} {P : α → Prop} (h : Gives d P)
    (hQ : ∀ a source, P a → Q a { s with source := source }) : Ends (draw d) Q H s := by
  obtain ⟨a, source, heq, ha⟩ := h s.source
  unfold Ends Fuzz.draw
  rw [heq]
  exact hQ a source ha

/-- What is halted goes on with what catches it. -/
theorem Ends.tryCatch {g : Halt → Operation σ α} {H' : Halt → Session σ → Prop}
    (h : Ends o Q H' s) (hg : ∀ e s', H' e s' → Ends (g e) Q H s') :
    Ends (tryCatch o g) Q H s := by
  unfold Ends at h ⊢
  simp only [MonadExcept.tryCatch, tryCatchThe, MonadExceptOf.tryCatch, ExceptT.tryCatch,
    ExceptT.mk, Bind.bind, StateT.bind]
  cases heq : o s with
  | mk result s' =>
    rw [heq] at h
    cases result with
    | ok a => exact h
    | error e => exact hg e s' h

end Ipld.Fuzz
