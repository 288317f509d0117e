import Ipld.Proofs.Fuzz.Corpus
import Ipld.Proofs.Fuzz.Operation

/-!
# One round of a run

A round draws an input and then settles it: the judges are asked about it, and it may join the
corpus.  The input is always plain text and the corpus always has the form that it began with, so
what is left to be known of a round is what the judges make of the counters and the files.  Drawing,
printing and reading the clock change neither (`Session.Idles`).

Printing the statistics halts the run when there are too many inputs for a rate.
-/

namespace Ipld.Fuzz

open Decimal Ipld.Random

variable {σ : Type}

/-- Nothing has happened in between but drawing, printing and reading the clock. -/
structure Session.Idles (s s' : Session σ) : Prop where
  stats : s'.stats = s.stats
  files : s'.files = s.files
  clock : s'.clock = s.clock
  started : s'.started = s.started
  read : s.read ≤ s'.read

theorem Session.idles_draw (s : Session σ) (source : σ) : s.Idles { s with source } :=
  ⟨rfl, rfl, rfl, rfl, Nat.le_refl _⟩

theorem Session.idles_write (s : Session σ) (output : String) : s.Idles { s with output } :=
  ⟨rfl, rfl, rfl, rfl, Nat.le_refl _⟩

theorem Session.idles_readClock (s : Session σ) : s.Idles { s with read := s.read + 1 } :=
  ⟨rfl, rfl, rfl, rfl, Nat.le_succ _⟩

/-- The property outlasts whatever changes neither counters nor files. -/
def Lasts (P : Session σ → Prop) : Prop :=
  ∀ ⦃s s'⦄, s.Idles s' → P s → P s'

variable {env : Environment} {corpus : List String} {input : String} {s : Session σ}
  {H : Halt → Session σ → Prop} {P : Session σ → Prop}

theorem ends_printStats (hP : Lasts P) (h : P s)
    (hfloat : ∀ s', P s' → floatLimit ≤ s'.stats.iterations → H (.fault (.lacking .float)) s') :
    Ends printStats (fun _ s' => P s') H s := by
  have hread := hP s.idles_readClock h
  simp only [printStats, ends_bind, ends_readClock, ends_get]
  refine .orHalt (fun _ _ => hP (Session.idles_write _ _) hread) fun e hrate => ?_
  obtain ⟨rfl, hlimit, -⟩ := rate_eq_error_iff.1 hrate
  exact hfloat _ hread hlimit

theorem ends_timeIsUp (hP : Lasts P) (deadline : Option Float) (h : P s) :
    Ends (timeIsUp deadline) (fun _ s' => P s') H s := by
  cases deadline with
  | none => exact h
  | some t =>
    rw [timeIsUp, ends_bind, ends_readClock]
    exact hP s.idles_readClock h

/-- A limit without a number halts the run. -/
theorem ends_isSpent (limits : Limits) (h : P s) (hlimit : H (.fault (.lacking .limit)) s) :
    Ends (isSpent limits) (fun _ s' => P s') H s := by
  unfold isSpent
  split
  · exact h
  · exact hlimit
  · exact h

variable [Source σ]

/-- What is done with an input, and the corpus after it. -/
def settle (env : Environment) (corpus : List String) (input : String) :
    Operation σ (List String) := do
  let interesting ← examine env input
  let corpus ← draw (update corpus input interesting)
  if (← get).stats.iterations % 1000 = 0 then printStats
  return corpus

theorem tryInput_eq (env : Environment) (corpus : List String) :
    (tryInput env corpus : Operation σ (List String)) = (do
      count fun stats => { stats with iterations := stats.iterations + 1 }
      let input ← draw (nextInput corpus)
      settle env corpus input) :=
  rfl

/-- Once the judges are asked, counters and files stay as they are. -/
theorem ends_settle (hP : Lasts P) (hcorpus : IsCorpus corpus) (hinput : IsAscii input)
    (hfloat : ∀ s', P s' → floatLimit ≤ s'.stats.iterations → H (.fault (.lacking .float)) s')
    (h : Ends (examine env input) (fun _ s' => P s') H s) :
    Ends (settle env corpus input) (fun corpus' s' => IsCorpus corpus' ∧ P s') H s := by
  rw [settle, ends_bind]
  refine h.mono fun interesting t ht => ?_
  rw [ends_bind]
  refine .draw (gives_update hcorpus hinput interesting) fun corpus' source hcorpus' => ?_
  have hdrawn : P { t with source } := hP (t.idles_draw source) ht
  -- At the end the statistics may be printed.
  rw [ends_bind, ends_get]
  split
  · rw [ends_bind]
    exact (ends_printStats hP hdrawn hfloat).mono fun _ t' ht' => ⟨hcorpus', ht'⟩
  · exact ⟨hcorpus', hdrawn⟩

/-- An input is drawn, counted and settled. -/
theorem ends_tryInput (hP : Lasts P) (hcorpus : IsCorpus corpus)
    (hfloat : ∀ s', P s' → floatLimit ≤ s'.stats.iterations → H (.fault (.lacking .float)) s')
    (h : ∀ input source, IsAscii input →
      Ends (examine env input) (fun _ s' => P s') H
        { s with stats := { s.stats with iterations := s.stats.iterations + 1 }, source }) :
    Ends (tryInput env corpus) (fun corpus' s' => IsCorpus corpus' ∧ P s') H s := by
  rw [tryInput_eq, ends_bind, ends_count, ends_bind]
  exact .draw (gives_nextInput hcorpus) fun input source hinput =>
    ends_settle hP hcorpus hinput hfloat (h input source hinput)

end Ipld.Fuzz
