import Ipld.Fuzz
import Ipld.Proofs.Agreement.Declared
import Ipld.Proofs.Fuzz.Round
import Ipld.Proofs.Schema.Table

/-!
# Runs without findings

Between the two parsers there is nothing to be found: on any input both give the same schema, or
both refuse it with an error of the source.  So an input is only counted, and a run goes on,
whatever is drawn, until its inputs are spent (`ends_run`).

The statistics that are printed then have a rate in them.  When so many inputs were asked for that
there is no floating-point number for them, the run is halted instead (`ends_run_of_floatLimit`).
-/

namespace Ipld.Fuzz

open Decimal Ipld.Random

variable {σ : Type}

/-! ## One input -/

theorem ofResult_parse {source : String} {ds : List (String × Definition)} (f : Frontend)
    (h : Declares source ds) :
    Verdict.ofResult (f.parse source) = .accepted (.ofDeclarations ds) := by
  rw [f.parse_of_declares h]
  rfl

theorem exists_ofResult_parse {source : String} (f : Frontend) (h : ∀ ds, ¬ Declares source ds) :
    ∃ e, Verdict.ofResult (f.parse source) = .refused e := by
  obtain ⟨e, he⟩ := f.exists_parse_eq_error h
  exact ⟨e, by rw [he]; rfl⟩

/-- The parsers are of one opinion. -/
theorem parsers_agree (examined compared : Nat) (input : String) :
    (∃ s, Judges.parsers.first examined input = .accepted s ∧
        Judges.parsers.second compared input = .accepted s) ∨
      ∃ e e', Judges.parsers.first examined input = .refused e ∧
        Judges.parsers.second compared input = .refused e' := by
  by_cases h : ∃ ds, Declares input ds
  · obtain ⟨ds, hds⟩ := h
    exact .inl ⟨_, ofResult_parse .handwritten hds, ofResult_parse .grammar hds⟩
  · rw [not_exists] at h
    obtain ⟨e, he⟩ := exists_ofResult_parse .handwritten h
    obtain ⟨e', he'⟩ := exists_ofResult_parse .grammar h
    exact .inr ⟨e, e', he, he'⟩

/-- The counters after inputs of which none was a finding. -/
structure Stats.Quiet (stats : Stats) (tried judged : Nat) : Prop where
  iterations : stats.iterations = tried
  judged : stats.accepted + stats.refused = judged
  crashes : stats.crashes = 0
  timeouts : stats.timeouts = 0
  mismatches : stats.mismatches = 0
  findings : stats.findings = []

theorem quiet_zero : Stats.zero.Quiet 0 0 :=
  ⟨rfl, rfl, rfl, rfl, rfl, rfl⟩

/-- A session that goes on from the session `start` of a run: it has had no findings, no file was
written, and the clock has been read since. -/
structure Quiet (start : Session σ) (tried judged : Nat) (s : Session σ) : Prop where
  stats : s.stats.Quiet tried judged
  files : s.files = start.files
  clock : s.clock = start.clock
  started : s.started = start.clock start.read
  read : start.read < s.read

variable {env : Environment} {start s : Session σ} {n m : Nat} {H : Halt → Session σ → Prop}

theorem lasts_quiet : Lasts (Quiet start n m) := by
  intro s s' hidles h
  exact ⟨hidles.stats ▸ h.stats, hidles.files.trans h.files, hidles.clock.trans h.clock,
    hidles.started.trans h.started, Nat.lt_of_lt_of_le h.read hidles.read⟩

theorem ends_examine (hjudges : env.judges = .parsers) (input : String) (h : Quiet start n m s) :
    Ends (examine env input) (fun _ s' => Quiet start n (m + 1) s') H s := by
  have hjudged := h.stats.judged
  unfold examine
  rw [ends_bind, ends_askFirst, hjudges]
  rcases parsers_agree s.examined s.compared input with
    ⟨schema, hfirst, hsecond⟩ | ⟨e, e', hfirst, hsecond⟩
  · simp only [hfirst, stopAt, ends_bind, ends_pure, ends_askSecond, hjudges, hsecond, compare,
      Schema.sameTypes_self, ends_count, if_true, Bool.false_eq_true, if_false]
    refine { h with stats := { h.stats with judged := ?_ } }
    simp only
    omega
  · simp only [hfirst, stopAt, ends_bind, ends_pure, ends_askSecond, hjudges, hsecond, compare,
      ends_count, Bool.false_eq_true, if_false]
    refine { h with stats := { h.stats with judged := ?_ } }
    simp only
    omega

/-! ## All inputs -/

variable [Source σ]

/-- The limits of a run that ends after a number of inputs and not before. -/
def Limits.inputs (bound : Nat) : Limits :=
  ⟨none, some (some bound)⟩

variable {bound : Nat} {corpus : List String}

theorem ends_round (hjudges : env.judges = .parsers) (hcorpus : IsCorpus corpus) (hn : n ≤ bound)
    (hfloat : floatLimit ≤ bound → ∀ s', H (.fault (.lacking .float)) s')
    (h : Quiet start n n s) :
    Ends (round env (.inputs bound) none corpus)
      (fun next s' => match next with
        | none => n = bound ∧ Quiet start n n s'
        | some corpus' => n < bound ∧ IsCorpus corpus' ∧ Quiet start (n + 1) (n + 1) s') H s := by
  have hiterations : s.stats.iterations = n := h.stats.iterations
  unfold round
  simp only [timeIsUp, isSpent, Limits.inputs, ends_bind, ends_pure, ends_get, Bool.false_eq_true,
    if_false, hiterations, decide_eq_true_eq, Int.ofNat_le]
  split
  · next hspent => exact ⟨Nat.le_antisymm hn hspent, h⟩
  · next hmore =>
    have hcounted : ∀ source : σ, Quiet start (n + 1) n
        { s with stats := { s.stats with iterations := s.stats.iterations + 1 }, source } := by
      intro source
      exact { h with stats := { h.stats with iterations := congrArg (· + 1) h.stats.iterations } }
    have htry : Ends (tryInput env corpus)
        (fun corpus' s' => IsCorpus corpus' ∧ Quiet start (n + 1) (n + 1) s') H s := by
      refine ends_tryInput lasts_quiet hcorpus (fun s' hs' hlimit => hfloat ?_ s') ?_
      · rw [hs'.stats.iterations] at hlimit
        omega
      · exact fun input source _ => ends_examine hjudges input (hcounted source)
    rw [ends_bind]
    exact htry.mono fun corpus' s' hs' => ⟨Nat.not_le.1 hmore, hs'⟩

theorem ends_loop (hjudges : env.judges = .parsers) (rounds : Nat) (hcorpus : IsCorpus corpus)
    (hrounds : n + rounds = bound + 1) (hn : n ≤ bound)
    (hfloat : floatLimit ≤ bound → ∀ s', H (.fault (.lacking .float)) s')
    (h : Quiet start n n s) :
    Ends (loop env (.inputs bound) none rounds corpus) (fun _ s' => Quiet start bound bound s') H
      s := by
  induction rounds generalizing n corpus s with
  | zero => omega
  | succ rounds ih =>
    rw [loop, ends_bind]
    refine (ends_round hjudges hcorpus hn hfloat h).mono ?_
    rintro (_ | corpus') s' hs'
    · obtain ⟨rfl, hs'⟩ := hs'
      exact hs'
    · exact ih hs'.2.1 (by omega) hs'.1 hs'.2.2

/-- The loop of a run tries all its inputs without a finding, or it is halted for want of a rate;
what is printed at the end is left open. -/
theorem ends_run_of_finish {Q : Unit → Session σ → Prop} (hjudges : env.judges = .parsers)
    (hzero : start.stats = .zero)
    (hfloat : floatLimit ≤ bound → ∀ s', H (.fault (.lacking .float)) s')
    (hfinish : ∀ s', Quiet start bound bound s' → Ends finish Q H s') :
    Ends (run env (.inputs bound)) Q H start := by
  have hdeadline : ∀ time, (Limits.inputs bound).deadline? time = .ok none := fun _ => rfl
  have hrounds : (Limits.inputs bound).rounds 0 = bound + 1 := by
    simp [Limits.inputs, Limits.rounds]
  have hloop : ∀ t, Quiet start 0 0 t →
      Ends (loop env (.inputs bound) none (bound + 1) seeds)
        (fun _ s' => Quiet start bound bound s')
        (fun e _ => e = .fault (.lacking .float) ∧ floatLimit ≤ bound) t :=
    fun t => ends_loop hjudges (bound + 1) isCorpus_seeds (Nat.zero_add _) (Nat.zero_le _)
      fun hlimit _ => ⟨rfl, hlimit⟩
  have hiterations : start.stats.iterations = 0 := by
    rw [hzero]
    rfl
  simp only [run, begin, ends_bind, ends_readClock, ends_modify, hdeadline, orHalt, ends_write,
    ends_pure, ends_get, hiterations, hrounds]
  refine .tryCatch ((hloop _ ?_).mono fun _ s' hs' => hfinish s' hs') ?_
  · exact ⟨hzero ▸ quiet_zero, rfl, rfl, rfl, Nat.lt_succ_self _⟩
  · rintro e s' ⟨rfl, hlimit⟩
    exact ends_throw.2 (hfloat hlimit s')

theorem ends_run (hjudges : env.judges = .parsers) (hzero : start.stats = .zero)
    (hbound : bound < floatLimit) :
    Ends (run env (.inputs bound)) (fun _ s' => Quiet start bound bound s') H start := by
  refine ends_run_of_finish hjudges hzero (fun hlimit => ?_) fun s' hs' => ?_
  · exact absurd hbound (Nat.not_lt.2 hlimit)
  · rw [finish, ends_bind, ends_write]
    refine ends_printStats lasts_quiet (lasts_quiet (s'.idles_write _) hs') fun t ht hlimit => ?_
    rw [ht.stats.iterations] at hlimit
    exact absurd hbound (Nat.not_lt.2 hlimit)

/-- When time has passed there is no rate for so many inputs. -/
theorem ends_run_of_floatLimit (hjudges : env.judges = .parsers) (hzero : start.stats = .zero)
    (hbound : floatLimit ≤ bound)
    (hclock : ∀ read, start.read < read → 0.0 < start.clock read - start.clock start.read) :
    Ends (run env (.inputs bound)) (fun _ _ => False)
      (fun e _ => e = .fault (.lacking .float)) start := by
  refine ends_run_of_finish hjudges hzero (fun _ _ => rfl) fun s' hs' => ?_
  have hrate : rate s'.stats.iterations (s'.clock s'.read - s'.started) =
      .error (.lacking .float) := by
    rw [rate_eq_error_iff, hs'.stats.iterations, hs'.clock, hs'.started]
    exact ⟨rfl, hbound, hclock _ hs'.read⟩
  simp only [finish, printStats, ends_bind, ends_write, ends_readClock, ends_get, hrate, orHalt,
    ends_throw]

end Ipld.Fuzz
