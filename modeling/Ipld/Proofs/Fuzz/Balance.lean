import Ipld.Proofs.Fuzz.Round

/-!
# What holds whenever a run goes around

Whatever the judges say, every input that is tried is counted once: as accepted, as refused or as
one of the three kinds of findings.  A finding is saved under the digest of its input, and only when
there is none under it, so that there are no more digests than inputs counted as findings.

A run may be halted by the user, by a file that cannot be written, by a limit without a number or by
a number too large for floating point, but never by a mistake in drawing: no range is empty, no
place is outside a list, and no character is missing.
-/

namespace Ipld.Fuzz

open Ipld.Random

variable {σ : Type}

/-- The counters, when `pending` of the inputs that were tried are not counted as anything yet. -/
structure Stats.Balanced (pending : Nat) (stats : Stats) : Prop where
  iterations : stats.iterations = stats.accepted + stats.refused + stats.crashes + stats.timeouts +
    stats.mismatches + pending
  findings : stats.findings.length ≤ stats.crashes + stats.timeouts + stats.mismatches
  nodup : stats.findings.Nodup

/-- The operation is halted by something else than a mistake in drawing. -/
def NoMistake (h : Halt) (_ : Session σ) : Prop :=
  ∀ m, h ≠ .mistake m

theorem noMistake_interrupted (s : Session σ) : NoMistake .interrupted s := by
  intro m h
  cases h

theorem noMistake_fault (e : Fault) (s : Session σ) : NoMistake (.fault e) s := by
  intro m h
  cases h

theorem balanced_zero : Stats.zero.Balanced 0 :=
  ⟨rfl, Nat.le_refl _, List.nodup_nil⟩

variable {env : Environment} {s : Session σ}

/-! ## One input -/

/-- A finding is saved when it has been counted and not been saved yet. -/
theorem ends_saveFinding {input detail category : String} (h : s.stats.Balanced 0)
    (hroom : s.stats.findings.length < s.stats.crashes + s.stats.timeouts + s.stats.mismatches) :
    Ends (saveFinding env input detail category) (fun _ s' => s'.stats.Balanced 0) NoMistake s := by
  unfold saveFinding
  simp only [ends_bind, ends_get]
  split
  · exact h
  · next hnew =>
    have hsaved : Stats.Balanced 0
        { s.stats with findings := digest input :: s.stats.findings } :=
      ⟨h.iterations, hroom, List.nodup_cons.2 ⟨hnew, h.nodup⟩⟩
    rw [ends_bind, ends_count]
    split
    · exact ends_throw.2 (noMistake_fault _ _)
    · rw [ends_bind, ends_modify, ends_write]
      exact hsaved

/-- A finding that is counted has room among the digests. -/
structure Stats.HasRoom (stats : Stats) : Prop extends stats.Balanced 0 where
  room : stats.findings.length < stats.crashes + stats.timeouts + stats.mismatches

/-- There is room for a finding, of whatever kind, once it is counted. -/
theorem Stats.Balanced.hasRoom {stats : Stats} (h : stats.Balanced 1) {c t m : Nat}
    (hone : c + t + m = 1) :
    Stats.HasRoom { stats with
      crashes := stats.crashes + c
      timeouts := stats.timeouts + t
      mismatches := stats.mismatches + m } := by
  obtain ⟨hiterations, hfindings, hnodup⟩ := h
  refine ⟨⟨?_, ?_, hnodup⟩, ?_⟩
  all_goals
    simp only
    omega

/-- A finding is counted and saved. -/
theorem ends_finding {f : Stats → Stats} {input detail category : String}
    (h : (f s.stats).HasRoom) :
    Ends (do
      count f
      saveFinding env input detail category
      return true)
      (fun found s' => found = true ∧ s'.stats.Balanced 0) NoMistake s := by
  rw [ends_bind, ends_count, ends_bind]
  refine (ends_saveFinding (s := { s with stats := f s.stats }) h.toBalanced h.room).mono ?_
  exact fun _ s' hs' => ⟨rfl, hs'⟩

theorem ends_stopAt {input : String} {v : Verdict} (h : s.stats.Balanced 1) :
    Ends (stopAt env input v)
      (fun stopped s' => s'.stats.Balanced (if stopped then 0 else 1)) NoMistake s := by
  cases v with
  | accepted => exact h
  | refused => exact h
  | interrupted => exact ends_throw.2 (noMistake_interrupted _)
  | timedOut message =>
    refine (ends_finding (h.hasRoom (c := 0) (t := 1) (m := 0) rfl)).mono ?_
    rintro _ s' ⟨rfl, hs'⟩
    exact hs'
  | crashed kind message =>
    refine (ends_finding (h.hasRoom (c := 1) (t := 0) (m := 0) rfl)).mono ?_
    rintro _ s' ⟨rfl, hs'⟩
    exact hs'

theorem ends_mismatch {input detail : String} (h : s.stats.Balanced 1) :
    Ends (mismatch env input detail) (fun _ s' => s'.stats.Balanced 0) NoMistake s :=
  (ends_finding (h.hasRoom (c := 0) (t := 0) (m := 1) rfl)).mono fun _ _ hs' => hs'.2

theorem ends_compare {input : String} (first second : Verdict) (h : s.stats.Balanced 1) :
    Ends (compare env input first second) (fun _ s' => s'.stats.Balanced 0) NoMistake s := by
  have hiterations := h.iterations
  have hfindings := h.findings
  unfold compare
  split
  · split
    · rw [ends_bind, ends_count]
      refine ⟨?_, hfindings, h.nodup⟩
      simp only
      omega
    · exact ends_mismatch h
  · rw [ends_bind, ends_count]
    refine ⟨?_, hfindings, h.nodup⟩
    simp only
    omega
  · exact ends_mismatch h

/-- Whatever the judges say, the input is counted. -/
theorem balanced_examine (input : String) (h : s.stats.Balanced 1) :
    Ends (examine env input) (fun _ s' => s'.stats.Balanced 0) NoMistake s := by
  rw [examine, ends_bind, ends_askFirst, ends_bind]
  refine (ends_stopAt (s := { s with examined := s.examined + 1 }) h).mono fun stopped s₁ h₁ => ?_
  cases stopped with
  | true => exact h₁
  | false =>
    -- The first answer counts for nothing by itself, so the second judge is asked.
    simp only [Bool.false_eq_true, if_false, ends_bind, ends_askSecond]
    refine (ends_stopAt (s := { s₁ with compared := s₁.compared + 1 }) h₁).mono ?_
    intro stopped s₂ h₂
    cases stopped with
    | true => exact h₂
    | false => exact ends_compare _ _ h₂

/-! ## One round -/

variable {limits : Limits} {deadline : Option Float} {corpus : List String}

theorem lasts_balanced : Lasts fun s : Session σ => s.stats.Balanced 0 := by
  intro s s' hidles h
  simp only [hidles.stats]
  exact h

theorem balanced_begin (h : s.stats.Balanced 0) :
    Ends (begin env limits) (fun _ s' => s'.stats.Balanced 0) NoMistake s := by
  rw [begin, ends_bind, ends_readClock, ends_bind, ends_modify, ends_bind]
  exact .orHalt (fun _ _ => h) fun _ _ => noMistake_fault _ _

variable [Source σ]

/-- A round, told with the input that is tried in it. -/
def attempt (env : Environment) (limits : Limits) (deadline : Option Float)
    (corpus : List String) : Operation σ (Option (String × List String)) := do
  if ← timeIsUp deadline then return none
  if ← isSpent limits then return none
  count fun stats => { stats with iterations := stats.iterations + 1 }
  let input ← draw (nextInput corpus)
  return some (input, ← settle env corpus input)

theorem round_eq (env : Environment) (limits : Limits) (deadline : Option Float)
    (corpus : List String) :
    (round env limits deadline corpus : Operation σ (Option (List String))) =
      Option.map Prod.snd <$> attempt env limits deadline corpus := by
  simp only [round, attempt, tryInput_eq, map_bind, bind_assoc]
  congr 1
  funext late
  cases late with
  | true => rfl
  | false =>
    simp only [Bool.false_eq_true, if_false, map_bind]
    congr 1
    funext spent
    cases spent with
    | true => rfl
    | false => simp only [Bool.false_eq_true, if_false, map_bind, map_pure, Option.map]

theorem ends_attempt (hcorpus : IsCorpus corpus) (h : s.stats.Balanced 0) :
    Ends (attempt env limits deadline corpus)
      (fun next s' => s'.stats.Balanced 0 ∧
        ∀ input corpus', next = some (input, corpus') → IsAscii input ∧ IsCorpus corpus')
      NoMistake s := by
  rw [attempt, ends_bind]
  refine (ends_timeIsUp lasts_balanced deadline h).mono fun late s₁ h₁ => ?_
  cases late with
  | true => exact ⟨h₁, nofun⟩
  | false =>
    simp only [Bool.false_eq_true, if_false]
    rw [ends_bind]
    refine (ends_isSpent (P := fun s => s.stats.Balanced 0) limits h₁ (noMistake_fault _ _)).mono ?_
    intro spent s₂ h₂
    cases spent with
    | true => exact ⟨h₂, nofun⟩
    | false =>
      have hcounted : Stats.Balanced 1 { s₂.stats with iterations := s₂.stats.iterations + 1 } :=
        ⟨congrArg (· + 1) h₂.iterations, h₂.findings, h₂.nodup⟩
      simp only [Bool.false_eq_true, if_false]
      rw [ends_bind, ends_count, ends_bind]
      refine .draw (gives_nextInput hcorpus) fun input source hinput => ?_
      rw [ends_bind]
      refine (ends_settle lasts_balanced hcorpus hinput ?_ ?_).mono ?_
      · exact fun s' _ _ => noMistake_fault _ s'
      · exact balanced_examine input hcounted
      · rintro corpus' s₃ ⟨hcorpus', h₃⟩
        refine ⟨h₃, ?_⟩
        rintro _ _ ⟨⟩
        exact ⟨hinput, hcorpus'⟩

/-! ## All rounds -/

/-- A run that begins in the session `start` comes to the head of its loop, having tried the inputs
`tried`, with this corpus and session. -/
inductive AtHead (env : Environment) (limits : Limits) (start : Session σ)
    (deadline : Option Float) : (tried corpus : List String) → Session σ → Prop
  | first {s : Session σ} (hbegin : begin env limits start = (.ok deadline, s)) :
    AtHead env limits start deadline [] seeds s
  | next {tried corpus corpus' : List String} {input : String} {s s' : Session σ}
    (h : AtHead env limits start deadline tried corpus s)
    (hattempt : attempt env limits deadline corpus s = (.ok (some (input, corpus')), s')) :
    AtHead env limits start deadline (tried ++ [input]) corpus' s'

theorem AtHead.invariant {start : Session σ} {tried : List String}
    (h : AtHead env limits start deadline tried corpus s) (hstart : start.stats.Balanced 0) :
    IsCorpus corpus ∧ (∀ input ∈ tried, IsAscii input) ∧ s.stats.Balanced 0 := by
  induction h with
  | first hbegin =>
    exact ⟨isCorpus_seeds, nofun, (balanced_begin hstart).of_eq_ok hbegin⟩
  | next _ hattempt ih =>
    obtain ⟨hcorpus, htried, hs⟩ := ih
    obtain ⟨hs', hnext⟩ := (ends_attempt hcorpus hs).of_eq_ok hattempt
    obtain ⟨hinput, hcorpus'⟩ := hnext _ _ rfl
    exact ⟨hcorpus', List.forall_mem_append.2 ⟨htried, List.forall_mem_singleton.2 hinput⟩, hs'⟩

theorem noMistake_loop (rounds : Nat) (hcorpus : IsCorpus corpus) (h : s.stats.Balanced 0) :
    Ends (loop env limits deadline rounds corpus) (fun _ _ => True) NoMistake s := by
  induction rounds generalizing corpus s with
  | zero => exact trivial
  | succ rounds ih =>
    rw [loop, ends_bind, round_eq, ends_map]
    refine (ends_attempt hcorpus h).mono ?_
    rintro (_ | ⟨input, corpus'⟩) s' ⟨hs', hnext⟩
    · exact trivial
    · exact ih (hnext _ _ rfl).2 hs'

theorem noMistake_run (h : s.stats.Balanced 0) :
    Ends (run env limits) (fun _ _ => True) NoMistake s := by
  have hhalt : ∀ e (s' : Session σ), NoMistake e s' →
      Ends (onHalt e) (fun _ _ => True) NoMistake s' := by
    intro e s' he
    cases e with
    | interrupted => exact trivial
    | fault e => exact he
    | mistake m => exact he
  have hfinish : ∀ s' : Session σ, Ends finish (fun _ _ => True) NoMistake s' := by
    intro s'
    rw [finish, ends_bind, ends_write]
    exact ends_printStats (P := fun _ => True) (fun _ _ _ => id) trivial fun _ _ _ =>
      noMistake_fault _ _
  rw [run, ends_bind]
  refine (balanced_begin h).mono fun deadline s₁ h₁ => ?_
  rw [ends_bind, ends_get, ends_bind]
  refine .tryCatch ((noMistake_loop _ isCorpus_seeds h₁).mono fun _ s' _ => hfinish s') ?_
  exact fun e s' he => (hhalt e s' he).mono fun _ s'' _ => hfinish s''

/-- **Whatever the judges say, a run keeps its books and its corpus.**  Whenever it comes to the
head of its loop, the corpus begins with the seeds and is within its limit, all its entries and all
inputs that were tried are plain text, every input is counted once, and there are no more digests
than inputs that were counted as findings; and neither the next round nor the run as a whole is
halted by a mistake in drawing. -/
theorem atHead_invariant (env : Environment) (limits : Limits) (source : σ) (files : Tree)
    (clock : Readings) :
    (∀ deadline tried corpus s,
      AtHead env limits (Session.new source files clock) deadline tried corpus s →
        corpus.take 16 = seeds ∧ 16 ≤ corpus.length ∧ corpus.length ≤ 1000 ∧
          (∀ entry ∈ corpus, IsAscii entry) ∧ (∀ input ∈ tried, IsAscii input) ∧
          s.stats.iterations = s.stats.accepted + s.stats.refused + s.stats.crashes +
            s.stats.timeouts + s.stats.mismatches ∧
          s.stats.findings.Nodup ∧
          s.stats.findings.length ≤ s.stats.crashes + s.stats.timeouts + s.stats.mismatches ∧
          ∀ m, (round env limits deadline corpus s).1 ≠ .error (.mistake m)) ∧
      ∀ m, (run env limits (Session.new source files clock)).1 ≠ .error (.mistake m) := by
  refine ⟨fun deadline tried corpus s h => ?_, fun m heq => ?_⟩
  · obtain ⟨hcorpus, htried, hs⟩ := h.invariant balanced_zero
    have hseeds : seeds.length = 16 := by decide
    refine ⟨?_, ?_, hcorpus.length_le, hcorpus.ascii, htried, hs.iterations, hs.nodup, hs.findings,
      fun m heq => ?_⟩
    · rw [← hseeds]
      exact (List.prefix_iff_eq_take.1 hcorpus.seeds).symm
    · rw [← hseeds]
      exact hcorpus.seeds.length_le
    · rw [round_eq] at heq
      have hround : Ends (Option.map Prod.snd <$> attempt env limits deadline corpus)
          (fun _ _ => True) NoMistake s :=
        ends_map.2 ((ends_attempt hcorpus hs).mono fun _ _ _ => trivial)
      exact hround.of_eq_error (Prod.ext heq rfl) m rfl
  · exact (noMistake_run balanced_zero).of_eq_error (Prod.ext heq rfl) m rfl

/-- The first judge is late whenever it is asked again. -/
def lateEnvironment : Environment where
  judges.first asked _ := if asked = 0 then .accepted .empty else .timedOut "late"
  judges.second _ _ := .accepted .empty
  directory := "."
  stamp := "20240102_030405"

/-- A session in an empty directory; the words that are drawn are zeros. -/
def emptySession : Session Tape :=
  .new ⟨[]⟩ .empty fun _ => 0.0

/-- Goes on to the head of the loop after a round. -/
theorem AtHead.next_of_toOption {start : Session σ} {tried : List String} (input : String)
    (corpus' : List String) (h : AtHead env limits start deadline tried corpus s)
    (hattempt : (attempt env limits deadline corpus s).1.toOption = some (some (input, corpus'))) :
    AtHead env limits start deadline (tried ++ [input]) corpus'
      (attempt env limits deadline corpus s).2 := by
  refine h.next (Prod.ext ?_ rfl)
  cases hresult : (attempt env limits deadline corpus s).1 with
  | ok next =>
    rw [hresult] at hattempt
    exact congrArg Except.ok (Option.some.inj hattempt)
  | error e =>
    rw [hresult] at hattempt
    cases hattempt

/-- The same input is drawn twice; it is accepted at first, and the second time it is a finding. -/
theorem atHead_invariant_late :
    ∃ corpus s, AtHead lateEnvironment ⟨none, none⟩ emptySession none
        ["type Person Bool", "type Person Bool"] corpus s ∧
      s.stats.accepted = 1 ∧ s.stats.timeouts = 1 ∧ s.stats.findings.length = 1 ∧
      corpus = seeds ++ ["type Person Bool", "type Person Bool"] ∧ corpus.take 16 = seeds ∧
      s.stats.iterations = s.stats.accepted + s.stats.refused + s.stats.crashes +
        s.stats.timeouts + s.stats.mismatches := by
  have hbegin : AtHead lateEnvironment ⟨none, none⟩ emptySession none [] seeds _ := .first rfl
  have hfirst := hbegin.next_of_toOption "type Person Bool" (seeds ++ ["type Person Bool"])
    (by decide +kernel)
  have hsecond := hfirst.next_of_toOption "type Person Bool"
    (seeds ++ ["type Person Bool", "type Person Bool"]) (by decide +kernel)
  have hinvariant := (atHead_invariant lateEnvironment ⟨none, none⟩ (⟨[]⟩ : Tape) .empty
    fun _ => 0.0).1 _ _ _ _ hsecond
  exact ⟨_, _, hsecond, by decide +kernel, by decide +kernel, by decide +kernel, rfl,
    hinvariant.1, hinvariant.2.2.2.2.2.1⟩

end Ipld.Fuzz
