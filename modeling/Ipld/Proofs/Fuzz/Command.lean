import Ipld.Proofs.Command
import Ipld.Proofs.Fuzz.Quiet
import Mathlib.Algebra.Group.Int.Defs
import Mathlib.Algebra.Group.Nat.Defs

/-!
# The fuzzer on the two parsers

Asked for a seed and a number of inputs, the fuzzer tries that many inputs on the two parsers and
finds nothing.  The seed has to be such that the command line takes it: an integer of more digits
than the limit is refused before anything is done.  The number of inputs has to be such that there
is a floating-point number for it, or else the statistics cannot be printed.
-/

namespace Ipld.Fuzz

open Command Decimal Ipld.Random Text

/-! ## The command line -/

theorem classify_renderInt (k : Int) :
    interface.classify (renderInt k) = .ok (.plain (renderInt k)) :=
  Interface.classify_renderInt (by decide) k

theorem renderInt_ne_separator (k : Int) : renderInt k ≠ "--" := by
  intro heq
  have h := classify_renderInt k
  rw [heq] at h
  cases h

theorem read_seed (k : Int) (n : Nat) :
    interface.read ["--seed", renderInt k, "--iterations", renderInt n] =
      ([.switch seedSwitch (some (renderInt k)), .switch iterationsSwitch (some (renderInt n))],
        none) := by
  have hclassify : interface.classifyAll ["--seed", renderInt k, "--iterations", renderInt n] =
      .ok [.known seedSwitch "--seed" none, .plain (renderInt k),
        .known iterationsSwitch "--iterations" none, .plain (renderInt n)] := by
    refine Interface.classifyAll_cons (by decide) rfl ?_
    refine Interface.classifyAll_cons (renderInt_ne_separator k) (classify_renderInt k) ?_
    refine Interface.classifyAll_cons (by decide) rfl ?_
    exact Interface.classifyAll_cons (renderInt_ne_separator n) (classify_renderInt n) rfl
  rw [Interface.read, hclassify]
  simp only
  rw [Interface.events_switch rfl, Interface.events_switch rfl]
  rfl

theorem want_renderInt {s : Switch} {k : Int} (hk : (decimal k.natAbs).length ≤ digitLimit) :
    want s "int" readInt? (some (renderInt k)) = .ok (some k) := by
  simp only [want, readInt?_renderInt, if_pos hk]

theorem want_renderInt_refused {s : Switch} {k : Int}
    (hk : digitLimit < (decimal k.natAbs).length) :
    want s "int" readInt? (some (renderInt k)) =
      .error (.refused (refuseValue s "int" (renderInt k))) := by
  simp only [want, readInt?_renderInt, if_neg (Nat.not_le.2 hk)]

theorem apply_seedSwitch (settings : Settings) (value : Option String) :
    apply settings (.switch seedSwitch value) =
      (want seedSwitch "int" readInt? value).map fun seed =>
        { settings with seed := some seed } := by
  cases h : want seedSwitch "int" readInt? value with
  | ok seed => exact congrArg (· >>= _) h
  | error e => exact congrArg (· >>= _) h

theorem apply_iterationsSwitch (settings : Settings) (value : Option String) :
    apply settings (.switch iterationsSwitch value) =
      (want iterationsSwitch "int" readInt? value).map fun iterations =>
        { settings with iterations := some iterations } := by
  cases h : want iterationsSwitch "int" readInt? value with
  | ok iterations => exact congrArg (· >>= _) h
  | error e => exact congrArg (· >>= _) h

theorem parseArguments_seed {k : Int} {n : Nat} (hk : (decimal k.natAbs).length ≤ digitLimit)
    (hn : (decimal n).length ≤ digitLimit) :
    parseArguments ["--seed", renderInt k, "--iterations", renderInt n] =
      .ok { Settings.default with iterations := some (some n), seed := some (some k) } := by
  have hn' : (decimal (n : Int).natAbs).length ≤ digitLimit := by rwa [Int.natAbs_natCast]
  rw [parseArguments, Interface.parse_of_read (read_seed k n),
    Interface.foldlM_cons_of_eq_ok (by rw [apply_seedSwitch, want_renderInt hk]; rfl),
    Interface.foldlM_cons_of_eq_ok (by rw [apply_iterationsSwitch, want_renderInt hn']; rfl)]
  rfl

theorem parseArguments_seed_refused {k : Int} (n : Nat)
    (hk : digitLimit < (decimal k.natAbs).length) :
    parseArguments ["--seed", renderInt k, "--iterations", renderInt n] =
      .error (.refused (refuseValue seedSwitch "int" (renderInt k))) := by
  rw [parseArguments, Interface.parse_of_read (read_seed k n), List.foldlM_cons, apply_seedSwitch,
    want_renderInt_refused hk]
  rfl

/-- What there is a floating-point number for is taken by the command line. -/
theorem length_decimal_le {n : Nat} (hn : n ≤ floatLimit) : (decimal n).length ≤ digitLimit := by
  have hpow : floatLimit < 10 ^ digitLimit := by decide +kernel
  rw [decimal, Nat.length_toDigits_le_iff (by decide) (by decide)]
  exact Nat.lt_of_le_of_lt hn hpow

/-! ## The whole run -/

theorem command_seed {w : World} {files : Tree} {k : Int} {n : Nat}
    (hfiles : w.files.makeDirectory "fuzz_findings" = .ok files)
    (hk : (decimal k.natAbs).length ≤ digitLimit) (hn : (decimal n).length ≤ digitLimit) :
    command w ["--seed", renderInt k, "--iterations", renderInt n] =
      let (result, s) := run ⟨w.judges, "fuzz_findings", w.stamp⟩ (.inputs n)
        (Session.new (Twister.ofSeed k) files w.clock)
      (⟨seedLine (some k) ++ s.output, "", endingOf result s.stats⟩, s.files) := by
  have hprepare :
      w.prepare { Settings.default with iterations := some (some n), seed := some (some k) } =
        .ok ("fuzz_findings", files) := by
    simp only [World.prepare, Settings.default, hfiles]
  rw [command, parseArguments_seed hk hn]
  simp only [runWith, hprepare]
  rfl

/-- **The fuzzer finds nothing between the two parsers.**  Whatever the seed and however many
inputs it is asked for, it tries them all, both parsers accept or both refuse each of them, and it
ends well; no file is written into the directory that it made. -/
theorem command_of_parsers {w : World} {files : Tree} {k : Int} {n : Nat}
    (hjudges : w.judges = .parsers) (hfiles : w.files.makeDirectory "fuzz_findings" = .ok files)
    (hk : (decimal k.natAbs).length ≤ digitLimit) (hn : n < floatLimit) :
    ∃ s : Session Twister,
      run ⟨.parsers, "fuzz_findings", w.stamp⟩ (.inputs n)
          (Session.new (Twister.ofSeed k) files w.clock) = (.ok (), s) ∧
        s.stats.iterations = n ∧ s.stats.accepted + s.stats.refused = n ∧ s.stats.crashes = 0 ∧
        s.stats.timeouts = 0 ∧ s.stats.mismatches = 0 ∧ s.stats.findings = [] ∧ s.files = files ∧
        command w ["--seed", renderInt k, "--iterations", renderInt n] =
          (⟨seedLine (some k) ++ s.output, "", .status 0⟩, files) := by
  let start := Session.new (Twister.ofSeed k) files w.clock
  have hends : Ends (run ⟨.parsers, "fuzz_findings", w.stamp⟩ (.inputs n))
      (fun _ s' => Quiet start n n s') (fun _ _ => False) start := ends_run rfl rfl hn
  obtain ⟨⟨⟩, s, hrun, hquiet⟩ := hends.exists_ok
  have hstats := hquiet.stats
  have hstay : s.files = files := hquiet.files
  refine ⟨s, hrun, hstats.iterations, hstats.judged, hstats.crashes, hstats.timeouts,
    hstats.mismatches, hstats.findings, hstay, ?_⟩
  rw [command_seed hfiles hk (length_decimal_le (Nat.le_of_lt hn)), hjudges, hrun]
  simp only [endingOf, hstats.findings, hstay]
  rfl

/-- The two parsers in an empty directory, and a clock that moves once. -/
def emptyWorld : World :=
  ⟨.parsers, "20240102_030405", fun read => if read = 0 then 0.0 else 1.0, .empty⟩

/-- The empty directory with the one for findings. -/
def findingsOnly : Tree :=
  ⟨[(["fuzz_findings"], .directory)]⟩

theorem command_of_parsers_negative :
    emptyWorld.files.makeDirectory "fuzz_findings" = .ok findingsOnly ∧
      (decimal (-5 : Int).natAbs).length ≤ digitLimit ∧ 3 < floatLimit ∧
      ∃ s : Session Twister,
        s.stats.iterations = 3 ∧ s.stats.accepted + s.stats.refused = 3 ∧ s.stats.findings = [] ∧
          command emptyWorld ["--seed", renderInt (-5), "--iterations", renderInt (3 : Nat)] =
            (⟨seedLine (some (-5)) ++ s.output, "", .status 0⟩, findingsOnly) := by
  have hfiles : emptyWorld.files.makeDirectory "fuzz_findings" = .ok findingsOnly := rfl
  have hk : (decimal (-5 : Int).natAbs).length ≤ digitLimit := by decide
  have hn : 3 < floatLimit := by decide +kernel
  obtain ⟨s, -, hiterations, hjudged, -, -, -, hfindings, -, hcommand⟩ :=
    command_of_parsers rfl hfiles hk hn
  exact ⟨hfiles, hk, hn, s, hiterations, hjudged, hfindings, hcommand⟩

/-! ## Numbers that are too large -/

/-- A seed with too many digits is refused before the directory is made. -/
theorem command_seed_refused {k : Int} (w : World) (n : Nat)
    (hk : digitLimit < (decimal k.natAbs).length) :
    command w ["--seed", renderInt k, "--iterations", renderInt n] =
      (interface.leave (.refused (refuseValue seedSwitch "int" (renderInt k))), w.files) := by
  rw [command, parseArguments_seed_refused n hk]

/-- After too many inputs there is no rate to be printed, once time has passed. -/
theorem command_of_floatLimit {w : World} {files : Tree} {k : Int} {n : Nat}
    (hjudges : w.judges = .parsers) (hfiles : w.files.makeDirectory "fuzz_findings" = .ok files)
    (hk : (decimal k.natAbs).length ≤ digitLimit) (hn : (decimal n).length ≤ digitLimit)
    (hlimit : floatLimit ≤ n) (hclock : ∀ read, 0 < read → 0.0 < w.clock read - w.clock 0) :
    (command w ["--seed", renderInt k, "--iterations", renderInt n]).1.ending =
      .failed (.lacking .float) := by
  have hends : Ends (run ⟨.parsers, "fuzz_findings", w.stamp⟩ (.inputs n)) (fun _ _ => False)
      (fun e _ => e = .fault (.lacking .float)) (Session.new (Twister.ofSeed k) files w.clock) :=
    ends_run_of_floatLimit rfl rfl hlimit hclock
  rw [command_seed hfiles hk hn, hjudges]
  cases hrun : run ⟨.parsers, "fuzz_findings", w.stamp⟩ (.inputs n)
      (Session.new (Twister.ofSeed k) files w.clock) with
  | mk result s =>
    cases result with
    | ok => exact (hends.of_eq_ok hrun).elim
    | error e =>
      obtain rfl : e = .fault (.lacking .float) := hends.of_eq_error hrun
      rfl

/-- Neither number may be too large. -/
theorem ending_greatNumbers :
    emptyWorld.judges = .parsers ∧
      emptyWorld.files.makeDirectory "fuzz_findings" = .ok findingsOnly ∧
      (command emptyWorld
          ["--seed", renderInt (10 ^ digitLimit), "--iterations", renderInt (0 : Nat)]).1.ending =
        .exit 2 ∧
      (command emptyWorld
          ["--seed", renderInt 0, "--iterations", renderInt floatLimit]).1.ending =
        .failed (.lacking .float) := by
  have hpow : ∀ d, 0 < d → d < (decimal ((10 : Int) ^ d).natAbs).length := by
    intro d hd
    rw [Int.natAbs_pow, ← Nat.not_le, decimal, Nat.length_toDigits_le_iff (by decide) hd]
    exact Nat.lt_irrefl _
  have hclock : ∀ read, 0 < read → 0.0 < emptyWorld.clock read - emptyWorld.clock 0 := by
    intro read hread
    have hlate : emptyWorld.clock read = 1.0 := if_neg (Nat.ne_of_gt hread)
    rw [hlate]
    decide +kernel
  refine ⟨rfl, rfl, ?_, ?_⟩
  · rw [command_seed_refused emptyWorld 0 (hpow digitLimit (by decide))]
    rfl
  · exact command_of_floatLimit rfl rfl (by decide) (length_decimal_le (Nat.le_refl _))
      (Nat.le_refl _) hclock

end Ipld.Fuzz
