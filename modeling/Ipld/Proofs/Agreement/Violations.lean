import Ipld.Proofs.Agreement.Schemas
import Ipld.Proofs.Grammar.Positions

/-!
# The first token that violates the grammar

A source that the grammar does not derive has one place where it goes wrong: a token behind tokens
that could have gone on in another way, or the end of a list that would have had to go on.  The
grammar's parser reports this place (`complaint`), and what it says depends on the terminals that
could have come there.
-/

namespace Ipld

open Grammar

/-- The grammar is first violated at the place `k`: by the token there, or by the end. -/
structure Violates (ts : List Token) (k : Nat) : Prop where
  le : k ≤ ts.length
  before : CanGoOn (ts.take k)
  token : k < ts.length → ¬ CanGoOn (ts.take (k + 1))
  finish : k = ts.length → ¬ Grammatical ts

/-- The terminal `T` can come right after the tokens. -/
def Follows (ts : List Token) (T : Terminal) : Prop :=
  ∃ terminals, StandFor ts terminals ∧ Viable (terminals ++ [T])

/-- What is said of a token, or of the end of the input, where only the terminals `wanted` may
come. -/
def complaint (wanted : List Terminal) : Option Token → Option SchemaError
  | none => some (refuseEnd wanted)
  | some t => t.terminal?.map fun T => refuse T t.value t.line wanted

/-- The error is what the grammar says of the place `k`. -/
def Reports (ts : List Token) (k : Nat) (e : SchemaError) : Prop :=
  ∃ wanted, (∀ T, T ∈ wanted ↔ Follows (ts.take k) T) ∧ complaint wanted ts[k]? = some e

/-! ## There is only one first place -/

theorem CanGoOn.of_append {ts us : List Token} (h : CanGoOn (ts ++ us)) : CanGoOn ts := by
  obtain ⟨r, hreads⟩ := canGoOn_iff.1 h
  rw [Run.reads_append] at hreads
  obtain ⟨mid, hmid, -⟩ := Option.bind_eq_some_iff.1 hreads
  exact canGoOn_iff.2 ⟨mid, hmid⟩

theorem CanGoOn.take {ts : List Token} {j k : Nat} (h : CanGoOn (ts.take k)) (hle : j ≤ k) :
    CanGoOn (ts.take j) := by
  obtain ⟨i, rfl⟩ := Nat.exists_eq_add_of_le hle
  rw [List.take_add] at h
  exact h.of_append

theorem Grammatical.canGoOn {ts : List Token} (h : Grammatical ts) : CanGoOn ts := by
  obtain ⟨r, hreads, -⟩ := grammatical_iff.1 h
  exact canGoOn_iff.2 ⟨r, hreads⟩

theorem Violates.unique {ts : List Token} {j k : Nat} (hj : Violates ts j) (hk : Violates ts k) :
    j = k := by
  rcases Nat.lt_trichotomy j k with hlt | heq | hlt
  · exact absurd (hk.before.take hlt) (hj.token (Nat.lt_of_lt_of_le hlt hk.le))
  · exact heq
  · exact absurd (hj.before.take hlt) (hk.token (Nat.lt_of_lt_of_le hlt hj.le))

theorem Grammatical.not_violates {ts : List Token} (h : Grammatical ts) (k : Nat) :
    ¬ Violates ts k := by
  intro hk
  rcases Nat.lt_or_eq_of_le hk.le with hlt | heq
  · refine hk.token hlt ?_
    have := h.canGoOn
    rw [← List.take_append_drop (k + 1) ts] at this
    exact this.of_append
  · exact hk.finish heq h

/-! ## The place where a run stops -/

section Stop

variable {read rest : List Token} {mid : Run (Checked (List (String × Definition)))}
  (hreads : start.reads read = some mid)

include hreads

theorem mem_expected_iff_follows (T : Terminal) : T ∈ expected mid.needs ↔ Follows read T := by
  obtain ⟨terminals, hstand, hneeds⟩ := exists_reads_iff.1 ⟨mid, hreads, rfl⟩
  rw [← viable_concat_iff hneeds]
  refine ⟨fun h => ⟨terminals, hstand, h⟩, ?_⟩
  rintro ⟨terminals', hstand', h⟩
  cases hstand.unique hstand'
  exact h

/-- The run stops behind the tokens `read`, at the next token or at the end. -/
theorem violates_of_reads (hread : ∀ t ∈ rest.head?, mid.read t = none)
    (hnull : rest = [] → nullable mid.needs = false) :
    Violates (read ++ rest) read.length where
  le := by simp
  before := by
    rw [List.take_left]
    exact canGoOn_iff.2 ⟨mid, hreads⟩
  token hlt hmore := by
    cases rest with
    | nil => simp at hlt
    | cons t left =>
      rw [List.take_length_add_append, List.take_succ_cons, List.take_zero] at hmore
      obtain ⟨r, hr⟩ := canGoOn_iff.1 hmore
      rw [Run.reads_append, hreads, Option.bind_some, Run.reads, hread t rfl] at hr
      cases hr
  finish heq hmore := by
    obtain rfl : rest = [] := by simpa using heq
    obtain ⟨r, hr, hnull'⟩ := grammatical_iff.1 hmore
    rw [List.append_nil] at hr
    cases hreads.symm.trans hr
    cases (hnull rfl).symm.trans hnull'

theorem reports_of_reads {e : SchemaError}
    (h : complaint (expected mid.needs) rest.head? = some e) :
    Reports (read ++ rest) read.length e := by
  refine ⟨expected mid.needs, fun T => ?_, ?_⟩
  · rw [List.take_left]
    exact mem_expected_iff_follows hreads T
  · rwa [List.getElem?_append_right (Nat.le_refl _), Nat.sub_self, ← List.head?_eq_getElem?]

/-- The grammar's parser complains about the place where the run stops. -/
theorem parse_of_stop {source : String} {ls : List Lexeme}
    (hlexemes : lexemes 1 source.toList = (ls, none))
    (hls : List.Forall₂ Token.Lexes (read ++ rest) ls) (hread : ∀ t ∈ rest.head?, mid.read t = none)
    (hnull : rest = [] → nullable mid.needs = false) :
    ∃ e, complaint (expected mid.needs) rest.head? = some e ∧
      Grammar.parse source = .error (.schema e) := by
  obtain ⟨left, hleft, hover⟩ := over_of_reads hls hreads
  rw [parse_of_lexemes hlexemes, hover]
  cases hleft with
  | nil =>
    have hclose : close mid.needs mid.finish = none := by
      rw [← Option.not_isSome_iff_eq_none, isSome_close, hnull rfl]
      exact Bool.false_ne_true
    rw [Run.over, hclose]
    exact ⟨_, rfl, rfl⟩
  | @cons t l _ _ hl _ =>
    rw [Run.over, ← read_eq_of_lexes hl, hread t rfl]
    refine ⟨_, ?_, rfl⟩
    rw [List.head?_cons, complaint, hl.terminal, hl.text, hl.line]
    rfl

end Stop

/-- A run gets over all the tokens and may end there, or it stops somewhere. -/
theorem exists_stop (r : Run (Checked (List (String × Definition)))) (ts : List Token) :
    (∃ r', r.reads ts = some r' ∧ nullable r'.needs = true) ∨
      ∃ read rest mid, ts = read ++ rest ∧ r.reads read = some mid ∧
        (∀ t ∈ rest.head?, mid.read t = none) ∧ (rest = [] → nullable mid.needs = false) := by
  induction ts generalizing r with
  | nil =>
    cases hnull : nullable r.needs with
    | true => exact .inl ⟨r, rfl, hnull⟩
    | false => exact .inr ⟨[], [], r, rfl, rfl, nofun, fun _ => hnull⟩
  | cons t ts ih =>
    cases hread : r.read t with
    | none =>
      refine .inr ⟨[], t :: ts, r, rfl, rfl, ?_, nofun⟩
      rintro u hu
      cases hu
      exact hread
    | some next =>
      rcases ih next with ⟨r', hreads, hnull⟩ | ⟨read, rest, mid, rfl, hreads, hstop, hnull⟩
      · exact .inl ⟨r', by rw [Run.reads, hread, Option.bind_some, hreads], hnull⟩
      · exact .inr ⟨t :: read, rest, mid, rfl, by rw [Run.reads, hread, Option.bind_some, hreads],
          hstop, hnull⟩

end Ipld
