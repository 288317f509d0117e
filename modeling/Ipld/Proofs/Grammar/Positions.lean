import Ipld.Proofs.Grammar.Completion

/-!
# Places in a token list

Where a list of tokens stops, a derivation may go on in several ways.  `LeadsTo ts s` says that the
symbol `s` can be the next one; a place before `mapKey` wants a key, one before `node` a node, and
one before `advanced` or `RMT` lies inside an annotation.  All of these can be read off what a run
needs after the tokens: the places before a key and before a node are told apart by the terminals
that may come next, and inside an annotation only one terminal may.
-/

namespace Ipld

open Grammar

/-- The terminals that the tokens stand for, one by one. -/
def StandFor (ts : List Token) (terminals : List Terminal) : Prop :=
  ts.map Token.terminal? = terminals.map some

/-- In a derivation, the symbol `s` can come right after the tokens. -/
def LeadsTo (ts : List Token) (s : Symbol) : Prop :=
  ∃ terminals needs, StandFor ts terminals ∧ Derives [.rule .declarations] terminals (s :: needs)

/-- The tokens make up a source, as far as the grammar can tell. -/
def Grammatical (ts : List Token) : Prop :=
  ∃ terminals, StandFor ts terminals ∧ Sentence terminals

/-- The tokens begin a source, as far as the grammar can tell. -/
def CanGoOn (ts : List Token) : Prop :=
  ∃ terminals, StandFor ts terminals ∧ Viable terminals

theorem StandFor.unique {ts : List Token} {a b : List Terminal} (ha : StandFor ts a)
    (hb : StandFor ts b) : a = b :=
  (List.map_inj_right fun _ _ h => Option.some.inj h).1 (ha.symm.trans hb)

namespace Grammar

/-! ## What may come next -/

theorem mem_expected_of_derives_nil {needs left : List Symbol} (h : Derives needs [] left)
    {t : Terminal} (ht : t ∈ expected left) : t ∈ expected needs := by
  generalize hread : ([] : List Terminal) = read at h
  induction h with
  | refl => exact ht
  | terminal => cases hread
  | production hp h ih =>
    -- Only the first symbol is replaced, so its terminal is one that begins the rule.
    have hlead := List.mem_singleton.1 (ih ht hread)
    rw [expected, List.mem_append]
    exact .inl (List.mem_map.2 ⟨_, hp, hlead.symm⟩)
  | empty hr _ ih =>
    rw [expected, List.mem_append, if_pos hr]
    exact .inr (ih ht hread)

/-- What has to stand somewhere is not overlooked by passing over rules. -/
theorem mem_expected_of_steady {s : Rule} {needs left : List Symbol} {t : Terminal}
    (h : Derives needs [] (.rule s :: left)) (ht : t = .lsqb ∨ t = .string)
    (hmem : t ∈ expected needs) : t ∈ expected (.rule s :: left) := by
  generalize hread : ([] : List Terminal) = read at h
  generalize hleft : Symbol.rule s :: left = all at h
  induction h with
  | refl => exact hmem
  | terminal => cases hread
  | production _ h =>
    subst hread hleft
    cases h
  | @empty r needs left read hr _ ih =>
    obtain ⟨hlsqb, hstring, -⟩ := Run.Skips.steady hr
    rw [expected, List.mem_append, if_pos hr] at hmem
    rcases hmem with hmem | hmem
    · rcases ht with rfl | rfl
      · exact absurd hmem hlsqb
      · exact absurd hmem hstring
    · exact ih hmem hread hleft

theorem lead_not_mem_annotationTerminals {r : Rule} {p : Production r} (hp : p ∈ r.productions) :
    p.lead ∉ annotationTerminals := by
  revert p
  cases r <;> decide

/-- Nothing can be left out before the rest of an annotation. -/
theorem eq_terminal_of_derives {needs left : List Symbol} {t : Terminal} (hneeds : Ordered needs)
    (ht : t ∈ annotationTerminals) (h : Derives needs [] (.terminal t :: left)) :
    needs = .terminal t :: left := by
  cases h with
  | refl => rfl
  | production hp h =>
    cases h
    exact absurd ht (lead_not_mem_annotationTerminals hp)
  | @empty r needs _ _ hr h =>
    have hfollow := hneeds.1 t (mem_expected_of_derives_nil h (List.mem_singleton.2 rfl))
    have hnone : ∀ u ∈ annotationTerminals, u ∉ r.follow := by
      cases r <;> decide
    exact absurd hfollow (hnone t ht)

/-! ## Runs over tokens -/

variable {α : Type}

theorem exists_read_iff {r : Run α} {t : Token} {next : List Symbol} :
    (∃ r', r.read t = some r' ∧ r'.needs = next) ↔
      ∃ T, t.terminal? = some T ∧ advance T r.needs = some next := by
  cases ht : t.terminal? with
  | none => simp [Run.read, ht]
  | some T =>
    simp only [Run.read_eq ht, Option.some.injEq, exists_eq_left']
    rw [← show (t.lexeme T).terminal = T from rfl, ← map_needs_step (t.lexeme T) r.needs r.finish,
      Option.map_eq_some_iff]
    rfl

theorem exists_reads_iff {r : Run α} {ts : List Token} {next : List Symbol} :
    (∃ r', r.reads ts = some r' ∧ r'.needs = next) ↔
      ∃ terminals, StandFor ts terminals ∧ advances terminals r.needs = some next := by
  induction ts generalizing r with
  | nil =>
    constructor
    · rintro ⟨r', hreads, rfl⟩
      cases hreads
      exact ⟨[], rfl, rfl⟩
    · rintro ⟨terminals, hstand, hadvances⟩
      obtain rfl : terminals = [] := List.map_eq_nil_iff.1 hstand.symm
      cases hadvances
      exact ⟨r, rfl, rfl⟩
  | cons t ts ih =>
    constructor
    · rintro ⟨r', hreads, hneeds⟩
      obtain ⟨mid, hmid, hreads⟩ := Option.bind_eq_some_iff.1 hreads
      obtain ⟨T, hT, hadvance⟩ := exists_read_iff.1 ⟨mid, hmid, rfl⟩
      obtain ⟨terminals, hstand, hadvances⟩ := ih.1 ⟨r', hreads, hneeds⟩
      refine ⟨T :: terminals, ?_, ?_⟩
      · rw [StandFor, List.map_cons, List.map_cons, hT, hstand]
      · rw [advances, hadvance, Option.bind_some, hadvances]
    · rintro ⟨terminals, hstand, hadvances⟩
      cases terminals with
      | nil => cases hstand
      | cons T terminals =>
        obtain ⟨hT, hstand⟩ := List.cons.inj hstand
        obtain ⟨mid, hmid, hadvances⟩ := Option.bind_eq_some_iff.1 hadvances
        obtain ⟨r₁, hread, rfl⟩ := exists_read_iff.2 ⟨T, hT, hmid⟩
        obtain ⟨r', hreads, hneeds⟩ := ih.2 ⟨terminals, hstand, hadvances⟩
        exact ⟨r', by rw [Run.reads, hread, Option.bind_some, hreads], hneeds⟩

end Grammar

open Grammar

/-! ## Places read off a run -/

theorem canGoOn_iff {ts : List Token} : CanGoOn ts ↔ ∃ r, start.reads ts = some r := by
  constructor
  · rintro ⟨terminals, hstand, hviable⟩
    obtain ⟨needs, hneeds⟩ := viable_iff.1 hviable
    obtain ⟨r, hreads, -⟩ := exists_reads_iff (r := start).2 ⟨terminals, hstand, hneeds⟩
    exact ⟨r, hreads⟩
  · rintro ⟨r, hreads⟩
    obtain ⟨terminals, hstand, hneeds⟩ := exists_reads_iff.1 ⟨r, hreads, rfl⟩
    exact ⟨terminals, hstand, viable_iff.2 ⟨_, hneeds⟩⟩

theorem grammatical_iff {ts : List Token} :
    Grammatical ts ↔ ∃ r, start.reads ts = some r ∧ nullable r.needs = true := by
  constructor
  · rintro ⟨terminals, hstand, hsentence⟩
    obtain ⟨needs, hneeds, hnull⟩ := sentence_iff.1 hsentence
    obtain ⟨r, hreads, rfl⟩ := exists_reads_iff (r := start).2 ⟨terminals, hstand, hneeds⟩
    exact ⟨r, hreads, hnull⟩
  · rintro ⟨r, hreads, hnull⟩
    obtain ⟨terminals, hstand, hneeds⟩ := exists_reads_iff.1 ⟨r, hreads, rfl⟩
    exact ⟨terminals, hstand, sentence_iff.2 ⟨_, hneeds, hnull⟩⟩

section Places

variable {r : Run (Checked (List (String × Definition)))} {ts : List Token}
  (h : start.reads ts = some r)

include h

theorem ordered_of_reads : Ordered r.needs := by
  obtain ⟨terminals, -, hneeds⟩ := exists_reads_iff.1 ⟨r, h, rfl⟩
  exact ordered_advances ordered_start hneeds

theorem leadsTo_iff {s : Symbol} : LeadsTo ts s ↔ ∃ needs, Derives r.needs [] (s :: needs) := by
  obtain ⟨terminals, hstand, hneeds⟩ := exists_reads_iff.1 ⟨r, h, rfl⟩
  constructor
  · rintro ⟨terminals', needs, hstand', hderives⟩
    cases hstand.unique hstand'
    obtain ⟨mid, hmid, hderives⟩ := (derives_iff ordered_start).1 hderives
    cases hneeds.symm.trans hmid
    exact ⟨needs, hderives⟩
  · rintro ⟨needs, hderives⟩
    exact ⟨terminals, needs, hstand, (derives_iff ordered_start).2 ⟨_, hneeds, hderives⟩⟩

/-- Inside an annotation only the rest of it may come next. -/
theorem expected_of_leadsTo_terminal {T : Terminal} (hT : T ∈ annotationTerminals)
    (hleads : LeadsTo ts (.terminal T)) : expected r.needs = [T] := by
  obtain ⟨needs, hderives⟩ := (leadsTo_iff h).1 hleads
  rw [eq_terminal_of_derives (ordered_of_reads h) hT hderives]
  rfl

theorem insideAnnotation_of_leadsTo {T : Terminal} (hT : T ∈ annotationTerminals)
    (hleads : LeadsTo ts (.terminal T)) : insideAnnotation (expected r.needs) = true := by
  rw [expected_of_leadsTo_terminal h hT hleads]
  unfold insideAnnotation
  simpa using hT

/-- Before a key any scalar keyword may come, but no bracket. -/
theorem expected_of_leadsTo_mapKey (hleads : LeadsTo ts (.rule .mapKey)) :
    .string ∈ expected r.needs ∧ .bool ∈ expected r.needs ∧ .lsqb ∉ expected r.needs := by
  obtain ⟨needs, hderives⟩ := (leadsTo_iff h).1 hleads
  refine ⟨mem_expected_of_derives_nil hderives (List.mem_append_left _ (by decide)),
    mem_expected_of_derives_nil hderives (List.mem_append_left _ (by decide)), fun hmem => ?_⟩
  rcases List.mem_append.1 (mem_expected_of_steady hderives (.inl rfl) hmem) with hmem | hmem
  · exact absurd hmem (by decide)
  · cases hmem

/-- Before a node a bracket may come. -/
theorem expected_of_leadsTo_node (hleads : LeadsTo ts (.rule .node)) :
    .lsqb ∈ expected r.needs := by
  obtain ⟨needs, hderives⟩ := (leadsTo_iff h).1 hleads
  exact mem_expected_of_derives_nil hderives (List.mem_append_left _ (by decide))

end Places

end Ipld
