import Ipld.Grammar.Machine

/-!
# Leftmost derivations

What the grammar derives, apart from the machine that runs it.  `Derives needs read left` says that
the symbols `needs` derive the terminals `read` and then the symbols `left`, where the leftmost rule
is always the one that is replaced.  A sentence is what the start rule derives; a list of terminals
is viable when it can be extended to a sentence.

The machine replaces a rule only when the next terminal makes it.  `derives_iff` says that nothing
is lost by that: whatever `needs` derive is derived from where the machine stands after the same
terminals.  What makes it so is that a rule that may stand for nothing is never followed by a
terminal that it could begin with itself; `Rule.follow` lists what may follow each rule, and
`Ordered` keeps to it along a run.
-/

namespace Ipld.Grammar

/-- The symbols `needs` derive the terminals `read` and then the symbols `left`. -/
inductive Derives : List Symbol → List Terminal → List Symbol → Prop
  | refl (needs : List Symbol) : Derives needs [] needs
  | terminal {t : Terminal} {needs left : List Symbol} {read : List Terminal}
    (h : Derives needs read left) : Derives (.terminal t :: needs) (t :: read) left
  | production {r : Rule} {p : Production r} {needs left : List Symbol} {read : List Terminal}
    (hp : p ∈ r.productions) (h : Derives (.terminal p.lead :: (p.body ++ needs)) read left) :
    Derives (.rule r :: needs) read left
  | empty {r : Rule} {needs left : List Symbol} {read : List Terminal} (hr : r.empty?.isSome)
    (h : Derives needs read left) : Derives (.rule r :: needs) read left

/-- The terminals make up a whole source. -/
def Sentence (ts : List Terminal) : Prop :=
  Derives [.rule .declarations] ts []

/-- The terminals begin a source. -/
def Viable (ts : List Terminal) : Prop :=
  ∃ more, Sentence (ts ++ more)

theorem Derives.trans {needs mid left : List Symbol} {ts us : List Terminal}
    (h : Derives needs ts mid) (h' : Derives mid us left) : Derives needs (ts ++ us) left := by
  induction h with
  | refl => exact h'
  | terminal _ ih => exact .terminal (ih h')
  | production hp _ ih => exact .production hp (ih h')
  | empty hr _ ih => exact .empty hr (ih h')

/-! ## One terminal at a time -/

/-- The symbols still to come after one more terminal. -/
def advance (t : Terminal) : List Symbol → Option (List Symbol)
  | [] => none
  | .terminal u :: rest => if t = u then some rest else none
  | .rule r :: rest =>
    match r.productions.find? fun p => p.lead = t with
    | some p => some (p.body ++ rest)
    | none => if r.empty?.isSome then advance t rest else none

/-- The symbols still to come after several terminals. -/
def advances : List Terminal → List Symbol → Option (List Symbol)
  | [], needs => some needs
  | t :: ts, needs => (advance t needs).bind (advances ts)

theorem advances_append (ts us : List Terminal) (needs : List Symbol) :
    advances (ts ++ us) needs = (advances ts needs).bind (advances us) := by
  induction ts generalizing needs with
  | nil => rfl
  | cons t ts ih =>
    cases h : advance t needs with
    | none => simp [advances, h]
    | some next => simp [advances, h, ih]

theorem derives_advance {t : Terminal} {needs next : List Symbol}
    (h : advance t needs = some next) : Derives needs [t] next := by
  induction needs with
  | nil => cases h
  | cons s rest ih =>
    cases s with
    | terminal u =>
      unfold advance at h
      split at h
      · rename_i htu
        cases h
        rw [htu]
        exact .terminal (.refl _)
      · cases h
    | rule r =>
      unfold advance at h
      split at h
      · rename_i p hp
        cases h
        have hlead : p.lead = t := by simpa using List.find?_some hp
        rw [← hlead]
        exact .production (List.mem_of_find?_eq_some hp) (.terminal (.refl _))
      · split at h
        · rename_i hr
          exact .empty hr (ih h)
        · cases h

theorem derives_advances {ts : List Terminal} {needs next : List Symbol}
    (h : advances ts needs = some next) : Derives needs ts next := by
  induction ts generalizing needs with
  | nil =>
    cases h
    exact .refl _
  | cons t ts ih =>
    obtain ⟨mid, hmid, h⟩ := Option.bind_eq_some_iff.1 h
    exact (derives_advance hmid).trans (ih h)

/-! ## What may come next -/

theorem mem_expected_iff {t : Terminal} {needs : List Symbol} :
    t ∈ expected needs ↔ ∃ next, advance t needs = some next := by
  induction needs with
  | nil => simp [expected, advance]
  | cons s rest ih =>
    cases s with
    | terminal u =>
      rw [expected, List.mem_singleton, advance]
      by_cases h : t = u
      · simp [h]
      · simp [h]
    | rule r =>
      rw [expected, List.mem_append, advance]
      cases hfind : r.productions.find? fun p => p.lead = t with
      | some p =>
        have hlead : p.lead = t := by simpa using List.find?_some hfind
        have hmem : t ∈ r.leads := List.mem_map.2 ⟨p, List.mem_of_find?_eq_some hfind, hlead⟩
        exact ⟨fun _ => ⟨_, rfl⟩, fun _ => .inl hmem⟩
      | none =>
        have hmem : t ∉ r.leads := by
          intro hmem
          obtain ⟨p, hp, hlead⟩ := List.mem_map.1 hmem
          exact List.find?_eq_none.1 hfind p hp (decide_eq_true hlead)
        cases hr : r.empty?.isSome with
        | true => simpa [hmem] using ih
        | false => simp [hmem]

theorem mem_expected_of_derives {t : Terminal} {ts : List Terminal} {needs left : List Symbol}
    (h : Derives needs (t :: ts) left) : t ∈ expected needs := by
  generalize hread : t :: ts = read at h
  induction h with
  | refl => cases hread
  | terminal =>
    cases hread
    exact List.mem_singleton.2 rfl
  | production hp _ ih =>
    rw [expected, List.mem_append]
    have hlead := List.mem_singleton.1 (ih hread)
    exact .inl (List.mem_map.2 ⟨_, hp, hlead.symm⟩)
  | empty hr _ ih =>
    rw [expected, List.mem_append, if_pos hr]
    exact .inr (ih hread)

theorem mem_expected_append {t : Terminal} {xs ys : List Symbol} :
    t ∈ expected (xs ++ ys) ↔ t ∈ expected xs ∨ nullable xs = true ∧ t ∈ expected ys := by
  induction xs with
  | nil => simp [expected, nullable]
  | cons s xs ih =>
    cases s with
    | terminal u => simp [expected, nullable]
    | rule r =>
      cases hr : r.empty?.isSome with
      | true => simp [expected, nullable, hr, ih, or_assoc]
      | false => simp [expected, nullable, hr]

theorem derives_nil_iff {needs : List Symbol} : Derives needs [] [] ↔ nullable needs = true := by
  induction needs with
  | nil => exact ⟨fun _ => rfl, fun _ => .refl []⟩
  | cons s rest ih =>
    cases s with
    | terminal u =>
      refine ⟨fun h => ?_, fun h => ?_⟩
      · cases h
      · cases h
    | rule r =>
      rw [nullable, Bool.and_eq_true, ← ih]
      refine ⟨fun h => ?_, fun h => .empty h.1 h.2⟩
      cases h with
      | production _ h => cases h
      | empty hr h => exact ⟨hr, h⟩

/-! ## No terminal is ambiguous -/

/-- The terminals that may follow a rule. -/
def Rule.follow : Rule → List Terminal
  | .declarations => []
  | .definition => [.type]
  | .representation => [.type]
  | .fields => [.rbrace]
  | .optional => .nullable :: Rule.leads .node
  | .nullable => Rule.leads .node
  | .members => [.rbrace]
  | .moreMembers => [.rbrace]
  | .node => [.ident, .rbrace, .rsqb, .representation, .type]
  | .mapKey => [.colon]

/-- Every rule is followed by what may follow it. -/
def Ordered : List Symbol → Prop
  | [] => True
  | .terminal _ :: rest => Ordered rest
  | .rule r :: rest => (∀ t ∈ expected rest, t ∈ r.follow) ∧ Ordered rest

/-- Every rule of a production's body is followed by what may follow it, also when the body is at
its end and only the terminals `follow` may come next. -/
def Admits (follow : List Terminal) : List Symbol → Bool
  | [] => true
  | .terminal _ :: rest => Admits follow rest
  | .rule r :: rest =>
    (expected rest ++ if nullable rest then follow else []).all (· ∈ r.follow) && Admits follow rest

theorem admits_body {r : Rule} {p : Production r} (hp : p ∈ r.productions) :
    Admits r.follow p.body = true := by
  revert p
  cases r <;> decide

theorem not_mem_follow_of_mem_leads {r : Rule} (hr : r.empty?.isSome) :
    ∀ t ∈ r.leads, t ∉ r.follow := by
  revert hr
  cases r <;> decide

theorem nodup_leads (r : Rule) : r.leads.Nodup := by
  cases r <;> decide

theorem ordered_append {follow : List Terminal} {xs ys : List Symbol}
    (hxs : Admits follow xs = true) (hys : ∀ t ∈ expected ys, t ∈ follow) (h : Ordered ys) :
    Ordered (xs ++ ys) := by
  induction xs with
  | nil => exact h
  | cons s xs ih =>
    cases s with
    | terminal u => exact ih hxs
    | rule r =>
      obtain ⟨hr, hxs⟩ := Bool.and_eq_true_iff.1 hxs
      refine ⟨fun t ht => ?_, ih hxs⟩
      refine of_decide_eq_true (List.all_eq_true.1 hr t ?_)
      rcases mem_expected_append.1 ht with ht | ⟨hnull, ht⟩
      · exact List.mem_append_left _ ht
      · rw [if_pos hnull]
        exact List.mem_append_right _ (hys t ht)

theorem ordered_start : Ordered [.rule .declarations] := by
  refine ⟨?_, trivial⟩
  intro t ht
  cases ht

theorem ordered_advance {t : Terminal} {needs next : List Symbol} (h : Ordered needs)
    (hnext : advance t needs = some next) : Ordered next := by
  induction needs with
  | nil => cases hnext
  | cons s rest ih =>
    cases s with
    | terminal u =>
      unfold advance at hnext
      split at hnext
      · cases hnext
        exact h
      · cases hnext
    | rule r =>
      unfold advance at hnext
      split at hnext
      · rename_i p hp
        cases hnext
        exact ordered_append (admits_body (List.mem_of_find?_eq_some hp)) h.1 h.2
      · split at hnext
        · exact ih h.2 hnext
        · cases hnext

theorem ordered_advances {ts : List Terminal} {needs next : List Symbol} (h : Ordered needs)
    (hnext : advances ts needs = some next) : Ordered next := by
  induction ts generalizing needs with
  | nil =>
    cases hnext
    exact h
  | cons t ts ih =>
    obtain ⟨mid, hmid, hnext⟩ := Option.bind_eq_some_iff.1 hnext
    exact ih (ordered_advance h hmid) hnext

theorem find?_lead {r : Rule} {p : Production r} (hp : p ∈ r.productions) :
    r.productions.find? (fun q => q.lead = p.lead) = some p := by
  have hnodup := nodup_leads r
  unfold Rule.leads at hnodup
  generalize r.productions = ps at hp hnodup
  induction ps with
  | nil => cases hp
  | cons q ps ih =>
    rw [List.map_cons, List.nodup_cons] at hnodup
    rcases List.mem_cons.1 hp with rfl | hp
    · simp
    · have hne : q.lead ≠ p.lead := by
        intro h
        rw [h] at hnodup
        exact hnodup.1 (List.mem_map.2 ⟨p, hp, rfl⟩)
      rw [List.find?_cons_of_neg (by simpa using hne)]
      exact ih hp hnodup.2

/-- The first terminal of a derivation is one step of the machine. -/
theorem exists_advance_of_derives {t : Terminal} {ts : List Terminal} {needs left : List Symbol}
    (hneeds : Ordered needs) (h : Derives needs (t :: ts) left) :
    ∃ next, advance t needs = some next ∧ Derives next ts left := by
  generalize hread : t :: ts = read at h
  induction h with
  | refl => cases hread
  | terminal h =>
    cases hread
    exact ⟨_, by rw [advance, if_pos rfl], h⟩
  | @production r p needs left read hp h ih =>
    cases h with
    | refl => cases hread
    | terminal h =>
      cases hread
      exact ⟨_, by rw [advance, find?_lead hp], h⟩
  | @empty r needs left read hr h ih =>
    obtain ⟨next, hnext, hleft⟩ := ih hneeds.2 hread
    subst hread
    have hfollow := hneeds.1 t (mem_expected_of_derives h)
    have hfind : r.productions.find? (fun p => p.lead = t) = none := by
      rw [List.find?_eq_none]
      intro p hp hlead
      have hlead := of_decide_eq_true hlead
      exact not_mem_follow_of_mem_leads hr t (List.mem_map.2 ⟨p, hp, hlead⟩) hfollow
    exact ⟨next, by rw [advance, hfind]; simp [hr, hnext], hleft⟩

/-- **Whatever is derived is derived from where the machine stands.** -/
theorem derives_iff {ts : List Terminal} {needs left : List Symbol} (hneeds : Ordered needs) :
    Derives needs ts left ↔ ∃ mid, advances ts needs = some mid ∧ Derives mid [] left := by
  refine ⟨fun h => ?_, fun ⟨mid, hmid, h⟩ => ?_⟩
  · induction ts generalizing needs with
    | nil => exact ⟨needs, rfl, h⟩
    | cons t ts ih =>
      obtain ⟨next, hnext, h⟩ := exists_advance_of_derives hneeds h
      obtain ⟨mid, hmid, h⟩ := ih (ordered_advance hneeds hnext) h
      exact ⟨mid, by rw [advances, hnext, Option.bind_some, hmid], h⟩
  · have := (derives_advances hmid).trans h
    rwa [List.append_nil] at this

/-! ## Sentences and their beginnings -/

/-- All symbols derive something. -/
theorem exists_derives (needs : List Symbol) : ∃ ts, Derives needs ts [] := by
  induction needs with
  | nil => exact ⟨[], .refl []⟩
  | cons s rest ih =>
    obtain ⟨ts, h⟩ := ih
    cases s with
    | terminal t => exact ⟨t :: ts, .terminal h⟩
    | rule r =>
      by_cases hr : r.empty?.isSome
      · exact ⟨ts, .empty hr h⟩
      · -- Every other rule derives a single name.
        have hident : ∃ p ∈ r.productions, p.lead = .ident ∧ p.body = [] := by
          revert hr
          cases r <;> decide
        obtain ⟨p, hp, hlead, hbody⟩ := hident
        refine ⟨p.lead :: ts, .production hp (.terminal ?_)⟩
        rw [hbody]
        exact h

theorem sentence_iff {ts : List Terminal} :
    Sentence ts ↔ ∃ needs, advances ts [.rule .declarations] = some needs ∧ nullable needs := by
  unfold Sentence
  rw [derives_iff ordered_start]
  refine exists_congr fun needs => and_congr_right fun _ => derives_nil_iff

theorem viable_iff {ts : List Terminal} :
    Viable ts ↔ ∃ needs, advances ts [.rule .declarations] = some needs := by
  refine ⟨fun ⟨more, h⟩ => ?_, fun ⟨needs, h⟩ => ?_⟩
  · obtain ⟨needs, hneeds, -⟩ := sentence_iff.1 h
    rw [advances_append] at hneeds
    obtain ⟨mid, hmid, -⟩ := Option.bind_eq_some_iff.1 hneeds
    exact ⟨mid, hmid⟩
  · obtain ⟨more, hmore⟩ := exists_derives needs
    exact ⟨more, (derives_advances h).trans hmore⟩

/-- **The expected terminals are exactly those that can come next.** -/
theorem viable_concat_iff {ts : List Terminal} {needs : List Symbol}
    (h : advances ts [.rule .declarations] = some needs) (t : Terminal) :
    Viable (ts ++ [t]) ↔ t ∈ expected needs := by
  rw [viable_iff, advances_append, h, Option.bind_some, mem_expected_iff]
  refine exists_congr fun next => ?_
  rw [advances]
  cases advance t needs with
  | none => simp
  | some next' => simp [advances]

end Ipld.Grammar
