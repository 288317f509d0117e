import Ipld.Proofs.Agreement.Schemas
import Ipld.Proofs.Grammar.Positions
import Mathlib.Order.Bounds.Basic

/-!
# Where and why a token list is refused

The parser stops at the first token that fits no source: the tokens before it are the longest
beginning of the list that can be extended to an accepted one.  What it reports depends on the place
where they lead (`Reported`): inside an annotation it blames the annotation, at its first word, and
everywhere else the token it stopped at, or the end of the input.

The one place where the parser looks ahead is an annotation.  There it stops before the first word
although one or two tokens more can be extended, which is why its own position is no part of the
statement.
-/

namespace Ipld

open Grammar Ipld.Parser

/-- The parser reads the tokens. -/
def Accepted (ts : List Token) : Prop :=
  ∃ s, parseTokens ts = .ok s

/-- Tokens can be added so that the parser reads them all. -/
def Extendable (ts : List Token) : Prop :=
  ∃ more, Accepted (ts ++ more)

/-- The longest beginning of the list that can be extended has `k` tokens. -/
def Furthest (ts : List Token) (k : Nat) : Prop :=
  IsGreatest {j | j ≤ ts.length ∧ Extendable (ts.take j)} k

/-- The tokens end inside an annotation, which begins with the token `r`. -/
inductive Annotating : List Token → Token → Prop
  | first {ts : List Token} {r : Token} (hr : r.IsKeyword "representation")
    (h : LeadsTo (ts ++ [r]) (.terminal .advanced)) : Annotating (ts ++ [r]) r
  | second {ts : List Token} {r a : Token} (hr : r.IsKeyword "representation")
    (h : LeadsTo (ts ++ [r, a]) (.terminal .rmt)) : Annotating (ts ++ [r, a]) r

open Classical in
/-- What is reported of the token `t` that does not fit behind the tokens `read`. -/
def ReportedAt (read : List Token) (t : Token) (e : SchemaError) : Prop :=
  if read ≠ [] ∧ Accepted read ∧ t.IsKeyword "representation" then
    e.kind = .representation ∧ e.line = some t.line
  else if LeadsTo read (.rule .mapKey) then e = .keyType t.value t.line
  else if LeadsTo read (.rule .node) ∧ BeginsBody t then e = .inlineDefinition t.value t.line
  else ∃ wanted found, e = .unexpectedToken wanted found t.line

/-- What is reported when the tokens `read` are followed by a token that does not fit, or by
nothing although something is needed. -/
def Reported (read : List Token) (next : Option Token) (e : SchemaError) : Prop :=
  (∀ r, Annotating read r → e.kind = .representation ∧ e.line = some r.line) ∧
    ((∀ r, ¬ Annotating read r) → match next with
      | none => e = .endOfInput (read.getLast?.map Token.line)
      | some t => ReportedAt read t e)

theorem Reported.of_at {read : List Token} {t : Token} {e : SchemaError}
    (hannotating : ∀ r, ¬ Annotating read r) (h : ReportedAt read t e) :
    Reported read (some t) e :=
  ⟨fun r hr => absurd hr (hannotating r), fun _ => h⟩

/-! ## The longest beginning -/

theorem Extendable.of_append {ts us : List Token} (h : Extendable (ts ++ us)) : Extendable ts := by
  obtain ⟨more, h⟩ := h
  rw [List.append_assoc] at h
  exact ⟨us ++ more, h⟩

theorem furthest_append {read rest : List Token} (hread : Extendable read)
    (hstop : ∀ t ∈ rest.head?, ¬ Extendable (read ++ [t])) :
    Furthest (read ++ rest) read.length := by
  refine ⟨⟨by simp, by rwa [List.take_left]⟩, ?_⟩
  rintro j ⟨hj, hext⟩
  by_contra hlt
  cases rest with
  | nil =>
    rw [List.append_nil] at hj
    omega
  | cons t rest =>
    have hlong : (read ++ t :: rest).take j = (read ++ [t]) ++ rest.take (j - read.length - 1) := by
      obtain ⟨i, rfl⟩ : ∃ i, j = read.length + (i + 1) := ⟨j - read.length - 1, by omega⟩
      rw [List.take_length_add_append, List.take_succ_cons, List.append_assoc]
      congr 3
      omega
    rw [hlong] at hext
    exact hstop t rfl hext.of_append

theorem exists_completes_of_accepted {ts : List Token} (h : Accepted ts) :
    ∃ ds, start.Completes ts (.ok ds) := by
  obtain ⟨s, hs⟩ := h
  obtain ⟨ds, hds, -⟩ := parseTokens_eq_ok_iff_completes.1 hs
  exact ⟨ds, hds⟩

theorem accepted_of_completes {ts : List Token} {ds : List (String × Definition)}
    (h : start.Completes ts (.ok ds)) : Accepted ts :=
  ⟨_, parseTokens_eq_ok_iff_completes.2 ⟨ds, h, rfl⟩⟩

/-! ## Tokens that nothing explains -/

/-- The token does not fit where the run stands, and the place does not say why. -/
structure Unexplained {α : Type} (r : Run α) (t : Token) : Prop where
  read : r.read t = none
  inside : insideAnnotation (expected r.needs) = false
  key : ¬ (.string ∈ expected r.needs ∧ .lsqb ∉ expected r.needs)
  body : BeginsBody t → .lsqb ∉ expected r.needs

theorem Unexplained.of_skips {α : Type} {r r' : Run α} {t : Token}
    (hskips : r.Skips t.terminal? r') (h : Unexplained r' t) : Unexplained r t where
  read := hskips.read_eq.trans h.read
  inside := hskips.insideAnnotation_eq_false h.inside
  key := by
    rintro ⟨hstring, hlsqb⟩
    exact h.key ⟨hskips.mem_expected (.inr (.inr (.inl rfl))) hstring,
      fun hmem => hlsqb (hskips.expected_subset hmem)⟩
  body ht hmem := h.body ht (hskips.mem_expected (.inr (.inl rfl)) hmem)

/-- At the start of a source an annotation is a token like any other. -/
theorem unexplained_start {t : Token} (ht : t.IsKeyword "representation") : Unexplained start t :=
  ⟨read_eq_none_of_annotated ht, rfl, by decide, fun _ => by decide⟩

/-! ## Places and reports -/

section Run

variable {r : Run (Checked (List (String × Definition)))} {ts : List Token}
  (h : start.reads ts = some r)

include h

theorem extendable_iff : Extendable ts ↔ ∃ more ds, r.Completes more (.ok ds) := by
  have hcompletes : ∀ more ds, start.Completes (ts ++ more) (.ok ds) ↔ r.Completes more (.ok ds) :=
    fun more ds => by
      simp only [Run.Completes, Run.reads_append, h, Option.bind_some]
  constructor
  · rintro ⟨more, hmore⟩
    obtain ⟨ds, hds⟩ := exists_completes_of_accepted hmore
    exact ⟨more, ds, (hcompletes more ds).1 hds⟩
  · rintro ⟨more, ds, hds⟩
    exact ⟨more, accepted_of_completes ((hcompletes more ds).2 hds)⟩

theorem not_extendable_of_read {t : Token} (hread : r.read t = none) :
    ¬ Extendable (ts ++ [t]) := by
  rintro ⟨more, hmore⟩
  obtain ⟨ds, r', hreads, -⟩ := exists_completes_of_accepted hmore
  rw [List.append_assoc, Run.reads_append, h, Option.bind_some, List.singleton_append, Run.reads,
    hread] at hreads
  cases hreads

theorem nullable_of_accepted (hts : Accepted ts) : nullable r.needs = true := by
  obtain ⟨ds, r', hreads, hclose⟩ := exists_completes_of_accepted hts
  cases h.symm.trans hreads
  rw [← isSome_close r.needs r.finish, hclose]
  rfl

theorem not_annotating (hinside : insideAnnotation (expected r.needs) = false) (a : Token) :
    ¬ Annotating ts a := by
  intro ha
  cases ha with
  | first _ hleads => cases hinside.symm.trans (insideAnnotation_of_leadsTo h (by decide) hleads)
  | second _ hleads => cases hinside.symm.trans (insideAnnotation_of_leadsTo h (by decide) hleads)

theorem annotating_unique {a b : Token} (ha : Annotating ts a) (hb : Annotating ts b) : a = b := by
  cases ha with
  | first _ hleads =>
    have hwanted := expected_of_leadsTo_terminal h (by decide) hleads
    generalize hts : _ ++ [a] = us at hb hwanted h
    cases hb with
    | first =>
      cases List.append_inj_right' hts rfl
      rfl
    | second _ hleads' =>
      cases hwanted.symm.trans (expected_of_leadsTo_terminal h (by decide) hleads')
  | second _ hleads =>
    have hwanted := expected_of_leadsTo_terminal h (by decide) hleads
    generalize hts : _ ++ [a, _] = us at hb hwanted h
    cases hb with
    | first _ hleads' =>
      cases hwanted.symm.trans (expected_of_leadsTo_terminal h (by decide) hleads')
    | second =>
      cases List.append_inj_right' hts rfl
      rfl

/-- Inside an annotation its first word is blamed, whatever comes next. -/
theorem reported_of_annotating {a : Token} (ha : Annotating ts a) (next : Option Token)
    {e : SchemaError} (hkind : e.kind = .representation) (hline : e.line = some a.line) :
    Reported ts next e := by
  refine ⟨fun b hb => ?_, fun hnone => absurd ha (hnone a)⟩
  cases annotating_unique h ha hb
  exact ⟨hkind, hline⟩

theorem reported_unexpected {t : Token} {wanted found : String} (ht : Unexplained r t)
    (hannotated : ts ≠ [] → t.IsKeyword "representation" → nullable r.needs = false) :
    Reported ts (some t) (.unexpectedToken wanted found t.line) := by
  obtain ⟨-, hinside, hkey, hbody⟩ := ht
  refine .of_at (not_annotating h hinside) ?_
  rw [ReportedAt, if_neg, if_neg, if_neg]
  · exact ⟨wanted, found, rfl⟩
  · rintro ⟨hleads, ht⟩
    exact hbody ht (expected_of_leadsTo_node h hleads)
  · intro hleads
    obtain ⟨hstring, -, hlsqb⟩ := expected_of_leadsTo_mapKey h hleads
    exact hkey ⟨hstring, hlsqb⟩
  · rintro ⟨hne, hts, ht⟩
    cases (nullable_of_accepted h hts).symm.trans (hannotated hne ht)

end Run

/-! ## The places of the failures -/

/-- What is reported of a list, at the end of its longest beginning. -/
def Explains (ts : List Token) (e : SchemaError) : Prop :=
  ∃ k, Furthest ts k ∧ Reported (ts.take k) ts[k]? e

theorem explains_append {read rest : List Token} {e : SchemaError} (hread : Extendable read)
    (hstop : ∀ t ∈ rest.head?, ¬ Extendable (read ++ [t])) (h : Reported read rest.head? e) :
    Explains (read ++ rest) e := by
  refine ⟨read.length, furthest_append hread hstop, ?_⟩
  rwa [List.take_left, List.getElem?_append_right (Nat.le_refl _), Nat.sub_self,
    ← List.head?_eq_getElem?]

theorem read_eq_none_of_check {T : Terminal} {needs : List Symbol}
    {finish : Values (.terminal T :: needs) → Checked (List (String × Definition))}
    {rest : List Token} (hnext : check T.kind T.word? rest = false) :
    ∀ t ∈ rest.head?, Run.read ⟨.terminal T :: needs, finish⟩ t = none := by
  intro t ht
  obtain ⟨left, rfl⟩ := List.head?_eq_some_iff.1 ht
  refine Run.read_eq_none fun U hU hmem => ?_
  cases List.mem_singleton.1 hmem
  exact not_mem_terminal? hnext hU

/-- The run after one more token than those that led to where it passed over rules. -/
theorem reads_concat {read : List Token} {t : Token}
    {mid r r' : Run (Checked (List (String × Definition)))} (hreads : start.reads read = some mid)
    (hskips : mid.Skips t.terminal? r) (hread : r.read t = some r') :
    start.reads (read ++ [t]) = some r' := by
  rw [Run.reads_append, hreads, Option.bind_some, Run.reads, hskips.read_eq, hread]
  rfl

/-- An annotation that is begun and not whole: the run gets over its first word, or its first two,
and is then inside. -/
theorem exists_begun {read left : List Token} {t : Token}
    {mid : Run (Checked (List (String × Definition)))}
    {finish : Values [.rule .representation, .rule .declarations] →
      Checked (List (String × Definition))} (hreads : start.reads read = some mid)
    (hskips : mid.Skips t.terminal? ⟨[.rule .representation, .rule .declarations], finish⟩)
    (hfinish : ∀ b ds, ∃ v, finish (b, .ok ds, ()) = .ok v) (ht : t.IsKeyword "representation")
    (hbegins : ¬ BeginsAdvanced (t :: left)) :
    ∃ begun rest T needs, ∃ f : Values (.terminal T :: needs) →
        Checked (List (String × Definition)),
      t :: left = begun ++ rest ∧ T ∈ annotationTerminals ∧
        start.reads (read ++ begun) = some ⟨.terminal T :: needs, f⟩ ∧
        Annotating (read ++ begun) t ∧ Extendable (read ++ begun) ∧
        check T.kind T.word? rest = false := by
  -- The run behind the first word, and behind the second.
  have hreads₁ : start.reads (read ++ [t]) =
      some ⟨[.terminal .advanced, .terminal .rmt, .rule .declarations],
        fun vs => finish (true, vs.2.2)⟩ :=
    reads_concat hreads hskips (Run.read_eq (terminal?_eq (T := .representation) ht))
  have hreads₂ : ∀ a : Token, a.IsKeyword "advanced" → start.reads (read ++ [t, a]) =
      some ⟨[.terminal .rmt, .rule .declarations], fun vs => finish (true, vs.2)⟩ := by
    intro a ha
    have := reads_concat hreads₁ (.refl _) (Run.read_eq (terminal?_eq (T := .advanced) ha))
    rwa [List.append_assoc] at this
  obtain ⟨m, hm⟩ := exists_is .keyword (some "RMT")
  have hext : ∀ a : Token, a.IsKeyword "advanced" → Extendable (read ++ [t, a]) := by
    intro a ha
    obtain ⟨v, hv⟩ := hfinish true []
    refine (extendable_iff (hreads₂ a ha)).2 ⟨[m], v, ?_⟩
    refine (passes_one (T := .rmt) hm rfl []).completes_iff.2 ⟨_, rfl, ?_⟩
    exact congrArg some hv
  cases hnext : check .keyword (some "advanced") left with
  | false =>
    obtain ⟨a, ha⟩ := exists_is .keyword (some "advanced")
    have hlong : Extendable ((read ++ [t]) ++ [a]) := by
      rw [List.append_assoc]
      exact hext a ha
    have hleads : LeadsTo (read ++ [t]) (.terminal .advanced) :=
      (leadsTo_iff hreads₁).2 ⟨_, .refl _⟩
    exact ⟨[t], left, .advanced, _, _, rfl, by decide, hreads₁, .first ht hleads, hlong.of_append,
      hnext⟩
  | true =>
    obtain ⟨a, rest, rfl, ha⟩ := eq_cons_of_check hnext
    have hleads : LeadsTo (read ++ [t, a]) (.terminal .rmt) :=
      (leadsTo_iff (hreads₂ a ha)).2 ⟨_, .refl _⟩
    have hrest : check .keyword (some "RMT") rest = false := by
      refine Bool.eq_false_iff.2 fun hrest => ?_
      obtain ⟨m', rest', rfl, hm'⟩ := eq_cons_of_check hrest
      exact hbegins ⟨ht, ha, hm'⟩
    exact ⟨[t, a], rest, .rmt, _, _, rfl, by decide, hreads₂ a ha, .second ht hleads, hext a ha,
      hrest⟩

/-- The longest beginning goes beyond the first word of such an annotation. -/
theorem explains_broken {read left : List Token} {t : Token}
    {mid : Run (Checked (List (String × Definition)))}
    {finish : Values [.rule .representation, .rule .declarations] →
      Checked (List (String × Definition))} {e : SchemaError}
    (hreads : start.reads read = some mid)
    (hskips : mid.Skips t.terminal? ⟨[.rule .representation, .rule .declarations], finish⟩)
    (hfinish : ∀ b ds, ∃ v, finish (b, .ok ds, ()) = .ok v) (ht : t.IsKeyword "representation")
    (hbegins : ¬ BeginsAdvanced (t :: left))
    (hkind : e.kind = .representation) (hline : e.line = some t.line) :
    Explains (read ++ t :: left) e := by
  obtain ⟨begun, rest, T, needs, f, heq, -, hreads', ha, hext, hnext⟩ :=
    exists_begun hreads hskips hfinish ht hbegins
  rw [heq, ← List.append_assoc]
  refine explains_append hext (fun u hu => ?_) (reported_of_annotating hreads' ha _ hkind hline)
  exact not_extendable_of_read hreads' (read_eq_none_of_check hnext u hu)

section Place

variable {read rest : List Token} {mid r : Run (Checked (List (String × Definition)))} {t : Token}
  (hreads : start.reads read = some mid)

include hreads

/-- The token where the parser fails is no beginning, when the failure does not depend on what comes
after it. -/
theorem not_extendable_of_blames {why : Failure} (hskips : mid.Skips t.terminal? r)
    (hblames : ∀ more, Blames r (t :: more) why) : ¬ Extendable (read ++ [t]) := by
  rintro ⟨more, hmore⟩
  obtain ⟨ds, hds⟩ := exists_completes_of_accepted hmore
  rw [List.append_assoc] at hds
  have hpass : start.Passes (read ++ t :: more) (t :: more) r := ⟨read, mid, rfl, hreads, hskips⟩
  obtain ⟨_, -, heq⟩ := (hblames more).eq_of_completes (hpass.completes_iff.1 hds)
  cases heq

theorem reported_key (hskips : mid.Skips t.terminal? r) {needs : List Symbol}
    (hneeds : r.needs = .rule .mapKey :: needs) :
    Reported read (some t) (.keyType t.value t.line) := by
  have hinside := hskips.insideAnnotation_eq_false (by rw [hneeds]; rfl)
  have hnull := hskips.nullable_eq
  rw [hneeds] at hnull
  refine .of_at (not_annotating hreads hinside) ?_
  rw [ReportedAt, if_neg, if_pos]
  · exact (leadsTo_iff hreads).2 ⟨needs, hneeds ▸ hskips.derives⟩
  · rintro ⟨-, hread, -⟩
    cases (nullable_of_accepted hreads hread).symm.trans hnull

theorem reported_body (hskips : mid.Skips t.terminal? r) {needs : List Symbol}
    (hneeds : r.needs = .rule .node :: needs) (ht : BeginsBody t) :
    Reported read (some t) (.inlineDefinition t.value t.line) := by
  have hinside := hskips.insideAnnotation_eq_false (by rw [hneeds]; rfl)
  have hnull := hskips.nullable_eq
  rw [hneeds] at hnull
  have hleads : LeadsTo read (.rule .node) :=
    (leadsTo_iff hreads).2 ⟨needs, hneeds ▸ hskips.derives⟩
  refine .of_at (not_annotating hreads hinside) ?_
  rw [ReportedAt, if_neg, if_neg, if_pos]
  · exact ⟨hleads, ht⟩
  · intro hkey
    exact (expected_of_leadsTo_mapKey hreads hkey).2.2 (expected_of_leadsTo_node hreads hleads)
  · rintro ⟨-, hread, -⟩
    cases (nullable_of_accepted hreads hread).symm.trans hnull

theorem reported_extra {finish : Values [.rule .declarations] →
      Checked (List (String × Definition))}
    (hskips : mid.Skips t.terminal? ⟨[.rule .declarations], finish⟩)
    (hfinish : ∀ ds, ∃ v, finish (.ok ds, ()) = .ok v) (hne : read ≠ [])
    (ht : t.IsKeyword "representation") (name : String) :
    Reported read (some t) (.unsupportedRepresentation name t.line) := by
  have hinside := hskips.insideAnnotation_eq_false rfl
  obtain ⟨v, hv⟩ := hfinish []
  have hread : Accepted read := by
    have hclose : close mid.needs mid.finish = some (.ok v) := by
      rw [hskips.close_eq]
      exact congrArg some hv
    exact accepted_of_completes ⟨mid, hreads, hclose⟩
  refine .of_at (not_annotating hreads hinside) ?_
  rw [ReportedAt, if_pos ⟨hne, hread, ht⟩]
  exact ⟨rfl, rfl⟩

/-- The failure of the parser is reported at the end of the longest beginning. -/
theorem explains_of_blames {why : Failure} (hskips : mid.Skips (next? rest) r)
    (hblames : Blames r rest why) (hread : Extendable read)
    (hnext : check .keyword (some "representation") (read ++ rest) = false) :
    ∃ e, why.report ((read ++ rest).getLast?.map Token.line) = .schema e ∧
      Explains (read ++ rest) e := by
  have hstop : ∀ {t left}, rest = t :: left → (∀ more, Blames r (t :: more) why) →
      ∀ u ∈ rest.head?, ¬ Extendable (read ++ [u]) := by
    rintro t left rfl hblames u hu
    cases hu
    exact not_extendable_of_blames hreads hskips hblames
  cases hblames with
  | ended hnull hinside =>
    refine ⟨_, rfl, explains_append hread nofun ⟨fun a ha => ?_, fun _ => ?_⟩⟩
    · exact absurd ha (not_annotating hreads (hskips.insideAnnotation_eq_false hinside) a)
    · rw [List.append_nil]
      rfl
  | @unexpected _ t _ _ _ hother hinside hkey hbody hannotated =>
    have h : Unexplained mid t :=
      .of_skips hskips ⟨Run.read_eq_none hother, hinside, hkey, hbody⟩
    exact ⟨_, rfl, explains_append hread
      (hstop rfl fun _ => .unexpected hother hinside hkey hbody hannotated)
      (reported_unexpected hreads h fun _ ht => hskips.nullable_eq.trans (hannotated ht))⟩
  | key hstrict ht =>
    exact ⟨_, rfl, explains_append hread (hstop rfl fun _ => .key hstrict ht)
      (reported_key hreads hskips rfl)⟩
  | body ht =>
    exact ⟨_, rfl, explains_append hread (hstop rfl fun _ => .body ht)
      (reported_body hreads hskips rfl ht)⟩
  | extra hfinish ht =>
    have hne : read ≠ [] := by
      rintro rfl
      cases hnext.symm.trans ht
    exact ⟨_, rfl, explains_append hread (hstop rfl fun _ => .extra hfinish ht)
      (reported_extra hreads hskips hfinish hne ht _)⟩
  | broken hfinish ht hbegins =>
    exact ⟨_, rfl, explains_broken hreads hskips hfinish ht hbegins rfl rfl⟩

end Place

theorem explains_of_schema {ts rest : List Token} {why : Failure} (h : schema ts = .fail why rest) :
    ∃ e, why.report (ts.getLast?.map Token.line) = .schema e ∧ Explains ts e := by
  have hspells := reads_schema ts
  rw [h] at hspells
  obtain ⟨read, more, s, hts, ds, hds, rfl⟩ := hspells
  have hread : Extendable read :=
    ⟨more, _, parseTokens_eq_ok_iff_schema.2 (schema_of_spells hds)⟩
  rcases blames_of_schema h with ⟨t, left, rfl, rfl, ht, rfl⟩ | ⟨hnext, r, hpass, hblames⟩
  · obtain rfl : read = [] := List.self_eq_append_left.1 hts
    refine ⟨_, rfl, explains_append hread ?_ ?_⟩
    · rintro u hu
      cases hu
      exact not_extendable_of_read (r := start) rfl (read_eq_none_of_annotated ht)
    · exact reported_unexpected (r := start) rfl (unexplained_start ht) fun hne => absurd rfl hne
  · obtain ⟨read', mid, hts', hreads, hskips⟩ := hpass
    obtain rfl := List.append_cancel_right (hts.symm.trans hts')
    subst hts
    exact explains_of_blames hreads hskips hblames hread hnext

/-- **A list is refused at the end of its longest beginning**, and what is reported depends on the
place where this beginning leads. -/
theorem exists_reported_of_parseTokens {ts : List Token} {e : Fault}
    (h : parseTokens ts = .error e) :
    ∃ k a, e = .schema a ∧ Furthest ts k ∧ Reported (ts.take k) ts[k]? a := by
  obtain ⟨why, rest, hschema, rfl⟩ := parseTokens_eq_error_iff.1 h
  obtain ⟨a, hreport, k, hfurthest, hreported⟩ := explains_of_schema hschema
  exact ⟨k, a, hreport, hfurthest, hreported⟩

/-- An annotation that the next declaration breaks off. -/
def brokenOff : List Token :=
  [⟨.keyword, "type", 1⟩, ⟨.identifier, "Names", 1⟩, ⟨.keyword, "list", 1⟩, ⟨.keyword, "String", 1⟩,
    ⟨.keyword, "representation", 2⟩, ⟨.keyword, "advanced", 3⟩, ⟨.keyword, "type", 4⟩]

theorem parseTokens_brokenOff :
    parseTokens brokenOff = .error (.schema (.unsupportedRepresentation "Names" 2)) := by
  have hnode : node (brokenOff.drop 3) = .ok (.scalar .string) (brokenOff.drop 4) :=
    node_of_spells (@SpellsNode.scalar _ .string rfl) _
  have hbody : listBody (brokenOff.drop 3) =
      .ok (.list (.scalar .string) false) (brokenOff.drop 4) := by
    rw [listBody_eq, modifier_absent rfl, Outcome.bind_ok, hnode]
    rfl
  have hdefinition : definition (brokenOff.drop 2) =
      .ok (.node (.list (.scalar .string) false) false) (brokenOff.drop 4) :=
    congrArg annotated hbody
  simp only [brokenOff, List.drop_succ_cons, List.drop_zero] at hdefinition
  rw [parseTokens_eq, schema, brokenOff, declarations_cons, declaration_eq, consume_cons rfl,
    Outcome.bind_ok, consume_cons rfl, Outcome.bind_ok, hdefinition]
  rfl

/-- The longest beginning goes on for two tokens behind the place where the parser stopped. -/
theorem reported_brokenOff :
    parseTokens brokenOff = .error (.schema (.unsupportedRepresentation "Names" 2)) ∧
      ∃ k a, Fault.schema (.unsupportedRepresentation "Names" 2) = .schema a ∧
        Furthest brokenOff k ∧ Reported (brokenOff.take k) brokenOff[k]? a :=
  ⟨parseTokens_brokenOff, exists_reported_of_parseTokens parseTokens_brokenOff⟩

end Ipld
