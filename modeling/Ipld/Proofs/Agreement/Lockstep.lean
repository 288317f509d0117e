import Ipld.Proofs.Agreement.Simulation

/-!
# The grammar's run beside whole schemas

The fields of a struct and the members of an enum are bound one by one by the parser and collected
by the run; `found` is what the parser has bound so far, and the value of the run is what it makes
up together with the rest.  A definition leaves the run behind it, or at an annotation that is not
whole (`AfterDefinition`).

Only the first token of a source is no match: where it is `representation` the parser wants a
declaration, while everywhere else between two declarations it takes that word for an annotation.
-/

namespace Ipld.Parser

open Grammar

variable {α γ : Type}

/-! ## Bodies -/

theorem check_other {T U : Terminal} {ts : List Token} (h : check T.kind T.word? ts = true)
    (hne : T ≠ U) : check U.kind U.word? ts = false := by
  obtain ⟨t, rest, rfl, ht⟩ := eq_cons_of_check h
  refine Bool.eq_false_iff.2 fun hU => hne (Token.terminal_unique ht hU)

theorem simulates_field {needs : List Symbol}
    {finish : Values (.rule .fields :: .terminal .rbrace :: needs) → Checked γ}
    (hstrict : Strict finish) {ts : List Token} (hclose : check .symbol (some "\x7d") ts = false) :
    Simulates ⟨.rule .fields :: .terminal .rbrace :: needs, finish⟩ ts
      (fun entry _ r' => r' = ⟨.rule .fields :: .terminal .rbrace :: needs,
        fun vs => finish (do return entry :: (← vs.1), vs.2)⟩) (field ts) := by
  rw [field_eq]
  refine (simulates_consume .ident [.rbrace] rfl (by decide) rfl
    (fun _ => rfl) ?_).bind fun name r₁ _ _ hrun => ?_
  · intro U hU
    rw [List.mem_singleton.1 hU]
    exact hclose
  subst hrun
  refine (simulates_optional _ r₁).bind fun optional r₂ _ _ hrun => ?_
  subst hrun
  refine (simulates_nullable _ r₂).bind fun nullable r₃ _ _ hrun => ?_
  subst hrun
  refine .map ((simulates_node ?_ r₃).mono fun value _ _ _ h => h)
  exact fun e vs => hstrict e _

/-- The fields are added to `found` one by one, while the run keeps them in a list. -/
theorem simulates_fields_of_le (n : Nat) : ∀ (found : Table Field) (ts : List Token),
    ts.length ≤ n → ∀ {needs : List Symbol} {finish : Checked (List (String × Field)) ×
      Values (.terminal .rbrace :: needs) → Checked γ}
      {total : Table Field → Values (.terminal .rbrace :: needs) → Checked γ}, Strict finish →
    (∀ entries vs, finish (.ok entries, vs) =
      total (entries.foldl (fun t entry => t.insert entry.1 entry.2) found) vs) →
    Simulates ⟨.rule .fields :: .terminal .rbrace :: needs, finish⟩ ts
      (fun all _ r' => r' = ⟨.terminal .rbrace :: needs, total all⟩) (fields found ts) := by
  induction n with
  | zero =>
    intro found ts hlen needs finish total _ _
    rw [List.length_eq_zero_iff.1 (Nat.le_zero.1 hlen), fields_eq]
    exact .fail (.ended rfl rfl)
  | succ n ih =>
    intro found ts hlen needs finish total hstrict hfinish
    rw [fields_eq]
    split
    · rename_i hclose
      refine ⟨_, passes_skip rfl rfl (check_other (T := .rbrace) hclose (by decide)), ?_⟩
      rw [funext (hfinish [])]
      rfl
    · rename_i hclose
      refine (simulates_field hstrict (Bool.eq_false_iff.2 hclose)).bind_lt (shrinks_field ts) hlen
        fun entry rest r' hrest hrun => ?_
      subst hrun
      refine ih (found.insert entry.1 entry.2) rest hrest (fun e vs => hstrict e _)
        fun entries vs => ?_
      exact hfinish (entry :: entries) vs

theorem simulates_moreMembers {found : List String} {n : Nat} {needs : List Symbol}
    (finish : List String × Values (.terminal .rbrace :: needs) → Checked γ)
    {total : List String → Values (.terminal .rbrace :: needs) → Checked γ}
    (hmembers : ∀ ts : List Token, ts.length ≤ n →
      Simulates ⟨.rule .members :: .terminal .rbrace :: needs, finish⟩ ts
        (fun all _ r' => r' = ⟨.terminal .rbrace :: needs, total all⟩) (members found ts))
    (hfinish : ∀ names vs, finish (names, vs) = total (found.reverse ++ names) vs)
    {ts : List Token} (hlen : ts.length ≤ n) :
    Simulates ⟨.rule .moreMembers :: .terminal .rbrace :: needs, finish⟩ ts
      (fun all _ r' => r' = ⟨.terminal .rbrace :: needs, total all⟩) (moreMembers found ts) := by
  rw [moreMembers]
  split
  · rename_i hclose
    refine ⟨_, passes_skip rfl rfl (check_other (T := .rbrace) hclose (by decide)), ?_⟩
    rw [funext (hfinish []), List.append_nil]
  · rename_i hclose
    refine (simulates_consume .comma [.rbrace] rfl (by decide) rfl
      (fun _ => rfl) ?_).bind fun _ rest _ hrest hrun => ?_
    · intro U hU
      rw [List.mem_singleton.1 hU]
      exact Bool.eq_false_iff.2 hclose
    subst hrun
    exact hmembers rest (Nat.le_trans hrest hlen)

/-- The members are put in front of `found` one by one, while the run keeps them in a list. -/
theorem simulates_members_of_le (n : Nat) : ∀ (found : List String) (ts : List Token),
    ts.length ≤ n → ∀ {needs : List Symbol}
      {finish : List String × Values (.terminal .rbrace :: needs) → Checked γ}
      {total : List String → Values (.terminal .rbrace :: needs) → Checked γ},
    (∀ names vs, finish (names, vs) = total (found.reverse ++ names) vs) →
    Simulates ⟨.rule .members :: .terminal .rbrace :: needs, finish⟩ ts
      (fun all _ r' => r' = ⟨.terminal .rbrace :: needs, total all⟩) (members found ts) := by
  induction n with
  | zero =>
    intro found ts hlen needs finish total _
    rw [List.length_eq_zero_iff.1 (Nat.le_zero.1 hlen), members_eq]
    exact .fail (.ended rfl rfl)
  | succ n ih =>
    intro found ts hlen needs finish total hfinish
    rw [members_eq]
    split
    · rename_i hclose
      refine ⟨_, passes_skip rfl rfl (check_other (T := .rbrace) hclose (by decide)), ?_⟩
      rw [funext (hfinish []), List.append_nil]
    · rename_i hclose
      refine (simulates_consume .ident [.rbrace] rfl (by decide) rfl
        (fun _ => rfl) ?_).bind_lt (shrinks_consume _ _ ts) hlen fun name rest _ hrest hrun => ?_
      · intro U hU
        rw [List.mem_singleton.1 hU]
        exact Bool.eq_false_iff.2 hclose
      subst hrun
      have hnext : ∀ names vs, finish (name.value :: names, vs) =
          total ((name.value :: found).reverse ++ names) vs := by
        intro names vs
        rw [hfinish, List.reverse_cons, List.append_assoc, List.singleton_append]
      exact simulates_moreMembers (fun vs => finish (name.value :: vs.1, vs.2))
        (fun us hus => ih (name.value :: found) us hus hnext) hnext hrest

theorem simulates_inBraces {R : Rule} {needs : List Symbol} {body : List Token → Outcome α}
    (finish : R.Value × Values needs → Checked γ) (total : α → Values needs → Checked γ)
    (hbody : ∀ ts, Simulates ⟨.rule R :: .terminal .rbrace :: needs,
        fun vs => finish (vs.1, vs.2.2)⟩ ts
      (fun value _ r' => r' = ⟨.terminal .rbrace :: needs, fun vs => total value vs.2⟩) (body ts))
    (ts : List Token) :
    Simulates ⟨.terminal .lbrace :: .rule R :: .terminal .rbrace :: needs,
        fun vs => finish (vs.2.1, vs.2.2.2)⟩ ts
      (fun value _ r' => r' = ⟨needs, total value⟩) (inBraces body ts) := by
  rw [inBraces]
  refine (simulates_terminal .lbrace (by decide) ts).bind fun _ r₁ _ _ hrun => ?_
  subst hrun
  refine (hbody r₁).bind fun value r₂ _ _ hrun => ?_
  subst hrun
  exact .map (simulates_terminal .rbrace (by decide) r₂)

/-! ## Definitions and declarations -/

/-- Where a run is after a definition: behind it, or before the first word of an annotation that is
not whole. -/
inductive AfterDefinition {needs : List Symbol}
    (finish : Checked Definition × Values needs → Checked γ) :
    Definition → List Token → Run (Checked γ) → Prop
  | done (value : Definition) (rest : List Token) :
    AfterDefinition finish value rest ⟨needs, fun vs => finish (.ok value, vs)⟩
  | begun {value : Node} {rest : List Token} (hnext : check .keyword (some "representation") rest)
    (hbegins : ¬ BeginsAdvanced rest) :
    AfterDefinition finish (.node value false) rest ⟨.rule .representation :: needs,
      fun vs => finish (nodeDefinition (.ok value) vs.1, vs.2)⟩

theorem simulates_annotated {needs : List Symbol}
    {finish : Checked Definition × Values needs → Checked γ} {r : Run (Checked γ)}
    {ts : List Token} {o : Outcome Node}
    (ho : Simulates r ts (fun value _ r' => r' = ⟨.rule .representation :: needs,
      fun vs => finish (nodeDefinition (.ok value) vs.1, vs.2)⟩) o) :
    Simulates r ts (AfterDefinition finish) (annotated o) := by
  rw [annotated_eq]
  refine ho.bind fun value r₁ _ _ hrun => ?_
  subst hrun
  have h := advancedMark_step r₁
  generalize advancedMark r₁ = o at h
  cases h with
  | present hr ha hm =>
    refine ⟨_, ?_, .done _ _⟩
    exact ((passes_one (T := .representation) hr rfl _).trans
      (passes_one (T := .advanced) ha rfl _)).trans (passes_one (T := .rmt) hm rfl _)
  | absent h =>
    cases hnext : check .keyword (some "representation") r₁ with
    | true => exact ⟨_, .refl _ _, .begun hnext h⟩
    | false =>
      exact ⟨_, passes_skip (T := .representation) rfl rfl hnext, .done _ _⟩

/-- Whether a token begins a definition is read off its terminal. -/
theorem beginsDefinition_of_mem {t : Token} {T : Terminal} (ht : T ∈ t.terminal?)
    (hT : T ∈ Rule.leads .definition) : BeginsDefinition t := by
  have his : t.is T.kind T.word? = true := Token.terminal?_eq_some_iff.1 ht
  have hcases : ∀ U ∈ Rule.leads .definition, U ∈ Rule.leads .node ∨ U = .struct ∨ U = .enum ∨
      U = .map ∨ U = .list ∨ U = .link := by decide
  rcases hcases T hT with hT | rfl | rfl | rfl | rfl | rfl
  · exact .inl (beginsNode_of_mem ht hT)
  · exact .inr (.inl (.inl his))
  · exact .inr (.inl (.inr his))
  · exact .inr (.inr (.inl his))
  · exact .inr (.inr (.inr (.inl his)))
  · exact .inr (.inr (.inr (.inr his)))

theorem simulates_definition {needs : List Symbol}
    {finish : Values (.rule .definition :: needs) → Checked γ} (hstrict : Strict finish)
    (ts : List Token) :
    Simulates ⟨.rule .definition :: needs, finish⟩ ts (AfterDefinition finish)
      (definition ts) := by
  have hannotated : Strict fun vs : Checked Node × Values (.rule .representation :: needs) =>
      finish (nodeDefinition vs.1 vs.2.1, vs.2.2) := fun e vs => hstrict e _
  cases ts with
  | nil =>
    rw [definition_nil]
    exact .fail (.ended rfl rfl)
  | cons t rest =>
    have h := definition_step t rest
    generalize hout : definition (t :: rest) = o at h
    cases h with
    | @scalar kind h =>
      refine ⟨_, passes_one (is_scalarTerminal h) ?_ rest, .done _ _⟩
      cases kind <;> rfl
    | struct h =>
      refine .of_passes (passes_one (T := .struct) h rfl rest) (.map ?_)
      refine (simulates_inBraces (R := .fields)
        (fun vs => finish (do return .struct (.ofList (← vs.1)), vs.2))
        (fun all vs => finish (.ok (.struct all), vs)) (fun us => ?_) rest).mono ?_
      · exact simulates_fields_of_le us.length .empty us (Nat.le_refl _)
          (fun e vs => hstrict e _) fun entries vs => rfl
      · rintro all _ _ - rfl
        exact .done _ _
    | enum h =>
      refine .of_passes (passes_one (T := .enum) h rfl rest) (.map ?_)
      refine (simulates_inBraces (R := .members)
        (fun vs => finish (.ok (.enum vs.1), vs.2))
        (fun all vs => finish (.ok (.enum all), vs)) (fun us => ?_) rest).mono ?_
      · exact simulates_members_of_le us.length [] us (Nat.le_refl _) fun names vs => rfl
      · rintro all _ _ - rfl
        exact .done _ _
    | map h =>
      exact simulates_annotated (.of_passes (passes_one (T := .map) h rfl rest)
        (simulates_braced hannotated rest))
    | braced h =>
      rw [braced_eq, consume_cons h, Outcome.bind_ok]
      exact simulates_annotated (.of_passes (passes_one (T := .lbrace) h rfl rest)
        (simulates_bracedRest hannotated rest))
    | list h =>
      exact simulates_annotated (.of_passes (passes_one (T := .list) h rfl rest)
        (simulates_listBody hannotated rest))
    | bracketed h =>
      rw [bracketed_eq, consume_cons h, Outcome.bind_ok]
      exact simulates_annotated (.of_passes (passes_one (T := .lsqb) h rfl rest)
        (simulates_bracketedRest hannotated rest))
    | link h =>
      have hpass : Run.Passes ⟨.rule .definition :: needs, finish⟩ (t :: rest) rest
          ⟨.terminal .ident :: needs,
            fun vs => finish (.ok (.node (.link vs.1.text) false), vs.2)⟩ := by
        rcases h with h | h
        · exact passes_one (T := .link) h rfl rest
        · exact passes_one (T := .ampersand) h rfl rest
      refine .map (.of_passes hpass ((simulates_link rest).mono ?_))
      rintro _ _ _ - ⟨name, rfl, rfl⟩
      exact .done _ _
    | ref h => exact ⟨_, passes_one (T := .ident) h rfl rest, .done _ _⟩
    | other h =>
      refine .fail (.unexpected (fun T hT hmem => ?_) rfl (fun hmem => hmem.2 ?_)
        (fun hbody => absurd (.inr (.inl hbody)) h) fun _ => rfl)
      · rcases List.mem_append.1 hmem with hmem | hmem
        · exact h (beginsDefinition_of_mem hT hmem)
        · cases hmem
      · exact List.mem_append_left _ (by decide)

theorem simulates_declaration {finish : Values [.rule .declarations] → Checked γ}
    (hstrict : Strict finish) (hfinish : ∀ ds, ∃ v, finish (.ok ds, ()) = .ok v)
    {ts : List Token} (hnext : check .keyword (some "representation") ts = false)
    (hne : ts ≠ []) :
    Simulates ⟨[.rule .declarations], finish⟩ ts
      (fun d rest r' => check .keyword (some "representation") rest = false ∧
        r' = ⟨[.rule .declarations], fun vs => finish (do return d :: (← vs.1), vs.2)⟩)
      (declaration ts) := by
  rw [declaration_eq]
  have htype : Simulates ⟨[.rule .declarations], finish⟩ ts
      (fun _ _ r' => r' = ⟨[.terminal .ident, .rule .definition, .rule .declarations],
        fun vs => finish (do
          let first ← vs.2.1
          return (vs.1.text, first) :: (← vs.2.2.1), ())⟩)
      (consume .keyword (some "type") ts) := by
    have h := consume_step .keyword (some "type") ts
    generalize consume .keyword (some "type") ts = o at h
    cases h with
    | taken h => exact ⟨_, passes_one (T := .type) h rfl _, rfl⟩
    | ended => exact absurd rfl hne
    | other h =>
      refine .fail (.unexpected (fun T hT hmem => ?_) rfl ?_ (fun _ => ?_) fun hrep => ?_)
      · obtain rfl : T = .type := List.mem_singleton.1 hmem
        exact not_mem_terminal? h hT
      · exact fun hmem => absurd (List.mem_singleton.1 hmem.1) (by decide)
      · exact fun hmem => absurd (List.mem_singleton.1 hmem) (by decide)
      · cases hnext.symm.trans hrep
  refine htype.bind fun _ r₁ _ _ hrun => ?_
  subst hrun
  refine (simulates_terminal .ident (by decide) r₁).bind fun name r₂ _ _ hrun => ?_
  subst hrun
  refine (simulates_definition ?_ r₂).bind fun value r₃ r _ hafter => ?_
  · exact fun e vs => hstrict e _
  have h := afterDefinition_step name.value value r₃
  generalize afterDefinition name.value value r₃ = o at h
  cases h with
  | annotated ht =>
    cases hafter with
    | done => exact .fail (.extra (fun ds => hfinish (_ :: ds)) ht)
    | begun _ hbegins => exact .fail (.broken (fun b ds => hfinish (_ :: ds)) ht hbegins)
  | plain hplain =>
    cases hafter with
    | done => exact ⟨_, .refl _ _, hplain, rfl⟩
    | begun hbegun => cases hplain.symm.trans hbegun

/-- The declarations are added to a schema one by one, while the run keeps them in a list. -/
theorem simulates_declarations_of_le (n : Nat) : ∀ (found : List (String × Definition))
    (ts : List Token), ts.length ≤ n → check .keyword (some "representation") ts = false →
    ∀ finish : Values [.rule .declarations] → Checked (List (String × Definition)), Strict finish →
    (∀ ds vs, finish (.ok ds, vs) = .ok (found ++ ds)) →
    Simulates ⟨[.rule .declarations], finish⟩ ts
      (fun s rest r' => rest = [] ∧ ∃ ds, s = .ofDeclarations ds ∧ r' = ⟨[], fun _ => .ok ds⟩)
      (declarations (.ofDeclarations found) ts) := by
  induction n with
  | zero =>
    intro found ts hlen hnext finish hstrict hfinish
    rw [List.length_eq_zero_iff.1 (Nat.le_zero.1 hlen), declarations_nil]
    refine ⟨_, passes_skip (T := .type) rfl rfl rfl, rfl, found, rfl, ?_⟩
    rw [funext (hfinish []), List.append_nil]
  | succ n ih =>
    intro found ts hlen hnext finish hstrict hfinish
    cases ts with
    | nil =>
      rw [declarations_nil]
      refine ⟨_, passes_skip (T := .type) rfl rfl rfl, rfl, found, rfl, ?_⟩
      rw [funext (hfinish []), List.append_nil]
    | cons t rest =>
      rw [declarations_cons]
      refine (simulates_declaration hstrict (fun ds => ⟨_, hfinish ds ()⟩) hnext
        (List.cons_ne_nil t rest)).bind_lt (shrinks_declaration _) hlen
        fun d left r' hleft hafter => ?_
      obtain ⟨hnext', rfl⟩ := hafter
      have hfound : Schema.add (.ofDeclarations found) d.1 d.2 =
          .ofDeclarations (found ++ [d]) := by
        rw [Schema.ofDeclarations, Schema.ofDeclarations, List.foldl_append]
        rfl
      rw [hfound]
      refine ih (found ++ [d]) left hleft hnext' _ (fun e vs => hstrict e _) fun ds vs => ?_
      rw [List.append_assoc]
      exact hfinish (d :: ds) vs

/-- **The run keeps up with the parser**, unless the very first token is an annotation's. -/
theorem simulates_schema {ts : List Token}
    (hnext : check .keyword (some "representation") ts = false) :
    Simulates start ts
      (fun s rest r' => rest = [] ∧ ∃ ds, s = .ofDeclarations ds ∧ r' = ⟨[], fun _ => .ok ds⟩)
      (schema ts) :=
  simulates_declarations_of_le ts.length [] ts (Nat.le_refl _) hnext _ (fun _ _ => rfl)
    fun _ _ => rfl

end Ipld.Parser
