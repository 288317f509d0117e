import Ipld.Proofs.Grammar.Reading
import Ipld.Proofs.Parser.Steps

/-!
# The grammar's run beside the parser

While a production reads tokens, a run of the grammar that has the rule of this production in front
gets over the same tokens.  `Simulates` says so of an outcome: after a success the run is where the
rule is done and its value is the one that was read, and after a failure it is at the same token,
in a state that `Blames` matches with the failure.

The parser decides early where the grammar goes on: at a map key that is not `String`, which spoils
the value of the run but not the run, and at an annotation that is not whole, whose first word the
run still takes.
-/

namespace Ipld.Parser

open Grammar

variable {α β γ δ : Type}

/-- A spoiled part spoils the whole, in the same way. -/
def Strict (finish : Checked α × β → Checked γ) : Prop :=
  ∀ e rest, finish (.error e, rest) = .error e

/-- Where a run stands when a production fails. -/
inductive Blames : Run (Checked γ) → List Token → Failure → Prop
  | ended {r : Run (Checked γ)} (hnull : nullable r.needs = false)
    (hinside : insideAnnotation (expected r.needs) = false) : Blames r [] .ended
  | unexpected {r : Run (Checked γ)} {t : Token} {rest : List Token} {kind : TokenKind}
    {value : Option String} (hnext : ∀ T ∈ t.terminal?, T ∉ expected r.needs)
    (hinside : insideAnnotation (expected r.needs) = false)
    (hkey : ¬ (.string ∈ expected r.needs ∧ .lsqb ∉ expected r.needs))
    (hbody : BeginsBody t → .lsqb ∉ expected r.needs)
    (hannotated : t.IsKeyword "representation" → nullable r.needs = false) :
    Blames r (t :: rest) (.unexpected kind value t)
  | key {needs : List Symbol} {finish : Values (.rule .mapKey :: needs) → Checked γ} {t : Token}
    {rest : List Token} (hstrict : Strict finish) (ht : ¬ t.IsKeyword "String") :
    Blames ⟨.rule .mapKey :: needs, finish⟩ (t :: rest) (.key t)
  | body {needs : List Symbol} {finish : Values (.rule .node :: needs) → Checked γ} {t : Token}
    {rest : List Token} (ht : BeginsBody t) :
    Blames ⟨.rule .node :: needs, finish⟩ (t :: rest) (.body t)
  | extra {finish : Values [.rule .declarations] → Checked γ} {name : String} {t : Token}
    {rest : List Token} (hfinish : ∀ ds, ∃ v, finish (.ok ds, ()) = .ok v)
    (ht : t.IsKeyword "representation") :
    Blames ⟨[.rule .declarations], finish⟩ (t :: rest) (.annotated name t)
  | broken {finish : Values [.rule .representation, .rule .declarations] → Checked γ}
    {name : String} {t : Token} {rest : List Token}
    (hfinish : ∀ b ds, ∃ v, finish (b, .ok ds, ()) = .ok v)
    (ht : t.IsKeyword "representation") (hbegins : ¬ BeginsAdvanced (t :: rest)) :
    Blames ⟨[.rule .representation, .rule .declarations], finish⟩ (t :: rest) (.annotated name t)

/-- What the run `r` does on the tokens `ts` while a production has the given outcome; `After` says
where it is after a success. -/
def Simulates (r : Run (Checked γ)) (ts : List Token)
    (After : α → List Token → Run (Checked γ) → Prop) : Outcome α → Prop
  | .ok value rest => ∃ r', r.Passes ts rest r' ∧ After value rest r'
  | .fail why rest => ∃ r', r.Passes ts rest r' ∧ Blames r' rest why

namespace Simulates

variable {r r' : Run (Checked γ)} {ts rest : List Token} {o : Outcome α}
  {After After' : α → List Token → Run (Checked γ) → Prop}
  {AfterNext : β → List Token → Run (Checked γ) → Prop}

/-- Goes on after a success that leaves no more than it got. -/
theorem bind {f : α → List Token → Outcome β} (h : Simulates r ts After o)
    (hf : ∀ value rest r', rest.length ≤ ts.length → After value rest r' →
      Simulates r' rest AfterNext (f value rest)) : Simulates r ts AfterNext (o.bind f) := by
  cases o with
  | fail why rest => exact h
  | ok value rest =>
    obtain ⟨r', hpass, hafter⟩ := h
    have hnext := hf value rest r' hpass.length_le hafter
    rw [Outcome.bind_ok]
    cases hout : f value rest with
    | ok final left =>
      rw [hout] at hnext
      obtain ⟨r'', hpass', hafter'⟩ := hnext
      exact ⟨r'', hpass.trans hpass', hafter'⟩
    | fail why left =>
      rw [hout] at hnext
      obtain ⟨r'', hpass', hblames⟩ := hnext
      exact ⟨r'', hpass.trans hpass', hblames⟩

theorem mono (h : Simulates r ts After o)
    (himp : ∀ value rest r', o = .ok value rest → After value rest r' → After' value rest r') :
    Simulates r ts After' o := by
  cases o with
  | fail why rest => exact h
  | ok value rest =>
    obtain ⟨r', hpass, hafter⟩ := h
    exact ⟨r', hpass, himp value rest r' rfl hafter⟩

/-- Goes on after a success that took something. -/
theorem bind_lt {f : α → List Token → Outcome β} {n : Nat} (h : Simulates r ts After o)
    (hshrinks : o.Shrinks ts) (hlen : ts.length ≤ n + 1)
    (hf : ∀ value rest r', rest.length ≤ n → After value rest r' →
      Simulates r' rest AfterNext (f value rest)) : Simulates r ts AfterNext (o.bind f) := by
  have hmore : Simulates r ts (fun value rest r' => rest.length ≤ n ∧ After value rest r') o := by
    refine h.mono fun value rest r' ho hafter => ⟨?_, hafter⟩
    have := hshrinks value rest ho
    omega
  exact hmore.bind fun value rest r' _ hafter => hf value rest r' hafter.1 hafter.2

theorem map {f : α → β} (h : Simulates r ts (fun value => AfterNext (f value)) o) :
    Simulates r ts AfterNext (o.map f) := by
  cases o with
  | fail why rest => exact h
  | ok value rest => exact h

theorem of_passes (hpass : r.Passes ts rest r') (h : Simulates r' rest After o) :
    Simulates r ts After o := by
  cases o with
  | ok value left =>
    obtain ⟨r'', hpass', hafter⟩ := h
    exact ⟨r'', hpass.trans hpass', hafter⟩
  | fail why left =>
    obtain ⟨r'', hpass', hblames⟩ := h
    exact ⟨r'', hpass.trans hpass', hblames⟩

/-- A failure on the spot. -/
theorem fail {why : Failure} (h : Blames r ts why) : Simulates r ts After (.fail why ts) :=
  ⟨r, .refl r ts, h⟩

end Simulates

/-! ## Single tokens -/

theorem not_mem_terminal? {t : Token} {T : Terminal} (h : t.is T.kind T.word? = false) :
    T ∉ t.terminal? := by
  intro hT
  cases h.symm.trans (Token.terminal?_eq_some_iff.1 hT)

theorem terminal?_eq {t : Token} {T : Terminal} (h : t.is T.kind T.word? = true) :
    t.terminal? = some T :=
  Token.terminal?_eq_some_iff.2 h

theorem passes_one {r r' : Run (Checked γ)} {t : Token} {T : Terminal}
    (h : t.is T.kind T.word? = true) (hstep : step (t.lexeme T) r.needs r.finish = some r')
    (rest : List Token) : r.Passes (t :: rest) rest r' :=
  .one (terminal?_eq h) hstep rest

/-- None of the wanted terminals explains a refused token by itself. -/
def Plain (wanted : List Terminal) : Prop :=
  insideAnnotation wanted = false ∧ .string ∉ wanted ∧ .lsqb ∉ wanted

instance (wanted : List Terminal) : Decidable (Plain wanted) :=
  inferInstanceAs (Decidable (_ ∧ _ ∧ _))

/-- A token that the run also takes; `others` may stand there for the grammar, but the production
has looked for them before. -/
theorem simulates_consume (T : Terminal) (others : List Terminal) {r : Run (Checked γ)}
    {next : Token → Run (Checked γ)} {ts : List Token}
    (hwanted : expected r.needs = T :: others) (hplain : Plain (T :: others))
    (hnull : nullable r.needs = false)
    (hstep : ∀ t, step (t.lexeme T) r.needs r.finish = some (next t))
    (hothers : ∀ U ∈ others, check U.kind U.word? ts = false) :
    Simulates r ts (fun t _ r' => r' = next t) (consume T.kind T.word? ts) := by
  obtain ⟨hinside, hstring, hlsqb⟩ := hplain
  rw [← hwanted] at hinside hstring hlsqb
  have h := consume_step T.kind T.word? ts
  generalize consume T.kind T.word? ts = o at h
  cases h with
  | taken h => exact ⟨_, passes_one h (hstep _) _, rfl⟩
  | ended => exact .fail (.ended hnull hinside)
  | other h =>
    refine .fail (.unexpected ?_ hinside (fun h => hstring h.1) (fun _ => hlsqb) fun _ => hnull)
    rintro U hU hmem
    rw [hwanted] at hmem
    rcases List.mem_cons.1 hmem with rfl | hmem
    · exact not_mem_terminal? h hU
    · exact not_mem_terminal? (hothers U hmem) hU

theorem simulates_terminal (T : Terminal) {needs : List Symbol}
    {finish : Values (.terminal T :: needs) → Checked γ} (hplain : Plain [T]) (ts : List Token) :
    Simulates ⟨.terminal T :: needs, finish⟩ ts
      (fun t _ r' => r' = ⟨needs, fun vs => finish (t.lexeme T, vs)⟩)
      (consume T.kind T.word? ts) :=
  simulates_consume T [] rfl hplain rfl (fun _ => if_pos rfl) fun U hU => by cases hU

/-! ## Rules that may stand for nothing -/

theorem not_mem_next? {T : Terminal} {ts : List Token} (h : check T.kind T.word? ts = false) :
    T ∉ next? ts := by
  cases ts with
  | nil => simp [next?]
  | cons t rest => exact not_mem_terminal? h

/-- A rule is passed over when the next token does not begin it. -/
theorem passes_skip {rule : Rule} {needs : List Symbol}
    {finish : Values (.rule rule :: needs) → Checked γ} {value : rule.Value} {T : Terminal}
    {ts : List Token} (hvalue : rule.empty? = some value) (hleads : rule.leads = [T])
    (h : check T.kind T.word? ts = false) :
    Run.Passes ⟨.rule rule :: needs, finish⟩ ts ts ⟨needs, fun vs => finish (value, vs)⟩ := by
  refine .skip (.skip hvalue (fun U hU hmem => ?_) (.refl _))
  rw [hleads] at hmem
  rw [List.mem_singleton.1 hmem] at hU
  exact not_mem_next? h hU

theorem simulates_optional {needs : List Symbol}
    (finish : Values (.rule .optional :: needs) → Checked γ) (ts : List Token) :
    Simulates ⟨.rule .optional :: needs, finish⟩ ts
      (fun b _ r' => r' = ⟨needs, fun vs => finish (b, vs)⟩) (modifier "optional" ts) := by
  have h := modifier_step "optional" ts
  generalize modifier "optional" ts = o at h
  cases h with
  | present h => exact ⟨_, passes_one (T := .optional) h rfl _, rfl⟩
  | absent h => exact ⟨_, passes_skip (T := .optional) rfl rfl h, rfl⟩

theorem simulates_nullable {needs : List Symbol}
    (finish : Values (.rule .nullable :: needs) → Checked γ) (ts : List Token) :
    Simulates ⟨.rule .nullable :: needs, finish⟩ ts
      (fun b _ r' => r' = ⟨needs, fun vs => finish (b, vs)⟩) (modifier "nullable" ts) := by
  have h := modifier_step "nullable" ts
  generalize modifier "nullable" ts = o at h
  cases h with
  | present h => exact ⟨_, passes_one (T := .nullable) h rfl _, rfl⟩
  | absent h => exact ⟨_, passes_skip (T := .nullable) rfl rfl h, rfl⟩

/-! ## Nodes -/

theorem simulates_mapKey {needs : List Symbol}
    {finish : Values (.rule .mapKey :: needs) → Checked γ} (hstrict : Strict finish)
    (ts : List Token) :
    Simulates ⟨.rule .mapKey :: needs, finish⟩ ts
      (fun _ _ r' => r' = ⟨needs, fun vs => finish (.ok (), vs)⟩) (mapKey ts) := by
  have h := mapKey_step ts
  generalize mapKey ts = o at h
  cases h with
  | string h => exact ⟨_, passes_one (T := .string) h rfl _, rfl⟩
  | ended => exact .fail (.ended rfl rfl)
  | other h => exact .fail (.key hstrict h)

theorem simulates_link {needs : List Symbol}
    {finish : Values (.terminal .ident :: needs) → Checked γ} (ts : List Token) :
    Simulates ⟨.terminal .ident :: needs, finish⟩ ts
      (fun value _ r' => ∃ t : Token, value = .link t.value ∧
        r' = ⟨needs, fun vs => finish (t.lexeme .ident, vs)⟩) (link ts) :=
  .map ((simulates_terminal .ident (by decide) ts).mono fun t _ _ _ h => ⟨t, rfl, h⟩)

/-- Whether a token begins a node is read off its terminal. -/
theorem beginsNode_of_mem {t : Token} {T : Terminal} (ht : T ∈ t.terminal?)
    (hT : T ∈ Rule.leads .node) : BeginsNode t := by
  have his : t.is T.kind T.word? = true := Token.terminal?_eq_some_iff.1 ht
  have hcases : ∀ U ∈ Rule.leads .node, U = .bool ∨ U = .string ∨ U = .bytes ∨ U = .int ∨
      U = .float ∨ U = .lsqb ∨ U = .lbrace ∨ U = .ampersand ∨ U = .ident := by decide
  rcases hcases T hT with rfl | rfl | rfl | rfl | rfl | rfl | rfl | rfl | rfl
  · exact .inl ⟨.bool, his⟩
  · exact .inl ⟨.string, his⟩
  · exact .inl ⟨.bytes, his⟩
  · exact .inl ⟨.int, his⟩
  · exact .inl ⟨.float, his⟩
  · exact .inr (.inl his)
  · exact .inr (.inr (.inl his))
  · exact .inr (.inr (.inr (.inl his)))
  · exact .inr (.inr (.inr (.inr his)))

/-- The terminal of the keyword of a scalar type. -/
def scalarTerminal : Scalar → Terminal
  | .bool => .bool
  | .int => .int
  | .float => .float
  | .string => .string
  | .bytes => .bytes

theorem is_scalarTerminal {t : Token} {kind : Scalar} (h : t.IsKeyword kind.keyword) :
    t.is (scalarTerminal kind).kind (scalarTerminal kind).word? = true := by
  cases kind <;> exact h

section Node

-- A run keeps up with nodes as far as lists of `n` tokens go.
variable {n : Nat} (hnode : ∀ ts : List Token, ts.length ≤ n → ∀ (needs : List Symbol)
  (finish : Values (.rule .node :: needs) → Checked γ), Strict finish →
  Simulates ⟨.rule .node :: needs, finish⟩ ts
    (fun value _ r' => r' = ⟨needs, fun vs => finish (.ok value, vs)⟩) (node ts))

include hnode in
theorem simulates_bracketedRest_of {needs : List Symbol}
    {finish : Checked Node × Values needs → Checked γ} (hstrict : Strict finish) {ts : List Token}
    (hlen : ts.length ≤ n) :
    Simulates ⟨.rule .nullable :: .rule .node :: .terminal .rsqb :: needs,
        fun vs => finish (listNode vs.1 vs.2.1, vs.2.2.2)⟩ ts
      (fun value _ r' => r' = ⟨needs, fun vs => finish (.ok value, vs)⟩) (bracketedRest ts) := by
  refine (simulates_nullable _ ts).bind fun nullable r₁ _ h₁ hrun => ?_
  subst hrun
  refine (hnode r₁ (Nat.le_trans h₁ hlen) _ _ ?_).bind fun value r₂ _ _ hrun => ?_
  · exact fun e vs => hstrict e _
  subst hrun
  exact .map (simulates_terminal .rsqb (by decide) r₂)

include hnode in
theorem simulates_bracedRest_of {needs : List Symbol}
    {finish : Checked Node × Values needs → Checked γ} (hstrict : Strict finish) {ts : List Token}
    (hlen : ts.length ≤ n) :
    Simulates ⟨mapBody needs,
        fun vs => finish (mapNode vs.1 vs.2.2.1 vs.2.2.2.1, vs.2.2.2.2.2)⟩ ts
      (fun value _ r' => r' = ⟨needs, fun vs => finish (.ok value, vs)⟩) (bracedRest ts) := by
  refine (simulates_mapKey (fun e vs => hstrict e _) ts).bind fun _ r₁ _ h₁ hrun => ?_
  subst hrun
  refine (simulates_terminal .colon (by decide) r₁).bind fun _ r₂ _ h₂ hrun => ?_
  subst hrun
  refine (simulates_nullable _ r₂).bind fun nullable r₃ _ h₃ hrun => ?_
  subst hrun
  refine (hnode r₃ (by omega) _ _ ?_).bind fun value r₄ _ _ hrun => ?_
  · exact fun e vs => hstrict e _
  subst hrun
  exact .map (simulates_terminal .rbrace (by decide) r₄)

end Node

theorem simulates_node_of_le (n : Nat) : ∀ ts : List Token, ts.length ≤ n →
    ∀ (needs : List Symbol) (finish : Values (.rule .node :: needs) → Checked γ), Strict finish →
    Simulates ⟨.rule .node :: needs, finish⟩ ts
      (fun value _ r' => r' = ⟨needs, fun vs => finish (.ok value, vs)⟩) (node ts) := by
  induction n with
  | zero =>
    intro ts hlen needs finish _
    rw [List.length_eq_zero_iff.1 (Nat.le_zero.1 hlen), node_nil]
    exact .fail (.ended rfl rfl)
  | succ n ih =>
    intro ts hlen needs finish hstrict
    cases ts with
    | nil =>
      rw [node_nil]
      exact .fail (.ended rfl rfl)
    | cons t rest =>
      have hrest : rest.length ≤ n := Nat.le_of_succ_le_succ hlen
      have h := node_step t rest
      generalize hout : node (t :: rest) = o at h
      cases h with
      | @scalar kind h =>
        refine ⟨_, passes_one (is_scalarTerminal h) ?_ rest, rfl⟩
        cases kind <;> rfl
      | bracketed h =>
        rw [bracketed_eq, consume_cons h, Outcome.bind_ok]
        exact .of_passes (passes_one (T := .lsqb) h rfl rest)
          (simulates_bracketedRest_of ih hstrict hrest)
      | braced h =>
        rw [braced_eq, consume_cons h, Outcome.bind_ok]
        exact .of_passes (passes_one (T := .lbrace) h rfl rest)
          (simulates_bracedRest_of ih hstrict hrest)
      | link h =>
        refine .of_passes (passes_one (T := .ampersand) h rfl rest) ((simulates_link rest).mono ?_)
        rintro _ _ _ - ⟨name, rfl, rfl⟩
        rfl
      | body h => exact .fail (.body h)
      | ref h => exact ⟨_, passes_one (T := .ident) h rfl rest, rfl⟩
      | other h hbody =>
        refine .fail (.unexpected (fun T hT hmem => ?_) rfl (fun h => h.2 ?_)
          (fun hb => absurd hb hbody) fun _ => rfl)
        · rcases List.mem_append.1 hmem with hmem | hmem
          · exact h (beginsNode_of_mem hT hmem)
          · cases hmem
        · exact List.mem_append_left _ (by decide)

theorem simulates_node {needs : List Symbol} {finish : Values (.rule .node :: needs) → Checked γ}
    (hstrict : Strict finish) (ts : List Token) :
    Simulates ⟨.rule .node :: needs, finish⟩ ts
      (fun value _ r' => r' = ⟨needs, fun vs => finish (.ok value, vs)⟩) (node ts) :=
  simulates_node_of_le ts.length ts (Nat.le_refl _) needs finish hstrict

theorem simulates_bracketedRest {needs : List Symbol}
    {finish : Checked Node × Values needs → Checked γ} (hstrict : Strict finish)
    (ts : List Token) :
    Simulates ⟨.rule .nullable :: .rule .node :: .terminal .rsqb :: needs,
        fun vs => finish (listNode vs.1 vs.2.1, vs.2.2.2)⟩ ts
      (fun value _ r' => r' = ⟨needs, fun vs => finish (.ok value, vs)⟩) (bracketedRest ts) :=
  simulates_bracketedRest_of (simulates_node_of_le ts.length) hstrict (Nat.le_refl _)

theorem simulates_bracedRest {needs : List Symbol}
    {finish : Checked Node × Values needs → Checked γ} (hstrict : Strict finish)
    (ts : List Token) :
    Simulates ⟨mapBody needs,
        fun vs => finish (mapNode vs.1 vs.2.2.1 vs.2.2.2.1, vs.2.2.2.2.2)⟩ ts
      (fun value _ r' => r' = ⟨needs, fun vs => finish (.ok value, vs)⟩) (bracedRest ts) :=
  simulates_bracedRest_of (simulates_node_of_le ts.length) hstrict (Nat.le_refl _)

theorem simulates_braced {needs : List Symbol}
    {finish : Checked Node × Values needs → Checked γ} (hstrict : Strict finish)
    (ts : List Token) :
    Simulates ⟨.terminal .lbrace :: mapBody needs,
        fun vs => finish (mapNode vs.2.1 vs.2.2.2.1 vs.2.2.2.2.1, vs.2.2.2.2.2.2)⟩ ts
      (fun value _ r' => r' = ⟨needs, fun vs => finish (.ok value, vs)⟩) (braced ts) := by
  rw [braced_eq]
  refine (simulates_terminal .lbrace (by decide) ts).bind fun _ r₁ _ _ hrun => ?_
  subst hrun
  exact simulates_bracedRest hstrict r₁

theorem simulates_listBody {needs : List Symbol}
    {finish : Checked Node × Values needs → Checked γ} (hstrict : Strict finish)
    (ts : List Token) :
    Simulates ⟨.rule .nullable :: .rule .node :: needs,
        fun vs => finish (listNode vs.1 vs.2.1, vs.2.2)⟩ ts
      (fun value _ r' => r' = ⟨needs, fun vs => finish (.ok value, vs)⟩) (listBody ts) := by
  rw [listBody_eq]
  refine (simulates_nullable _ ts).bind fun nullable r₁ _ _ hrun => ?_
  subst hrun
  refine .map ((simulates_node ?_ r₁).mono fun value _ _ _ h => h)
  exact fun e vs => hstrict e _

end Ipld.Parser
