import Ipld.Grammar
import Ipld.Proofs.Grammar.Derivation
import Ipld.Proofs.Spelling
import Mathlib.Data.List.Nodup

/-!
# Runs of the grammar on tokens

The grammar tells apart what a token list keeps in kinds and values: a token stands for the terminal
of that kind with that word, and a token made by hand may stand for none.  `Run.reads` drives a run
over tokens, and `Run.Passes r ts rest r'` says that the run `r` gets over the tokens of `ts` before
`rest` and is then at `r'`, where rules that cannot begin with the next token may have been passed
over (`Run.Skips`).
-/

namespace Ipld

namespace Grammar.Terminal

/-- The kind of the tokens that stand for a terminal. -/
def kind : Terminal → TokenKind
  | .ident => .identifier
  | .lbrace | .rbrace | .lsqb | .rsqb | .colon | .comma | .ampersand => .symbol
  | _ => .keyword

/-- The value of the tokens that stand for a terminal; names may have any. -/
def word? : Terminal → Option String
  | .type => some "type"
  | .struct => some "struct"
  | .enum => some "enum"
  | .map => some "map"
  | .list => some "list"
  | .link => some "link"
  | .representation => some "representation"
  | .advanced => some "advanced"
  | .rmt => some "RMT"
  | .optional => some "optional"
  | .nullable => some "nullable"
  | .bool => some "Bool"
  | .string => some "String"
  | .bytes => some "Bytes"
  | .int => some "Int"
  | .float => some "Float"
  | .ident => none
  | .lbrace => some "\x7b"
  | .rbrace => some "\x7d"
  | .lsqb => some "["
  | .rsqb => some "]"
  | .colon => some ":"
  | .comma => some ","
  | .ampersand => some "&"

theorem word?_eq_none_iff {t : Terminal} : t.word? = none ↔ t = .ident := by
  cases t <;> simp [word?]

theorem kind_eq_identifier_iff {t : Terminal} : t.kind = .identifier ↔ t = .ident := by
  cases t <;> simp [kind]

theorem word?_injective {t u : Terminal} (h : t.word? = u.word?) : t = u :=
  List.inj_on_of_nodup_map (by decide : (all.map word?).Nodup) (mem_all t) (mem_all u) h

end Grammar.Terminal

open Grammar

/-! ## Tokens as terminals -/

namespace Token

/-- The terminal a token stands for. -/
def terminal? (t : Token) : Option Terminal :=
  Terminal.all.find? fun terminal => t.is terminal.kind terminal.word?

theorem is_iff {t : Token} {kind : TokenKind} {value : Option String} :
    t.is kind value = true ↔ t.kind = kind ∧ (value = none ∨ value = some t.value) := by
  simp only [Token.is, Bool.and_eq_true, beq_iff_eq, Bool.or_eq_true]

/-- A token stands for one terminal at most. -/
theorem terminal_unique {t : Token} {a b : Terminal} (ha : t.is a.kind a.word? = true)
    (hb : t.is b.kind b.word? = true) : a = b := by
  obtain ⟨hka, hwa⟩ := is_iff.1 ha
  obtain ⟨hkb, hwb⟩ := is_iff.1 hb
  have ident_of_none : ∀ {a b : Terminal}, a.word? = none → t.kind = a.kind → t.kind = b.kind →
      a = b := by
    intro a b h hka hkb
    obtain rfl := Terminal.word?_eq_none_iff.1 h
    exact (Terminal.kind_eq_identifier_iff.1 (hkb.symm.trans hka)).symm
  rcases hwa with hwa | hwa
  · exact ident_of_none hwa hka hkb
  · rcases hwb with hwb | hwb
    · exact (ident_of_none hwb hkb hka).symm
    · exact Terminal.word?_injective (hwa.trans hwb.symm)

theorem terminal?_eq_some_iff {t : Token} {a : Terminal} :
    t.terminal? = some a ↔ t.is a.kind a.word? = true := by
  have is_of_find : ∀ {b : Terminal}, t.terminal? = some b → t.is b.kind b.word? = true :=
    fun h => List.find?_some (p := fun b : Terminal => t.is b.kind b.word?) h
  refine ⟨is_of_find, fun h => ?_⟩
  cases hfind : t.terminal? with
  | none => exact absurd h (List.find?_eq_none.1 hfind a (Terminal.mem_all a))
  | some b => rw [terminal_unique h (is_of_find hfind)]

/-- A token as a lexeme of a terminal. -/
def lexeme (t : Token) (terminal : Terminal) : Lexeme :=
  ⟨terminal, t.value, t.line.toNat⟩

end Token

/-- The terminal the next token stands for. -/
def next? (ts : List Token) : Option Terminal :=
  ts.head?.bind Token.terminal?

namespace Grammar.Run

variable {α : Type}

/-! ## Passing over rules -/

/-- Rules in front are taken to stand for nothing, which the next terminal cannot begin. -/
inductive Skips (next : Option Terminal) : Run α → Run α → Prop
  | refl (r : Run α) : Skips next r r
  | skip {rule : Rule} {needs : List Symbol} {finish : Values (.rule rule :: needs) → α}
    {value : rule.Value} {r : Run α} (hvalue : rule.empty? = some value)
    (hnext : ∀ t ∈ next, t ∉ rule.leads) (h : Skips next ⟨needs, fun vs => finish (value, vs)⟩ r) :
    Skips next ⟨.rule rule :: needs, finish⟩ r

namespace Skips

variable {next : Option Terminal} {r r' r'' : Run α}

theorem trans (h : Skips next r r') (h' : Skips next r' r'') : Skips next r r'' := by
  induction h with
  | refl => exact h'
  | skip hvalue hnext _ ih => exact .skip hvalue hnext (ih h')

theorem step_eq {l : Lexeme} (h : Skips (some l.terminal) r r') :
    step l r.needs r.finish = step l r'.needs r'.finish := by
  induction h with
  | refl => rfl
  | @skip rule needs finish value r hvalue hnext _ ih =>
    have hfind : rule.productions.find? (fun p => p.lead = l.terminal) = none := by
      rw [List.find?_eq_none]
      intro p hp hlead
      exact hnext _ rfl (List.mem_map.2 ⟨p, hp, of_decide_eq_true hlead⟩)
    rw [← ih, step, hfind, hvalue]

theorem close_eq (h : Skips next r r') : close r.needs r.finish = close r'.needs r'.finish := by
  induction h with
  | refl => rfl
  | skip hvalue _ _ ih => rw [← ih, close, hvalue]

theorem nullable_eq (h : Skips next r r') : nullable r.needs = nullable r'.needs := by
  induction h with
  | refl => rfl
  | skip hvalue _ _ ih => rw [← ih, nullable, hvalue, Option.isSome_some, Bool.true_and]

theorem derives (h : Skips next r r') : Derives r.needs [] r'.needs := by
  induction h with
  | refl => exact .refl _
  | skip hvalue _ _ ih => exact .empty (by rw [hvalue]; rfl) ih

theorem expected_subset (h : Skips next r r') {t : Terminal} (ht : t ∈ expected r'.needs) :
    t ∈ expected r.needs := by
  induction h with
  | refl => exact ht
  | skip hvalue _ _ ih =>
    rw [expected, List.mem_append, hvalue]
    exact .inr (ih ht)

/-- Inside an annotation nothing is passed over. -/
theorem insideAnnotation_eq_false (h : Skips next r r')
    (hinside : insideAnnotation (expected r'.needs) = false) :
    insideAnnotation (expected r.needs) = false := by
  obtain ⟨t, ht, hother⟩ := List.all_eq_false.1 hinside
  exact List.all_eq_false.2 ⟨t, h.expected_subset ht, hother⟩

/-- The terminals that begin only what has to stand there. -/
theorem steady {rule : Rule} (h : rule.empty?.isSome) :
    .lsqb ∉ rule.leads ∧ .string ∉ rule.leads ∧ .bool ∉ rule.leads := by
  revert h
  cases rule <;> decide

theorem mem_expected (h : Skips next r r') {t : Terminal}
    (ht : t ∈ next ∨ t = .lsqb ∨ t = .string ∨ t = .bool) (hmem : t ∈ expected r.needs) :
    t ∈ expected r'.needs := by
  induction h with
  | refl => exact hmem
  | @skip rule _ _ _ _ hvalue hnext _ ih =>
    have hrule : rule.empty?.isSome := by
      rw [hvalue]
      rfl
    obtain ⟨hlsqb, hstring, hbool⟩ := steady hrule
    rw [expected, List.mem_append, if_pos hrule] at hmem
    rcases hmem with hmem | hmem
    · rcases ht with ht | rfl | rfl | rfl
      · exact absurd hmem (hnext t ht)
      · exact absurd hmem hlsqb
      · exact absurd hmem hstring
      · exact absurd hmem hbool
    · exact ih hmem

end Skips

/-! ## Reading tokens -/

/-- The run after one more token. -/
def read (r : Run α) (t : Token) : Option (Run α) :=
  t.terminal?.bind fun terminal => step (t.lexeme terminal) r.needs r.finish

theorem read_eq {r : Run α} {t : Token} {terminal : Terminal} (ht : t.terminal? = some terminal) :
    r.read t = step (t.lexeme terminal) r.needs r.finish := by
  rw [read, ht, Option.bind_some]

/-- Passing over rules changes nothing for the token that comes next. -/
theorem Skips.read_eq {r r' : Run α} {t : Token} (h : r.Skips t.terminal? r') :
    r.read t = r'.read t := by
  cases ht : t.terminal? with
  | none =>
    rw [read, read, ht]
    rfl
  | some terminal =>
    rw [ht] at h
    rw [Run.read_eq ht, Run.read_eq ht]
    exact h.step_eq

/-- The run after several tokens. -/
def reads (r : Run α) : List Token → Option (Run α)
  | [] => some r
  | t :: ts => (r.read t).bind fun r' => r'.reads ts

theorem reads_append (r : Run α) (ts us : List Token) :
    r.reads (ts ++ us) = (r.reads ts).bind fun r' => r'.reads us := by
  induction ts generalizing r with
  | nil => rfl
  | cons t ts ih =>
    rw [List.cons_append, reads, reads]
    cases r.read t with
    | none => rfl
    | some r' => exact ih r'

/-- The run gets over the tokens of `ts` before `rest`, and from there to `r'`. -/
def Passes (r : Run α) (ts rest : List Token) (r' : Run α) : Prop :=
  ∃ taken mid, ts = taken ++ rest ∧ r.reads taken = some mid ∧ mid.Skips (next? rest) r'

namespace Passes

variable {r r' r'' : Run α} {ts rest left : List Token}

theorem refl (r : Run α) (ts : List Token) : r.Passes ts ts r :=
  ⟨[], r, rfl, rfl, .refl r⟩

theorem skip (h : r.Skips (next? ts) r') : r.Passes ts ts r' :=
  ⟨[], r, rfl, rfl, h⟩

theorem one {t : Token} {terminal : Terminal} (ht : t.terminal? = some terminal)
    (hstep : step (t.lexeme terminal) r.needs r.finish = some r') (rest : List Token) :
    r.Passes (t :: rest) rest r' := by
  refine ⟨[t], r', rfl, ?_, .refl r'⟩
  rw [reads, read_eq ht, hstep]
  rfl

theorem trans (h : r.Passes ts rest r') (h' : r'.Passes rest left r'') :
    r.Passes ts left r'' := by
  obtain ⟨taken, mid, rfl, hreads, hskips⟩ := h
  obtain ⟨taken', mid', rfl, hreads', hskips'⟩ := h'
  cases taken' with
  | nil =>
    cases hreads'
    exact ⟨taken, mid, rfl, hreads, hskips.trans hskips'⟩
  | cons t taken' =>
    have hread : mid.read t = r'.read t := hskips.read_eq
    refine ⟨taken ++ t :: taken', mid', by rw [List.append_assoc], ?_, hskips'⟩
    rw [reads_append, hreads, Option.bind_some, reads, hread]
    exact hreads'

theorem length_le (h : r.Passes ts rest r') : rest.length ≤ ts.length := by
  obtain ⟨taken, _, rfl, -⟩ := h
  simp

end Passes

end Grammar.Run

end Ipld
