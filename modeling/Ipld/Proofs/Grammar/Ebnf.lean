import Ipld.Proofs.Grammar.Derivation
import Mathlib.Algebra.BigOperators.Ring.List
import Mathlib.Computability.Language
import Mathlib.Tactic.Abel

/-!
# The grammar as it is written

A schema language is usually given by a dozen equations with alternatives, options and repetitions.
`Category.body` has these equations, one for each name; `Matches` is what they mean, on lists of
terminals.  The rules that the machine runs are another form of the same grammar: every repetition
and every common beginning became a rule of its own, so that the next terminal decides.

Each rule of the machine stands for an expression (`Rule.ebnf`).  The languages of these expressions
satisfy the machine's productions as equations (`lang_rule`), and this is all that is needed for the
two forms to derive the same sentences (`sentence_iff_matches`).
-/

namespace Ipld.Grammar

/-- What the grammar has a name for. -/
inductive Category where
  | start | typeDecl | typeDef | advanced | field | enumMembers | nodeValue | listBody | inlineList
  | mapBody | mapKey | scalar
  deriving DecidableEq

/-- The right side of an equation. -/
inductive Ebnf where
  | empty
  | never
  | terminal (t : Terminal)
  | category (c : Category)
  | seq (a b : Ebnf)
  | alt (a b : Ebnf)
  | option (a : Ebnf)
  | many (a : Ebnf)

/-- One expression after the other. -/
def Ebnf.row (es : List Ebnf) : Ebnf :=
  es.foldr .seq .empty

/-- One of several expressions. -/
def Ebnf.oneOf (es : List Ebnf) : Ebnf :=
  es.foldr .alt .never

open Ebnf in
def Category.body : Category → Ebnf
  | .start => .many (.category .typeDecl)
  | .typeDecl => row [.terminal .type, .terminal .ident, .category .typeDef]
  | .typeDef => oneOf [
    .category .scalar,
    row [.terminal .struct, .terminal .lbrace, .many (.category .field), .terminal .rbrace],
    row [.terminal .enum, .terminal .lbrace, .option (.category .enumMembers), .terminal .rbrace],
    row [.terminal .map, .category .mapBody, .option (.category .advanced)],
    row [.category .mapBody, .option (.category .advanced)],
    row [.terminal .list, .category .listBody, .option (.category .advanced)],
    row [.category .inlineList, .option (.category .advanced)],
    row [.terminal .link, .terminal .ident],
    row [.terminal .ampersand, .terminal .ident],
    .terminal .ident]
  | .advanced => row [.terminal .representation, .terminal .advanced, .terminal .rmt]
  | .field => row [
    .terminal .ident, .option (.terminal .optional), .option (.terminal .nullable),
    .category .nodeValue]
  | .enumMembers => row [
    .terminal .ident, .many (row [.terminal .comma, .terminal .ident]), .option (.terminal .comma)]
  | .nodeValue => oneOf [
    .category .scalar,
    .category .inlineList,
    .category .mapBody,
    row [.terminal .ampersand, .terminal .ident],
    .terminal .ident]
  | .listBody => row [.option (.terminal .nullable), .category .nodeValue]
  | .inlineList => row [
    .terminal .lsqb, .option (.terminal .nullable), .category .nodeValue, .terminal .rsqb]
  | .mapBody => row [
    .terminal .lbrace, .category .mapKey, .terminal .colon, .option (.terminal .nullable),
    .category .nodeValue, .terminal .rbrace]
  | .mapKey => oneOf [
    .terminal .bool, .terminal .string, .terminal .bytes, .terminal .int, .terminal .float,
    .terminal .ident]
  | .scalar => oneOf [
    .terminal .bool, .terminal .string, .terminal .bytes, .terminal .int, .terminal .float]

/-- The terminals are of the form that the expression describes. -/
inductive Matches : Ebnf → List Terminal → Prop
  | empty : Matches .empty []
  | terminal (t : Terminal) : Matches (.terminal t) [t]
  | category {c : Category} {ts : List Terminal} (h : Matches c.body ts) : Matches (.category c) ts
  | seq {a b : Ebnf} {ts us : List Terminal} (ha : Matches a ts) (hb : Matches b us) :
    Matches (.seq a b) (ts ++ us)
  | left {a b : Ebnf} {ts : List Terminal} (h : Matches a ts) : Matches (.alt a b) ts
  | right {a b : Ebnf} {ts : List Terminal} (h : Matches b ts) : Matches (.alt a b) ts
  | absent {a : Ebnf} : Matches (.option a) []
  | present {a : Ebnf} {ts : List Terminal} (h : Matches a ts) : Matches (.option a) ts
  | done {a : Ebnf} : Matches (.many a) []
  | more {a : Ebnf} {ts us : List Terminal} (ha : Matches a ts) (hrest : Matches (.many a) us) :
    Matches (.many a) (ts ++ us)

/-! ## Languages of expressions -/

namespace Ebnf

def lang (e : Ebnf) : Language Terminal :=
  { ts | Matches e ts }

theorem mem_lang {e : Ebnf} {ts : List Terminal} : ts ∈ e.lang ↔ Matches e ts := Iff.rfl

theorem lang_empty : lang .empty = 1 := by
  ext ts
  rw [mem_lang, Language.mem_one]
  constructor
  · intro h
    cases h
    rfl
  · rintro rfl
    exact .empty

theorem lang_never : lang .never = 0 := by
  ext ts
  rw [mem_lang]
  constructor
  · intro h
    cases h
  · intro h
    exact absurd h (Language.notMem_zero ts)

theorem mem_lang_terminal {t : Terminal} {ts : List Terminal} :
    ts ∈ lang (.terminal t) ↔ ts = [t] := by
  rw [mem_lang]
  constructor
  · intro h
    cases h
    rfl
  · rintro rfl
    exact .terminal t

theorem lang_category (c : Category) : lang (.category c) = lang c.body := by
  ext ts
  rw [mem_lang, mem_lang]
  constructor
  · intro h
    cases h with
    | category h => exact h
  · exact .category

theorem lang_seq (a b : Ebnf) : lang (.seq a b) = lang a * lang b := by
  ext ts
  rw [mem_lang, Language.mem_mul]
  constructor
  · intro h
    cases h with
    | seq ha hb => exact ⟨_, ha, _, hb, rfl⟩
  · rintro ⟨us, ha, vs, hb, rfl⟩
    exact .seq ha hb

theorem lang_alt (a b : Ebnf) : lang (.alt a b) = lang a + lang b := by
  ext ts
  rw [mem_lang, Language.mem_add]
  constructor
  · intro h
    cases h with
    | left h => exact .inl h
    | right h => exact .inr h
  · rintro (h | h)
    · exact .left h
    · exact .right h

theorem lang_option (a : Ebnf) : lang (.option a) = 1 + lang a := by
  ext ts
  rw [mem_lang, Language.mem_add, Language.mem_one]
  constructor
  · intro h
    cases h with
    | absent => exact .inl rfl
    | present h => exact .inr h
  · rintro (rfl | h)
    · exact .absent
    · exact .present h

/-- A repetition is nothing, or one and then a repetition. -/
theorem lang_many (a : Ebnf) : lang (.many a) = 1 + lang a * lang (.many a) := by
  ext ts
  rw [mem_lang, Language.mem_add, Language.mem_one, Language.mem_mul]
  constructor
  · intro h
    cases h with
    | done => exact .inl rfl
    | more ha hrest => exact .inr ⟨_, ha, _, hrest, rfl⟩
  · rintro (rfl | ⟨us, ha, vs, hrest, rfl⟩)
    · exact .done
    · exact .more ha hrest

theorem lang_row (es : List Ebnf) : lang (row es) = (es.map lang).prod := by
  induction es with
  | nil => exact lang_empty
  | cons e es ih =>
    rw [List.map_cons, List.prod_cons, ← ih]
    exact lang_seq e (row es)

theorem lang_oneOf (es : List Ebnf) : lang (oneOf es) = (es.map lang).sum := by
  induction es with
  | nil => exact lang_never
  | cons e es ih =>
    rw [List.map_cons, List.sum_cons, ← ih]
    exact lang_alt e (oneOf es)

end Ebnf

/-! ## The machine's rules as expressions -/

/-- The expression that a rule of the machine stands for. -/
def Rule.ebnf : Rule → Ebnf
  | .declarations => .category .start
  | .definition => .category .typeDef
  | .representation => .option (.category .advanced)
  | .fields => .many (.category .field)
  | .optional => .option (.terminal .optional)
  | .nullable => .option (.terminal .nullable)
  | .members => .option (.category .enumMembers)
  | .moreMembers =>
    .row [.many (.row [.terminal .comma, .terminal .ident]), .option (.terminal .comma)]
  | .node => .category .nodeValue
  | .mapKey => .category .mapKey

def Symbol.ebnf : Symbol → Ebnf
  | .terminal t => .terminal t
  | .rule r => r.ebnf

/-- What the symbols derive, as the expressions have it. -/
def langOf (needs : List Symbol) : Language Terminal :=
  (needs.map fun s => s.ebnf.lang).prod

@[simp]
theorem langOf_nil : langOf [] = 1 := rfl

@[simp]
theorem langOf_cons (s : Symbol) (needs : List Symbol) :
    langOf (s :: needs) = s.ebnf.lang * langOf needs :=
  List.prod_cons

theorem langOf_append (xs ys : List Symbol) : langOf (xs ++ ys) = langOf xs * langOf ys := by
  rw [langOf, List.map_append, List.prod_append]
  rfl

section Equations

open Ebnf

theorem lang_typeDecl :
    lang (.category .typeDecl) = langOf [.terminal .type, .terminal .ident, .rule .definition] := by
  rw [lang_category, Category.body, lang_row]
  rfl

theorem lang_advanced :
    lang (.category .advanced) =
      langOf [.terminal .representation, .terminal .advanced, .terminal .rmt] := by
  rw [lang_category, Category.body, lang_row]
  rfl

theorem lang_field :
    lang (.category .field) =
      langOf [.terminal .ident, .rule .optional, .rule .nullable, .rule .node] := by
  rw [lang_category, Category.body, lang_row]
  rfl

theorem lang_enumMembers :
    lang (.category .enumMembers) = langOf [.terminal .ident, .rule .moreMembers] := by
  rw [lang_category, Category.body, lang_row]
  simp only [langOf, Symbol.ebnf, Rule.ebnf, lang_row, List.map_cons, List.map_nil, List.prod_cons,
    List.prod_nil, mul_one]

theorem lang_listBody :
    lang (.category .listBody) = langOf [.rule .nullable, .rule .node] := by
  rw [lang_category, Category.body, lang_row]
  rfl

theorem lang_inlineList :
    lang (.category .inlineList) =
      langOf [.terminal .lsqb, .rule .nullable, .rule .node, .terminal .rsqb] := by
  rw [lang_category, Category.body, lang_row]
  rfl

theorem lang_mapBody : lang (.category .mapBody) = langOf (.terminal .lbrace :: mapBody []) := by
  rw [lang_category, Category.body, lang_row]
  rfl

theorem lang_scalar :
    lang (.category .scalar) = (scalarTerminals.map fun p => lang (.terminal p.1)).sum := by
  rw [lang_category, Category.body, lang_oneOf]
  rfl

/-- What follows a member is nothing, or a comma and then members again. -/
theorem lang_moreMembers :
    lang (Rule.ebnf .moreMembers) = 1 + lang (.terminal .comma) * lang (Rule.ebnf .members) := by
  let comma := lang (.terminal .comma)
  let ident := lang (.terminal .ident)
  let more := lang (Rule.ebnf .moreMembers)
  let pairs := lang (.many (row [.terminal .comma, .terminal .ident]))
  have hmembers : lang (Rule.ebnf .members) = 1 + ident * more := by
    rw [Rule.ebnf, lang_option, lang_enumMembers, langOf_cons, langOf_cons, langOf_nil, mul_one]
    rfl
  have hmore : more = pairs * (1 + comma) := by
    simp only [more, pairs, comma, Rule.ebnf, lang_row, lang_option, List.map_cons, List.map_nil,
      List.prod_cons, List.prod_nil, mul_one]
  have hpairs : pairs = 1 + comma * ident * pairs := by
    have hrow : lang (row [.terminal .comma, .terminal .ident]) = comma * ident := by
      simp only [comma, ident, lang_row, List.map_cons, List.map_nil, List.prod_cons,
        List.prod_nil, mul_one]
    rw [← hrow]
    exact lang_many _
  calc more = pairs * (1 + comma) := hmore
    _ = (1 + comma * ident * pairs) * (1 + comma) := by rw [← hpairs]
    _ = 1 + comma + comma * (ident * (pairs * (1 + comma))) := by
      rw [add_mul, one_mul, mul_assoc, mul_assoc]
    _ = 1 + comma * (1 + ident * more) := by rw [← hmore, mul_add, mul_one, add_assoc]
    _ = 1 + comma * lang (Rule.ebnf .members) := by rw [hmembers]

/-- The productions of a rule as an equation. -/
theorem lang_rule (r : Rule) :
    r.ebnf.lang = (if r.empty?.isSome then 1 else 0) +
      (r.productions.map fun p => langOf (.terminal p.lead :: p.body)).sum := by
  cases r with
  | declarations =>
    have hstart : lang (.category .start) = lang (.many (.category .typeDecl)) :=
      lang_category .start
    rw [Rule.ebnf, hstart, lang_many, ← hstart, lang_typeDecl]
    simp [Rule.empty?, Rule.productions, Symbol.ebnf, Rule.ebnf, mul_assoc]
  | definition =>
    rw [Rule.ebnf, lang_category, Category.body, lang_oneOf]
    simp only [lang_row, lang_option, lang_scalar, lang_mapBody, lang_listBody, lang_inlineList,
      scalarTerminals, Rule.empty?, Rule.productions, Production.single, Option.isSome_none,
      Bool.false_eq_true, if_false, List.map_cons, List.map_nil, List.cons_append, List.nil_append,
      List.sum_cons, List.sum_nil, List.prod_cons, List.prod_nil, add_zero, zero_add, langOf_cons,
      langOf_nil, Symbol.ebnf, Rule.ebnf, mul_one, mul_assoc]
    abel
  | representation =>
    rw [Rule.ebnf, lang_option, lang_advanced]
    simp [Rule.empty?, Rule.productions]
  | fields =>
    rw [Rule.ebnf, lang_many, lang_field]
    simp [Rule.empty?, Rule.productions, Symbol.ebnf, Rule.ebnf, mul_assoc]
  | optional =>
    rw [Rule.ebnf, lang_option]
    simp [Rule.empty?, Rule.productions, Production.single, Symbol.ebnf]
  | nullable =>
    rw [Rule.ebnf, lang_option]
    simp [Rule.empty?, Rule.productions, Production.single, Symbol.ebnf]
  | members =>
    rw [Rule.ebnf, lang_option, lang_enumMembers]
    simp [Rule.empty?, Rule.productions]
  | moreMembers =>
    rw [lang_moreMembers]
    simp [Rule.empty?, Rule.productions, Symbol.ebnf]
  | node =>
    rw [Rule.ebnf, lang_category, Category.body, lang_oneOf]
    simp only [lang_row, lang_option, lang_scalar, lang_mapBody, lang_inlineList, scalarTerminals,
      Rule.empty?, Rule.productions, Production.single, Option.isSome_none, Bool.false_eq_true,
      if_false, List.map_cons, List.map_nil, List.cons_append, List.nil_append, List.sum_cons,
      List.sum_nil, List.prod_cons, List.prod_nil, add_zero, zero_add, langOf_cons, langOf_nil,
      Symbol.ebnf, Rule.ebnf, mul_one]
    abel
  | mapKey =>
    rw [Rule.ebnf, lang_category, Category.body, lang_oneOf]
    simp [Rule.empty?, Rule.productions, Production.single, Symbol.ebnf, add_assoc, add_comm]

end Equations

/-! ## The same sentences -/

theorem mem_sum_map {α : Type} {f : α → Language Terminal} {xs : List α} {ts : List Terminal} :
    ts ∈ (xs.map f).sum ↔ ∃ x ∈ xs, ts ∈ f x := by
  induction xs with
  | nil => simp [Language.notMem_zero]
  | cons x xs ih => simp [Language.mem_add, ih]

theorem mem_langOf_terminal {t : Terminal} {needs : List Symbol} {ts : List Terminal} :
    ts ∈ langOf (.terminal t :: needs) ↔ ∃ us ∈ langOf needs, ts = t :: us := by
  rw [langOf_cons, Language.mem_mul]
  constructor
  · rintro ⟨as, has, us, hus, rfl⟩
    rw [Ebnf.mem_lang_terminal.1 has]
    exact ⟨us, hus, rfl⟩
  · rintro ⟨us, hus, rfl⟩
    exact ⟨[t], Ebnf.mem_lang_terminal.2 rfl, us, hus, rfl⟩

/-- A rule in front is left out, or it is replaced by one of its productions. -/
theorem mem_langOf_rule {r : Rule} {needs : List Symbol} {ts : List Terminal} :
    ts ∈ langOf (.rule r :: needs) ↔ r.empty?.isSome ∧ ts ∈ langOf needs ∨
      ∃ p ∈ r.productions, ts ∈ langOf (.terminal p.lead :: (p.body ++ needs)) := by
  have hproductions : (r.productions.map fun p => langOf (.terminal p.lead :: p.body)).sum *
      langOf needs =
        (r.productions.map fun p => langOf (.terminal p.lead :: (p.body ++ needs))).sum := by
    rw [← List.sum_map_mul_right]
    simp only [← langOf_append, List.cons_append]
  rw [langOf_cons, Symbol.ebnf, lang_rule, add_mul, hproductions, Language.mem_add, mem_sum_map]
  cases r.empty?.isSome with
  | true => simp
  | false => simp [Language.notMem_zero]

theorem derives_iff_mem_langOf {needs : List Symbol} {ts : List Terminal} :
    Derives needs ts [] ↔ ts ∈ langOf needs := by
  constructor
  · intro h
    generalize hleft : ([] : List Symbol) = left at h
    induction h with
    | refl =>
      subst hleft
      exact Language.nil_mem_one
    | terminal h ih => exact mem_langOf_terminal.2 ⟨_, ih hleft, rfl⟩
    | production hp h ih => exact mem_langOf_rule.2 (.inr ⟨_, hp, ih hleft⟩)
    | empty hr h ih => exact mem_langOf_rule.2 (.inl ⟨hr, ih hleft⟩)
  · -- A production shortens the terminals, and leaving a rule out shortens the symbols.
    intro h
    induction hn : ts.length using Nat.strongRecOn generalizing ts needs with
    | _ n ih =>
      induction needs generalizing ts with
      | nil =>
        obtain rfl : ts = [] := h
        exact .refl []
      | cons s needs ihneeds =>
        cases s with
        | terminal t =>
          obtain ⟨us, hus, rfl⟩ := mem_langOf_terminal.1 h
          exact .terminal (ih us.length (by simp [← hn]) hus rfl)
        | rule r =>
          rcases mem_langOf_rule.1 h with ⟨hr, h⟩ | ⟨p, hp, h⟩
          · exact .empty hr (ihneeds h hn)
          · obtain ⟨us, hus, rfl⟩ := mem_langOf_terminal.1 h
            exact .production hp (.terminal (ih us.length (by simp [← hn]) hus rfl))

/-- **The machine's rules derive what the grammar describes as it is written.** -/
theorem sentence_iff_matches {ts : List Terminal} :
    Sentence ts ↔ Matches (.category .start) ts := by
  rw [Sentence, derives_iff_mem_langOf, langOf_cons, langOf_nil, mul_one]
  rfl

end Ipld.Grammar
