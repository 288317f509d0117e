import Ipld.Proofs.Grammar.Expected
import Ipld.Proofs.Grammar.Positions
import Ipld.Proofs.Token.Refusal

/-!
# Sources that the lexer refuses

The lexer goes over the whole source before anything is parsed, so where it stops is all that is
reported.  The grammar's parser takes lexemes as it needs them: it gets as far as the same place
only when the tokens before it begin a sentence, and otherwise stops at the first of them with which
they no longer do.  It does not tell an open comment from its first character.
-/

namespace Ipld

open Grammar

/-! ## The lexemes before the place -/

/-- The lexemes before the place are the tokens of the layout, and what follows is a stray
character. -/
theorem exists_lexemes_of_stops (l : Layout) {rest : List Char} {a : SchemaError}
    (hlast : Gap rest l.last) (h : Stops (1 + l.text.count '\n') rest a) :
    ∃ ls c, rest.head? = some c ∧
      lexemes 1 (l.text ++ rest) = (ls, some ⟨c, 1 + l.text.count '\n'⟩) ∧
      List.Forall₂ Token.Lexes l.tokens ls := by
  have hstart : (Lexer.ofChars (l.text ++ rest)).line = 1 + ([] : List Char).count '\n' := rfl
  obtain ⟨m, hreaches, hrest, hfound, hline⟩ :=
    exists_reaches_of_laid l.laid hlast (fun c => h.isWordChar_head) rfl hstart
  obtain ⟨ts, ls, hfound', hlexemes, hall⟩ := Lexer.lexemes_of_reaches hreaches
  have htokens : l.tokens = ts :=
    List.reverse_inj.1 (List.append_cancel_right (hfound.symm.trans hfound'))
  have hne : m.rest ≠ [] := hrest ▸ h.ne_nil
  have hline : m.line = 1 + l.text.count '\n' := by rw [hline, List.nil_append, Layout.text]
  obtain ⟨m', hscan⟩ := Lexer.scan_of_stops (l := m) (by rw [hline, hrest]; exact h)
  have hstep := Lexer.scan_step hne
  rw [hscan] at hstep
  cases hstep with
  | stray c hhead _ _ hstray =>
    rw [hstray, List.append_nil] at hlexemes
    refine ⟨ls, c, hrest ▸ hhead, ?_, htokens ▸ hall⟩
    rw [← hline]
    exact hlexemes

theorem standFor_of_lexes {ts : List Token} {ls : List Lexeme}
    (h : List.Forall₂ Token.Lexes ts ls) : StandFor ts (ls.map Lexeme.terminal) := by
  induction h with
  | nil => rfl
  | cons hl _ ih => rw [StandFor, List.map_cons, hl.terminal, ih, List.map_cons, List.map_cons]

/-! ## The run over the lexemes -/

namespace Grammar

theorem Begins.of_append {ts us : List Terminal} (h : Begins (ts ++ us)) : Begins ts := by
  obtain ⟨more, h⟩ := h
  exact ⟨us ++ more, by rwa [← List.append_assoc]⟩

/-- A run that is not rejected gets over all the lexemes. -/
theorem exists_advances_of_over {α : Type} {r : Run α} {ls : List Lexeme}
    (h : ∀ l wanted, r.over ls ≠ .rejected l wanted) :
    ∃ needs, advances (ls.map Lexeme.terminal) r.needs = some needs := by
  induction ls generalizing r with
  | nil => exact ⟨r.needs, rfl⟩
  | cons l ls ih =>
    have hneeds := map_needs_step l r.needs r.finish
    cases hstep : step l r.needs r.finish with
    | none =>
      refine absurd ?_ (h l (expected r.needs))
      rw [Run.over, hstep]
    | some next =>
      obtain ⟨needs, hadvances⟩ := ih (r := next) fun l' wanted hover => by
        refine h l' wanted ?_
        rwa [Run.over, hstep]
      rw [hstep, Option.map_some] at hneeds
      exact ⟨needs, by rw [List.map_cons, advances, ← hneeds, Option.bind_some, hadvances]⟩

/-- A rejected run names all that could have come instead. -/
theorem begins_of_over_eq_rejected {ls : List Lexeme} {l : Lexeme} {wanted : List Terminal}
    (h : start.over ls = .rejected l wanted) :
    ∃ before after, ls = before ++ l :: after ∧ Begins (before.map Lexeme.terminal) ∧
      ¬ Begins (before.map Lexeme.terminal ++ [l.terminal]) ∧
      ∀ T, T ∈ wanted ↔ Begins (before.map Lexeme.terminal ++ [T]) := by
  obtain ⟨before, after, needs, rfl, hadvances, rfl, hnot⟩ := exists_of_over_eq_rejected h
  have hnext : ∀ T, Begins (before.map Lexeme.terminal ++ [T]) ↔ T ∈ expected needs :=
    fun T => begins_iff_viable.trans (viable_concat_iff hadvances T)
  refine ⟨before, after, rfl, ?_, ?_, fun T => (hnext T).symm⟩
  · exact begins_iff_viable.2 (viable_iff.2 ⟨needs, hadvances⟩)
  · rw [hnext]
    exact hnot

end Grammar

/-! ## Both parsers -/

/-- The tokens begin a sentence of the grammar as it is written. -/
def BeginsSentence (ts : List Token) : Prop :=
  ∃ Ts, StandFor ts Ts ∧ Begins Ts

/-- The error is what the grammar's parser says of the first of the tokens with which they no longer
begin a sentence. -/
inductive FirstRefused : List Token → SchemaError → Prop
  | intro {before after : List Token} {t : Token} {Ts wanted : List Terminal} {T : Terminal}
    (hbefore : StandFor before Ts) (ht : t.terminal? = some T) (hbegins : Begins Ts)
    (hnot : ¬ Begins (Ts ++ [T])) (hwanted : ∀ U, U ∈ wanted ↔ Begins (Ts ++ [U])) :
    FirstRefused (before ++ t :: after) (refuse T t.value t.line wanted)

theorem beginsSentence_iff {ts : List Token} {ls : List Lexeme}
    (hls : List.Forall₂ Token.Lexes ts ls) :
    BeginsSentence ts ↔ Begins (ls.map Lexeme.terminal) := by
  have hstand := standFor_of_lexes hls
  constructor
  · rintro ⟨Ts, hTs, hbegins⟩
    rwa [← hTs.unique hstand]
  · exact fun hbegins => ⟨_, hstand, hbegins⟩

theorem firstRefused_of_rejected {ts : List Token} {ls : List Lexeme} {l : Lexeme}
    {wanted : List Terminal} (hls : List.Forall₂ Token.Lexes ts ls)
    (h : start.over ls = .rejected l wanted) :
    ¬ BeginsSentence ts ∧ FirstRefused ts (refuse l.terminal l.text l.line wanted) := by
  obtain ⟨before, after, rfl, hbegins, hnot, hwanted⟩ := begins_of_over_eq_rejected h
  constructor
  · rw [beginsSentence_iff hls, List.map_append, List.map_cons, List.append_cons]
    exact fun hall => hnot hall.of_append
  · have hbefore := List.forall₂_take_append ts before (l :: after) hls
    have hrest := List.forall₂_drop_append ts before (l :: after) hls
    obtain ⟨t, left, ht, -, heq⟩ := List.forall₂_cons_right_iff.1 hrest
    rw [← List.take_append_drop before.length ts, heq, ← ht.text, ← ht.line]
    exact .intro (standFor_of_lexes hbefore) ht.terminal hbegins hnot hwanted

/-- What the grammar's parser reports when the lexer stops at a stray character. -/
theorem parse_of_lexes {source : String} {ts : List Token} {ls : List Lexeme} {stray : Stray}
    (hlexemes : lexemes 1 source.toList = (ls, some stray))
    (hls : List.Forall₂ Token.Lexes ts ls) :
    (BeginsSentence ts → Grammar.parse source =
        .error (.schema (.unexpectedCharacter stray.char stray.line))) ∧
      (¬ BeginsSentence ts →
        ∃ b, FirstRefused ts b ∧ Grammar.parse source = .error (.schema b)) := by
  rw [parse_of_stray hlexemes]
  cases hover : start.over ls with
  | rejected l wanted =>
    obtain ⟨hnot, hfirst⟩ := firstRefused_of_rejected hls hover
    exact ⟨fun hbegins => absurd hbegins hnot, fun _ => ⟨_, hfirst, rfl⟩⟩
  | _ =>
    refine ⟨fun _ => rfl, fun hnot => absurd ?_ hnot⟩
    obtain ⟨needs, hadvances⟩ := exists_advances_of_over (r := start) fun l wanted heq => by
      cases hover.symm.trans heq
    exact (beginsSentence_iff hls).2 (begins_iff_viable.2 (viable_iff.2 ⟨needs, hadvances⟩))

/-- **Where a source is refused before it is parsed**: it has a beginning with tokens, outside of
any comment, and the lexer stops behind that.  The grammar's parser stops at the same character if
the tokens before begin a sentence, and else at the first token with which they do not. -/
theorem exists_stop_of_tokenize_eq_error {source : String} {e : Fault}
    (h : tokenize source = .error e) :
    ∃ (p r : String) (ts : List Token) (a : SchemaError), source = p ++ r ∧ tokenize p = .ok ts ∧
      ¬ EndsInLineComment p.toList ∧ Stops (1 + p.toList.count '\n') r.toList a ∧
      e = .schema a ∧
      (BeginsSentence ts → ∃ c, r.toList.head? = some c ∧ Grammar.parse source =
        .error (.schema (.unexpectedCharacter c (1 + p.toList.count '\n' : Nat)))) ∧
      (¬ BeginsSentence ts →
        ∃ b, FirstRefused ts b ∧ Grammar.parse source = .error (.schema b)) := by
  obtain ⟨l, rest, a, hsource, hlast, hstops, rfl⟩ := tokenize_eq_error_iff.1 h
  obtain ⟨ls, c, hhead, hlexemes, hls⟩ := exists_lexemes_of_stops l hlast hstops
  rw [← hsource] at hlexemes
  obtain ⟨hbegins, hnot⟩ := parse_of_lexes hlexemes hls
  refine ⟨String.ofList l.text, String.ofList rest, l.tokens, a, ?_, tokenize_layout l, ?_, ?_, rfl,
    fun h => ⟨c, ?_, ?_⟩, hnot⟩
  · rw [← String.ofList_append, ← hsource, String.ofList_toList]
  · rw [String.toList_ofList]
    exact not_endsInLineComment l hlast hstops
  · rw [String.toList_ofList, String.toList_ofList]
    exact hstops
  · rw [String.toList_ofList, hhead]
  · rw [String.toList_ofList]
    exact hbegins h

/-- A comment that has no end, behind the name of a type on the line before. -/
theorem exists_stop_openComment :
    tokenize "type A\n/* no end" = .error (.schema (.unterminatedComment 2)) ∧
      ∃ (p r : String) (ts : List Token) (a : SchemaError), "type A\n/* no end" = p ++ r ∧
        tokenize p = .ok ts ∧ ¬ EndsInLineComment p.toList ∧
        Stops (1 + p.toList.count '\n') r.toList a ∧
        Fault.schema (.unterminatedComment 2) = .schema a ∧
        (BeginsSentence ts → ∃ c, r.toList.head? = some c ∧ Grammar.parse "type A\n/* no end" =
          .error (.schema (.unexpectedCharacter c (1 + p.toList.count '\n' : Nat)))) ∧
        (¬ BeginsSentence ts → ∃ b, FirstRefused ts b ∧
          Grammar.parse "type A\n/* no end" = .error (.schema b)) := by
  have h : tokenize "type A\n/* no end" = .error (.schema (.unterminatedComment 2)) := by
    cbv
  exact ⟨h, exists_stop_of_tokenize_eq_error h⟩

end Ipld
