import Ipld.Proofs.Agreement.Lexing

/-!
# The same schemas are read

The two parsers read the same sources, and the same schema from each.  A source that is not read is
refused by both with an error of the source, of a kind that says what is wrong.
-/

namespace Ipld

open Grammar Ipld.Parser

namespace Grammar

variable {α : Type}

/-! ## Runs over lexemes -/

theorem lexeme_eq_of_lexes {t : Token} {l : Lexeme} (h : t.Lexes l) : t.lexeme l.terminal = l := by
  obtain ⟨terminal, text, line⟩ := l
  rw [Token.lexeme, h.text, h.line, Int.toNat_natCast]

theorem read_eq_of_lexes {r : Run α} {t : Token} {l : Lexeme} (h : t.Lexes l) :
    r.read t = step l r.needs r.finish := by
  rw [Run.read_eq h.terminal, lexeme_eq_of_lexes h]

/-- A run that gets over the first tokens goes on from there. -/
theorem over_of_reads {r r' : Run α} {ts rest : List Token} {ls : List Lexeme}
    (hls : List.Forall₂ Token.Lexes (ts ++ rest) ls) (h : r.reads ts = some r') :
    ∃ left, List.Forall₂ Token.Lexes rest left ∧ r.over ls = r'.over left := by
  induction ts generalizing r ls with
  | nil =>
    cases h
    exact ⟨ls, hls, rfl⟩
  | cons t ts ih =>
    obtain ⟨mid, hmid, h⟩ := Option.bind_eq_some_iff.1 h
    cases hls with
    | cons hl hls =>
      obtain ⟨left, hleft, hover⟩ := ih hls h
      rw [read_eq_of_lexes hl] at hmid
      refine ⟨left, hleft, ?_⟩
      rw [Run.over, hmid]
      exact hover

theorem over_eq_complete_iff {r : Run α} {ts : List Token} {ls : List Lexeme} {value : α}
    (hls : List.Forall₂ Token.Lexes ts ls) :
    r.over ls = .complete value ↔ r.Completes ts value := by
  induction hls generalizing r with
  | nil =>
    rw [Run.over]
    cases hclose : close r.needs r.finish with
    | none => simp [Run.Completes, Run.reads, hclose]
    | some v => simp [Run.Completes, Run.reads, hclose]
  | @cons t l ts ls ht _ ih =>
    have hread := read_eq_of_lexes (r := r) ht
    rw [Run.over, ← hread]
    cases hnext : r.read t with
    | none => simp [Run.Completes, Run.reads, hnext]
    | some next =>
      simp only [Run.Completes, Run.reads, hnext, Option.bind_some]
      exact ih

/-! ## Sources as lexemes -/

/-- Without tokens, what is reported is the refused lexeme or the stray character. -/
theorem parse_of_stray {source : String} {ls : List Lexeme} {stray : Stray}
    (h : lexemes 1 source.toList = (ls, some stray)) :
    parse source = match start.over ls with
      | .rejected l wanted => .error (.schema (refuse l.terminal l.text l.line wanted))
      | _ => .error (.schema (.unexpectedCharacter stray.char stray.line)) := by
  unfold parse
  simp only [h]
  cases start.over ls with
  | rejected l wanted => rfl
  | exhausted wanted => rfl
  | complete value => rfl

theorem parse_of_lexemes {source : String} {ls : List Lexeme}
    (h : lexemes 1 source.toList = (ls, none)) :
    parse source = match start.over ls with
      | .rejected l wanted => .error (.schema (refuse l.terminal l.text l.line wanted))
      | .exhausted wanted => .error (.schema (refuseEnd wanted))
      | .complete (.ok declarations) => .ok (.ofDeclarations declarations)
      | .complete (.error e) => .error (.schema e) := by
  unfold parse
  simp only [h]
  cases start.over ls with
  | rejected l wanted => rfl
  | exhausted wanted => rfl
  | complete value =>
    cases value with
    | ok declarations => rfl
    | error e => rfl

theorem parse_eq_ok_iff_completes {source : String} {ts : List Token} {ls : List Lexeme}
    {s : Schema} (h : lexemes 1 source.toList = (ls, none))
    (hls : List.Forall₂ Token.Lexes ts ls) :
    parse source = .ok s ↔ ∃ ds, start.Completes ts (.ok ds) ∧ s = .ofDeclarations ds := by
  simp only [← over_eq_complete_iff hls]
  rw [parse_of_lexemes h]
  cases start.over ls with
  | rejected l wanted => simp
  | exhausted wanted => simp
  | complete value =>
    cases value with
    | ok declarations => simp [eq_comm]
    | error e => simp

/-! ## Kinds of errors -/

theorem kind_refuse_ne (terminal : Terminal) (text : String) (line : Int)
    (wanted : List Terminal) : (refuse terminal text line wanted).kind ≠ .general := by
  unfold refuse
  split
  · exact nofun
  split
  · exact nofun
  split
  · exact nofun
  · exact nofun

theorem kind_refuseEnd_ne (wanted : List Terminal) : (refuseEnd wanted).kind ≠ .general := by
  unfold refuseEnd
  split
  · exact nofun
  · exact nofun

end Grammar

namespace Parser

/-- Every failure of a whole list is a fault of the source. -/
theorem exists_report_of_schema {ts rest : List Token} {why : Failure}
    (h : schema ts = .fail why rest) (last : Option Int) :
    ∃ a, why.report last = .schema a ∧ a.kind ≠ .general := by
  rcases blames_of_schema h with ⟨t, left, -, -, -, rfl⟩ | ⟨-, r, -, hblames⟩
  · exact ⟨_, rfl, nofun⟩
  · cases hblames with
    | ended => exact ⟨_, rfl, nofun⟩
    | unexpected => exact ⟨_, rfl, nofun⟩
    | key => exact ⟨_, rfl, nofun⟩
    | body => exact ⟨_, rfl, nofun⟩
    | extra => exact ⟨_, rfl, nofun⟩
    | broken => exact ⟨_, rfl, nofun⟩

end Parser

theorem parseTokens_eq_error_iff {ts : List Token} {e : Fault} :
    parseTokens ts = .error e ↔
      ∃ why rest, schema ts = .fail why rest ∧ e = why.report (ts.getLast?.map Token.line) := by
  rw [parseTokens_eq]
  cases schema ts with
  | ok s rest => simp
  | fail why rest => simp [eq_comm]

/-- The parser fails with errors of the source only. -/
theorem exists_of_parse_eq_error {source : String} {e : Fault} (h : parse source = .error e) :
    ∃ a, e = .schema a ∧ a.kind ≠ .general := by
  unfold parse at h
  split at h
  · obtain ⟨why, rest, hschema, rfl⟩ := parseTokens_eq_error_iff.1 h
    exact exists_report_of_schema hschema _
  · next heq =>
    cases h
    obtain ⟨a, -, -, rfl, hkind, -⟩ := lexemes_of_tokenize_eq_error heq
    exact ⟨a, rfl, by rw [hkind]; exact nofun⟩

/-- A run can only be spoiled by a map key. -/
theorem eq_keyType_of_completes {ts : List Token} {e : SchemaError}
    (h : start.Completes ts (.error e)) : ∃ t : Token, e = .keyType t.value t.line.toNat := by
  cases hout : schema ts with
  | ok s rest =>
    obtain ⟨ds, hds, -⟩ := completes_of_schema hout
    cases h.unique hds
  | fail why rest =>
    obtain ⟨t, -, heq⟩ := eq_of_completes_of_schema hout h
    cases heq
    exact ⟨t, rfl⟩

namespace Grammar

/-- So does the grammar's parser. -/
theorem exists_of_parse_eq_error {source : String} {e : Fault} (h : parse source = .error e) :
    ∃ b, e = .schema b ∧ b.kind ≠ .general := by
  cases htokens : tokenize source with
  | error e' =>
    obtain ⟨-, ls, s, -, -, -, hlexemes⟩ := lexemes_of_tokenize_eq_error htokens
    rw [parse_of_stray hlexemes] at h
    split at h
    · cases h
      exact ⟨_, rfl, kind_refuse_ne _ _ _ _⟩
    · cases h
      exact ⟨_, rfl, nofun⟩
  | ok ts =>
    obtain ⟨ls, hlexemes, hls⟩ := lexemes_of_tokenize_eq_ok htokens
    rw [parse_of_lexemes hlexemes] at h
    split at h
    · cases h
      exact ⟨_, rfl, kind_refuse_ne _ _ _ _⟩
    · cases h
      exact ⟨_, rfl, kind_refuseEnd_ne _⟩
    · cases h
    · next heq =>
      cases h
      obtain ⟨t, rfl⟩ := eq_keyType_of_completes ((over_eq_complete_iff hls).1 heq)
      exact ⟨_, rfl, nofun⟩

end Grammar

/-- **Both parsers read the same sources and get the same schema**, and they refuse all others with
an error of the source. -/
theorem parse_agree (source : String) :
    (∀ s, parse source = .ok s ↔ Grammar.parse source = .ok s) ∧
      (∀ e, parse source = .error e → ∃ a, e = .schema a ∧ a.kind ≠ .general) ∧
      ∀ e, Grammar.parse source = .error e → ∃ b, e = .schema b ∧ b.kind ≠ .general := by
  refine ⟨fun s => ?_, fun e => exists_of_parse_eq_error, fun e => Grammar.exists_of_parse_eq_error⟩
  unfold parse
  cases htokens : tokenize source with
  | ok ts =>
    obtain ⟨ls, hlexemes, hls⟩ := lexemes_of_tokenize_eq_ok htokens
    exact parseTokens_eq_ok_iff_completes.trans (parse_eq_ok_iff_completes hlexemes hls).symm
  | error e =>
    obtain ⟨-, ls, stray, -, -, -, hlexemes⟩ := lexemes_of_tokenize_eq_error htokens
    have hstray : Grammar.parse source ≠ .ok s := by
      rw [parse_of_stray hlexemes]
      split
      · exact nofun
      · exact nofun
    exact ⟨nofun, fun h => absurd h hstray⟩

end Ipld
