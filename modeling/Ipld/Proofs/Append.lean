import Ipld.Proofs.Agreement.Blame
import Ipld.Proofs.Parser.Renaming
import Ipld.Proofs.Schema.Append
import Ipld.Proofs.Token.Refusal

/-!
# Sources one after the other

A source that is read may be put in front of any other, with a line feed between them: the line feed
ends what the first may have left open, a line comment or a word, and nothing that the parser does
behind the first depends on it, but for the annotation that it might take from the second.  So the
second is read, or refused, as it is by itself, only further down.
-/

namespace Ipld

open Ipld.Parser Text

/-! ## Further down -/

/-- The token that stands `n` lines further down. -/
def Token.moved (n : Nat) (t : Token) : Token :=
  { t with line := t.line + n }

/-- The error `n` lines further down. -/
def SchemaError.moved (n : Nat) (a : SchemaError) : SchemaError :=
  { a with line := a.line.map (· + (n : Int)) }

theorem Token.renames_moved (n : Nat) (t : Token) : t.Renames id (t.moved n) :=
  ⟨rfl, fun _ => rfl, fun _ => rfl⟩

theorem Stops.moved {line : Nat} {rest : List Char} {a : SchemaError} (h : Stops line rest a)
    (n : Nat) : Stops (line + n) rest (a.moved n) := by
  cases h with
  | character h => exact .character h
  | comment h => exact .comment h

/-- The text before a layout moves its tokens down. -/
theorem tokens_append (before text : List Char) (ps : List Piece) :
    Piece.tokens (before ++ text) ps =
      (Piece.tokens text ps).map (Token.moved (before.count '\n')) := by
  induction ps generalizing text with
  | nil => rfl
  | cons p ps ih =>
    have hline : ((1 + (before ++ text ++ p.gap).count '\n' : Nat) : Int) =
        ((1 + (text ++ p.gap).count '\n' : Nat) : Int) + (before.count '\n' : Nat) := by
      simp only [List.count_append]
      omega
    rw [Piece.tokens, Piece.tokens, List.map_cons, Token.moved, hline, List.append_assoc,
      List.append_assoc, ih]
    simp only [List.append_assoc]

/-! ## The lexer -/

theorem Filler.before_feed {more rest text : List Char} (h : Filler (more ++ []) text) :
    Filler (more ++ '\n' :: rest) text := by
  cases h with
  | blank hc => exact .blank hc
  | lineComment htext hmore =>
    refine .lineComment htext fun c hc => ?_
    cases more with
    | nil =>
      cases hc
      rfl
    | cons d more => exact hmore c hc
  | blockComment htext => exact .blockComment htext

/-- What may end a source may stand before a line feed. -/
theorem Gap.before_feed {rest gap : List Char} (h : Gap [] gap) : Gap ('\n' :: rest) gap := by
  induction h with
  | nil => exact .nil
  | cons htext _ ih => exact .cons htext.before_feed ih

/-- Where the lexer is behind a source that it accepts and a line feed. -/
theorem exists_reaches_of_append {a : String} {ts : List Token} (h : tokenize a = .ok ts)
    (b : String) :
    ∃ l, (Lexer.ofSource (a ++ "\n" ++ b)).Reaches l ∧ l.rest = b.toList ∧ l.found = ts.reverse ∧
      l.line = 1 + (a.toList ++ ['\n']).count '\n' := by
  obtain ⟨layout, htext, rfl⟩ := exists_layout_of_tokenize h
  have hstart : (Lexer.ofSource (a ++ "\n" ++ b)).rest =
      Piece.text layout.last layout.pieces ++ '\n' :: b.toList := by
    change (a ++ "\n" ++ b).toList = _
    rw [String.toList_append, String.toList_append, htext, List.append_assoc]
    rfl
  have hline : (Lexer.ofSource (a ++ "\n" ++ b)).line = 1 + ([] : List Char).count '\n' := rfl
  have hfeed : ∀ c ∈ ('\n' :: b.toList).head?, isWordChar c = false := by
    rintro c hc
    cases hc
    decide
  obtain ⟨l, hreaches, hrest, hfound, hline'⟩ :=
    exists_reaches_of_laid layout.laid layout.laid.gap_last.before_feed hfeed hstart hline
  have hsplit : l.rest = ['\n'] ++ b.toList := hrest
  refine ⟨l.pass 1, hreaches.tail (Lexer.scan_of_filler hsplit (.blank rfl)),
    Lexer.rest_pass_length hsplit, ?_, ?_⟩
  · rw [show (l.pass 1).found = l.found from rfl, hfound]
    exact List.append_nil _
  · rw [htext]
    exact Lexer.line_pass_of_split hsplit hline'

/-- The tokens of the second source stand behind those of the first, further down. -/
theorem tokenize_append {a b : String} {ts us : List Token} (ha : tokenize a = .ok ts)
    (hb : tokenize b = .ok us) :
    tokenize (a ++ "\n" ++ b) = .ok (ts ++ us.map (Token.moved (a.toList.count '\n' + 1))) := by
  obtain ⟨l, hreaches, hrest, hfound, hline⟩ := exists_reaches_of_append ha b
  obtain ⟨layout, htext, rfl⟩ := exists_layout_of_tokenize hb
  have hsplit : l.rest = Piece.text layout.last layout.pieces ++ [] := by
    rw [hrest, htext, List.append_nil]
    rfl
  obtain ⟨l', hreaches', hend, hfound', -⟩ :=
    exists_reaches_of_laid layout.laid layout.laid.gap_last nofun hsplit hline
  have hmoved := tokens_append (a.toList ++ ['\n']) [] layout.pieces
  rw [List.append_nil, List.count_append, List.count_singleton_self] at hmoved
  rw [tokenize, Lexer.tokenize_of_reaches hreaches, Lexer.tokenize_of_reaches hreaches',
    Lexer.tokenize_nil hend]
  simp only
  rw [Lexer.tokens, hfound', hfound, hmoved, ← List.reverse_append, List.reverse_reverse]
  rfl

theorem Stops.line_eq {line : Nat} {rest : List Char} {a : SchemaError} (h : Stops line rest a) :
    a.line = some (line : Int) := by
  cases h with
  | character => rfl
  | comment => rfl

/-- The lexer stops in the second source where it stops in it by itself, further down. -/
theorem tokenize_append_eq_error {a b : String} {ts : List Token} {e : Fault}
    (ha : tokenize a = .ok ts) (hb : tokenize b = .error e) :
    ∃ x m, e = .schema x ∧ x.line = some m ∧
      tokenize (a ++ "\n" ++ b) = .error (.schema (x.moved (a.toList.count '\n' + 1))) := by
  obtain ⟨l, hreaches, hrest, -, hline⟩ := exists_reaches_of_append ha b
  obtain ⟨layout, rest, x, htext, hlast, hstops, rfl⟩ := tokenize_eq_error_iff.1 hb
  have hsplit : l.rest = Piece.text layout.last layout.pieces ++ rest := by
    rw [hrest, htext]
    rfl
  obtain ⟨l', hreaches', hrest', -, hline'⟩ :=
    exists_reaches_of_laid layout.laid hlast (fun c => hstops.isWordChar_head) hsplit hline
  have hmoved : l'.line = 1 + layout.text.count '\n' + (a.toList.count '\n' + 1) := by
    rw [hline', List.count_append, List.count_append, List.count_singleton_self, Layout.text]
    omega
  have hstops' := hstops.moved (a.toList.count '\n' + 1)
  rw [← hmoved, ← hrest'] at hstops'
  obtain ⟨l'', hscan⟩ := Lexer.scan_of_stops hstops'
  refine ⟨x, _, rfl, hstops.line_eq, ?_⟩
  rw [tokenize, Lexer.tokenize_of_reaches hreaches, Lexer.tokenize_of_reaches hreaches',
    Lexer.tokenize_of_scan_error hstops'.ne_nil hscan]

/-! ## The parser -/

/-- What is reported further down is the same report, further down. -/
theorem report_moved {n : Nat} {why why' : Failure} {last : Option Int} {x : SchemaError}
    (h : why.Alike id (fun t u => u = t.moved n) why') (hx : why.report last = .schema x) :
    why'.report (last.map (· + (n : Int))) = .schema (x.moved n) := by
  cases h with
  | ended =>
    cases hx
    rfl
  | unexpected ht =>
    cases ht
    cases hx
    rfl
  | annotated ht =>
    cases ht
    cases hx
    rfl
  | key ht =>
    cases ht
    cases hx
    rfl
  | body ht =>
    cases ht
    cases hx
    rfl
  | overrun => cases hx
  | unknownScalar => cases hx

theorem exists_line_of_report {why : Failure} {line : Int} {x : SchemaError}
    (hx : why.report (some line) = .schema x) : ∃ m, x.line = some m := by
  cases why with
  | overrun => cases hx
  | unknownScalar => cases hx
  | _ =>
    cases hx
    exact ⟨_, rfl⟩

/-- Behind declarations the parser goes on as it would without them. -/
theorem alike_append {ts us : List Token} {s : Schema} (hts : parseTokens ts = .ok s)
    (hus : Unannotated us) (n : Nat) :
    Outcome.Alike id (fun t u => u = t.moved n) (fun x y => y = s.append x) (schema us)
      (schema (ts ++ us.map (Token.moved n))) := by
  have hR : ∀ t u : Token, u = t.moved n → t.Renames id u := by
    rintro t u rfl
    exact t.renames_moved n
  have hmoved : List.Forall₂ (fun t u => u = Token.moved n t) us (us.map (Token.moved n)) :=
    List.forall₂_map_right_iff.2 (List.forall₂_same.2 fun _ _ => rfl)
  have hus' : Unannotated (us.map (Token.moved n)) :=
    (check_keyword hR hmoved "representation").trans hus
  obtain ⟨ds, hds, rfl⟩ := exists_spells_of_schema (parseTokens_eq_ok_iff_schema.1 hts)
  rw [schema, schema, declarations_append_of_spells hds hus']
  refine alike_declarations hR Function.injective_id ?_ (Schema.append_empty _).symm hmoved
  rintro x y name d rfl
  rw [Definition.rename_id, id_def, ← Schema.append_add]

theorem getLast?_append_moved (ts : List Token) {us : List Token} (hus : us ≠ []) (n : Nat) :
    (ts ++ us.map (Token.moved n)).getLast?.map Token.line =
      (us.getLast?.map Token.line).map (· + (n : Int)) := by
  rw [List.getLast?_append_of_ne_nil _ (by simpa using hus), List.getLast?_map, Option.map_map,
    Option.map_map]
  rfl

theorem parseTokens_append {ts us : List Token} {s s' : Schema} (hts : parseTokens ts = .ok s)
    (hus : Unannotated us) (h : parseTokens us = .ok s') (n : Nat) :
    parseTokens (ts ++ us.map (Token.moved n)) = .ok (s.append s') := by
  have halike := alike_append hts hus n
  rw [parseTokens_eq_ok_iff_schema.1 h] at halike
  rw [parseTokens_eq]
  generalize schema (ts ++ us.map (Token.moved n)) = o at halike
  cases halike with
  | ok hvalue => rw [hvalue]

theorem parseTokens_append_eq_error {ts us : List Token} {s : Schema} {e : Fault}
    (hts : parseTokens ts = .ok s) (hus : Unannotated us) (h : parseTokens us = .error e)
    (n : Nat) :
    ∃ x m, e = .schema x ∧ x.line = some m ∧
      parseTokens (ts ++ us.map (Token.moved n)) = .error (.schema (x.moved n)) := by
  obtain ⟨why, rest, hschema, rfl⟩ := parseTokens_eq_error_iff.1 h
  obtain ⟨x, hreport, -⟩ := explains_of_schema hschema
  have hne : us ≠ [] := by
    rintro rfl
    rw [schema, declarations_nil] at hschema
    cases hschema
  have halike := alike_append hts hus n
  rw [hschema] at halike
  rw [parseTokens_eq, getLast?_append_moved ts hne]
  obtain ⟨last, hlast⟩ := Option.isSome_iff_exists.1 (List.getLast?_isSome.2 hne)
  rw [hlast] at hreport ⊢
  obtain ⟨m, hm⟩ := exists_line_of_report hreport
  refine ⟨x, m, hreport, hm, ?_⟩
  generalize schema (ts ++ us.map (Token.moved n)) = o at halike
  cases halike with
  | fail hwhy => exact congrArg Except.error (report_moved hwhy hreport)

/-! ## Whole sources -/

/-- **A source that is read may be put in front of another**, unless that one goes on with an
annotation.  The second source is then read into the schema of the first: its names follow, and its
definitions count.  And it is refused for what it is refused for by itself, further down by the
lines of the first. -/
theorem parse_append {a b : String} {s : Schema} (ha : parse a = .ok s)
    (hb : ∀ us, tokenize b = .ok us → ∀ t ∈ us.head?, ¬ t.IsKeyword "representation") :
    (∀ s', parse b = .ok s' → ∃ s'', parse (a ++ "\n" ++ b) = .ok s'' ∧
        s''.declared = s.declared ++ s'.declared ∧
        s''.types.keys = s.types.keys ++ s'.types.keys.filter (· ∉ s.types.keys) ∧
        ∀ name, s''.types.get? name = (s'.types.get? name).or (s.types.get? name)) ∧
      ∀ e, parse b = .error e → ∃ x m, e = .schema x ∧ x.line = some m ∧
        parse (a ++ "\n" ++ b) =
          .error (.schema { x with line := some (m + (1 + a.toList.count '\n')) }) := by
  unfold parse at ha ⊢
  cases hts : tokenize a with
  | error e =>
    rw [hts] at ha
    cases ha
  | ok ts =>
  rw [hts] at ha
  cases hus : tokenize b with
  | error e =>
    obtain ⟨x, m, rfl, hm, herror⟩ := tokenize_append_eq_error hts hus
    refine ⟨nofun, ?_⟩
    rintro e ⟨⟩
    refine ⟨x, m, rfl, hm, ?_⟩
    rw [herror, SchemaError.moved, hm, Nat.add_comm]
    rfl
  | ok us =>
    have hunannotated : Unannotated us := by
      cases us with
      | nil => rfl
      | cons t us => exact Bool.eq_false_iff.2 (hb _ hus t rfl)
    rw [tokenize_append hts hus]
    refine ⟨fun s' hs' => ?_, fun e he => ?_⟩
    · refine ⟨_, parseTokens_append ha hunannotated hs' _, rfl, ?_, ?_⟩
      · exact Table.keys_update _ _
      · exact Table.get?_update _ _
    · obtain ⟨x, m, rfl, hm, herror⟩ := parseTokens_append_eq_error ha hunannotated he
        (a.toList.count '\n' + 1)
      refine ⟨x, m, rfl, hm, herror.trans ?_⟩
      rw [SchemaError.moved, hm, Nat.add_comm]
      rfl

/-- A link under a name, and a line comment that nothing ends. -/
def openLink : String :=
  "type A &B // open"

theorem parse_openLink :
    parse openLink = .ok (.ofDeclarations [("A", .node (.link "B") false)]) := by
  have htokens : tokenize openLink = .ok [⟨.keyword, "type", 1⟩, ⟨.identifier, "A", 1⟩,
      ⟨.symbol, "&", 1⟩, ⟨.identifier, "B", 1⟩] := by
    cbv
  rw [parse, htokens]
  refine parseTokens_eq_ok_iff_schema.2 (schema_of_spells ?_)
  exact .cons (.intro rfl rfl (.link (.inr rfl) rfl)) .nil

/-- The second source declares the name again. -/
theorem parse_append_openLink :
    (∀ s', parse "type B Int type A B" = .ok s' → ∃ s'',
        parse (openLink ++ "\n" ++ "type B Int type A B") = .ok s'' ∧
          s''.declared = ["A"] ++ s'.declared ∧
          s''.types.keys = ["A"] ++ s'.types.keys.filter (· ∉ ["A"]) ∧
          ∀ name, s''.types.get? name = (s'.types.get? name).or
            ((Schema.ofDeclarations [("A", .node (.link "B") false)]).types.get? name)) ∧
      ∀ e, parse "type B Int type A B" = .error e → ∃ x m, e = .schema x ∧ x.line = some m ∧
        parse (openLink ++ "\n" ++ "type B Int type A B") =
          .error (.schema { x with line := some (m + (1 + openLink.toList.count '\n')) }) := by
  have hb : tokenize "type B Int type A B" =
      .ok [⟨.keyword, "type", 1⟩, ⟨.identifier, "B", 1⟩, ⟨.keyword, "Int", 1⟩,
        ⟨.keyword, "type", 1⟩, ⟨.identifier, "A", 1⟩, ⟨.identifier, "B", 1⟩] := by
    cbv
  refine parse_append parse_openLink fun us hus t ht => ?_
  cases hb.symm.trans hus
  cases ht
  decide

end Ipld
