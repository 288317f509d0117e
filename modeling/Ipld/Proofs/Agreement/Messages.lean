import Ipld.File
import Ipld.Proofs.Agreement.Refusals
import Ipld.Proofs.Text.OneLine

/-!
# Error messages stay on one line

Whatever a source is refused for, by either parser, there is no line feed in the message.  What a
message quotes from the source is escaped; the only word that stands in it as it is in the source is
the keyword of a struct or an enum.
-/

namespace Ipld

open Grammar Ipld.Parser Text

/-! ## The parser of tokens -/

theorem oneLine_describe (kind : TokenKind) (value : Option String) :
    OneLine (describe kind value) := by
  have hkind : OneLine kind.describe := by cases kind <;> decide
  cases value with
  | none => exact hkind
  | some value =>
    simp only [describe, oneLine_append]
    exact ⟨⟨hkind, by decide⟩, oneLine_quote value⟩

theorem oneLine_unexpectedCharacter (c : Char) (line : Int) :
    OneLine (SchemaError.unexpectedCharacter c line).message :=
  oneLine_append.2 ⟨by decide, oneLine_quote _⟩

theorem oneLine_keyType (found : String) (line : Int) :
    OneLine (SchemaError.keyType found line).message :=
  oneLine_append.2 ⟨by decide, oneLine_quote _⟩

theorem oneLine_inlineDefinition {keyword : String} (h : OneLine keyword) (line : Int) :
    OneLine (SchemaError.inlineDefinition keyword line).message :=
  oneLine_append.2 ⟨oneLine_append.2 ⟨by decide, h⟩, by decide⟩

theorem oneLine_unsupportedRepresentation (name : String) (line : Int) :
    OneLine (SchemaError.unsupportedRepresentation name line).message :=
  oneLine_append.2 ⟨oneLine_append.2 ⟨by decide, oneLine_quote _⟩, by decide⟩

theorem oneLine_of_stops {line : Nat} {rest : List Char} {e : SchemaError}
    (h : Stops line rest e) : OneLine e.message := by
  cases h with
  | character => exact oneLine_unexpectedCharacter _ _
  | comment => exact (by decide : OneLine "Unterminated block comment")

theorem oneLine_unexpectedToken (kind : TokenKind) (value : Option String) (found : Token) :
    OneLine (SchemaError.unexpectedToken (describe kind value)
      (describe found.kind (some found.value)) found.line).message := by
  simp only [SchemaError.unexpectedToken, oneLine_append]
  exact ⟨⟨⟨by decide, oneLine_describe _ _⟩, by decide⟩, oneLine_describe _ _⟩

theorem oneLine_of_schema {ts rest : List Token} {why : Failure} (h : schema ts = .fail why rest)
    {last : Option Int} {e : SchemaError} (hreport : why.report last = .schema e) :
    OneLine e.message := by
  rcases blames_of_schema h with ⟨t, left, -, -, -, rfl⟩ | ⟨-, r, -, hblames⟩
  · cases hreport
    exact oneLine_unexpectedToken _ _ _
  · cases hblames with
    | ended =>
      cases hreport
      exact (by decide : OneLine "Unexpected end of input")
    | unexpected =>
      cases hreport
      exact oneLine_unexpectedToken _ _ _
    | key =>
      cases hreport
      exact oneLine_keyType _ _
    | body ht =>
      cases hreport
      refine oneLine_inlineDefinition ?_ _
      rcases ht with ht | ht
      · rw [(Token.is_some_iff.1 ht).2]
        decide
      · rw [(Token.is_some_iff.1 ht).2]
        decide
    | extra =>
      cases hreport
      exact oneLine_unsupportedRepresentation _ _
    | broken =>
      cases hreport
      exact oneLine_unsupportedRepresentation _ _

theorem oneLine_of_parse {source : String} {e : SchemaError}
    (h : parse source = .error (.schema e)) : OneLine e.message := by
  unfold parse at h
  split at h
  · obtain ⟨why, rest, hschema, hreport⟩ := parseTokens_eq_error_iff.1 h
    exact oneLine_of_schema hschema hreport.symm
  · next heq =>
    cases h
    obtain ⟨l, rest, a, -, -, hstops, ha⟩ := tokenize_eq_error_iff.1 heq
    cases ha
    exact oneLine_of_stops hstops

/-! ## The grammar's parser -/

namespace Grammar

/-- A line feed is a gap, and no name goes over it. -/
theorem oneLine_of_front {cs text rest : List Char} {T : Terminal}
    (h : front cs = .lexeme T text rest) : OneLine (String.ofList text) := by
  rw [oneLine_ofList]
  unfold front at h
  split at h
  · cases h
  next c left =>
  split at h
  · cases h
  next hgap =>
  have hc : c ≠ '\n' := by
    rintro rfl
    exact hgap rfl
  split at h
  · cases h
    refine List.forall_mem_cons.2 ⟨hc, fun d hd => ?_⟩
    rintro rfl
    exact absurd (List.mem_takeWhile_imp hd) (by decide)
  split at h
  · cases h
    exact List.forall_mem_singleton.2 hc
  split at h
  · cases h
  · cases h

theorem oneLine_of_mem_lexemes (line : Nat) (cs : List Char) :
    ∀ l ∈ (lexemes line cs).1, OneLine l.text := by
  fun_induction lexemes line cs with
  | case1 => exact List.forall_mem_nil _
  | case2 => exact List.forall_mem_nil _
  | case3 line cs text rest hfront _ ih => exact ih
  | case4 line cs T text rest hfront _ after ih =>
    exact List.forall_mem_cons.2 ⟨oneLine_of_front hfront, ih⟩

theorem oneLine_describeTerminals (wanted : List Terminal) :
    OneLine (describeTerminals wanted) := by
  obtain ⟨names, heq, -, hnames⟩ := describeTerminals_eq wanted
  have hcomma : OneLine ", " := by decide
  rw [heq]
  refine forall_mem_intercalate hcomma fun name hname => ?_
  obtain ⟨T, -, rfl⟩ := (hnames name).1 hname
  have hall : ∀ T ∈ Terminal.all, OneLine T.name := by decide
  exact hall T T.mem_all

theorem oneLine_refuse {text : String} (h : OneLine text) (T : Terminal) (line : Int)
    (wanted : List Terminal) : OneLine (refuse T text line wanted).message := by
  unfold refuse
  split
  · exact (by decide : OneLine
      "Only 'representation advanced RMT' on a list or map is allowed")
  split
  · exact oneLine_inlineDefinition h _
  split
  · exact oneLine_keyType _ _
  · have hlower : ∀ T ∈ Terminal.all, OneLine T.lower := by decide
    simp only [SchemaError.unexpectedTerminal, oneLine_append]
    exact ⟨⟨⟨by decide, oneLine_describeTerminals _⟩, by decide⟩,
      ⟨hlower T T.mem_all, by decide⟩, oneLine_quote _⟩

theorem oneLine_refuseEnd (wanted : List Terminal) : OneLine (refuseEnd wanted).message := by
  unfold refuseEnd
  split
  · exact (by decide : OneLine "Incomplete 'representation advanced RMT' annotation")
  · exact (by decide : OneLine "Unexpected end of input")

theorem oneLine_of_rejected {source : String} {stray : Option Stray} {ls : List Lexeme} {l : Lexeme}
    {wanted : List Terminal} (hlexemes : lexemes 1 source.toList = (ls, stray))
    (h : start.over ls = .rejected l wanted) :
    OneLine (refuse l.terminal l.text l.line wanted).message := by
  obtain ⟨before, after, -, rfl, -⟩ := exists_of_over_eq_rejected h
  have htexts := oneLine_of_mem_lexemes 1 source.toList
  rw [hlexemes] at htexts
  exact oneLine_refuse (htexts l (by simp)) _ _ _

theorem oneLine_of_parse {source : String} {e : SchemaError}
    (h : parse source = .error (.schema e)) : OneLine e.message := by
  cases htokens : tokenize source with
  | error e' =>
    obtain ⟨-, ls, s, -, -, -, hlexemes⟩ := lexemes_of_tokenize_eq_error htokens
    rw [parse_of_stray hlexemes] at h
    split at h
    · next hover =>
      cases h
      exact oneLine_of_rejected hlexemes hover
    · cases h
      exact oneLine_unexpectedCharacter _ _
  | ok ts =>
    obtain ⟨ls, hlexemes, hls⟩ := lexemes_of_tokenize_eq_ok htokens
    rw [parse_of_lexemes hlexemes] at h
    split at h
    · next hover =>
      cases h
      exact oneLine_of_rejected hlexemes hover
    · cases h
      exact oneLine_refuseEnd _
    · cases h
    · next heq =>
      cases h
      obtain ⟨t, rfl⟩ := eq_keyType_of_completes ((over_eq_complete_iff hls).1 heq)
      exact oneLine_keyType _ _

end Grammar

/-- Whatever a source is refused for, the message is one line. -/
theorem Frontend.oneLine_of_parse {f : Frontend} {source : String} {e : SchemaError}
    (h : f.parse source = .error (.schema e)) : OneLine e.message := by
  cases f with
  | handwritten => exact Ipld.oneLine_of_parse h
  | grammar => exact Grammar.oneLine_of_parse h

end Ipld
