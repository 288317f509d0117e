import Ipld.Parser
import Ipld.Proofs.Parser.Renaming
import Ipld.Proofs.Parser.Soundness

/-!
# What follows a node has no say in it

A node is closed by its own last token.  So the parser stops behind it whatever follows, and no node
goes on where another one ends; the same holds of a field, which ends with its node.  This is what
lets the fields of a struct stand one after the other with nothing between them: there is one way
only to take them apart.
-/

namespace Ipld

namespace Parser

open Outcome

variable {α : Type} {production : List Token → Outcome α}

/-- The production takes what it takes by the words of it alone: it would take the same words, on
whatever lines, before anything else. -/
def Delimited (production : List Token → Outcome α) : Prop :=
  ∀ {ts rest : List Token} {value : α}, production ts = .ok value rest →
    ∃ read, ts = read ++ rest ∧ ∀ us : List Token, us.map Token.spelling = read.map Token.spelling →
      ∀ left, production (us ++ left) = .ok value left

/-- The tokens are read to their end. -/
abbrev ReadsAs (production : List Token → Outcome α) (ts : List Token) (value : α) : Prop :=
  production ts = .ok value []

/-- Phrases that are read whatever follows, and alike on whatever lines, are delimited. -/
theorem delimited_of_spells {Spells : List Token → α → Prop}
    (hreads : ∀ ts, Reads Spells ts (production ts))
    (hread : ∀ {ts value}, Spells ts value → ∀ rest, production (ts ++ rest) = .ok value rest)
    (halike : ∀ {ts us}, List.Forall₂ (Token.Renames id) ts us →
      Alike id (Token.Renames id) (fun a b => b = a) (production ts) (production us)) :
    Delimited production := by
  intro ts rest value h
  have hspells := hreads ts
  rw [h] at hspells
  obtain ⟨read, rfl, hspells⟩ := hspells
  refine ⟨read, rfl, fun us hus left => ?_⟩
  have halone := hread hspells []
  rw [List.append_nil] at halone
  have hruns := halike (renames_id_of_spelling hus)
  rw [halone] at hruns
  cases hother : production us with
  | fail why rest =>
    rw [hother] at hruns
    cases hruns
  | ok value' rest =>
    rw [hother] at hruns
    obtain ⟨rfl, ⟨⟩⟩ : value' = value ∧ List.Forall₂ (Token.Renames id) [] rest := by
      cases hruns with
      | ok hvalue hrest => exact ⟨hvalue, hrest⟩
    have hspells' := hreads us
    rw [hother] at hspells'
    obtain ⟨read', heq, hspells'⟩ := hspells'
    rw [List.append_nil] at heq
    exact heq ▸ hread hspells' left

theorem delimited_node : Delimited node :=
  delimited_of_spells reads_node node_of_spells fun h =>
    (alike_node (fun _ _ ht => ht) h).mono fun a _ hab => hab.trans a.rename_id

theorem delimited_field : Delimited field :=
  delimited_of_spells reads_field field_of_spells fun h =>
    (alike_field (fun _ _ ht => ht) h).mono fun _ _ hab => by
      rw [hab, Field.rename_id, Prod.map_id, id_def]

namespace Delimited

/-! ## Phrases one after the other -/

/-- No phrase goes on where another one ends. -/
theorem eq_of_isPrefix (h : Delimited production) {ts us : List Token} {value value' : α}
    (hts : ReadsAs production ts value) (hus : ReadsAs production us value')
    (hbegins : ts.map Token.spelling <+: us.map Token.spelling) :
    ts.map Token.spelling = us.map Token.spelling ∧ value = value' := by
  obtain ⟨read, hread, hlocal⟩ := h hts
  rw [List.append_nil] at hread
  subst hread
  obtain ⟨more, hmore⟩ := hbegins
  obtain ⟨us₁, us₂, rfl, hus₁, -⟩ := List.map_eq_append_iff.1 hmore.symm
  cases (hlocal us₁ hus₁ us₂).symm.trans hus
  exact ⟨by rw [List.append_nil, hus₁], rfl⟩

/-- Phrases that stand one after the other can be taken apart in one way only. -/
theorem eq_of_flatten_eq (h : Delimited production) (hne : ∀ value, ¬ ReadsAs production [] value)
    {pieces pieces' : List (List Token)} {values values' : List α}
    (hpieces : List.Forall₂ (ReadsAs production) pieces values)
    (hpieces' : List.Forall₂ (ReadsAs production) pieces' values')
    (hflatten : pieces.flatten.map Token.spelling = pieces'.flatten.map Token.spelling) :
    pieces.map (List.map Token.spelling) = pieces'.map (List.map Token.spelling) ∧
      values = values' := by
  induction hpieces generalizing pieces' values' with
  | nil =>
    cases hpieces' with
    | nil => exact ⟨rfl, rfl⟩
    | @cons piece value pieces' values' hpiece =>
      rw [List.flatten_nil, List.map_nil, eq_comm, List.map_eq_nil_iff, List.flatten_cons,
        List.append_eq_nil_iff] at hflatten
      exact absurd (hflatten.1 ▸ hpiece) (hne value)
  | @cons piece value pieces values hpiece _ ih =>
    cases hpieces' with
    | nil =>
      rw [List.flatten_nil, List.map_nil, List.map_eq_nil_iff, List.flatten_cons,
        List.append_eq_nil_iff] at hflatten
      exact absurd (hflatten.1 ▸ hpiece) (hne value)
    | @cons piece' value' pieces' values' hpiece' hrest' =>
      rw [List.flatten_cons, List.flatten_cons, List.map_append, List.map_append] at hflatten
      -- Of two beginnings of one text, one begins the other.
      have hword : piece.map Token.spelling = piece'.map Token.spelling ∧ value = value' := by
        have hbegins : piece.map Token.spelling <+:
            piece'.map Token.spelling ++ pieces'.flatten.map Token.spelling :=
          hflatten ▸ List.prefix_append _ _
        rcases List.prefix_or_prefix_of_prefix hbegins (List.prefix_append _ _) with
          hfirst | hsecond
        · exact h.eq_of_isPrefix hpiece hpiece' hfirst
        · obtain ⟨hword, rfl⟩ := h.eq_of_isPrefix hpiece' hpiece hsecond
          exact ⟨hword.symm, rfl⟩
      obtain ⟨hword, rfl⟩ := hword
      rw [hword] at hflatten
      obtain ⟨hwords, rfl⟩ := ih hrest' (List.append_cancel_left hflatten)
      exact ⟨by rw [List.map_cons, List.map_cons, hword, hwords], rfl⟩

/-! ## Runs in a token list -/

/-- A run is decided by the words between where it begins and where it stops. -/
theorem run_congr (h : Delimited production) {ts us : List Token} {p q : Nat} {value : α}
    (hrun : (Cursor.mk ts p).run production = (.ok value, ⟨ts, q⟩))
    (hwords : ∀ i, p ≤ i → i < q → us[i]?.map Token.spelling = ts[i]?.map Token.spelling) :
    (Cursor.mk us p).run production = (.ok value, ⟨us, q⟩) := by
  obtain ⟨left, hts, hstop⟩ := Cursor.run_eq_ok_iff.1 hrun
  obtain ⟨read, hread, hlocal⟩ := h hts
  obtain rfl : q = p + read.length := by
    rw [Cursor.moveTo_of_rest hread] at hstop
    exact congrArg Cursor.pos hstop
  have hagain : ((us.drop p).take read.length).map Token.spelling = read.map Token.spelling := by
    refine List.ext_getElem? fun i => ?_
    rw [List.getElem?_map, List.getElem?_map]
    by_cases hi : i < read.length
    · rw [List.getElem?_take_of_lt hi, List.getElem?_drop, hwords _ (by omega) (by omega),
        ← List.getElem?_drop, show ts.drop p = read ++ left from hread,
        List.getElem?_append_left hi]
    · rw [List.getElem?_take_eq_none (by omega), List.getElem?_eq_none (by omega)]
  have hlength : ((us.drop p).take read.length).length = read.length := by
    simpa using congrArg List.length hagain
  have hus := hlocal _ hagain ((us.drop p).drop read.length)
  rw [List.take_append_drop] at hus
  have hsplit : (Cursor.mk us p).rest =
      (us.drop p).take read.length ++ (us.drop p).drop read.length :=
    (List.take_append_drop read.length _).symm
  have hmove := Cursor.moveTo_of_rest hsplit
  rw [hlength] at hmove
  exact Cursor.run_eq_ok_iff.2 ⟨_, hus, hmove.symm⟩

end Delimited

/-! ## Struct bodies -/

/-- Fields are spelled by what can be taken apart into fields. -/
theorem spellsFields_iff {ts : List Token} {entries : List (String × Field)} :
    SpellsFields ts entries ↔
      ∃ pieces, ts = pieces.flatten ∧ List.Forall₂ (ReadsAs field) pieces entries := by
  constructor
  · intro h
    induction h with
    | nil => exact ⟨[], rfl, .nil⟩
    | @cons ts us entry entries hfield _ ih =>
      obtain ⟨pieces, rfl, hpieces⟩ := ih
      have hread := field_of_spells hfield []
      rw [List.append_nil] at hread
      exact ⟨ts :: pieces, rfl, .cons hread hpieces⟩
  · rintro ⟨pieces, rfl, hpieces⟩
    induction hpieces with
    | nil => exact .nil
    | @cons piece entry pieces entries hpiece _ ih =>
      have hreads := reads_field piece
      rw [hpiece] at hreads
      obtain ⟨read, heq, hfield⟩ := hreads
      rw [List.append_nil] at heq
      exact .cons (heq ▸ hfield) ih

/-- A struct body is fields one after the other, between braces. -/
theorem structBody_eq_ok_iff {ts rest : List Token} {fs : Table Field} :
    structBody ts = .ok fs rest ↔ ∃ (lbrace rbrace : Token) (pieces : List (List Token))
      (entries : List (String × Field)), lbrace.IsSymbol "\x7b" ∧ rbrace.IsSymbol "\x7d" ∧
        List.Forall₂ (ReadsAs field) pieces entries ∧
        ts = lbrace :: (pieces.flatten ++ rbrace :: rest) ∧ fs = .ofList entries := by
  constructor
  · intro h
    have hreads := reads_inBraces (reads_fields .empty) ts
    rw [structBody] at h
    rw [h] at hreads
    obtain ⟨_, rfl, ⟨hopen, ⟨entries, hfields, rfl⟩, hclose⟩⟩ := hreads
    obtain ⟨pieces, rfl, hpieces⟩ := spellsFields_iff.1 hfields
    exact ⟨_, _, pieces, entries, hopen, hclose, hpieces, by simp, rfl⟩
  · rintro ⟨lbrace, rbrace, pieces, entries, hopen, hclose, hpieces, rfl, rfl⟩
    have hfields := spellsFields_iff.2 ⟨pieces, rfl, hpieces⟩
    exact inBraces_of_read hopen hclose (fields_of_spells hfields hclose rest .empty)

theorem not_readsAs_field_nil (entry : String × Field) : ¬ ReadsAs field [] entry :=
  fun h => Nat.lt_irrefl 0 (shrinks_field [] entry [] h)

/-- **A node is read by its own words alone.**  A run that reads a node between two positions reads
the same node between them in every token list that has the same words there, whatever stands before
and behind.  So no node goes on where another one ends; and a struct body, which is fields between
braces with nothing to separate them, can be taken apart into fields in one way only. -/
theorem run_node_local :
    (∀ (ts us : List Token) (p q : Nat) (value : Node),
        (Cursor.mk ts p).run node = (.ok value, ⟨ts, q⟩) →
        (∀ i, p ≤ i → i < q → us[i]?.map Token.spelling = ts[i]?.map Token.spelling) →
        (Cursor.mk us p).run node = (.ok value, ⟨us, q⟩)) ∧
      (∀ (ts us : List Token) (value value' : Node), ReadsAs node ts value → ReadsAs node us value' →
        ts.map Token.spelling <+: us.map Token.spelling →
        ts.map Token.spelling = us.map Token.spelling) ∧
      (∀ (pieces pieces' : List (List Token)) (entries entries' : List (String × Field)),
        List.Forall₂ (ReadsAs field) pieces entries →
        List.Forall₂ (ReadsAs field) pieces' entries' →
        pieces.flatten.map Token.spelling = pieces'.flatten.map Token.spelling →
        pieces.map (List.map Token.spelling) = pieces'.map (List.map Token.spelling) ∧
          entries = entries') ∧
      ∀ (ts rest : List Token) (fs : Table Field), structBody ts = .ok fs rest ↔
        ∃ (lbrace rbrace : Token) (pieces : List (List Token)) (entries : List (String × Field)),
          lbrace.IsSymbol "\x7b" ∧ rbrace.IsSymbol "\x7d" ∧
          List.Forall₂ (ReadsAs field) pieces entries ∧
          ts = lbrace :: (pieces.flatten ++ rbrace :: rest) ∧ fs = .ofList entries := by
  refine ⟨fun ts us p q value hrun hwords => ?_, fun ts us value value' hts hus hbegins => ?_,
    fun pieces pieces' entries entries' hpieces hpieces' hflatten => ?_,
    fun ts rest fs => structBody_eq_ok_iff⟩
  · exact delimited_node.run_congr hrun hwords
  · exact (delimited_node.eq_of_isPrefix hts hus hbegins).1
  · exact delimited_field.eq_of_flatten_eq not_readsAs_field_nil hpieces hpieces' hflatten

/-- A nullable list of links, on one line. -/
def nullableLinks (line : Int) : List Token :=
  [⟨.symbol, "[", line⟩, ⟨.keyword, "nullable", line⟩, ⟨.symbol, "&", line⟩,
    ⟨.identifier, "A", line⟩, ⟨.symbol, "]", line⟩]

theorem readsAs_nullableLinks (line : Int) :
    ReadsAs node (nullableLinks line) (.list (.link "A") true) := by
  have hspells : SpellsNode (nullableLinks line) (.list (.link "A") true) :=
    .bracketed (@SpellsBracketed.intro _ _ [_] [_, _] _ _ rfl (.present rfl) (.link rfl rfl) rfl)
  have hread := node_of_spells hspells []
  rwa [List.append_nil] at hread

/-- Two fields, a link and a reference, with names that could be taken for references themselves. -/
def linkAndName (line : Int) : List (List Token) :=
  [[⟨.identifier, "x", line⟩, ⟨.symbol, "&", line⟩, ⟨.identifier, "A", line⟩],
    [⟨.identifier, "y", line⟩, ⟨.identifier, "x", line⟩]]

theorem readsAs_linkAndName (line : Int) :
    List.Forall₂ (ReadsAs field) (linkAndName line)
      [("x", ⟨.link "A", false, false⟩), ("y", ⟨.ref "x", false, false⟩)] := by
  have hfirst : SpellsField
      [⟨.identifier, "x", line⟩, ⟨.symbol, "&", line⟩, ⟨.identifier, "A", line⟩]
      ("x", ⟨.link "A", false, false⟩) :=
    @SpellsField.intro _ [] [] [_, _] _ _ _ rfl .absent .absent (.link rfl rfl)
  have hsecond : SpellsField [⟨.identifier, "y", line⟩, ⟨.identifier, "x", line⟩]
      ("y", ⟨.ref "x", false, false⟩) :=
    @SpellsField.intro _ [] [] [_] _ _ _ rfl .absent .absent (.ref rfl)
  exact .cons (field_of_spells hfirst []) (.cons (field_of_spells hsecond []) .nil)

/-- The list is read after a brace at the end of the input, and so it is on another line between a
keyword and an opening bracket. -/
theorem run_node_local_nullableLinks :
    (Cursor.mk (⟨.symbol, "\x7b", 1⟩ :: nullableLinks 1) 1).run node =
        (.ok (.list (.link "A") true), ⟨⟨.symbol, "\x7b", 1⟩ :: nullableLinks 1, 6⟩) ∧
      (Cursor.mk (⟨.keyword, "list", 2⟩ :: (nullableLinks 2 ++ [⟨.symbol, "[", 3⟩])) 1).run node =
        (.ok (.list (.link "A") true),
          ⟨⟨.keyword, "list", 2⟩ :: (nullableLinks 2 ++ [⟨.symbol, "[", 3⟩]), 6⟩) ∧
      (nullableLinks 1).map Token.spelling = (nullableLinks 2).map Token.spelling ∧
      (linkAndName 1).map (List.map Token.spelling) =
        (linkAndName 2).map (List.map Token.spelling) := by
  have hrun : (Cursor.mk (⟨.symbol, "\x7b", 1⟩ :: nullableLinks 1) 1).run node =
      (.ok (.list (.link "A") true), ⟨⟨.symbol, "\x7b", 1⟩ :: nullableLinks 1, 6⟩) :=
    Cursor.run_eq_ok_iff.2 ⟨[], readsAs_nullableLinks 1, rfl⟩
  have hwords : ∀ i < 6, 1 ≤ i →
      (⟨.keyword, "list", 2⟩ :: (nullableLinks 2 ++ [⟨.symbol, "[", 3⟩]))[i]?.map Token.spelling =
        (⟨.symbol, "\x7b", 1⟩ :: nullableLinks 1)[i]?.map Token.spelling := by
    decide
  refine ⟨hrun, run_node_local.1 _ _ 1 6 _ hrun fun i hfirst hlast => hwords i hlast hfirst, ?_, ?_⟩
  · exact run_node_local.2.1 _ _ _ _ (readsAs_nullableLinks 1) (readsAs_nullableLinks 2)
      (List.prefix_refl _)
  · exact (run_node_local.2.2.1 _ _ _ _ (readsAs_linkAndName 1) (readsAs_linkAndName 2) rfl).1

end Parser

end Ipld
