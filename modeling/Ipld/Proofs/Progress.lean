import Ipld.Proofs.Parser.Bounds
import Ipld.Proofs.Token.Characters

/-!
# Reading moves on and stays inside

Neither the lexer nor the parser reads where there is nothing, and neither stands still.  A step of
the lexer takes at least one character, so there are no more steps than characters; a production of
the parser that succeeds takes at least one token.  Whatever else happens is a fault of the source,
reported as such.
-/

namespace Ipld

open Ipld.Parser

namespace Lexer

/-- What a step of the lexer may come to in a source of `n` characters: it moves on inside, or it
refuses the source. -/
inductive StepsInside (l : Lexer) (n : Nat) : Except Fault Unit × Lexer → Prop
  | ok {l' : Lexer} (hlt : l.pos < l'.pos) (hle : l'.pos ≤ n) : StepsInside l n (.ok (), l')
  | error {l' : Lexer} {e : SchemaError} (hkind : e.kind = .character) :
    StepsInside l n (.error (.schema e), l')

theorem length_source (l : Lexer) : l.source.length = l.pos + l.rest.length := by
  rw [source, List.length_append, List.length_reverse, pos]

theorem source_of_scan {l l' : Lexer} (h : l.scan = (.ok (), l')) : l'.source = l.source := by
  cases takes_of_scan h with
  | filler => exact source_pass l _
  | word => exact source_pass l _

theorem pos_lt_of_scan {l l' : Lexer} (h : l.scan = (.ok (), l')) : l.pos < l'.pos := by
  have hlength := congrArg List.length (source_of_scan h)
  have hrest := length_rest_scan h
  rw [length_source, length_source] at hlength
  omega

theorem source_of_reaches {l l' : Lexer} (h : l.Reaches l') : l'.source = l.source := by
  induction h with
  | refl => rfl
  | tail _ hscan ih => exact (source_of_scan hscan).trans ih

/-- Wherever the lexer gets to is a position of the source. -/
theorem pos_le_of_reaches {source : String} {l : Lexer} (h : (ofSource source).Reaches l) :
    l.pos ≤ source.length := by
  have hlength := congrArg List.length (source_of_reaches h)
  rw [length_source] at hlength
  have hsource : (ofSource source).source.length = source.length := rfl
  omega

theorem kind_of_stops {line : Nat} {rest : List Char} {e : SchemaError} (h : Stops line rest e) :
    e.kind = .character := by
  cases h with
  | character => rfl
  | comment => rfl

theorem stepsInside_scan {source : String} {l : Lexer} (h : (ofSource source).Reaches l)
    (hend : l.atEnd = false) : l.StepsInside source.length l.scan := by
  cases hscan : l.scan with
  | mk result l' =>
    cases result with
    | ok =>
      exact .ok (pos_lt_of_scan hscan) (pos_le_of_reaches (h.tail hscan))
    | error e =>
      have hne : l.rest ≠ [] := fun hrest => Bool.false_ne_true (hend.symm.trans (atEnd_of_rest hrest))
      obtain ⟨a, rfl, hstops⟩ := stops_of_scan hne hscan
      exact .error (kind_of_stops hstops)

/-- No more steps succeed one after the other than there are characters. -/
theorem exists_scan_ne {source : String} {run : Nat → Lexer} (hstart : run 0 = ofSource source) :
    ∃ n ≤ source.length, (run n).scan ≠ (.ok (), run (n + 1)) := by
  by_contra hgoes
  have hscan : ∀ n ≤ source.length, (run n).scan = (.ok (), run (n + 1)) := fun n hn =>
    Classical.not_not.1 fun hne => hgoes ⟨n, hn, hne⟩
  have hruns : ∀ n ≤ source.length + 1, (ofSource source).Reaches (run n) ∧ n ≤ (run n).pos := by
    intro n
    induction n with
    | zero => exact fun _ => ⟨hstart ▸ .refl, Nat.zero_le _⟩
    | succ n ih =>
      intro hn
      obtain ⟨hreaches, hpos⟩ := ih (Nat.le_of_succ_le hn)
      have hstep := hscan n (Nat.le_of_succ_le_succ hn)
      exact ⟨hreaches.tail hstep, Nat.lt_of_le_of_lt hpos (pos_lt_of_scan hstep)⟩
  obtain ⟨hreaches, hpos⟩ := hruns _ (Nat.le_refl _)
  exact Nat.not_succ_le_self _ (Nat.le_trans hpos (pos_le_of_reaches hreaches))

end Lexer

theorem tokenize_eq_ok_or_error (source : String) :
    (∃ ts, tokenize source = .ok ts) ∨
      ∃ e, tokenize source = .error (.schema e) ∧ e.kind = .character := by
  cases h : tokenize source with
  | ok ts => exact .inl ⟨ts, rfl⟩
  | error e =>
    obtain ⟨_, _, a, -, -, hstops, rfl⟩ := tokenize_eq_error_iff.1 h
    exact .inr ⟨a, rfl, Lexer.kind_of_stops hstops⟩

/-- **Reading moves on and stays inside.**  Wherever the lexer gets to in a source, its next step
moves on to a position of the source or refuses it, and taken character by character it is the same
step, so no character is taken where there is none; no more steps succeed than there are characters,
and the source is cut into tokens or refused.  The parser finds a token wherever it looks one up,
and each of its productions, started at a position of any token list, stops at a position of the
list: further on when it succeeds, not further back when it fails, and then with a fault of the
source. -/
theorem reading_staysInside :
    (∀ (source : String) (l : Lexer), (Lexer.ofSource source).Reaches l → l.atEnd = false →
        l.scanCharacters = l.scan ∧ l.StepsInside source.length l.scan) ∧
      (∀ (source : String) (run : Nat → Lexer), run 0 = .ofSource source →
        ∃ n ≤ source.length, (run n).scan ≠ (.ok (), run (n + 1))) ∧
      (∀ source, (∃ ts, tokenize source = .ok ts) ∨
        ∃ e, tokenize source = .error (.schema e) ∧ e.kind = .character) ∧
      (∀ c : Cursor, c.LooksInside) ∧ StaysInside declaration ∧ StaysInside definition ∧
      StaysInside structBody ∧ StaysInside enumBody ∧ StaysInside node ∧ StaysInside link ∧
      StaysInside braced ∧ StaysInside listBody ∧ StaysInside bracketed := by
  refine ⟨fun source l hreaches hend => ⟨l.scanCharacters_eq, ?_⟩, fun source run hstart => ?_,
    tokenize_eq_ok_or_error, Cursor.looksInside, staysInside_declaration, staysInside_definition,
    staysInside_structBody, staysInside_enumBody, staysInside_node, staysInside_link,
    staysInside_braced, staysInside_listBody, staysInside_bracketed⟩
  · exact Lexer.stepsInside_scan hreaches hend
  · exact Lexer.exists_scan_ne hstart

/-- A source that is a NUL is not at its end, and a list that is opened at the last token is. -/
theorem reading_staysInside_cut :
    (Lexer.ofSource "\x00").StepsInside 1 (Lexer.ofSource "\x00").scan ∧
      (Cursor.mk [⟨.symbol, "[", 1⟩] 0).EndsInside
        ((Cursor.mk [⟨.symbol, "[", 1⟩] 0).run bracketed) := by
  obtain ⟨hlexer, -, -, -, -, -, -, -, -, -, -, -, hbracketed⟩ := reading_staysInside
  exact ⟨(hlexer "\x00" _ .refl rfl).2, (hbracketed ⟨[⟨.symbol, "[", 1⟩], 0⟩ (by decide)).1⟩

end Ipld
