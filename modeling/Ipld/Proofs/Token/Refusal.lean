import Ipld.Proofs.Token.Scanning

/-!
# Where the lexer stops

A source is refused by the lexer when its beginning has a layout and nothing begins behind that: the
next character starts no word and no gap, or it starts a block comment that has no end.  No line
comment is open there, for it would go on over that character as well.
-/

namespace Ipld

open Text

/-- No blank, word or comment begins with `c` before the text `rest`. -/
structure BeginsNothing (c : Char) (rest : List Char) : Prop where
  blank : isBlank c = false
  symbol : isSymbol c = false
  word : isWordChar c = false
  comment : c = '/' → rest.head? ≠ some '/' ∧ rest.head? ≠ some '*'

/-- What is at fault in front of a text on the line `line`: its first character, or the block
comment that it begins with. -/
inductive Stops (line : Nat) : List Char → SchemaError → Prop
  | character {c : Char} {rest : List Char} (h : BeginsNothing c rest) :
    Stops line (c :: rest) (.unexpectedCharacter c line)
  | comment {rest : List Char} (h : ¬ ['*', '/'] <:+: rest) :
    Stops line ('/' :: '*' :: rest) (.unterminatedComment line)

/-- The text has a layout as far as some `//`, and is a comment from there on. -/
def EndsInLineComment (text : List Char) : Prop :=
  ∃ (l : Layout) (comment : List Char), text = l.text ++ '/' :: '/' :: comment ∧
    '\n' ∉ comment ∧ Gap ('/' :: '/' :: comment) l.last

/-! ## One step -/

theorem closing_ne_none (before after : List Char) :
    Lexer.closing (before ++ '*' :: '/' :: after) ≠ none := by
  induction before with
  | nil => exact Option.some_ne_none _
  | cons c before ih =>
    rw [List.cons_append]
    by_cases hc : c = '*' ∧ (before ++ '*' :: '/' :: after).head? = some '/'
    · obtain ⟨rfl, hhead⟩ := hc
      obtain ⟨left, hleft⟩ := List.head?_eq_some_iff.1 hhead
      rw [hleft]
      exact Option.some_ne_none _
    · rw [closing_cons hc]
      exact fun h => ih (Option.map_eq_none_iff.1 h)

theorem closing_eq_none_iff {cs : List Char} :
    Lexer.closing cs = none ↔ ¬ ['*', '/'] <:+: cs := by
  constructor
  · rintro hnone ⟨before, after, rfl⟩
    rw [List.append_assoc] at hnone
    exact closing_ne_none before after hnone
  · intro hinfix
    cases h : Lexer.closing cs with
    | none => rfl
    | some n =>
      obtain ⟨text, rest, rfl, -, -⟩ := exists_of_closing h
      exact absurd ⟨text, rest, by rw [List.append_assoc]; rfl⟩ hinfix

namespace Lexer

theorem stops_of_scan {l l' : Lexer} {e : Fault} (hne : l.rest ≠ []) (h : l.scan = (.error e, l')) :
    ∃ a, e = .schema a ∧ Stops l.line l.rest a := by
  unfold scan at h
  split at h
  · next hrest => exact absurd hrest hne
  next c rest hrest =>
  split at h
  · cases h
  next hblank =>
  split at h
  · cases h
  next hsymbol =>
  split at h
  · cases h
  next hword =>
  split at h
  · cases h
  next hslash =>
  split at h
  · next hstar =>
    obtain ⟨rfl, hhead⟩ := hstar
    obtain ⟨left, rfl⟩ := List.head?_eq_some_iff.1 hhead
    rw [blockComment_eq hrest] at h
    cases hclosing : closing left with
    | some n =>
      rw [hclosing] at h
      cases h
    | none =>
      rw [hclosing] at h
      cases h
      rw [hrest]
      exact ⟨_, rfl, .comment (closing_eq_none_iff.1 hclosing)⟩
  · next hstar =>
    cases h
    rw [hrest]
    refine ⟨_, rfl, .character ⟨?_, ?_, ?_, fun hc => ⟨?_, ?_⟩⟩⟩
    · exact Bool.eq_false_iff.2 hblank
    · exact Bool.eq_false_iff.2 hsymbol
    · exact Bool.eq_false_iff.2 hword
    · exact fun hhead => hslash ⟨hc, hhead⟩
    · exact fun hhead => hstar ⟨hc, hhead⟩

theorem scan_of_stops {l : Lexer} {a : SchemaError} (h : Stops l.line l.rest a) :
    ∃ l', l.scan = (.error (.schema a), l') := by
  generalize hrest : l.rest = rest at h
  cases h with
  | @character c rest h =>
    refine ⟨l, ?_⟩
    have hslash : ¬ (c = '/' ∧ rest.head? = some '/') := fun hc => (h.comment hc.1).1 hc.2
    have hstar : ¬ (c = '/' ∧ rest.head? = some '*') := fun hc => (h.comment hc.1).2 hc.2
    rw [scan, hrest]
    simp only [h.blank, h.symbol, h.word, Bool.false_eq_true, if_false, if_neg hslash, if_neg hstar]
  | @comment rest h =>
    have hscan : l.scan = l.blockComment := by
      rw [scan, hrest]
      rfl
    rw [hscan, blockComment_eq hrest, closing_eq_none_iff.2 h]
    exact ⟨_, rfl⟩

theorem tokenize_of_scan_error {l l' : Lexer} {e : Fault} (hne : l.rest ≠ [])
    (h : l.scan = (.error e, l')) : l.tokenize = (.error e, l') := by
  have hend : ¬ l.atEnd = true := fun hend => hne (List.isEmpty_iff.1 hend)
  rw [tokenize, if_neg hend]
  split
  · next heq => exact heq.symm.trans h
  · next heq => cases heq.symm.trans h

end Lexer

/-! ## Whole sources -/

namespace Stops

variable {line : Nat} {rest : List Char} {a : SchemaError}

/-- What stops the lexer begins with a character that stops it by itself. -/
theorem exists_head (h : Stops line rest a) : ∃ c, rest.head? = some c ∧ BeginsNothing c [] := by
  cases h with
  | character h => exact ⟨_, rfl, h.blank, h.symbol, h.word, fun _ => ⟨nofun, nofun⟩⟩
  | comment => exact ⟨_, rfl, rfl, rfl, by decide, fun _ => ⟨nofun, nofun⟩⟩

theorem ne_nil (h : Stops line rest a) : rest ≠ [] := by
  obtain ⟨c, hhead, -⟩ := h.exists_head
  rintro rfl
  cases hhead

theorem isWordChar_head (h : Stops line rest a) {c : Char} (hc : c ∈ rest.head?) :
    isWordChar c = false := by
  obtain ⟨d, hhead, hd⟩ := h.exists_head
  cases hhead.symm.trans hc
  exact hd.word

end Stops

/-- The lexer gets over a laid-out text to the place where it stops. -/
theorem tokenize_of_stops (l : Layout) {rest : List Char} {a : SchemaError} (hlast : Gap rest l.last)
    (h : Stops (1 + l.text.count '\n') rest a) :
    tokenize (String.ofList (l.text ++ rest)) = .error (.schema a) := by
  have hstart : (Lexer.ofSource (String.ofList (l.text ++ rest))).rest = l.text ++ rest :=
    String.toList_ofList
  have hline : (Lexer.ofSource (String.ofList (l.text ++ rest))).line =
      1 + ([] : List Char).count '\n' := rfl
  obtain ⟨m, hreaches, hrest, -, hline'⟩ :=
    exists_reaches_of_laid l.laid hlast (fun c => h.isWordChar_head) hstart hline
  rw [List.nil_append] at hline'
  have hstops : Stops m.line m.rest a := by
    rw [hline', hrest]
    exact h
  obtain ⟨m', hscan⟩ := Lexer.scan_of_stops hstops
  rw [tokenize, Lexer.tokenize_of_reaches hreaches,
    Lexer.tokenize_of_scan_error hstops.ne_nil hscan]

/-- A line comment would go on over the character that stops the lexer. -/
theorem not_endsInLineComment (l : Layout) {rest : List Char} {a : SchemaError} {line : Nat}
    (hlast : Gap rest l.last) (h : Stops line rest a) : ¬ EndsInLineComment l.text := by
  rintro ⟨l', comment, htext, hfeed, hcomment⟩
  obtain ⟨c, hhead, hc⟩ := h.exists_head
  have hgap : Gap [c] l.last := hlast.congr fun d hd => by
    cases hd
    exact hhead
  have herror := tokenize_of_stops l hgap (.character hc)
  rw [htext, List.append_assoc] at herror
  -- With this one character behind it, the text still ends inside the comment.
  have hstart : (Lexer.ofSource (String.ofList (l'.text ++ ('/' :: '/' :: comment ++ [c])))).rest =
      l'.text ++ ('/' :: '/' :: comment ++ [c]) := String.toList_ofList
  have hline : (Lexer.ofSource (String.ofList (l'.text ++ ('/' :: '/' :: comment ++ [c])))).line =
      1 + ([] : List Char).count '\n' := rfl
  have hgap' : Gap ('/' :: '/' :: comment ++ [c]) l'.last := hcomment.congr fun _ hd => hd
  have hslash : ∀ d ∈ ('/' :: '/' :: comment ++ [c]).head?, isWordChar d = false := by
    rintro d hd
    cases hd
    decide
  obtain ⟨m, hreaches, hrest, -, -⟩ := exists_reaches_of_laid l'.laid hgap' hslash hstart hline
  have hfeed' : '\n' ∉ comment ++ [c] := by
    rw [List.mem_append, List.mem_singleton, not_or]
    refine ⟨hfeed, ?_⟩
    rintro rfl
    cases hc.blank
  have hfiller : Filler [] ('/' :: '/' :: (comment ++ [c])) := .lineComment hfeed' nofun
  have hsplit : m.rest = '/' :: '/' :: (comment ++ [c]) ++ [] := by
    rw [hrest, List.append_nil]
    rfl
  rw [tokenize, Lexer.tokenize_of_reaches hreaches,
    Lexer.tokenize_of_scan (Lexer.scan_of_filler hsplit hfiller),
    Lexer.tokenize_nil (Lexer.rest_pass_length hsplit)] at herror
  cases herror

/-- **A source is refused exactly when the lexer stops behind a beginning of it that has a
layout.** -/
theorem tokenize_eq_error_iff {source : String} {e : Fault} :
    tokenize source = .error e ↔ ∃ (l : Layout) (rest : List Char) (a : SchemaError),
      source.toList = l.text ++ rest ∧ Gap rest l.last ∧ Stops (1 + l.text.count '\n') rest a ∧
        e = .schema a := by
  constructor
  · intro h
    unfold tokenize at h
    split at h
    · cases h
    · next heq =>
      cases h
      have hline : (Lexer.ofSource source).line = 1 + ([] : List Char).count '\n' := rfl
      obtain ⟨m, hreaches, hne, hscan⟩ := Lexer.exists_reaches_of_tokenize heq
      obtain ⟨last, ps, hlaid, hlast, hrest, -, hline⟩ := exists_laid_of_reaches hreaches hline
      obtain ⟨a, rfl, hstops⟩ := Lexer.stops_of_scan hne hscan
      rw [List.nil_append] at hline
      rw [hline] at hstops
      exact ⟨⟨ps, last, hlaid⟩, m.rest, a, hrest, hlast, hstops, rfl⟩
  · rintro ⟨l, rest, a, hsource, hlast, hstops, rfl⟩
    rw [← tokenize_of_stops l hlast hstops, ← hsource, String.ofList_toList]

end Ipld
