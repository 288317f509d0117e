import Ipld.Proofs.Agreement.Acceptance
import Ipld.Proofs.Token.Scanning

/-!
# The same tokens are found

The lexer takes blanks one by one and the grammar takes them in runs; the lexer has one kind for all
keywords and the grammar a terminal for each.  `Token.Lexes` relates a token to the lexeme it is for
the grammar.  Where the lexer finds tokens the grammar finds their lexemes, and where it fails there
is a character at which no lexeme begins.
-/

namespace Ipld

open Grammar Text

/-- The token and the lexeme are the same text on the same line. -/
structure Token.Lexes (t : Token) (l : Lexeme) : Prop where
  terminal : t.terminal? = some l.terminal
  text : t.value = l.text
  line : t.line = l.line

namespace Grammar

/-! ## Lexemes one at a time -/

theorem lexemes_nil (line : Nat) : lexemes line [] = ([], none) := by
  rw [lexemes]
  split
  · rfl
  · next h => cases h
  · next h => cases h
  · next h => cases h

theorem lexemes_of_gap {line : Nat} {cs text rest : List Char} (h : front cs = .gap text rest) :
    lexemes line cs = lexemes (line + text.count '\n') rest := by
  rw [lexemes]
  split
  · next h' => cases h.symm.trans h'
  · next h' => cases h.symm.trans h'
  · next h' =>
    cases h.symm.trans h'
    rfl
  · next h' => cases h.symm.trans h'

theorem lexemes_of_lexeme {line : Nat} {cs text rest : List Char} {t : Terminal}
    (h : front cs = .lexeme t text rest) :
    lexemes line cs =
      (⟨t, String.ofList text, line⟩ :: (lexemes line rest).1, (lexemes line rest).2) := by
  rw [lexemes]
  split
  · next h' => cases h.symm.trans h'
  · next h' => cases h.symm.trans h'
  · next h' => cases h.symm.trans h'
  · next h' =>
    cases h.symm.trans h'
    rfl

theorem lexemes_of_stray {line : Nat} {cs : List Char} {c : Char} (h : front cs = .stray c) :
    lexemes line cs = ([], some ⟨c, line⟩) := by
  rw [lexemes]
  split
  · next h' => cases h.symm.trans h'
  · next h' =>
    cases h.symm.trans h'
    rfl
  · next h' => cases h.symm.trans h'
  · next h' => cases h.symm.trans h'

theorem front_of_isGap {c : Char} (h : isGap c = true) (rest : List Char) :
    front (c :: rest) = .gap (c :: rest.takeWhile isGap) (rest.dropWhile isGap) := by
  rw [front, if_pos h]

/-- Blanks may be taken one by one. -/
theorem lexemes_of_isGap {c : Char} (h : isGap c = true) (line : Nat) (rest : List Char) :
    lexemes line (c :: rest) = lexemes (line + [c].count '\n') rest := by
  rw [lexemes_of_gap (front_of_isGap h rest), List.count_cons, List.count_singleton]
  cases rest with
  | nil => simp
  | cons d rest =>
    cases hd : isGap d with
    | false => simp [hd]
    | true =>
      rw [lexemes_of_gap (front_of_isGap hd rest), List.takeWhile_cons_of_pos hd,
        List.dropWhile_cons_of_pos hd]
      congr 1
      omega

/-! ## Words, symbols and comments -/

theorem terminal?_ofWord (word : String) (line : Int) :
    (⟨wordKind word, word, line⟩ : Token).terminal? = some (Terminal.ofWord word) := by
  rw [Token.terminal?_eq_some_iff]
  by_cases h : word ∈ keywords
  · have hall : ∀ w ∈ keywords, (⟨wordKind w, w, line⟩ : Token).is (Terminal.ofWord w).kind
        (Terminal.ofWord w).word? = true := by
      simp [keywords, wordKind, Terminal.ofWord, Token.is, Terminal.kind, Terminal.word?]
    exact hall word h
  · have hident : Terminal.ofWord word = .ident := by
      simp [keywords] at h
      simp [Terminal.ofWord, h]
    rw [hident, Token.is_iff, wordKind, if_neg h]
    exact ⟨rfl, .inl rfl⟩

theorem ofSymbol?_of_isSymbol {c : Char} (h : isSymbol c = true) (line : Int) :
    ∃ T, Terminal.ofSymbol? c = some T ∧ isGap c = false ∧ isWordChar c = false ∧ c ≠ '\n' ∧
      (⟨.symbol, String.ofList [c], line⟩ : Token).terminal? = some T := by
  have hcases : c = '{' ∨ c = '}' ∨ c = '[' ∨ c = ']' ∨ c = ':' ∨ c = ',' ∨ c = '&' := by
    simpa [isSymbol] using h
  rcases hcases with rfl | rfl | rfl | rfl | rfl | rfl | rfl
  · exact ⟨.lbrace, rfl, rfl, by decide, by decide, rfl⟩
  · exact ⟨.rbrace, rfl, rfl, by decide, by decide, rfl⟩
  · exact ⟨.lsqb, rfl, rfl, by decide, by decide, rfl⟩
  · exact ⟨.rsqb, rfl, rfl, by decide, by decide, rfl⟩
  · exact ⟨.colon, rfl, rfl, by decide, by decide, rfl⟩
  · exact ⟨.comma, rfl, rfl, by decide, by decide, rfl⟩
  · exact ⟨.ampersand, rfl, rfl, by decide, by decide, rfl⟩

theorem ofSymbol?_eq_none {c : Char} (h : isSymbol c = false) : Terminal.ofSymbol? c = none := by
  unfold Terminal.ofSymbol?
  split
  case h_8 => rfl
  all_goals cases h

/-- A block comment ends where the lexer finds the end of it. -/
theorem closing_eq (cs : List Char) :
    Lexer.closing cs = (blockEnd? cs).map fun p => p.1.length := by
  fun_induction blockEnd? cs with
  | case1 => rfl
  | case2 c =>
    unfold Lexer.closing
    split
    · rfl
    · next h => cases h
    · next h =>
      cases h
      rfl
  | case3 c d rest h =>
    obtain ⟨rfl, rfl⟩ := h
    rfl
  | case4 c d rest h ih =>
    unfold Lexer.closing
    split
    · next heq => cases heq
    · next heq =>
      cases heq
      exact absurd ⟨rfl, rfl⟩ h
    · next heq =>
      cases heq
      rw [ih, Option.map_map, Option.map_map]
      rfl

theorem isGap_eq_isBlank (c : Char) : isGap c = isBlank c := by
  simp [isGap, isBlank, Bool.or_assoc, beq_eq_decide]

/-- No word goes over the end of a line. -/
theorem count_takeWhile_isWordChar (cs : List Char) :
    (cs.takeWhile isWordChar).count '\n' = 0 := by
  refine List.count_eq_zero.2 fun h => ?_
  exact absurd (List.mem_takeWhile_imp h) (by decide)

end Grammar

/-! ## One step of the lexer -/

namespace Lexer

/-- What a step of the lexer is for the grammar: a gap, a lexeme, or a stray character, which is the
next one, on the line where the lexer stands. -/
inductive ScanStep (l : Lexer) : Except Fault Unit × Lexer → Prop
  | gap {l' : Lexer} (hfound : l'.found = l.found)
    (hlexemes : lexemes l.line l.rest = lexemes l'.line l'.rest) : ScanStep l (.ok (), l')
  | token {l' : Lexer} {t : Token} {lexeme : Lexeme} (hfound : l'.found = t :: l.found)
    (ht : t.Lexes lexeme) (hlexemes : lexemes l.line l.rest =
      (lexeme :: (lexemes l'.line l'.rest).1, (lexemes l'.line l'.rest).2)) :
    ScanStep l (.ok (), l')
  | stray {l' : Lexer} {e : SchemaError} (c : Char) (hhead : l.rest.head? = some c)
    (hkind : e.kind = .character) (hline : e.line = some (l.line : Int))
    (hlexemes : lexemes l.line l.rest = ([], some ⟨c, l.line⟩)) :
    ScanStep l (.error (.schema e), l')

theorem scanStep_gap {l : Lexer} {text left : List Char} (h : l.rest = text ++ left)
    (hfront : front l.rest = .gap text left) : ScanStep l (.ok (), l.pass text.length) := by
  refine .gap rfl ?_
  rw [lexemes_of_gap hfront, rest_pass_length h, line_pass_length h]

theorem scanStep_lexeme {l : Lexer} {kind : TokenKind} {text left : List Char} {T : Terminal}
    (h : l.rest = text ++ left) (hfront : front l.rest = .lexeme T text left)
    (hcount : text.count '\n' = 0)
    (hterminal : (⟨kind, String.ofList text, l.line⟩ : Token).terminal? = some T) :
    ScanStep l (.ok (), (l.pass text.length).add kind text l.line) := by
  have ht : Token.Lexes ⟨kind, String.ofList text, l.line⟩ ⟨T, String.ofList text, l.line⟩ :=
    ⟨hterminal, rfl, rfl⟩
  refine .token rfl ht ?_
  have hline := line_pass_length h
  rw [hcount, Nat.add_zero] at hline
  rw [lexemes_of_lexeme hfront, rest_add, rest_pass_length h, add, hline]

/-- A line comment, without the line feed that ends it. -/
theorem scanStep_lineComment {l : Lexer} {rest : List Char} (hrest : l.rest = '/' :: '/' :: rest)
    (hfront : front l.rest = match comment? l.rest with
      | some (text, left) => .gap text left
      | none => .stray '/') : ScanStep l (.ok (), l.lineComment) := by
  have htake : '/' :: '/' :: rest.takeWhile (· ≠ '\n') = l.rest.takeWhile (· ≠ '\n') := by
    rw [hrest]
    simp
  have hdrop : rest.dropWhile (· ≠ '\n') = l.rest.dropWhile (· ≠ '\n') := by
    rw [hrest]
    simp
  refine scanStep_gap List.takeWhile_append_dropWhile.symm ?_
  rw [hfront, hrest, comment?, htake, hdrop, hrest]

/-- A block comment, or the place where one begins that has no end. -/
theorem scanStep_blockComment {l : Lexer} {rest : List Char} (hrest : l.rest = '/' :: '*' :: rest)
    (hfront : front l.rest = match comment? l.rest with
      | some (text, left) => .gap text left
      | none => .stray '/') : ScanStep l l.blockComment := by
  have hfirst : l.advance = (.ok '/', l.pass 1) := by
    rw [advance, hrest]
  have hrest₁ : (l.pass 1).rest = '*' :: rest := by
    rw [rest_pass, hrest]
    rfl
  have hsecond : (l.pass 1).advance = (.ok '*', (l.pass 1).pass 1) := by
    rw [advance, hrest₁]
  have hrest₂ : ((l.pass 1).pass 1).rest = rest := by
    rw [rest_pass, hrest₁]
    rfl
  have hline : ((l.pass 1).pass 1).line = l.line := by
    simp [pass, hrest]
  rw [hrest] at hfront
  unfold blockComment
  rw [hfirst]
  simp only
  rw [hsecond]
  simp only
  rw [hrest₂, closing_eq]
  cases hend : blockEnd? rest with
  | none =>
    refine .stray '/' (by rw [hrest]; rfl) rfl rfl ?_
    rw [hrest]
    refine lexemes_of_stray ?_
    rw [hfront, comment?, hend]
    rfl
  | some p =>
    obtain ⟨text, left⟩ := p
    have hsplit : ((l.pass 1).pass 1).rest = text ++ left := by
      rw [hrest₂, blockEnd?_eq_append hend]
    have hgap : front ('/' :: '*' :: rest) = .gap ('/' :: '*' :: text) left := by
      rw [hfront, comment?, hend]
      rfl
    refine .gap rfl ?_
    change _ = lexemes (((l.pass 1).pass 1).pass text.length).line _
    rw [rest_pass_length hsplit, line_pass_length hsplit, hline, hrest, lexemes_of_gap hgap]
    simp

theorem scan_step {l : Lexer} (hne : l.rest ≠ []) : ScanStep l l.scan := by
  unfold scan
  split
  · next hrest => exact absurd hrest hne
  next c rest hrest =>
  split
  · next hblank =>
    -- The grammar takes all the blanks that follow as well.
    rw [← isGap_eq_isBlank] at hblank
    refine .gap rfl ?_
    rw [hrest, lexemes_of_isGap hblank, rest_pass, pass, hrest]
    rfl
  next hblank =>
  rw [← isGap_eq_isBlank] at hblank
  split
  · next hsymbol =>
    obtain ⟨T, hT, hgap, hword, hfeed, hterminal⟩ := ofSymbol?_of_isSymbol hsymbol l.line
    have hsplit : l.rest = [c] ++ rest := hrest
    refine scanStep_lexeme hsplit ?_ (List.count_eq_zero.2 ?_) hterminal
    · rw [hrest, front, if_neg hblank, if_neg (by simp [hword]), hT]
    · simpa [eq_comm] using hfeed
  next hsymbol =>
  split
  · next hword =>
    have hsplit : l.rest = l.rest.takeWhile isWordChar ++ l.rest.dropWhile isWordChar :=
      List.takeWhile_append_dropWhile.symm
    refine scanStep_lexeme hsplit ?_ (count_takeWhile_isWordChar _) (terminal?_ofWord _ _)
    rw [hrest, front, if_neg hblank, if_pos hword, List.takeWhile_cons_of_pos hword,
      List.dropWhile_cons_of_pos hword]
  next hword =>
  have hfront : front l.rest = match comment? l.rest with
      | some (text, left) => .gap text left
      | none => .stray c := by
    have hother : Terminal.ofSymbol? c = none := ofSymbol?_eq_none (Bool.eq_false_iff.2 hsymbol)
    rw [hrest]
    cases hcomment : comment? (c :: rest) with
    | none => simp only [front, if_neg hblank, if_neg hword, hother, hcomment]
    | some found => simp only [front, if_neg hblank, if_neg hword, hother, hcomment]
  split
  · next h =>
    obtain ⟨rfl, hhead⟩ := h
    obtain ⟨left, rfl⟩ := List.head?_eq_some_iff.1 hhead
    exact scanStep_lineComment hrest hfront
  next hslash =>
  split
  · next h =>
    obtain ⟨rfl, hhead⟩ := h
    obtain ⟨left, rfl⟩ := List.head?_eq_some_iff.1 hhead
    exact scanStep_blockComment hrest hfront
  next hstar =>
  have hnone : comment? l.rest = none := by
    rw [hrest]
    unfold comment?
    split
    · next heq =>
      cases heq
      exact absurd ⟨rfl, rfl⟩ hslash
    · next heq =>
      cases heq
      exact absurd ⟨rfl, rfl⟩ hstar
    · rfl
  refine .stray c (by rw [hrest]; rfl) rfl rfl (lexemes_of_stray ?_)
  rw [hfront, hnone]

/-! ## Whole sources -/

/-- On its way the lexer passes over the same lexemes as tokens. -/
theorem lexemes_of_reaches {l l' : Lexer} (h : l.Reaches l') :
    ∃ ts ls, l'.found = ts.reverse ++ l.found ∧
      lexemes l.line l.rest =
        (ls ++ (lexemes l'.line l'.rest).1, (lexemes l'.line l'.rest).2) ∧
      List.Forall₂ Token.Lexes ts ls := by
  induction h using Relation.ReflTransGen.head_induction_on with
  | refl => exact ⟨[], [], rfl, rfl, .nil⟩
  | @head l left hscan _ ih =>
    obtain ⟨ts, ls, hfound, hlexemes, hall⟩ := ih
    have hne : l.rest ≠ [] := by
      intro hrest
      have hlt := length_rest_scan hscan
      rw [hrest] at hlt
      cases hlt
    have hstep := scan_step hne
    rw [hscan] at hstep
    cases hstep with
    | gap hfound' hlexemes' =>
      rw [hfound'] at hfound
      exact ⟨ts, ls, hfound, hlexemes'.trans hlexemes, hall⟩
    | @token _ t lexeme hfound' ht hlexemes' =>
      rw [hlexemes] at hlexemes'
      refine ⟨t :: ts, lexeme :: ls, ?_, hlexemes', .cons ht hall⟩
      rw [hfound, hfound', List.reverse_cons, List.append_assoc, List.singleton_append]

end Lexer

/-- **Where the lexer finds tokens, the grammar finds their lexemes.** -/
theorem lexemes_of_tokenize_eq_ok {source : String} {ts : List Token}
    (h : tokenize source = .ok ts) :
    ∃ ls, lexemes 1 source.toList = (ls, none) ∧ List.Forall₂ Token.Lexes ts ls := by
  unfold tokenize at h
  split at h
  · next l' heq =>
    cases h
    obtain ⟨hreaches, hend⟩ := Lexer.reaches_of_tokenize heq
    obtain ⟨ts, ls, hfound, hlexemes, hall⟩ := Lexer.lexemes_of_reaches hreaches
    rw [hend, lexemes_nil, List.append_nil] at hlexemes
    refine ⟨ls, hlexemes, ?_⟩
    have htokens : l'.tokens = ts := by
      rw [Lexer.tokens, hfound, List.reverse_append, List.reverse_reverse]
      rfl
    rw [htokens]
    exact hall
  · cases h

/-- **Where the lexer fails, so do the lexemes**, at a character on the same line. -/
theorem lexemes_of_tokenize_eq_error {source : String} {e : Fault}
    (h : tokenize source = .error e) :
    ∃ a ls s, e = .schema a ∧ a.kind = .character ∧ a.line = some (s.line : Int) ∧
      lexemes 1 source.toList = (ls, some s) := by
  unfold tokenize at h
  split at h
  · cases h
  · next heq =>
    cases h
    obtain ⟨m, hreaches, hne, hscan⟩ := Lexer.exists_reaches_of_tokenize heq
    obtain ⟨ts, ls, -, hlexemes, -⟩ := Lexer.lexemes_of_reaches hreaches
    have hstep := Lexer.scan_step hne
    rw [hscan] at hstep
    cases hstep with
    | stray c _ hkind hline hstray =>
      rw [hstray, List.append_nil] at hlexemes
      exact ⟨_, ls, ⟨c, m.line⟩, rfl, hkind, hline, hlexemes⟩

end Ipld
