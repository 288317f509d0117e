import Ipld.Plain.Json
import Ipld.Proofs.Json.Reader
import Ipld.Proofs.Plain.Distinct
import Mathlib.Data.List.Forall2

/-!
# JSON read back

What is written as JSON is cut into tokens that the layout has no part in: it only adds whitespace
between them.  From the tokens the value is read that was written.
-/

namespace Ipld.Json

open Reader Text

/-! ## Strings -/

theorem codeUnits_basic {c : Char} (h : c.toNat < 0x10000) (rest : List Char) :
    codeUnits (hexPadded .lower 4 c.toNat ++ rest) = some (c, rest) := by
  have hbounds := toNat_bounds c
  rw [codeUnits, readHex?_hexPadded .lower h]
  simp only
  rw [if_neg (by omega), if_neg (by omega), Char.ofNat_toNat]

theorem codeUnits_pair {offset : Nat} (h : offset < 0x100000) (rest : List Char) :
    codeUnits (hexPadded .lower 4 (0xd800 + offset / 0x400) ++
      (escapeUnit (0xdc00 + offset % 0x400) ++ rest)) =
        some (Char.ofNat (0x10000 + offset), rest) := by
  have hlow : lowUnit (escapeUnit (0xdc00 + offset % 0x400) ++ rest) =
      some (0xdc00 + offset % 0x400, rest) := by
    rw [escapeUnit, List.cons_append, List.cons_append, lowUnit,
      readHex?_hexPadded .lower (by omega), Option.filter_some, if_pos]
    rw [Bool.and_eq_true, decide_eq_true_iff, decide_eq_true_iff]
    omega
  have hsum : 0x10000 + (0xd800 + offset / 0x400 - 0xd800) * 0x400 +
      (0xdc00 + offset % 0x400 - 0xdc00) = 0x10000 + offset := by
    omega
  rw [codeUnits, readHex?_hexPadded .lower (by omega)]
  simp only
  rw [if_pos (by omega), hlow, Option.map_some, hsum]

theorem char_bare {c : Char} (hquote : c ≠ '"') (hslash : c ≠ '\\') (h : 0x20 ≤ c.toNat)
    (rest : List Char) : Reader.char (c :: rest) = some (c, rest) := by
  unfold Reader.char
  split
  · next heq => cases heq
  · next heq =>
    cases heq
    exact absurd rfl hslash
  · next heq =>
    cases heq
    exact absurd rfl hslash
  · next heq =>
    cases heq
    rw [if_neg]
    rintro (hlow | heq | heq)
    · omega
    · exact hquote heq
    · exact hslash heq

theorem char_escapeUnit (n : Nat) (rest : List Char) :
    Reader.char (escapeUnit n ++ rest) = codeUnits (hexPadded .lower 4 n ++ rest) :=
  rfl

/-- An escape is read as the character for which it is written. -/
theorem char_escapeChar (c : Char) (rest : List Char) :
    Reader.char (escapeChar c ++ rest) = some (c, rest) := by
  unfold escapeChar
  split
  · next h =>
    subst h
    rfl
  next hquote =>
  split
  · next h =>
    subst h
    rfl
  next hslash =>
  split
  · next h =>
    subst h
    rfl
  split
  · next h =>
    subst h
    rfl
  split
  · next h =>
    subst h
    rfl
  split
  · next h =>
    subst h
    rfl
  split
  · next h =>
    subst h
    rfl
  split
  · next h => exact char_bare hquote hslash h.1 rest
  split
  · next h =>
    rw [char_escapeUnit]
    exact codeUnits_basic (Nat.lt_succ_of_le h) rest
  next h =>
  have hbounds := toNat_bounds c
  have hoffset : c.toNat - 0x10000 < 0x100000 := by omega
  have hread := codeUnits_pair hoffset rest
  rw [Nat.add_sub_cancel' (by omega : 0x10000 ≤ c.toNat), Char.ofNat_toNat] at hread
  rw [List.append_assoc, char_escapeUnit, hread]

theorem chars_of_char {cs left : List Char} {c : Char} (h : Reader.char cs = some (c, left)) :
    chars cs = (chars left).map fun (more, left) => (c :: more, left) := by
  have hhead : cs.head? ≠ some '"' := by
    intro hhead
    obtain ⟨tail, rfl⟩ := List.head?_eq_some_iff.1 hhead
    cases h
  rw [chars, if_neg hhead]
  split
  · next hnone => cases hnone.symm.trans h
  · next hsome =>
    cases hsome.symm.trans h
    rfl

theorem chars_flatMap (text rest : List Char) :
    chars (text.flatMap escapeChar ++ '"' :: rest) = some (text, rest) := by
  induction text with
  | nil =>
    rw [List.flatMap_nil, List.nil_append, chars, if_pos List.head?_cons]
    rfl
  | cons c text ih =>
    rw [List.flatMap_cons, List.append_assoc, chars_of_char (char_escapeChar c _), ih]
    rfl

/-! ## Tokens -/

/-- The text is cut into the tokens, whatever follows it. -/
def Lexes (text : List Char) (ts : List Token) : Prop :=
  ∀ rest, tokens (text ++ rest) = (tokens rest).map (ts ++ ·)

namespace Lexes

theorem nil : Lexes [] [] := fun rest => by
  cases h : tokens rest with
  | none => rw [List.nil_append, h, Option.map_none]
  | some ts => rw [List.nil_append, h, Option.map_some, List.nil_append]

theorem append {a b : List Char} {ts us : List Token} (ha : Lexes a ts) (hb : Lexes b us) :
    Lexes (a ++ b) (ts ++ us) := fun rest => by
  rw [List.append_assoc, ha, hb, Option.map_map]
  refine congrArg (fun f => Option.map f (tokens rest)) (funext fun vs => ?_)
  rw [Function.comp_apply, List.append_assoc]

theorem space {c : Char} (h : isSpace c = true) : Lexes [c] [] := fun rest => by
  rw [List.singleton_append, tokens, if_pos h]
  exact nil rest

theorem spaces {text : List Char} (h : ∀ c ∈ text, isSpace c = true) : Lexes text [] := by
  induction text with
  | nil => exact nil
  | cons c text ih =>
    rw [List.forall_mem_cons] at h
    exact (space h.1).append (ih h.2)

theorem mark {c : Char} (h : isMark c = true) (hspace : isSpace c = false) : Lexes [c] [.mark c] :=
  fun rest => by
    rw [List.singleton_append, tokens, if_neg (by rw [hspace]; exact Bool.false_ne_true), if_pos h]
    rfl

theorem string (s : String) : Lexes (Json.string s) [.text s] := fun rest => by
  have hread := chars_flatMap s.toList rest
  rw [Json.string, List.cons_append, List.cons_append, List.append_assoc, List.singleton_append,
    tokens, if_neg (by decide), if_neg (by decide), if_pos rfl]
  split
  · next hnone => cases hnone.symm.trans hread
  · next hsome =>
    cases hsome.symm.trans hread
    rw [String.ofList_toList]
    rfl

theorem flag (b : Bool) : Lexes (if b then "true".toList else "false".toList) [.flag b] :=
  fun rest => by
    have hread : ∀ c name, bareWord c (name ++ rest) = some (.flag b, rest) →
        isSpace c = false → isMark c = false → c ≠ '"' →
        tokens (c :: (name ++ rest)) = (tokens rest).map ([.flag b] ++ ·) := by
      intro c name hword hspace hmark hquote
      rw [tokens, if_neg (by rw [hspace]; exact Bool.false_ne_true),
        if_neg (by rw [hmark]; exact Bool.false_ne_true), if_neg hquote]
      split
      · next hnone => cases hnone.symm.trans hword
      · next hsome =>
        cases hsome.symm.trans hword
        rfl
    cases b with
    | false => exact hread 'f' "alse".toList rfl rfl rfl (by decide)
    | true => exact hread 't' "rue".toList rfl rfl rfl (by decide)

/-- Texts with a comma, and perhaps whitespace, between them. -/
theorem intercalate {sep : List Char} (hsep : Lexes sep [.mark ',']) {texts : List (List Char)}
    {tss : List (List Token)} (h : List.Forall₂ Lexes texts tss) :
    Lexes (sep.intercalate texts) ([Token.mark ','].intercalate tss) := by
  induction h with
  | nil => exact nil
  | @cons text ts texts tss ht hrest ih =>
    cases hrest with
    | nil =>
      rw [List.intercalate_singleton, List.intercalate_singleton]
      exact ht
    | cons =>
      rw [List.intercalate_cons_cons, List.intercalate_cons_cons]
      exact (ht.append hsep).append ih

theorem lead (layout : Layout) (depth : Nat) : Lexes (layout.lead depth) [] := by
  refine spaces ?_
  cases layout with
  | oneLine => exact List.forall_mem_nil _
  | lines width =>
    rw [Layout.lead, List.forall_mem_cons]
    exact ⟨rfl, fun c hc => by rw [(List.mem_replicate.1 hc).2]; rfl⟩

theorem between (layout : Layout) (depth : Nat) : Lexes (layout.between depth) [.mark ','] := by
  have hcomma : Lexes [','] [.mark ','] := mark rfl rfl
  cases layout with
  | oneLine => exact hcomma.append (space rfl)
  | lines width => exact hcomma.append (lead (.lines width) depth)

theorem enclose (layout : Layout) (depth : Nat) {opening closing : Char}
    (hopening : Lexes [opening] [.mark opening]) (hclosing : Lexes [closing] [.mark closing])
    {texts : List (List Char)} {tss : List (List Token)} (h : List.Forall₂ Lexes texts tss) :
    Lexes (Json.enclose layout depth opening closing texts)
      (.mark opening :: [Token.mark ','].intercalate tss ++ [.mark closing]) := by
  cases h with
  | nil => exact hopening.append hclosing
  | cons ht hrest =>
    have hinner := (lead layout (depth + 1)).append
      (intercalate (between layout (depth + 1)) (.cons ht hrest))
    have hopened := (hopening.append hinner).append (lead layout depth)
    rw [List.append_nil] at hopened
    have hclosed := hopened.append hclosing
    rw [Json.enclose, if_neg (by simp)]
    simpa only [List.nil_append, List.cons_append, List.append_assoc] using hclosed

end Lexes

mutual

/-- The tokens of plain data. -/
def valueTokens : Plain → List Token
  | .text s => [.text s]
  | .flag b => [.flag b]
  | .texts values =>
    .mark '[' :: [Token.mark ','].intercalate (values.map ([.text ·])) ++ [.mark ']']
  | .mapping entries =>
    .mark '\x7b' :: [Token.mark ','].intercalate (memberTokens entries) ++ [.mark '\x7d']

/-- The tokens of the entries of a mapping. -/
def memberTokens : List (String × Plain) → List (List Token)
  | [] => []
  | (name, v) :: rest => (.text name :: .mark ':' :: valueTokens v) :: memberTokens rest

end

mutual

/-- The tokens of what is written do not depend on its layout. -/
theorem lexes_value (layout : Layout) : ∀ (depth : Nat) (p : Plain),
    Lexes (value layout depth p) (valueTokens p)
  | depth, .text s => .string s
  | depth, .flag b => .flag b
  | depth, .texts values => by
    refine .enclose layout depth (.mark rfl rfl) (.mark rfl rfl) ?_
    rw [List.forall₂_map_left_iff, List.forall₂_map_right_iff, List.forall₂_same]
    exact fun s _ => .string s
  | depth, .mapping entries =>
    .enclose layout depth (.mark rfl rfl) (.mark rfl rfl) (lexes_members layout (depth + 1) entries)

theorem lexes_members (layout : Layout) : ∀ (depth : Nat) (entries : List (String × Plain)),
    List.Forall₂ Lexes (members layout depth entries) (memberTokens entries)
  | _, [] => .nil
  | depth, (name, v) :: rest => by
    have hcolon : Lexes [':', ' '] [.mark ':'] := (Lexes.mark rfl rfl).append (.space rfl)
    have hmember := ((Lexes.string name).append hcolon).append (lexes_value layout depth v)
    exact .cons hmember (lexes_members layout depth rest)

end

/-! ## Values -/

/-- The tokens are a value, whatever follows them. -/
def Reads (ts : List Token) (v : Value) : Prop :=
  ∀ rest, ∃ h, Reader.value (ts ++ rest) = some (v, ⟨rest, h⟩)

/-- The tokens are a member of an object. -/
inductive ReadsMember : List Token → String × Value → Prop
  | intro {name : String} {ts : List Token} {v : Value} (h : Reads ts v) :
    ReadsMember (.text name :: .mark ':' :: ts) (name, v)

theorem items_intercalate {ts : List Token} {v : Value} {tss : List (List Token)}
    {vs : List Value} (hv : Reads ts v) (h : List.Forall₂ Reads tss vs) (rest : List Token) :
    ∃ hleft, items ([Token.mark ','].intercalate (ts :: tss) ++ .mark ']' :: rest) =
      some (v :: vs, ⟨rest, hleft⟩) := by
  induction h generalizing ts v with
  | nil =>
    obtain ⟨hlt, hvalue⟩ := hv (.mark ']' :: rest)
    rw [List.intercalate_singleton, items, hvalue]
    exact ⟨_, rfl⟩
  | @cons us u tss vs hu _ ih =>
    obtain ⟨hmore, hitems⟩ := ih hu
    obtain ⟨hlt, hvalue⟩ := hv
      (.mark ',' :: ([Token.mark ','].intercalate (us :: tss) ++ .mark ']' :: rest))
    rw [List.intercalate_cons_cons, List.append_assoc, List.append_assoc, List.singleton_append,
      items, hvalue]
    simp only [hitems]
    exact ⟨Nat.lt_trans hmore (Nat.lt_of_succ_lt hlt), rfl⟩

theorem members_intercalate {ts : List Token} {m : String × Value} {tss : List (List Token)}
    {ms : List (String × Value)} (hm : ReadsMember ts m) (h : List.Forall₂ ReadsMember tss ms)
    (rest : List Token) :
    ∃ hleft, Reader.members ([Token.mark ','].intercalate (ts :: tss) ++ .mark '\x7d' :: rest) =
      some (m :: ms, ⟨rest, hleft⟩) := by
  induction h generalizing ts m with
  | nil =>
    cases hm with
    | intro hv =>
      obtain ⟨hlt, hvalue⟩ := hv (.mark '\x7d' :: rest)
      rw [List.intercalate_singleton, List.cons_append, List.cons_append, Reader.members, hvalue]
      exact ⟨_, rfl⟩
  | @cons us u tss ms hu _ ih =>
    obtain ⟨hmore, hmembers⟩ := ih hu
    cases hm with
    | intro hv =>
      obtain ⟨hlt, hvalue⟩ := hv
        (.mark ',' :: ([Token.mark ','].intercalate (us :: tss) ++ .mark '\x7d' :: rest))
      rw [List.intercalate_cons_cons, List.append_assoc, List.append_assoc, List.singleton_append,
        List.cons_append, List.cons_append, Reader.members, hvalue]
      simp only [hmembers]
      exact ⟨Nat.lt_trans hmore (Nat.lt_succ_of_lt (Nat.lt_succ_of_lt (Nat.lt_of_succ_lt hlt))),
        rfl⟩

/-! ### Collections -/

theorem reads_text (s : String) : Reads [.text s] (.text s) := fun rest => by
  rw [List.singleton_append, Reader.value]
  exact ⟨_, rfl⟩

theorem reads_flag (b : Bool) : Reads [.flag b] (.flag b) := fun rest => by
  rw [List.singleton_append, Reader.value]
  exact ⟨_, rfl⟩

/-- No item begins with the closing bracket. -/
theorem list_of_items {ts : List Token} {r : List Value × Left ts} (h : items ts = some r) :
    Reader.list ts = some r := by
  unfold Reader.list
  split
  · rw [items, Reader.value] at h
    · cases h
    all_goals simp
  · exact h

/-- No member begins with the closing brace. -/
theorem object_of_members {ts : List Token} {r : List (String × Value) × Left ts}
    (h : Reader.members ts = some r) : Reader.object ts = some r := by
  unfold Reader.object
  split
  · rw [Reader.members] at h
    · cases h
    all_goals simp
  · exact h

theorem reads_list {tss : List (List Token)} {vs : List Value} (h : List.Forall₂ Reads tss vs) :
    Reads (.mark '[' :: [Token.mark ','].intercalate tss ++ [.mark ']']) (.list vs) := fun rest => by
  cases h with
  | nil =>
    rw [List.intercalate_nil, List.cons_append, List.cons_append, List.nil_append,
      List.singleton_append, Reader.value, Reader.list]
    exact ⟨_, rfl⟩
  | @cons ts v tss vs hv h =>
    obtain ⟨hleft, hitems⟩ := items_intercalate hv h rest
    rw [List.cons_append, List.cons_append, List.append_assoc, List.singleton_append, Reader.value,
      list_of_items hitems]
    exact ⟨_, rfl⟩

theorem reads_object {tss : List (List Token)} {ms : List (String × Value)}
    (h : List.Forall₂ ReadsMember tss ms) (hnames : (ms.map Prod.fst).Nodup) :
    Reads (.mark '\x7b' :: [Token.mark ','].intercalate tss ++ [.mark '\x7d']) (.object ms) :=
  fun rest => by
    cases h with
    | nil =>
      rw [List.intercalate_nil, List.cons_append, List.cons_append, List.nil_append,
        List.singleton_append, Reader.value, Reader.object]
      exact ⟨_, rfl⟩
    | @cons ts m tss ms hm h =>
      obtain ⟨hleft, hmembers⟩ := members_intercalate hm h rest
      rw [List.cons_append, List.cons_append, List.append_assoc, List.singleton_append,
        Reader.value, object_of_members hmembers]
      simp only [if_pos hnames]
      exact ⟨Nat.lt_succ_of_lt hleft, rfl⟩

theorem map_fst_ofEntries (entries : List (String × Plain)) :
    (Value.ofEntries entries).map Prod.fst = entries.map Prod.fst := by
  induction entries with
  | nil => rfl
  | cons entry rest ih =>
    obtain ⟨name, v⟩ := entry
    rw [Value.ofEntries, List.map_cons, List.map_cons, ih]

mutual

/-- From its tokens plain data is read as it is, when no name repeats in a mapping. -/
theorem reads_valueTokens : ∀ {p : Plain}, p.Distinct → Reads (valueTokens p) (.ofPlain p)
  | .text s, _ => reads_text s
  | .flag b, _ => reads_flag b
  | .texts values, _ => by
    refine reads_list ?_
    rw [List.forall₂_map_left_iff, List.forall₂_map_right_iff, List.forall₂_same]
    exact fun s _ => reads_text s
  | .mapping entries, .mapping hnames h => by
    rw [← map_fst_ofEntries] at hnames
    exact reads_object (reads_memberTokens h) hnames

theorem reads_memberTokens : ∀ {entries : List (String × Plain)},
    (∀ e ∈ entries, e.2.Distinct) →
      List.Forall₂ ReadsMember (memberTokens entries) (Value.ofEntries entries)
  | [], _ => .nil
  | (name, v) :: rest, h => by
    rw [List.forall_mem_cons] at h
    exact .cons (.intro (reads_valueTokens h.1)) (reads_memberTokens h.2)

end

/-! ## ASCII -/

/-- The text is ASCII. -/
def IsAscii (text : List Char) : Prop :=
  ∀ c ∈ text, c.toNat < 0x80

instance (text : List Char) : Decidable (IsAscii text) :=
  decidable_of_iff ((text.all fun c => c.toNat < 0x80) = true) (by simp [IsAscii])

namespace IsAscii

theorem append {a b : List Char} (ha : IsAscii a) (hb : IsAscii b) : IsAscii (a ++ b) :=
  List.forall_mem_append.2 ⟨ha, hb⟩

theorem cons {c : Char} {text : List Char} (hc : c.toNat < 0x80) (h : IsAscii text) :
    IsAscii (c :: text) :=
  List.forall_mem_cons.2 ⟨hc, h⟩

theorem escapeUnit (n : Nat) : IsAscii (escapeUnit n) :=
  .cons (by decide) (.cons (by decide) fun _ hc => toNat_lt_of_mem_hexPadded hc)

theorem escapeChar (c : Char) : IsAscii (escapeChar c) := by
  have hletter : ∀ d : Char, d.toNat < 0x80 → IsAscii ['\\', d] := fun d hd =>
    .cons (by decide) (.cons hd (List.forall_mem_nil _))
  unfold Json.escapeChar
  split
  · exact hletter _ (by decide)
  split
  · exact hletter _ (by decide)
  split
  · exact hletter _ (by decide)
  split
  · exact hletter _ (by decide)
  split
  · exact hletter _ (by decide)
  split
  · exact hletter _ (by decide)
  split
  · exact hletter _ (by decide)
  split
  · next h => exact .cons (by omega) (List.forall_mem_nil _)
  split
  · exact .escapeUnit _
  · exact .append (.escapeUnit _) (.escapeUnit _)

theorem string (s : String) : IsAscii (Json.string s) := by
  refine .append (.cons (by decide) fun c hc => ?_) (.cons (by decide) (List.forall_mem_nil _))
  obtain ⟨d, -, hd⟩ := List.mem_flatMap.1 hc
  exact escapeChar d c hd

theorem lead (layout : Layout) (depth : Nat) : IsAscii (layout.lead depth) := by
  cases layout with
  | oneLine => exact List.forall_mem_nil _
  | lines width =>
    exact .cons (by decide) fun c hc => by rw [(List.mem_replicate.1 hc).2]; decide

theorem between (layout : Layout) (depth : Nat) : IsAscii (layout.between depth) := by
  cases layout with
  | oneLine => exact .cons (by decide) (.cons (by decide) (List.forall_mem_nil _))
  | lines width => exact .cons (by decide) (.lead (.lines width) depth)

theorem intercalate {sep : List Char} (hsep : IsAscii sep) {texts : List (List Char)}
    (h : ∀ text ∈ texts, IsAscii text) : IsAscii (sep.intercalate texts) := by
  induction texts with
  | nil => exact List.forall_mem_nil _
  | cons text texts ih =>
    rw [List.forall_mem_cons] at h
    cases texts with
    | nil =>
      rw [List.intercalate_singleton]
      exact h.1
    | cons =>
      rw [List.intercalate_cons_cons]
      exact .append (.append h.1 hsep) (ih h.2)

theorem enclose (layout : Layout) (depth : Nat) {opening closing : Char}
    (hopening : opening.toNat < 0x80) (hclosing : closing.toNat < 0x80) {texts : List (List Char)}
    (h : ∀ text ∈ texts, IsAscii text) :
    IsAscii (Json.enclose layout depth opening closing texts) := by
  have hclosed : IsAscii [closing] := .cons hclosing (List.forall_mem_nil _)
  unfold Json.enclose
  split
  · exact .cons hopening hclosed
  · have hinner := intercalate (between layout (depth + 1)) h
    exact .append (.append (.append (.cons hopening (lead layout (depth + 1))) hinner)
      (lead layout depth)) hclosed

end IsAscii

mutual

theorem isAscii_value (layout : Layout) : ∀ (depth : Nat) (p : Plain),
    IsAscii (value layout depth p)
  | depth, .text s => .string s
  | _, .flag true => (by decide : IsAscii "true".toList)
  | _, .flag false => (by decide : IsAscii "false".toList)
  | depth, .texts values => by
    refine .enclose layout depth (by decide) (by decide) ?_
    rw [List.forall_mem_map]
    exact fun s _ => .string s
  | depth, .mapping entries =>
    .enclose layout depth (by decide) (by decide) (isAscii_members layout (depth + 1) entries)

theorem isAscii_members (layout : Layout) : ∀ (depth : Nat) (entries : List (String × Plain)),
    ∀ text ∈ members layout depth entries, IsAscii text
  | _, [] => List.forall_mem_nil _
  | depth, (name, v) :: rest => by
    have hcolon : IsAscii [':', ' '] := by decide
    rw [members, List.forall_mem_cons]
    exact ⟨.append (.append (.string name) hcolon) (isAscii_value layout depth v),
      isAscii_members layout depth rest⟩

end

/-! ## Whole texts -/

/-- **A schema that is written as JSON is read back**, from the whole of the text and in its order,
whatever indentation was asked for; and the text is ASCII. -/
theorem read?_render_toPlain (s : Schema) (indent : Option Int) :
    read? (render (.ofIndent indent) s.toPlain) = some (.ofPlain s.toPlain) ∧
      ∀ c ∈ (render (.ofIndent indent) s.toPlain).toList, c.toNat < 0x80 := by
  have htext : (render (.ofIndent indent) s.toPlain).toList =
      value (.ofIndent indent) 0 s.toPlain := String.toList_ofList
  have htokens := lexes_value (.ofIndent indent) 0 s.toPlain []
  rw [tokens, Option.map_some, List.append_nil] at htokens
  obtain ⟨hlt, hvalue⟩ := reads_valueTokens s.distinct_toPlain []
  refine ⟨?_, ?_⟩
  · rw [read?, htext, htokens]
    simp only [hvalue]
  · rw [htext]
    exact isAscii_value (.ofIndent indent) 0 s.toPlain

end Ipld.Json
