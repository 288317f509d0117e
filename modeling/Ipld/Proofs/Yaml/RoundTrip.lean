import Ipld.Proofs.Plain.Blankless
import Ipld.Proofs.Plain.Distinct
import Ipld.Proofs.Schema.Source
import Ipld.Proofs.Yaml.Scanning

/-!
# YAML read back

What is written as YAML is cut into tokens whose columns are those of the blocks around them,
wherever long texts are folded and whichever keys are long.  From the columns the mapping is read
that was written: what stands under a key is to the right of it, or is a list that begins in its
column.
-/

namespace Ipld.Yaml

open Reader Text

/-! ## The tokens of plain data -/

/-- The tokens of a list at column `c`. -/
def itemTokens (c : Nat) : List String → List Reader.Token
  | [] => []
  | s :: rest => ⟨c, .item⟩ :: ⟨c + 2, .scalar (.text s)⟩ :: itemTokens c rest

mutual

/-- The tokens of the entries of a mapping at column `c`. -/
def blockTokens (c : Nat) : List (String × Plain) → List Reader.Token
  | [] => []
  | (key, v) :: rest =>
    (if key.length ≤ simpleKeyLimit then
      ⟨c, .key (.text key)⟩ :: valueTokens c c (c + (keyScalar key).length + 2) v
    else
      ⟨c, .question⟩ :: ⟨c + 2, .scalar (.text key)⟩ :: ⟨c, .value⟩ ::
        valueTokens c (c + 2) (c + 2) v) ++
      blockTokens c rest

/-- The tokens of a value in a mapping at column `c`.  A list that is not empty begins at column
`l`; what stands on the line of the colon, at column `d`. -/
def valueTokens (c l d : Nat) : Plain → List Reader.Token
  | .text s => [⟨d, .scalar (.text s)⟩]
  | .flag b => [⟨d, .scalar (.flag b)⟩]
  | .texts [] => [⟨d, .emptyList⟩]
  | .texts (s :: rest) => itemTokens l (s :: rest)
  | .mapping [] => [⟨d, .emptyMapping⟩]
  | .mapping (e :: rest) => blockTokens (c + 2) (e :: rest)

end

/-! ## Texts that are cut into tokens -/

/-- The text is cut into the tokens, whatever lines follow it. -/
def Scans (fresh : Bool) (column : Nat) (text : List Char) (ts : List Reader.Token) : Prop :=
  ∀ rest, tokens fresh column (text ++ '\n' :: rest) = (tokens true 1 rest).map (ts ++ ·)

/-- Further lines, or none. -/
inductive Lines : List Char → List Reader.Token → Prop
  | nil : Lines [] []
  | cons {text : List Char} {ts : List Reader.Token} (h : Scans true 1 text ts) :
    Lines ('\n' :: text) ts

section Scans

variable {fresh : Bool} {column : Nat} {text more : List Char} {ts us : List Reader.Token}

theorem Scans.nil : Scans fresh column [] [] := fun rest => by
  rw [List.nil_append, tokens_newline]
  simp

theorem Lines.scans (h : Lines text ts) : Scans fresh column text ts := by
  cases h with
  | nil => exact .nil
  | cons h => exact fun rest => by rw [List.cons_append, tokens_newline, h rest]

theorem Scans.append (h : Scans fresh column text ts) (hmore : Lines more us) :
    Scans fresh column (text ++ more) (ts ++ us) := by
  cases hmore with
  | nil =>
    rw [List.append_nil, List.append_nil]
    exact h
  | cons hmore =>
    intro rest
    rw [List.append_assoc, List.cons_append, h, hmore, Option.map_map]
    simp only [Function.comp_def, List.append_assoc]

theorem Scans.blank (h : Scans fresh (column + 1) text ts) : Scans fresh column (' ' :: text) ts :=
  fun rest => by rw [List.cons_append, tokens_blank, h]

/-- A block goes on in a new line. -/
theorem Scans.newLine {indent : Nat} (h : Scans true (indent + 1) text ts) :
    Lines (newLine indent ++ text) ts := by
  rw [Yaml.newLine, List.cons_append]
  refine .cons fun rest => ?_
  rw [List.append_assoc, tokens_blanks, Nat.add_comm, h]

theorem Scans.indicator {c : Char} {mark : Mark} (hc : indicator? c = some mark)
    (h : Scans true (column + 2) text ts) :
    Scans true column ([c, ' '] ++ text) (⟨column, mark⟩ :: ts) := fun rest => by
  rw [List.cons_append, List.cons_append, tokens_indicator hc column rfl, List.singleton_append,
    List.cons_append, tokens_blank, h, Option.map_map]
  rfl

theorem Scans.content {mark : Mark}
    (h : ∀ rest, ∃ key, content (text ++ '\n' :: rest) = some (mark, key, '\n' :: rest)) :
    Scans fresh column text [⟨column, mark⟩] := fun rest => by
  obtain ⟨key, hcontent⟩ := h rest
  exact tokens_content hcontent fresh column

theorem Scans.word {w : List Char} (hword : isAsciiWord w = true) (hne : w ≠ []) :
    Scans fresh column w [⟨column, .scalar (resolve w)⟩] :=
  .content fun _ => ⟨_, content_word hword hne (.inl rfl)⟩

theorem Scans.scalar (indent start : Nat) {s : String} (h : ' ' ∉ s.toList) :
    Scans fresh column (scalar indent start s) [⟨column, .scalar (.text s)⟩] :=
  .content fun _ => exists_content_scalar indent start h (.inl rfl)

theorem Scans.key (name : String)
    (h : Scans false (column + (keyScalar name).length + 1) text ts)
    (htext : ∀ rest, endsWord (text ++ '\n' :: rest) = true) :
    Scans true column (keyScalar name ++ [':'] ++ text) (⟨column, .key (.text name)⟩ :: ts) := by
  intro rest
  have hended : Ended (':' :: (text ++ '\n' :: rest)) := .inr ⟨_, rfl, htext rest⟩
  have hcontent := content_keyScalar name hended
  have hcolumn : column + ((keyScalar name ++ ':' :: (text ++ '\n' :: rest)).length -
      (text ++ '\n' :: rest).length) = column + (keyScalar name).length + 1 := by
    simp only [List.length_append, List.length_cons]
    omega
  rw [List.append_assoc, List.append_assoc, List.singleton_append,
    tokens_key hcontent (htext rest), hcolumn, h, Option.map_map]
  rfl

end Scans

theorem resolve_true : resolve "true".toList = .flag true := by
  rw [resolve]
  exact if_pos (by decide)

theorem resolve_false : resolve "false".toList = .flag false := by
  rw [resolve]
  exact (if_neg (by decide)).trans (if_pos (by decide))

theorem Scans.flag {fresh : Bool} {column : Nat} (b : Bool) :
    Scans fresh column (if b then "true".toList else "false".toList)
      [⟨column, .scalar (.flag b)⟩] := by
  cases b with
  | true =>
    have h : Scans fresh column "true".toList _ := .word (by decide) (by decide)
    rwa [resolve_true] at h
  | false =>
    have h : Scans fresh column "false".toList _ := .word (by decide) (by decide)
    rwa [resolve_false] at h

theorem Scans.emptyList {fresh : Bool} {column : Nat} :
    Scans fresh column "[]".toList [⟨column, .emptyList⟩] :=
  .content fun _ => ⟨_, rfl⟩

theorem Scans.emptyMapping {fresh : Bool} {column : Nat} :
    Scans fresh column ['\x7b', '\x7d'] [⟨column, .emptyMapping⟩] :=
  .content fun _ => ⟨_, rfl⟩

/-! ## Blocks that are cut into tokens -/

theorem items_false (indent : Nat) (s : String) (rest : List String) :
    items indent false (s :: rest) = newLine indent ++ items indent true (s :: rest) := by
  simp [items]

theorem block_false (indent : Nat) (e : String × Plain) (rest : List (String × Plain)) :
    block indent false (e :: rest) = newLine indent ++ block indent true (e :: rest) := by
  simp [block]

theorem scans_items (indent : Nat) : ∀ values : List String, (∀ s ∈ values, ' ' ∉ s.toList) →
    Scans true (indent + 1) (items indent true values) (itemTokens (indent + 1) values)
  | [], _ => .nil
  | s :: rest, h => by
    rw [List.forall_mem_cons] at h
    have hs : Scans true (indent + 3) (scalar indent (indent + 2) s)
        [⟨indent + 3, .scalar (.text s)⟩] := .scalar indent (indent + 2) h.1
    have hitem := hs.indicator (c := '-') rfl
    have hmore : Lines (items indent false rest) (itemTokens (indent + 1) rest) := by
      cases rest with
      | nil => exact .nil
      | cons t rest =>
        rw [items_false]
        exact (scans_items indent (t :: rest) h.2).newLine
    exact hitem.append hmore

theorem endsWord_simpleValue (indent column : Nat) (v : Plain) (rest : List Char) :
    endsWord (simpleValue indent column v ++ '\n' :: rest) = true := by
  cases v with
  | text s => rfl
  | flag b => cases b <;> rfl
  | texts values =>
    cases values with
    | nil => rfl
    | cons s values => rfl
  | mapping entries =>
    cases entries with
    | nil => rfl
    | cons e entries => rfl

mutual

theorem scans_block (indent : Nat) : ∀ entries : List (String × Plain),
    (Plain.mapping entries).Blankless →
      Scans true (indent + 1) (block indent true entries) (blockTokens (indent + 1) entries)
  | [], _ => .nil
  | (key, v) :: rest, h => by
    obtain ⟨hkey, hv, hrest⟩ := Plain.Blankless.cons_iff.1 h
    -- Only the first entry stands on the line at hand; the others bring their line breaks.
    have hmore : Lines (block indent false rest) (blockTokens (indent + 1) rest) := by
      cases rest with
      | nil => exact .nil
      | cons e rest =>
        rw [block_false]
        exact (scans_block indent (e :: rest) hrest).newLine
    rw [block, blockTokens]
    refine Scans.append ?_ hmore
    by_cases hsimple : key.length ≤ simpleKeyLimit
    · have hcolumn : indent + (keyScalar key).length + 2 =
          indent + 1 + (keyScalar key).length + 1 := by
        omega
      have hvalue := scans_simpleValue indent (indent + (keyScalar key).length + 2) v hv
      rw [hcolumn] at hvalue
      rw [if_pos rfl, if_pos hsimple, if_pos hsimple, List.nil_append]
      simp only [hcolumn]
      exact hvalue.key key (endsWord_simpleValue indent _ v)
    · have hname : Scans true (indent + 3) (scalar indent (indent + 2) key)
          [⟨indent + 3, .scalar (.text key)⟩] := .scalar indent (indent + 2) hkey
      have hvalue := (scans_complexValue indent v hv).indicator (c := ':') rfl
      have hquestion := hname.indicator (c := '?') rfl
      rw [if_pos rfl, if_neg hsimple, if_neg hsimple, List.nil_append]
      simpa using hquestion.append hvalue.newLine

theorem scans_simpleValue (indent column : Nat) : ∀ v : Plain, v.Blankless →
    Scans false column (simpleValue indent column v)
      (valueTokens (indent + 1) (indent + 1) (column + 1) v)
  | .text s, .text h => .blank (.scalar indent column h)
  | .flag b, _ => by
    have h : Scans false (column + 1) (if b then "true".toList else "false".toList) _ := .flag b
    cases b <;> exact h.blank
  | .texts [], _ => .blank .emptyList
  | .texts (s :: rest), .texts h => by
    rw [simpleValue, items_false]
    exact (scans_items indent (s :: rest) h).newLine.scans
  | .mapping [], _ => .blank .emptyMapping
  | .mapping (e :: rest), h => by
    rw [simpleValue, block_false]
    exact (scans_block (indent + 2) (e :: rest) h).newLine.scans

theorem scans_complexValue (indent : Nat) : ∀ v : Plain, v.Blankless →
    Scans true (indent + 3) (complexValue indent v)
      (valueTokens (indent + 1) (indent + 3) (indent + 3) v)
  | .text _, .text h => .scalar indent (indent + 2) h
  | .flag b, _ => .flag b
  | .texts [], _ => .emptyList
  | .texts (s :: rest), .texts h => scans_items (indent + 2) (s :: rest) h
  | .mapping [], _ => .emptyMapping
  | .mapping (e :: rest), h => scans_block (indent + 2) (e :: rest) h

end

/-! ## Tokens that are read as nodes -/

theorem node_item (c : Nat) (rest : List Reader.Token) :
    node (⟨c, .item⟩ :: rest) = (Reader.items c (⟨c, .item⟩ :: rest)).map .list := by
  rw [node]

theorem node_key (c : Nat) (a : Atom) (rest : List Reader.Token) :
    node (⟨c, .key a⟩ :: rest) = (entries c (⟨c, .key a⟩ :: rest)).bind distinct := by
  rw [node]

theorem node_question (c : Nat) (rest : List Reader.Token) :
    node (⟨c, .question⟩ :: rest) = (entries c (⟨c, .question⟩ :: rest)).bind distinct := by
  rw [node]

theorem node_scalar (d : Nat) (a : Atom) : node [⟨d, .scalar a⟩] = some (.atom a) := by
  rw [node]

theorem items_itemTokens (c : Nat) (values : List String) :
    Reader.items c (itemTokens c values) = some (values.map fun s => .atom (.text s)) := by
  induction values with
  | nil => rw [itemTokens, Reader.items, List.map_nil]
  | cons s rest ih =>
    have hinner : (⟨c + 2, .scalar (.text s)⟩ :: itemTokens c rest).takeWhile (c < ·.column) =
        [⟨c + 2, .scalar (.text s)⟩] := by
      cases rest <;> simp [itemTokens]
    have houter : (⟨c + 2, .scalar (.text s)⟩ :: itemTokens c rest).dropWhile (c < ·.column) =
        itemTokens c rest := by
      cases rest <;> simp [itemTokens]
    rw [itemTokens, Reader.items, if_pos rfl, hinner, houter, node_scalar, ih]
    rfl

theorem within_of_lt {c : Nat} {t : Reader.Token} (h : c < t.column) : within c t = true := by
  simp [within, h]

theorem le_of_within {c : Nat} {t : Reader.Token} (h : within c t = true) : c ≤ t.column := by
  simp only [within, Bool.or_eq_true, Bool.and_eq_true, decide_eq_true_eq] at h
  omega

theorem within_of_mem_itemTokens {c l : Nat} (hl : c ≤ l) {values : List String}
    {t : Reader.Token} (h : t ∈ itemTokens l values) : within c t = true := by
  induction values with
  | nil => cases h
  | cons s rest ih =>
    rw [itemTokens, List.mem_cons, List.mem_cons] at h
    rcases h with rfl | rfl | h
    · rcases Nat.lt_or_eq_of_le hl with hlt | rfl
      · exact within_of_lt hlt
      · simp [within]
    · exact within_of_lt (Nat.lt_of_le_of_lt hl (Nat.lt_add_of_pos_right Nat.two_pos))
    · exact ih h

mutual

theorem le_of_mem_blockTokens (c : Nat) : ∀ (es : List (String × Plain)) {t : Reader.Token},
    t ∈ blockTokens c es → c ≤ t.column
  | [], _, h => nomatch h
  | (key, v) :: rest, t, h => by
    rw [blockTokens, List.mem_append] at h
    rcases h with h | h
    · by_cases hsimple : key.length ≤ simpleKeyLimit
      · rw [if_pos hsimple, List.mem_cons] at h
        rcases h with rfl | h
        · exact Nat.le_refl c
        · exact le_of_within (within_of_mem_valueTokens (Nat.le_refl c) (by omega) v h)
      · rw [if_neg hsimple, List.mem_cons, List.mem_cons, List.mem_cons] at h
        rcases h with rfl | rfl | rfl | h
        · exact Nat.le_refl c
        · exact Nat.le_add_right c 2
        · exact Nat.le_refl c
        · exact le_of_within (within_of_mem_valueTokens (by omega) (by omega) v h)
    · exact le_of_mem_blockTokens c rest h

/-- What stands under a key belongs to it. -/
theorem within_of_mem_valueTokens {c l d : Nat} (hl : c ≤ l) (hd : c < d) :
    ∀ (v : Plain) {t : Reader.Token}, t ∈ valueTokens c l d v → within c t = true
  | .text _, _, h => within_of_lt (List.mem_singleton.1 h ▸ hd)
  | .flag _, _, h => within_of_lt (List.mem_singleton.1 h ▸ hd)
  | .texts [], _, h => within_of_lt (List.mem_singleton.1 h ▸ hd)
  | .texts (_ :: _), _, h => within_of_mem_itemTokens hl h
  | .mapping [], _, h => within_of_lt (List.mem_singleton.1 h ▸ hd)
  | .mapping (e :: rest), _, h => by
    have hle := le_of_mem_blockTokens (c + 2) (e :: rest) h
    exact within_of_lt (by omega)

end

/-- An entry belongs to no key at its column. -/
theorem within_of_mem_head?_blockTokens {c : Nat} {es : List (String × Plain)} {t : Reader.Token}
    (h : t ∈ (blockTokens c es).head?) : within c t = false := by
  cases es with
  | nil => cases h
  | cons e rest =>
    rw [blockTokens] at h
    split at h
    · cases h
      simp [within]
    · cases h
      simp [within]

section Under

variable {c : Nat} {ts us : List Reader.Token} (hts : ∀ t ∈ ts, within c t = true)
  (hus : ∀ t ∈ us.head?, within c t = false)

include hts hus

theorem takeWhile_within : (ts ++ us).takeWhile (within c) = ts := by
  rw [List.takeWhile_append_of_pos hts]
  cases us with
  | nil => simp
  | cons u us => simp [hus u rfl]

theorem dropWhile_within : (ts ++ us).dropWhile (within c) = us := by
  rw [List.dropWhile_append_of_pos hts]
  cases us with
  | nil => simp
  | cons u us => simp [hus u rfl]

end Under

theorem entries_key {c : Nat} {a : Atom} {ts us : List Reader.Token} {v : Value}
    {es : List (Atom × Value)} (hts : ∀ t ∈ ts, within c t = true)
    (hus : ∀ t ∈ us.head?, within c t = false) (hv : node ts = some v)
    (hes : entries c us = some es) :
    entries c (⟨c, .key a⟩ :: (ts ++ us)) = some ((a, v) :: es) := by
  rw [entries, if_pos rfl, takeWhile_within hts hus, dropWhile_within hts hus, hv, hes]
  rfl

theorem entries_question {c d : Nat} {a : Atom} {ts us : List Reader.Token} {v : Value}
    {es : List (Atom × Value)} (hd : c < d) (hts : ∀ t ∈ ts, within c t = true)
    (hus : ∀ t ∈ us.head?, within c t = false) (hv : node ts = some v)
    (hes : entries c us = some es) :
    entries c (⟨c, .question⟩ :: ⟨d, .scalar a⟩ :: ⟨c, .value⟩ :: (ts ++ us)) =
      some ((a, v) :: es) := by
  have hkey : ∀ t ∈ [(⟨d, .scalar a⟩ : Reader.Token)], within c t = true := fun t ht =>
    within_of_lt (List.mem_singleton.1 ht ▸ hd)
  -- The key ends at the colon, which stands in the column of the question mark.
  have hvalue : ∀ t ∈ ((⟨c, .value⟩ : Reader.Token) :: (ts ++ us)).head?, within c t = false := by
    simp [within]
  have htake := takeWhile_within hkey hvalue
  have hdrop := dropWhile_within hkey hvalue
  rw [List.singleton_append] at htake hdrop
  rw [entries, if_pos rfl, htake, node_scalar]
  split
  · next heq hmore =>
    cases heq
    cases hmore.symm.trans hdrop
    rw [if_pos rfl, takeWhile_within hts hus, dropWhile_within hts hus, hv, hes]
    rfl
  · next hno =>
    exact (hno _ _ _ rfl hdrop).elim

theorem distinct_ofEntries {es : List (String × Plain)} (h : (es.map Prod.fst).Nodup) :
    distinct (Value.ofEntries es) = some (.mapping (Value.ofEntries es)) := by
  have hkeys : (Value.ofEntries es).map Prod.fst = (es.map Prod.fst).map Atom.text := by
    clear h
    induction es with
    | nil => rfl
    | cons e rest ih =>
      obtain ⟨name, v⟩ := e
      rw [Value.ofEntries, List.map_cons, List.map_cons, List.map_cons, ih]
  rw [distinct, hkeys, if_pos (h.map fun _ _ => Atom.text.inj)]

theorem node_blockTokens {c : Nat} {e : String × Plain} {rest : List (String × Plain)}
    (hnames : ((e :: rest).map Prod.fst).Nodup)
    (h : entries c (blockTokens c (e :: rest)) = some (Value.ofEntries (e :: rest))) :
    node (blockTokens c (e :: rest)) = some (.ofPlain (.mapping (e :: rest))) := by
  have hread : node (blockTokens c (e :: rest)) =
      (entries c (blockTokens c (e :: rest))).bind distinct := by
    rw [blockTokens]
    split
    · exact node_key c _ _
    · exact node_question c _
  rw [hread, h, Option.bind_some, distinct_ofEntries hnames, Value.ofPlain]

mutual

theorem entries_blockTokens (c : Nat) : ∀ es : List (String × Plain), (∀ e ∈ es, e.2.Distinct) →
    entries c (blockTokens c es) = some (Value.ofEntries es)
  | [], _ => by rw [blockTokens, entries, Value.ofEntries]
  | (key, v) :: rest, h => by
    rw [List.forall_mem_cons] at h
    have hes := entries_blockTokens c rest h.2
    have hhead : ∀ t ∈ (blockTokens c rest).head?, within c t = false := fun _ =>
      within_of_mem_head?_blockTokens
    rw [blockTokens, Value.ofEntries]
    by_cases hsimple : key.length ≤ simpleKeyLimit
    · have hv := node_valueTokens c c (c + (keyScalar key).length + 2) v h.1
      have hwithin : ∀ t ∈ valueTokens c c (c + (keyScalar key).length + 2) v, within c t = true :=
        fun _ => within_of_mem_valueTokens (Nat.le_refl c) (by omega) v
      rw [if_pos hsimple, List.cons_append]
      exact entries_key hwithin hhead hv hes
    · have hv := node_valueTokens c (c + 2) (c + 2) v h.1
      have hwithin : ∀ t ∈ valueTokens c (c + 2) (c + 2) v, within c t = true :=
        fun _ => within_of_mem_valueTokens (by omega) (by omega) v
      rw [if_neg hsimple, List.cons_append, List.cons_append, List.cons_append]
      exact entries_question (by omega) hwithin hhead hv hes

theorem node_valueTokens (c l d : Nat) : ∀ v : Plain, v.Distinct →
    node (valueTokens c l d v) = some (.ofPlain v)
  | .text _, _ => by rw [valueTokens, node_scalar, Value.ofPlain]
  | .flag _, _ => by rw [valueTokens, node_scalar, Value.ofPlain]
  | .texts [], _ => by
    rw [valueTokens, node, Value.ofPlain]
    rfl
  | .texts (s :: rest), _ => by
    have hitems := items_itemTokens l (s :: rest)
    rw [itemTokens] at hitems
    rw [valueTokens, itemTokens, node_item, hitems, Value.ofPlain]
    rfl
  | .mapping [], _ => by
    rw [valueTokens, node, Value.ofPlain]
    rfl
  | .mapping (e :: rest), .mapping hnames h => by
    rw [valueTokens]
    exact node_blockTokens hnames (entries_blockTokens (c + 2) (e :: rest) h)

end

/-! ## Whole documents -/

/-- A mapping without blanks and without repeated names is read back from its document. -/
theorem read?_render_mapping {es : List (String × Plain)} (hdistinct : (Plain.mapping es).Distinct)
    (hblankless : (Plain.mapping es).Blankless) :
    read? (render (.mapping es)) = some (.ofPlain (.mapping es)) := by
  obtain ⟨ts, hscans, hnode⟩ : ∃ ts,
      Scans true 1 (if es.isEmpty then ['\x7b', '\x7d'] else block 0 true es) ts ∧
        node ts = some (.ofPlain (.mapping es)) := by
    cases es with
    | nil => exact ⟨_, .emptyMapping, by rw [node, Value.ofPlain]; rfl⟩
    | cons e rest =>
      cases hdistinct with
      | mapping hnames h =>
        exact ⟨_, scans_block 0 (e :: rest) hblankless,
          node_blockTokens hnames (entries_blockTokens 1 (e :: rest) h)⟩
  have htokens := hscans []
  rw [tokens, Option.map_some, List.append_nil] at htokens
  rw [read?, render, String.toList_ofList, document, htokens, Option.bind_some, hnode]

/-- **A schema that is written as YAML is read back**: its names as texts, whatever they look like,
and all entries in their order. -/
theorem read?_render_of_parse {source : String} {s : Schema} (h : parse source = .ok s) :
    read? (render s.toPlain) = some (.ofPlain s.toPlain) :=
  read?_render_mapping s.distinct_toPlain (wellFormed_of_parse h).blankless_toPlain

/-- Names that bare would be a truth value, null and integers, and one that is not ASCII. -/
def lookalikes : Schema :=
  .ofDeclarations [("yes", .enum ["null", "0x1F", "1_000"]),
    ("naïve²", .node (.map (.ref "yes") false) false)]

theorem wellFormed_lookalikes : lookalikes.WellFormed := by
  have hyes : IsIdentifier "yes" := by decide
  have hmembers : (Definition.enum ["null", "0x1F", "1_000"]).WellFormed := by
    have hall : ∀ m ∈ ["null", "0x1F", "1_000"], IsIdentifier m := by decide
    exact hall
  have hmap : (Definition.node (.map (.ref "yes") false) false).WellFormed := ⟨hyes, nofun, nofun⟩
  refine wellFormed_ofDeclarations fun d hd => ?_
  rcases List.mem_pair.1 hd with rfl | rfl
  · exact ⟨hyes, hmembers⟩
  · exact ⟨by decide, hmap⟩

theorem parse_lookalikes :
    parse " type yes enum \x7b null , 0x1F , 1_000 \x7d type naïve² \x7b String : yes \x7d" =
      .ok lookalikes := by
  have hsource : lookalikes.source =
      " type yes enum \x7b null , 0x1F , 1_000 \x7d type naïve² \x7b String : yes \x7d" := by
    decide
  rw [← hsource]
  exact wellFormed_lookalikes.parse_source

theorem read?_render_lookalikes :
    parse " type yes enum \x7b null , 0x1F , 1_000 \x7d type naïve² \x7b String : yes \x7d" =
        .ok lookalikes ∧
      read? (render lookalikes.toPlain) = some (.ofPlain lookalikes.toPlain) :=
  ⟨parse_lookalikes, read?_render_of_parse parse_lookalikes⟩

end Ipld.Yaml
