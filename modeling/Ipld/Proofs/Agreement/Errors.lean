import Ipld.Proofs.Agreement.Blame
import Ipld.Proofs.Agreement.Violations

/-!
# The same errors are reported

On a source with tokens the two parsers report errors of the same kind, with two exceptions.  A map
key other than `String` stops the parser at once, but the grammar takes it and may be violated later
(`LateViolation`).  And the grammar calls every `representation` that it does not want an
annotation, while the parser only does so behind a definition and inside an annotation
(`StrayAnnotation`).
-/

namespace Ipld

open Grammar Ipld.Parser

/-- A map key that the grammar takes, but that is not `String`. -/
def OtherKey (t : Token) : Prop :=
  ¬ t.IsKeyword "String" ∧ ((∃ kind : Scalar, t.IsKeyword kind.keyword) ∨ t.IsName)

/-- The error `a` is about a map key that the grammar takes, and the grammar is violated behind it,
at the place `k`. -/
structure LateViolation (ts : List Token) (a : SchemaError) (k : Nat) : Prop where
  key : ∃ j t, j < k ∧ ts[j]? = some t ∧ LeadsTo (ts.take j) (.rule .mapKey) ∧ OtherKey t ∧
    a = .keyType t.value t.line
  violates : Violates ts k

/-- The grammar is violated at the place `k` by the first word of an annotation, which stands
neither behind a complete definition nor inside another annotation. -/
structure StrayAnnotation (ts : List Token) (k : Nat) : Prop where
  violates : Violates ts k
  token : ∃ t, ts[k]? = some t ∧ t.IsKeyword "representation"
  notAfter : ¬ (0 < k ∧ Grammatical (ts.take k))
  notInside : ∀ T ∈ annotationTerminals, ¬ LeadsTo (ts.take k) (.terminal T)

/-- The errors are of the same kind, whatever words describe the tokens wanted and found. -/
def SameKind (a b : SchemaError) : Prop :=
  match a.kind, b.kind with
  | .token _ _, .token _ _ => True
  | k, k' => k = k'

/-- The errors say the same, as far as the two parsers can. -/
structure Agree (a b : SchemaError) : Prop where
  kind : SameKind a b
  token : ∀ wanted found, a.kind = .token wanted found → a.line = b.line
  same : a.kind = .keyType ∨ a.kind = .inlineDefinition → a = b

/-- How the error `a` of the parser and the error `b` of the grammar's parser compare. -/
structure Comparable (ts : List Token) (a b : SchemaError) : Prop where
  late : ∀ k, LateViolation ts a k → Reports ts k b
  stray : (∀ k, ¬ LateViolation ts a k) → ∀ k, StrayAnnotation ts k → b.kind = .representation ∧
    (LeadsTo (ts.take k) (.rule .mapKey) → a.kind = .keyType) ∧
    (¬ LeadsTo (ts.take k) (.rule .mapKey) → ∃ wanted found, a.kind = .token wanted found)
  other : (∀ k, ¬ LateViolation ts a k) → (∀ k, ¬ StrayAnnotation ts k) → Agree a b
  grammatical : Grammatical ts → a = b

theorem SameKind.of_eq {a b : SchemaError} (h : a.kind = b.kind) : SameKind a b := by
  unfold SameKind
  rw [h]
  cases b.kind <;> trivial

theorem Agree.refl (a : SchemaError) : Agree a a :=
  ⟨.of_eq rfl, fun _ _ _ => rfl, fun _ => rfl⟩

/-! ## What the grammar's parser says -/

section Refuse

variable {T : Terminal} {text : String} {line : Int} {wanted : List Terminal}

theorem refuse_representation :
    refuse .representation text line wanted = .misplacedRepresentation line :=
  if_pos (.inl rfl)

theorem refuse_inside (hinside : insideAnnotation wanted = true) :
    refuse T text line wanted = .misplacedRepresentation line :=
  if_pos (.inr hinside)

theorem refuse_body (hT : T = .struct ∨ T = .enum) (hinside : insideAnnotation wanted = false)
    (hlsqb : .lsqb ∈ wanted) : refuse T text line wanted = .inlineDefinition text line := by
  rw [refuse, if_neg, if_pos]
  · exact ⟨by rcases hT with rfl | rfl <;> decide, hlsqb⟩
  · rcases hT with rfl | rfl <;> simp [hinside]

theorem refuse_key (hT : T ≠ .representation) (hinside : insideAnnotation wanted = false)
    (hwanted : .string ∈ wanted ∧ .bool ∈ wanted ∧ .lsqb ∉ wanted) :
    refuse T text line wanted = .keyType text line := by
  rw [refuse, if_neg, if_neg, if_pos hwanted]
  · exact fun h => hwanted.2.2 h.2
  · simp [hT, hinside]

theorem refuse_other (hT : T ≠ .representation) (hinside : insideAnnotation wanted = false)
    (hbody : T = .struct ∨ T = .enum → .lsqb ∉ wanted)
    (hkey : ¬ (.string ∈ wanted ∧ .lsqb ∉ wanted)) :
    ∃ names found, refuse T text line wanted = .unexpectedTerminal names found line := by
  rw [refuse, if_neg, if_neg, if_neg]
  · exact ⟨_, _, rfl⟩
  · exact fun h => hkey ⟨h.1, h.2.2⟩
  · exact fun h => hbody (by simpa using h.1) h.2
  · simp [hT, hinside]

end Refuse

/-! ## Comparing at the place of a violation -/

section Stop

variable {read rest : List Token} {mid : Run (Checked (List (String × Definition)))}
  {a b : SchemaError} (hreads : start.reads read = some mid)
  (hread : ∀ t ∈ rest.head?, mid.read t = none)
  (hnull : rest = [] → nullable mid.needs = false)
  (hb : complaint (expected mid.needs) rest.head? = some b)

include hreads hread hnull hb

theorem reports_of_late {k : Nat} (h : LateViolation (read ++ rest) a k) :
    Reports (read ++ rest) k b := by
  rw [h.violates.unique (violates_of_reads hreads hread hnull)]
  exact reports_of_reads hreads hb

theorem comparable_of_late {k : Nat} (h : LateViolation (read ++ rest) a k) :
    Comparable (read ++ rest) a b where
  late _ hlate := reports_of_late hreads hread hnull hb hlate
  stray hno := absurd h (hno k)
  other hno := absurd h (hno k)
  grammatical hall := absurd h.violates (hall.not_violates k)

theorem comparable_of_stray (hstray : StrayAnnotation (read ++ rest) read.length)
    (hkind : b.kind = .representation)
    (hkey : LeadsTo read (.rule .mapKey) → a.kind = .keyType)
    (hother : ¬ LeadsTo read (.rule .mapKey) → ∃ wanted found, a.kind = .token wanted found) :
    Comparable (read ++ rest) a b where
  late _ hlate := reports_of_late hreads hread hnull hb hlate
  stray _ k hk := by
    rw [hk.violates.unique hstray.violates, List.take_left]
    exact ⟨hkind, hkey, hother⟩
  other _ hno := absurd hstray (hno _)
  grammatical hall := absurd hstray.violates (hall.not_violates _)

theorem comparable_of_agree (hstray : ¬ StrayAnnotation (read ++ rest) read.length)
    (hagree : Agree a b) : Comparable (read ++ rest) a b := by
  have hviolates := violates_of_reads hreads hread hnull
  have hnone : ∀ k, ¬ StrayAnnotation (read ++ rest) k := by
    intro k hk
    rw [hk.violates.unique hviolates] at hk
    exact hstray hk
  exact ⟨fun _ hlate => reports_of_late hreads hread hnull hb hlate,
    fun _ k hk => absurd hk (hnone k), fun _ _ => hagree,
    fun hall => absurd hviolates (hall.not_violates _)⟩

end Stop

/-- Where no annotation is violated, none is stray. -/
theorem not_stray_of_other {read left : List Token} {t : Token}
    (h : ¬ t.IsKeyword "representation") :
    ¬ StrayAnnotation (read ++ t :: left) read.length := by
  intro hstray
  obtain ⟨u, hu, hrep⟩ := hstray.token
  rw [List.getElem?_append_right (Nat.le_refl _), Nat.sub_self] at hu
  cases hu
  exact h hrep

theorem strayAnnotation_of_reads {read left : List Token} {t : Token}
    {mid : Run (Checked (List (String × Definition)))} (hreads : start.reads read = some mid)
    (hread : mid.read t = none) (hinside : insideAnnotation (expected mid.needs) = false)
    (ht : t.IsKeyword "representation") (hnull : read ≠ [] → nullable mid.needs = false) :
    StrayAnnotation (read ++ t :: left) read.length where
  violates := violates_of_reads hreads (by simpa using hread) nofun
  token := ⟨t, by rw [List.getElem?_append_right (Nat.le_refl _), Nat.sub_self]; rfl, ht⟩
  notAfter h := by
    obtain ⟨hpos, hall⟩ := h
    rw [List.take_left] at hall
    obtain ⟨r', hreads', hnull'⟩ := grammatical_iff.1 hall
    cases hreads.symm.trans hreads'
    cases (hnull (List.ne_nil_of_length_pos hpos)).symm.trans hnull'
  notInside T hT hleads := by
    rw [List.take_left] at hleads
    cases hinside.symm.trans (insideAnnotation_of_leadsTo hreads hT hleads)

/-- The grammar's parser fails too, with an error that compares with `a`. -/
def Compares (source : String) (ts : List Token) (a : SchemaError) : Prop :=
  ∃ b, Grammar.parse source = .error (.schema b) ∧ Comparable ts a b

section Source

variable {source : String} {ls : List Lexeme} {read left : List Token}
  {mid : Run (Checked (List (String × Definition)))} {t : Token}
  (hlexemes : lexemes 1 source.toList = (ls, none))
  (hls : List.Forall₂ Token.Lexes (read ++ t :: left) ls)
  (hreads : start.reads read = some mid)

include hlexemes hls hreads

/-- The grammar's parser refuses the token at which the run stops. -/
theorem exists_refuse (hread : mid.read t = none) : ∃ T, t.terminal? = some T ∧
    complaint (expected mid.needs) (some t) =
      some (refuse T t.value t.line (expected mid.needs)) ∧
    Grammar.parse source = .error (.schema (refuse T t.value t.line (expected mid.needs))) := by
  have hstop : ∀ u ∈ (t :: left).head?, mid.read u = none := by simpa using hread
  obtain ⟨b, hb, hparse⟩ := parse_of_stop hreads hlexemes hls hstop nofun
  obtain ⟨T, hT, rfl⟩ := Option.map_eq_some_iff.1 hb
  exact ⟨T, hT, hb, hparse⟩

theorem compares_stray {a : SchemaError} (hread : mid.read t = none)
    (hinside : insideAnnotation (expected mid.needs) = false) (ht : t.IsKeyword "representation")
    (hnull : read ≠ [] → nullable mid.needs = false)
    (hkey : LeadsTo read (.rule .mapKey) → a.kind = .keyType)
    (hother : ¬ LeadsTo read (.rule .mapKey) → ∃ wanted found, a.kind = .token wanted found) :
    Compares source (read ++ t :: left) a := by
  obtain ⟨T, hT, hb, hparse⟩ := exists_refuse hlexemes hls hreads hread
  have hstop : ∀ u ∈ (t :: left).head?, mid.read u = none := by simpa using hread
  cases hT.symm.trans (terminal?_eq (T := .representation) ht)
  refine ⟨_, hparse, comparable_of_stray hreads hstop nofun hb
    (strayAnnotation_of_reads hreads hread hinside ht hnull) ?_ hkey hother⟩
  rw [refuse_representation]
  rfl

theorem compares_agree {a : SchemaError} (hread : mid.read t = none)
    (hstray : ¬ StrayAnnotation (read ++ t :: left) read.length)
    (hagree : ∀ T, t.terminal? = some T → Agree a (refuse T t.value t.line (expected mid.needs))) :
    Compares source (read ++ t :: left) a := by
  obtain ⟨T, hT, hb, hparse⟩ := exists_refuse hlexemes hls hreads hread
  have hstop : ∀ u ∈ (t :: left).head?, mid.read u = none := by simpa using hread
  exact ⟨_, hparse, comparable_of_agree hreads hstop nofun hb hstray (hagree T hT)⟩

theorem compares_unexpected {wanted found : String} (h : Unexplained mid t)
    (hannotated : read ≠ [] → t.IsKeyword "representation" → nullable mid.needs = false) :
    Compares source (read ++ t :: left) (.unexpectedToken wanted found t.line) := by
  obtain ⟨hread, hinside, hkey, hbody⟩ := h
  by_cases ht : t.IsKeyword "representation"
  · refine compares_stray hlexemes hls hreads hread hinside ht (fun hne => hannotated hne ht)
      (fun hleads => ?_) fun _ => ⟨_, _, rfl⟩
    obtain ⟨hstring, -, hlsqb⟩ := expected_of_leadsTo_mapKey hreads hleads
    exact absurd ⟨hstring, hlsqb⟩ hkey
  · refine compares_agree hlexemes hls hreads hread (not_stray_of_other ht) fun T hT => ?_
    have hT' : T ≠ .representation := by
      rintro rfl
      exact ht (Token.terminal?_eq_some_iff.1 hT)
    have hbody' : T = .struct ∨ T = .enum → .lsqb ∉ expected mid.needs := by
      rintro (rfl | rfl)
      · exact hbody (.inl (Token.terminal?_eq_some_iff.1 hT))
      · exact hbody (.inr (Token.terminal?_eq_some_iff.1 hT))
    have hother : ∃ names found, refuse T t.value t.line (expected mid.needs) =
        .unexpectedTerminal names found t.line := refuse_other hT' hinside hbody' hkey
    obtain ⟨names, found', hrefuse⟩ := hother
    rw [hrefuse]
    exact ⟨trivial, fun _ _ _ => rfl, by rintro (h | h) <;> cases h⟩

theorem compares_key (hread : mid.read t = none) (hleads : LeadsTo read (.rule .mapKey))
    (hinside : insideAnnotation (expected mid.needs) = false)
    (hnull : nullable mid.needs = false) :
    Compares source (read ++ t :: left) (.keyType t.value t.line) := by
  by_cases ht : t.IsKeyword "representation"
  · exact compares_stray hlexemes hls hreads hread hinside ht (fun _ => hnull) (fun _ => rfl)
      fun hother => absurd hleads hother
  · refine compares_agree hlexemes hls hreads hread (not_stray_of_other ht) fun T hT => ?_
    have hT' : T ≠ .representation := by
      rintro rfl
      exact ht (Token.terminal?_eq_some_iff.1 hT)
    rw [refuse_key hT' hinside (expected_of_leadsTo_mapKey hreads hleads)]
    exact .refl _

theorem compares_body (hread : mid.read t = none) (hleads : LeadsTo read (.rule .node))
    (hinside : insideAnnotation (expected mid.needs) = false) (ht : BeginsBody t) :
    Compares source (read ++ t :: left) (.inlineDefinition t.value t.line) := by
  have hterminal := terminal?_of_beginsBody ht
  have hrep : ¬ t.IsKeyword "representation" := by
    intro hrep
    rcases hterminal with hterminal | hterminal
    · cases hterminal.symm.trans (terminal?_eq (T := .representation) hrep)
    · cases hterminal.symm.trans (terminal?_eq (T := .representation) hrep)
  refine compares_agree hlexemes hls hreads hread (not_stray_of_other hrep) fun T hT => ?_
  have hT' : T = .struct ∨ T = .enum := by
    rcases hterminal with hterminal | hterminal
    · exact .inl (Option.some.inj (hT.symm.trans hterminal))
    · exact .inr (Option.some.inj (hT.symm.trans hterminal))
  rw [refuse_body hT' hinside (expected_of_leadsTo_node hreads hleads)]
  exact .refl _

theorem compares_extra (hread : mid.read t = none) (hne : read ≠ [])
    (hnull : nullable mid.needs = true) (ht : t.IsKeyword "representation") (name : String) :
    Compares source (read ++ t :: left) (.unsupportedRepresentation name t.line) := by
  refine compares_agree hlexemes hls hreads hread (fun hstray => ?_) fun T hT => ?_
  · have hafter := hstray.notAfter
    rw [List.take_left] at hafter
    exact hafter ⟨List.length_pos_iff.2 hne, grammatical_iff.2 ⟨mid, hreads, hnull⟩⟩
  · cases hT.symm.trans (terminal?_eq (T := .representation) ht)
    rw [refuse_representation]
    exact ⟨.of_eq rfl, nofun, by rintro (h | h) <;> cases h⟩

end Source

/-- Inside an annotation, whatever is wrong is called a fault of the annotation. -/
theorem kind_of_complaint {wanted : List Terminal} {next : Option Token} {e : SchemaError}
    (hinside : insideAnnotation wanted = true) (h : complaint wanted next = some e) :
    e.kind = .representation := by
  cases next with
  | none =>
    cases h
    rw [refuseEnd, if_pos hinside]
    rfl
  | some t =>
    obtain ⟨T, -, rfl⟩ := Option.map_eq_some_iff.1 h
    rw [refuse_inside hinside]
    rfl

theorem compares_inside {source : String} {ls : List Lexeme} {read rest : List Token}
    {mid : Run (Checked (List (String × Definition)))} {T : Terminal} {a : SchemaError}
    (hlexemes : lexemes 1 source.toList = (ls, none))
    (hls : List.Forall₂ Token.Lexes (read ++ rest) ls) (hreads : start.reads read = some mid)
    (hread : ∀ t ∈ rest.head?, mid.read t = none) (hnull : nullable mid.needs = false)
    (hT : T ∈ annotationTerminals) (hleads : LeadsTo read (.terminal T))
    (hkind : a.kind = .representation) : Compares source (read ++ rest) a := by
  obtain ⟨b, hb, hparse⟩ := parse_of_stop hreads hlexemes hls hread fun _ => hnull
  have hbkind := kind_of_complaint (insideAnnotation_of_leadsTo hreads hT hleads) hb
  refine ⟨b, hparse, comparable_of_agree hreads hread (fun _ => hnull) hb (fun hstray => ?_) ?_⟩
  · have hinside := hstray.notInside T hT
    rw [List.take_left] at hinside
    exact hinside hleads
  · refine ⟨.of_eq (hkind.trans hbkind.symm), fun wanted found h => ?_, ?_⟩
    · cases hkind.symm.trans h
    · rintro (h | h)
      · cases hkind.symm.trans h
      · cases hkind.symm.trans h

theorem compares_ended {source : String} {ls : List Lexeme} {ts : List Token}
    {mid : Run (Checked (List (String × Definition)))}
    (hlexemes : lexemes 1 source.toList = (ls, none)) (hls : List.Forall₂ Token.Lexes ts ls)
    (hreads : start.reads ts = some mid) (hnull : nullable mid.needs = false)
    (hinside : insideAnnotation (expected mid.needs) = false) (line : Option Int) :
    Compares source ts (.endOfInput line) := by
  rw [← List.append_nil ts] at hls ⊢
  obtain ⟨b, hb, hparse⟩ := parse_of_stop hreads hlexemes hls nofun fun _ => hnull
  refine ⟨b, hparse, comparable_of_agree hreads nofun (fun _ => hnull) hb (fun hstray => ?_) ?_⟩
  · obtain ⟨t, ht, -⟩ := hstray.token
    simp at ht
  · cases hb
    rw [refuseEnd, hinside]
    exact ⟨.of_eq rfl, nofun, by rintro (h | h) <;> cases h⟩

/-! ## Keys that the grammar takes -/

theorem otherKey_of_read {needs : List Symbol}
    {finish : Values (.rule .mapKey :: needs) → Checked (List (String × Definition))} {t : Token}
    {r : Run (Checked (List (String × Definition)))} (ht : ¬ t.IsKeyword "String")
    (h : Run.read ⟨.rule .mapKey :: needs, finish⟩ t = some r) : OtherKey t := by
  obtain ⟨T, hmem, hT, -⟩ := exists_of_read_key h
  have his : t.is T.kind T.word? = true := Token.terminal?_eq_some_iff.1 hT
  refine ⟨ht, ?_⟩
  rcases cases_of_mem_leads_mapKey hmem with rfl | rfl | rfl | rfl | rfl | rfl
  · exact absurd his ht
  · exact .inl ⟨.bool, his⟩
  · exact .inl ⟨.bytes, his⟩
  · exact .inl ⟨.int, his⟩
  · exact .inl ⟨.float, his⟩
  · exact .inr his

theorem lateViolation_of_read {read left : List Token} {t : Token}
    {mid next : Run (Checked (List (String × Definition)))} {k : Nat}
    (hreads : start.reads read = some mid) (hread : mid.read t = some next)
    (hleads : LeadsTo read (.rule .mapKey)) (ht : OtherKey t)
    (hk : Violates (read ++ t :: left) k) :
    LateViolation (read ++ t :: left) (.keyType t.value t.line) k := by
  refine ⟨⟨read.length, t, ?_, ?_, ?_, ht, rfl⟩, hk⟩
  · by_contra hle
    have hgo : CanGoOn ((read ++ t :: left).take (read.length + 1)) := by
      rw [List.take_length_add_append, List.take_succ_cons, List.take_zero]
      refine canGoOn_iff.2 ⟨next, ?_⟩
      rw [Run.reads_append, hreads, Option.bind_some, Run.reads, hread]
      rfl
    refine hk.token ?_ (hgo.take ?_)
    · simp only [List.length_append, List.length_cons]
      omega
    · omega
  · rw [List.getElem?_append_right (Nat.le_refl _), Nat.sub_self]
    rfl
  · rwa [List.take_left]

theorem line_of_lexes {ts : List Token} {ls : List Lexeme} (hls : List.Forall₂ Token.Lexes ts ls)
    {t : Token} (ht : t ∈ ts) : (t.line.toNat : Int) = t.line := by
  induction hls with
  | nil => cases ht
  | cons hl _ ih =>
    rcases List.mem_cons.1 ht with rfl | ht
    · rw [hl.line, Int.toNat_natCast]
    · exact ih ht

theorem mem_of_schema_key {ts rest : List Token} {t : Token}
    (h : schema ts = .fail (.key t) rest) : t ∈ ts := by
  rcases blames_of_schema h with ⟨u, left, -, -, -, heq⟩ | ⟨-, r, ⟨taken, mid, rfl, -, -⟩, hblames⟩
  · cases heq
  · cases hblames
    exact List.mem_append_right _ (List.mem_cons_self ..)

/-! ## Whole lists -/

section Whole

variable {source : String} {ls : List Lexeme} {ts rest : List Token} {why : Failure}
  (hlexemes : lexemes 1 source.toList = (ls, none))

include hlexemes

/-- When the grammar is nowhere violated, both report the first bad key. -/
theorem compares_of_grammatical (hls : List.Forall₂ Token.Lexes ts ls)
    (h : schema ts = .fail why rest) {r : Run (Checked (List (String × Definition)))}
    (hreads : start.reads ts = some r) (hnull : nullable r.needs = true) (last : Option Int) :
    ∃ a, why.report last = .schema a ∧ Compares source ts a := by
  have hall : Grammatical ts := grammatical_iff.2 ⟨r, hreads, hnull⟩
  obtain ⟨value, hclose⟩ : ∃ value, close r.needs r.finish = some value :=
    Option.isSome_iff_exists.1 (by rw [isSome_close, hnull])
  have hcompletes : start.Completes ts value := ⟨r, hreads, hclose⟩
  obtain ⟨t, rfl, rfl⟩ := eq_of_completes_of_schema h hcompletes
  have hparse : Grammar.parse source = .error (.schema (.keyType t.value t.line)) := by
    rw [parse_of_lexemes hlexemes, (over_eq_complete_iff hls).2 hcompletes,
      line_of_lexes hls (mem_of_schema_key h)]
  exact ⟨_, rfl, _, hparse, fun k hk => absurd hk.violates (hall.not_violates k),
    fun _ k hk => absurd hk.violates (hall.not_violates k), fun _ _ => .refl _, fun _ => rfl⟩

theorem compares_of_late {read left : List Token} {t : Token}
    {mid next : Run (Checked (List (String × Definition)))}
    (hls : List.Forall₂ Token.Lexes (read ++ t :: left) ls) (hreads : start.reads read = some mid)
    (hread : mid.read t = some next) (hleads : LeadsTo read (.rule .mapKey)) (ht : OtherKey t)
    (hno : ¬ Grammatical (read ++ t :: left)) :
    Compares source (read ++ t :: left) (.keyType t.value t.line) := by
  rcases exists_stop start (read ++ t :: left) with
    ⟨r, hr, hnull⟩ | ⟨read', rest', mid', hts, hreads', hread', hnull'⟩
  · exact absurd (grammatical_iff.2 ⟨r, hr, hnull⟩) hno
  · have hk := violates_of_reads hreads' hread' hnull'
    rw [← hts] at hk
    have hlate := lateViolation_of_read hreads hread hleads ht hk
    rw [hts] at hls hlate ⊢
    obtain ⟨b, hb, hparse⟩ := parse_of_stop hreads' hlexemes hls hread' hnull'
    exact ⟨b, hparse, comparable_of_late hreads' hread' hnull' hb hlate⟩

/-- Where the parser fails, the grammar's run is at the same token, and what the grammar says there
depends on the cause of the failure. -/
theorem compares_of_blames {read rest : List Token}
    {mid r : Run (Checked (List (String × Definition)))}
    (hls : List.Forall₂ Token.Lexes (read ++ rest) ls) (hreads : start.reads read = some mid)
    (hskips : mid.Skips (next? rest) r) (hblames : Blames r rest why)
    (hnext : check .keyword (some "representation") (read ++ rest) = false)
    (hno : ¬ Grammatical (read ++ rest)) (last : Option Int) :
    ∃ a, why.report last = .schema a ∧ Compares source (read ++ rest) a := by
  cases hblames with
  | ended hnull hinside =>
    rw [List.append_nil] at hls ⊢
    exact ⟨_, rfl, compares_ended hlexemes hls hreads (hskips.nullable_eq.trans hnull)
      (hskips.insideAnnotation_eq_false hinside) last⟩
  | @unexpected _ t _ _ _ hother hinside hkey hbody hannotated =>
    have h : Unexplained mid t :=
      .of_skips hskips ⟨Run.read_eq_none hother, hinside, hkey, hbody⟩
    exact ⟨_, rfl, compares_unexpected hlexemes hls hreads h
      fun _ ht => hskips.nullable_eq.trans (hannotated ht)⟩
  | @key needs _ t _ _ ht =>
    have hleads : LeadsTo read (.rule .mapKey) := (leadsTo_iff hreads).2 ⟨needs, hskips.derives⟩
    cases hread : mid.read t with
    | none =>
      exact ⟨_, rfl, compares_key hlexemes hls hreads hread hleads
        (hskips.insideAnnotation_eq_false rfl) hskips.nullable_eq⟩
    | some next =>
      have hother : OtherKey t := otherKey_of_read ht (hskips.read_eq.symm.trans hread)
      exact ⟨_, rfl, compares_of_late hlexemes hls hreads hread hleads hother hno⟩
  | @body needs _ t _ ht =>
    have hleads : LeadsTo read (.rule .node) := (leadsTo_iff hreads).2 ⟨needs, hskips.derives⟩
    have hread : mid.read t = none := hskips.read_eq.trans (read_eq_none_of_body ht)
    exact ⟨_, rfl, compares_body hlexemes hls hreads hread hleads
      (hskips.insideAnnotation_eq_false rfl) ht⟩
  | extra _ ht =>
    have hne : read ≠ [] := by
      rintro rfl
      cases hnext.symm.trans ht
    have hread := hskips.read_eq.trans (read_eq_none_of_annotated ht)
    exact ⟨_, rfl, compares_extra hlexemes hls hreads hread hne hskips.nullable_eq ht _⟩
  | broken hfinish ht hbegins =>
    obtain ⟨begun, left, T, needs, f, heq, hT, hreads', -, -, hleft⟩ :=
      exists_begun hreads hskips hfinish ht hbegins
    rw [heq, ← List.append_assoc] at hls ⊢
    have hleads : LeadsTo (read ++ begun) (.terminal T) := (leadsTo_iff hreads').2 ⟨_, .refl _⟩
    exact ⟨_, rfl, compares_inside hlexemes hls hreads' (read_eq_none_of_check hleft) rfl hT hleads
      rfl⟩

theorem compares_of_schema (hls : List.Forall₂ Token.Lexes ts ls) (h : schema ts = .fail why rest)
    (last : Option Int) : ∃ a, why.report last = .schema a ∧ Compares source ts a := by
  by_cases hall : Grammatical ts
  · obtain ⟨r, hreads, hnull⟩ := grammatical_iff.1 hall
    exact compares_of_grammatical hlexemes hls h hreads hnull last
  rcases blames_of_schema h with ⟨t, left, rfl, rfl, ht, rfl⟩ | ⟨hnext, r, hpass, hblames⟩
  · have hstart : start.reads [] = some start := rfl
    exact ⟨_, rfl, compares_unexpected hlexemes hls hstart (unexplained_start ht)
      fun hne => absurd rfl hne⟩
  · obtain ⟨read, mid, rfl, hreads, hskips⟩ := hpass
    exact compares_of_blames hlexemes hls hreads hskips hblames hnext hall last

end Whole

/-- **Both parsers refuse a source with errors of the same kind**, but for late violations and stray
annotations. -/
theorem exists_comparable_of_parse {source : String} {ts : List Token} {e : Fault}
    (htokens : tokenize source = .ok ts) (h : parse source = .error e) :
    ∃ a b, e = .schema a ∧ Grammar.parse source = .error (.schema b) ∧ Comparable ts a b := by
  obtain ⟨ls, hlexemes, hls⟩ := lexemes_of_tokenize_eq_ok htokens
  have htokens' : parseTokens ts = .error e := by
    rwa [parse, htokens] at h
  obtain ⟨why, rest, hschema, rfl⟩ := parseTokens_eq_error_iff.1 htokens'
  obtain ⟨a, hreport, b, hparse, hcompare⟩ := compares_of_schema hlexemes hls hschema _
  exact ⟨a, b, hreport, hparse, hcompare⟩

/-- A map with a key that the grammar takes, and nothing where its values should be described. -/
def lateKey : List Token :=
  [⟨.keyword, "type", 1⟩, ⟨.identifier, "A", 1⟩, ⟨.symbol, "\x7b", 1⟩, ⟨.keyword, "Int", 1⟩,
    ⟨.symbol, ":", 1⟩, ⟨.symbol, "\x7d", 1⟩]

theorem tokenize_lateKey : tokenize "type A \x7bInt:\x7d" = .ok lateKey := by
  cbv

theorem parse_lateKey :
    parse "type A \x7bInt:\x7d" = .error (.schema (.keyType "Int" 1)) := by
  have htokens : parseTokens lateKey = .error (.schema (.keyType "Int" 1)) := by
    rw [parseTokens_eq, schema, lateKey, declarations_cons]
    cbv
  rw [parse, tokenize_lateKey]
  exact htokens

theorem lateViolation_lateKey : LateViolation lateKey (.keyType "Int" 1) 5 := by
  have hkey : start.reads (lateKey.take 3) = some _ := rfl
  have hvalue : start.reads (lateKey.take 5) = some _ := rfl
  have hleads : LeadsTo (lateKey.take 3) (.rule .mapKey) := (leadsTo_iff hkey).2 ⟨_, .refl _⟩
  have hother : OtherKey ⟨.keyword, "Int", 1⟩ := ⟨by decide, .inl ⟨.int, by decide⟩⟩
  have hviolates : Violates (lateKey.take 5 ++ lateKey.drop 5) 5 := by
    refine violates_of_reads hvalue ?_ nofun
    rintro t ht
    cases ht
    rfl
  exact lateViolation_of_read hkey rfl hleads hother hviolates

/-- The parser stops at the key, and the grammar's parser at the missing node. -/
theorem reports_lateKey :
    tokenize "type A \x7bInt:\x7d" = .ok lateKey ∧
      parse "type A \x7bInt:\x7d" = .error (.schema (.keyType "Int" 1)) ∧
      ∃ b, Grammar.parse "type A \x7bInt:\x7d" = .error (.schema b) ∧ Reports lateKey 5 b := by
  obtain ⟨a, b, ha, hb, hcompare⟩ := exists_comparable_of_parse tokenize_lateKey parse_lateKey
  cases ha
  exact ⟨tokenize_lateKey, parse_lateKey, b, hb, hcompare.late 5 lateViolation_lateKey⟩

end Ipld
