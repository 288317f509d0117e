import Ipld.Plain.Yaml
import Ipld.Proofs.Layout
import Mathlib.Computability.RegularExpressions

/-!
# What bare words stand for in YAML 1.1

A scalar without quotes is a text only when it has no other reading.  The truth values and null are
fixed words; integers, fractions and dates are given by the regular expressions of YAML 1.1, in the
form in which common readers have them.

A word of letters, digits and underscores can be no fraction and no date, for they hold a point or a
hyphen, and no number to the base sixty, which holds a colon.  The integers that are left are those
that `isInteger` finds.
-/

namespace Ipld.Yaml

open Text RegularExpression

/-! ## Regular expressions -/

/-- Any one of the characters. -/
def oneOf (cs : List Char) : RegularExpression Char :=
  cs.foldr (fun c r => char c + r) 0

/-- The expression or nothing. -/
def optional (r : RegularExpression Char) : RegularExpression Char :=
  1 + r

/-- The expression once or more. -/
def many (r : RegularExpression Char) : RegularExpression Char :=
  r * star r

/-- A character that every match holds, as far as it can be seen from the parts. -/
def holds (c : Char) : RegularExpression Char → Bool
  | .zero => true
  | .epsilon => false
  | .char d => d = c
  | .plus r s => holds c r && holds c s
  | .comp r s => holds c r || holds c s
  | .star _ => false

theorem mem_of_holds {c : Char} {r : RegularExpression Char} (h : holds c r = true)
    {w : List Char} (hw : w ∈ r.matches') : c ∈ w := by
  induction r generalizing w with
  | zero => cases hw
  | epsilon => cases h
  | char d =>
    obtain rfl := of_decide_eq_true h
    cases hw
    exact List.mem_singleton_self _
  | plus r s hr hs =>
    obtain ⟨h₁, h₂⟩ := Bool.and_eq_true_iff.1 h
    rcases hw with hw | hw
    · exact hr h₁ hw
    · exact hs h₂ hw
  | comp r s hr hs =>
    obtain ⟨a, ha, b, hb, rfl⟩ := Language.mem_mul.1 hw
    rw [List.mem_append]
    exact (Bool.or_eq_true_iff.1 h).imp (hr · ha) (hs · hb)
  | star r => cases h

theorem mem_oneOf {cs w : List Char} : w ∈ (oneOf cs).matches' ↔ ∃ c ∈ cs, w = [c] := by
  induction cs with
  | nil => exact ⟨nofun, nofun⟩
  | cons d cs ih =>
    rw [List.exists_mem_cons_iff, ← ih]
    rfl

/-- Repeating one of the characters gives the texts of such characters. -/
theorem mem_star_oneOf {cs w : List Char} (h : w ∈ (star (oneOf cs)).matches') :
    ∀ c ∈ w, c ∈ cs := by
  obtain ⟨words, rfl, hwords⟩ := Language.mem_kstar.1 h
  intro c hc
  obtain ⟨word, hword, hc⟩ := List.mem_flatten.1 hc
  obtain ⟨d, hd, rfl⟩ := mem_oneOf.1 (hwords word hword)
  rwa [List.mem_singleton.1 hc]

theorem mem_many_oneOf {cs w : List Char} (h : w ∈ (many (oneOf cs)).matches') :
    w ≠ [] ∧ ∀ c ∈ w, c ∈ cs := by
  obtain ⟨a, ha, b, hb, rfl⟩ := Language.mem_mul.1 h
  obtain ⟨d, hd, rfl⟩ := mem_oneOf.1 ha
  refine ⟨List.cons_ne_nil _ _, ?_⟩
  rw [List.singleton_append, List.forall_mem_cons]
  exact ⟨hd, mem_star_oneOf hb⟩

/-! ## The readings of bare words -/

def digits : List Char :=
  "0123456789".toList

def digit : RegularExpression Char :=
  oneOf digits

/-- A digit or an underscore. -/
def figure : RegularExpression Char :=
  oneOf ('_' :: digits)

def sign : RegularExpression Char :=
  optional (oneOf ['+', '-'])

/-- Further places of a number to the base sixty. -/
def sixtieths : RegularExpression Char :=
  many (char ':' * (optional (oneOf "012345".toList) * digit))

/-- `[-+]?0b[0-1_]+ | [-+]?0[0-7_]+ | [-+]?(?:0|[1-9][0-9_]*) | [-+]?0x[0-9a-fA-F_]+ |
[-+]?[1-9][0-9_]*(?::[0-5]?[0-9])+` -/
def integer : RegularExpression Char :=
  sign * (char '0' * (char 'b' * many (oneOf "01_".toList))) +
  sign * (char '0' * many (oneOf "01234567_".toList)) +
  sign * (char '0' + oneOf "123456789".toList * star figure) +
  sign * (char '0' * (char 'x' * many (oneOf ("abcdefABCDEF_".toList ++ digits)))) +
  sign * (oneOf "123456789".toList * (star figure * sixtieths))

/-- `(?:[eE][-+][0-9]+)?` -/
def exponent : RegularExpression Char :=
  optional (oneOf ['e', 'E'] * (oneOf ['+', '-'] * many digit))

/-- The word letter by letter. -/
def literal (word : String) : RegularExpression Char :=
  word.toList.foldr (fun c r => char c * r) 1

/-- `[-+]?(?:[0-9][0-9_]*)\.[0-9_]*(?:[eE][-+][0-9]+)? | \.[0-9][0-9_]*(?:[eE][-+][0-9]+)? |
[-+]?[0-9][0-9_]*(?::[0-5]?[0-9])+\.[0-9_]* | [-+]?\.(?:inf|Inf|INF) | \.(?:nan|NaN|NAN)` -/
def fraction : RegularExpression Char :=
  sign * (digit * (star figure * (char '.' * (star figure * exponent)))) +
  char '.' * (digit * (star figure * exponent)) +
  sign * (digit * (star figure * (sixtieths * (char '.' * star figure)))) +
  sign * (char '.' * (literal "inf" + literal "Inf" + literal "INF")) +
  char '.' * (literal "nan" + literal "NaN" + literal "NAN")

/-- One digit or two. -/
def oneOrTwo : RegularExpression Char :=
  digit * optional digit

/-- `(?:[ \t]*(?:Z|[-+][0-9][0-9]?(?::[0-9][0-9])?))?` -/
def timeZone : RegularExpression Char :=
  optional (star (oneOf [' ', '\t']) *
    (char 'Z' + oneOf ['+', '-'] * (oneOrTwo * optional (char ':' * (digit * digit)))))

/-- `[0-9][0-9][0-9][0-9]-[0-9][0-9]-[0-9][0-9] | [0-9][0-9][0-9][0-9]-[0-9][0-9]?-[0-9][0-9]?
(?:[Tt]|[ \t]+)[0-9][0-9]?:[0-9][0-9]:[0-9][0-9](?:\.[0-9]*)?` and a time zone. -/
def timestamp : RegularExpression Char :=
  digit * (digit * (digit * (digit * (char '-' * (digit * (digit * (char '-' * (digit * digit)))))))) +
  digit * (digit * (digit * (digit * (char '-' * (oneOrTwo * (char '-' * (oneOrTwo *
    ((oneOf ['T', 't'] + many (oneOf [' ', '\t'])) * (oneOrTwo * (char ':' * (digit * (digit *
      (char ':' * (digit * (digit * (optional (char '.' * star digit) * timeZone))))))))))))))))

/-- The kinds of scalars that are no texts, truth values or nulls. -/
inductive Tag where
  | integer
  | fraction
  | timestamp
  /-- The key `<<`, which merges mappings. -/
  | merge
  /-- The key `=`, which stands for a default. -/
  | value
  deriving DecidableEq, Repr

/-- A scalar.  Numbers and dates are kept as they are written. -/
inductive Atom where
  | null
  | flag (value : Bool)
  | other (tag : Tag) (written : String)
  | text (value : String)
  deriving DecidableEq, Repr

def truths : List String :=
  ["yes", "Yes", "YES", "true", "True", "TRUE", "on", "On", "ON"]

def falsehoods : List String :=
  ["no", "No", "NO", "false", "False", "FALSE", "off", "Off", "OFF"]

/-- What a scalar without quotes stands for. -/
def resolve (w : List Char) : Atom :=
  let word := String.ofList w
  if word ∈ truths then .flag true
  else if word ∈ falsehoods then .flag false
  else if fraction.rmatch w then .other .fraction word
  else if integer.rmatch w then .other .integer word
  else if word = "<<" then .other .merge word
  else if word ∈ ["~", "null", "Null", "NULL", ""] then .null
  else if timestamp.rmatch w then .other .timestamp word
  else if word = "=" then .other .value word
  else .text word

/-! ## Words that are texts -/

theorem not_mem_of_isAsciiWord {w : List Char} (h : isAsciiWord w = true) {c : Char}
    (hc : isWordChar c = false) : c ∉ w := by
  intro hmem
  have hword := (Bool.and_eq_true_iff.1 (List.all_eq_true.1 h c hmem)).1
  rw [hc] at hword
  cases hword

/-- Without a sign in it, a word that matches behind an optional sign matches by itself. -/
theorem mem_of_mem_sign_mul {r : RegularExpression Char} {w : List Char}
    (hw : w ∈ (sign * r).matches') (hplus : '+' ∉ w) (hminus : '-' ∉ w) : w ∈ r.matches' := by
  obtain ⟨a, ha, b, hb, rfl⟩ := Language.mem_mul.1 hw
  rcases ha with ha | ha
  · cases ha
    exact hb
  · obtain ⟨c, hc, rfl⟩ := mem_oneOf.1 ha
    rcases List.mem_pair.1 hc with rfl | rfl
    · exact absurd List.mem_cons_self hplus
    · exact absurd List.mem_cons_self hminus

theorem mem_char_mul {c : Char} {r : RegularExpression Char} {w : List Char}
    (hw : w ∈ (char c * r).matches') : ∃ rest ∈ r.matches', w = c :: rest := by
  obtain ⟨a, ha, b, hb, rfl⟩ := Language.mem_mul.1 hw
  cases ha
  exact ⟨b, hb, rfl⟩

theorem isRun_of_mem {cs w : List Char} {p : Char → Bool}
    (hcs : (cs.all fun c => p c || c == '_') = true) (hw : w ∈ (many (oneOf cs)).matches') :
    isRun p w = true := by
  obtain ⟨hne, hall⟩ := mem_many_oneOf hw
  rw [isRun, Bool.and_eq_true, List.all_eq_true]
  refine ⟨?_, fun c hc => List.all_eq_true.1 hcs c (hall c hc)⟩
  rw [Bool.not_eq_true', List.isEmpty_eq_false_iff]
  exact hne

theorem isInteger_cons {c : Char} (hc : c ∈ "123456789".toList) (rest : List Char) :
    isInteger (c :: rest) = rest.all fun d => d.isDigit || d == '_' := by
  have hbounds : ∀ c ∈ "123456789".toList, (c != '0' && ('1' ≤ c && c ≤ '9')) = true :=
    List.all_eq_true.1 (by decide)
  obtain ⟨hzero, hdigit⟩ := Bool.and_eq_true_iff.1 (hbounds c hc)
  unfold isInteger
  split
  · next heq =>
    cases heq
    cases hzero
  · next heq =>
    cases heq
    cases hzero
  · next heq =>
    cases heq
    cases hzero
  · next heq =>
    cases heq
    cases hzero
  · next heq =>
    cases heq
    rw [hdigit, Bool.true_and]
  · next heq => cases heq

/-- The integers without signs and colons are those that are written in quotes. -/
theorem isInteger_of_mem {w : List Char} (hw : w ∈ integer.matches') (hplus : '+' ∉ w)
    (hminus : '-' ∉ w) (hcolon : ':' ∉ w) : isInteger w = true := by
  rcases hw with (((hw | hw) | hw) | hw) | hw
  · obtain ⟨rest, hrest, rfl⟩ := mem_char_mul (mem_of_mem_sign_mul hw hplus hminus)
    obtain ⟨run, hrun, rfl⟩ := mem_char_mul hrest
    exact isRun_of_mem (by decide) hrun
  · obtain ⟨rest, hrest, rfl⟩ := mem_char_mul (mem_of_mem_sign_mul hw hplus hminus)
    have hrun : isRun (fun c => '0' ≤ c && c ≤ '7') rest = true := isRun_of_mem (by decide) hrest
    obtain ⟨hne, hall⟩ := mem_many_oneOf hrest
    obtain ⟨c, left, rfl⟩ := List.exists_cons_of_ne_nil hne
    have hc := hall c List.mem_cons_self
    unfold isInteger
    split
    · rfl
    · next heq =>
      cases heq
      exact absurd hc (by decide)
    · next heq =>
      cases heq
      exact absurd hc (by decide)
    · next heq =>
      cases heq
      exact hrun
    · next hzero heq =>
      cases heq
      exact (hzero rfl).elim
    · next heq => cases heq
  · rcases mem_of_mem_sign_mul hw hplus hminus with hw | hw
    · cases hw
      rfl
    · obtain ⟨a, ha, b, hb, rfl⟩ := Language.mem_mul.1 hw
      obtain ⟨c, hc, rfl⟩ := mem_oneOf.1 ha
      rw [List.singleton_append, isInteger_cons hc, List.all_eq_true]
      have hfigure : ∀ c ∈ '_' :: digits, (c.isDigit || c == '_') = true :=
        List.all_eq_true.1 (by decide)
      exact fun d hd => hfigure d (mem_star_oneOf hb d hd)
  · obtain ⟨rest, hrest, rfl⟩ := mem_char_mul (mem_of_mem_sign_mul hw hplus hminus)
    obtain ⟨run, hrun, rfl⟩ := mem_char_mul hrest
    exact isRun_of_mem (by decide) hrun
  · have hsixty : holds ':' (oneOf "123456789".toList * (star figure * sixtieths)) = true := by
      decide
    exact absurd (mem_of_holds hsixty (mem_of_mem_sign_mul hw hplus hminus)) hcolon

/-- A word that is not reserved is a text. -/
theorem resolve_of_not_isReserved {s : String} (hword : isAsciiWord s.toList = true)
    (h : isReserved s = false) : resolve s.toList = .text s := by
  obtain ⟨hlists, hinteger⟩ := Bool.or_eq_false_iff.1 h
  obtain ⟨hboolean, hnull⟩ := Bool.or_eq_false_iff.1 hlists
  have hmissing : ∀ {c : Char}, isWordChar c = false → c ∉ s.toList :=
    not_mem_of_isAsciiWord hword
  have hlisted : ∀ {words : List String}, (∀ w ∈ words, w ∈ booleans) → s ∉ words :=
    fun hwords hmem => of_decide_eq_false hboolean (hwords s hmem)
  have hfraction : ¬ fraction.rmatch s.toList = true := fun hw =>
    hmissing (by decide) (mem_of_holds (c := '.') (by decide) ((rmatch_iff_matches' _ _).1 hw))
  have htimestamp : ¬ timestamp.rmatch s.toList = true := fun hw =>
    hmissing (by decide) (mem_of_holds (c := '-') (by decide) ((rmatch_iff_matches' _ _).1 hw))
  have hno : ¬ integer.rmatch s.toList = true := fun hw => by
    have hfound := isInteger_of_mem ((rmatch_iff_matches' _ _).1 hw) (hmissing (by decide))
      (hmissing (by decide)) (hmissing (by decide))
    rw [hinteger] at hfound
    cases hfound
  have hsymbol : ∀ {c : Char} {word : String}, isWordChar c = false → c ∈ word.toList →
      s ≠ word := by
    rintro c word hc hmem rfl
    exact hmissing hc hmem
  have hnulls : s ∉ ["~", "null", "Null", "NULL", ""] := by
    rw [List.mem_cons, not_or]
    refine ⟨hsymbol (c := '~') (by decide) (by decide), fun hmem => ?_⟩
    have hwords : ∀ w ∈ ["null", "Null", "NULL", ""], w ∈ nulls := by decide
    exact of_decide_eq_false hnull (hwords s hmem)
  unfold resolve
  simp only [String.ofList_toList]
  rw [if_neg (hlisted (by decide)), if_neg (hlisted (by decide)), if_neg hfraction, if_neg hno,
    if_neg (hsymbol (c := '<') (by decide) (by decide)), if_neg hnulls, if_neg htimestamp,
    if_neg (hsymbol (c := '=') (by decide) (by decide))]

end Ipld.Yaml
