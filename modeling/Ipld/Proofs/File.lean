import Ipld.Proofs.Text.Utf8
import Ipld.Proofs.Token.Returns

/-!
# Files and texts

Reading a file turns its bytes into characters and its line ends into line feeds.  The bytes of a
text give the text back, and its line ends are nothing the parsers could tell apart, as long as no
carriage return stands alone: alone it ends a line in a file and is a blank in a text.
-/

namespace Ipld

open Text

/-- The path by which a parser opens a file. -/
def Frontend.opened : Frontend → String → String
  | .handwritten, path => Path.display path
  | .grammar, path => path

theorem Tree.source_of_read {t : Tree} {path : String} {text : List Char}
    (h : t.read path = .ok (Utf8.encode text)) :
    t.source path = .ok (String.ofList (universalNewlines text)) := by
  simp only [source, h, decodeSource, Utf8.decode_encode]

theorem Frontend.parseFile_of_read {f : Frontend} {t : Tree} {path : String} {text : List Char}
    (h : t.read (f.opened path) = .ok (Utf8.encode text)) :
    f.parseFile t path = f.parse (String.ofList (universalNewlines text)) := by
  have hsource := Tree.source_of_read h
  cases f with
  | handwritten => exact congrArg (· >>= Ipld.parse) hsource
  | grammar => exact congrArg (· >>= Grammar.parse) hsource

theorem Frontend.parseFile_of_returnsPaired {f : Frontend} {t : Tree} {path : String}
    {text : List Char} (hpaired : ReturnsPaired text)
    (h : t.read (f.opened path) = .ok (Utf8.encode text)) :
    f.parseFile t path = f.parse (String.ofList text) := by
  rw [parseFile_of_read h, universalNewlines_eq_withoutReturns hpaired,
    parse_withoutReturns f hpaired]

/-- **A file is read as the text that it holds**, by either parser, with the same schema or the same
error: for a text without lone carriage returns it does not matter that the file is decoded and its
line ends are translated.  And it does not matter which kind of line end a text without carriage
returns is written with. -/
theorem parseFile_eq_parse (text : List Char) :
    (ReturnsPaired text → ∀ (f : Frontend) (t : Tree) (path : String),
        t.read (f.opened path) = .ok (Utf8.encode text) →
        f.parseFile t path = f.parse (String.ofList text)) ∧
      ('\r' ∉ text → ∀ f : Frontend,
        f.parse (String.ofList (withReturns text)) = f.parse (String.ofList text) ∧
        ∀ (t : Tree) (path : String),
          t.read (f.opened path) = .ok (Utf8.encode (withReturns text)) →
          f.parseFile t path = f.parse (String.ofList text)) := by
  refine ⟨fun hpaired f t path => Frontend.parseFile_of_returnsPaired hpaired, fun hreturn f => ?_⟩
  have hpaired := returnsPaired_withReturns hreturn
  have hparse := parse_withoutReturns f hpaired
  rw [withoutReturns_withReturns hreturn] at hparse
  refine ⟨hparse.symm, fun t path h => ?_⟩
  rw [Frontend.parseFile_of_returnsPaired hpaired h, ← hparse]

/-- A comment over two lines that nearly ends at the first of them, and a stray character. -/
def starredLines : List Char :=
  "type Ä /* *\n/ */ Int\n$".toList

/-- The current directory with a text in a file, written with the longer line ends. -/
def starredTree : Tree :=
  Tree.empty.plant "d/a" (.file (Utf8.encode (withReturns starredLines)))

theorem parseFile_eq_parse_starredLines :
    starredTree.read "d/a" = .ok (Utf8.encode (withReturns starredLines)) ∧
      ReturnsPaired (withReturns starredLines) ∧ '\r' ∉ starredLines ∧
      Frontend.grammar.parseFile starredTree "d/a" =
        Frontend.grammar.parse (String.ofList (withReturns starredLines)) ∧
      Frontend.grammar.parseFile starredTree "d/a" =
        Frontend.grammar.parse (String.ofList starredLines) := by
  have hread : starredTree.read "d/a" = .ok (Utf8.encode (withReturns starredLines)) := by
    decide
  have hreturn : '\r' ∉ starredLines := by decide
  have hpaired := returnsPaired_withReturns hreturn
  exact ⟨hread, hpaired, hreturn, (parseFile_eq_parse _).1 hpaired .grammar _ _ hread,
    ((parseFile_eq_parse _).2 hreturn .grammar).2 _ _ hread⟩

end Ipld
