/-!
# The Mersenne Twister

The generator MT19937 keeps 624 words.  When all of them are used up they are replaced by new ones,
each made from three of the old; a word is tempered when it is drawn.  The state is seeded from an
integer by way of its words, least significant first.
-/

namespace Ipld.Random

/-- How many words the state has. -/
def stateSize : Nat := 624

/-- The state: its words, and how many of them are drawn. -/
structure Twister where
  words : Array UInt32
  drawn : Nat
  deriving Repr

namespace Twister

/-- Replaces the word at `k` by one made from it, the next one and the one 397 places on. -/
def renewAt (ws : Array UInt32) (k : Nat) : Array UInt32 :=
  let y := (ws.getD k 0 &&& 0x80000000) ||| (ws.getD ((k + 1) % stateSize) 0 &&& 0x7fffffff)
  let odd : UInt32 := if y &&& 1 = 0 then 0 else 0x9908b0df
  ws.setIfInBounds k (ws.getD ((k + 397) % stateSize) 0 ^^^ (y >>> 1) ^^^ odd)

def renew (ws : Array UInt32) : Array UInt32 :=
  (List.range stateSize).foldl renewAt ws

def temper (w : UInt32) : UInt32 :=
  let w := w ^^^ (w >>> 11)
  let w := w ^^^ ((w <<< 7) &&& 0x9d2c5680)
  let w := w ^^^ ((w <<< 15) &&& 0xefc60000)
  w ^^^ (w >>> 18)

def next (t : Twister) : UInt32 × Twister :=
  let t := if t.drawn < stateSize then t else ⟨renew t.words, 0⟩
  (temper (t.words.getD t.drawn 0), { t with drawn := t.drawn + 1 })

/-! ## Seeding -/

/-- A word mixed with its upper bits. -/
def fold (w : UInt32) : UInt32 :=
  w ^^^ (w >>> 30)

/-- The words that a single word leads to. -/
def ofWord (seed : UInt32) : Array UInt32 :=
  (List.range (stateSize - 1)).foldl
    (fun ws i => ws.push (0x6c078965 * fold (ws.getD i 0) + (i + 1).toUInt32)) #[seed]

/-- The place after `i`, when the first word is left out; going around, the last word is copied to
the front. -/
def advance (ws : Array UInt32) (i : Nat) : Array UInt32 × Nat :=
  if stateSize ≤ i + 1 then (ws.setIfInBounds 0 (ws.getD (stateSize - 1) 0), 1) else (ws, i + 1)

/-- Mixes a word of the key into the word at a place. -/
def mixKey (key : Array UInt32) (at_ : Array UInt32 × Nat) (step : Nat) : Array UInt32 × Nat :=
  let (ws, i) := at_
  let j := step % key.size
  let w := (ws.getD i 0 ^^^ (fold (ws.getD (i - 1) 0) * 1664525)) + key.getD j 0 + j.toUInt32
  advance (ws.setIfInBounds i w) i

/-- Mixes the words once more, without a key. -/
def mixAgain (at_ : Array UInt32 × Nat) (_step : Nat) : Array UInt32 × Nat :=
  let (ws, i) := at_
  let w := (ws.getD i 0 ^^^ (fold (ws.getD (i - 1) 0) * 1566083941)) - i.toUInt32
  advance (ws.setIfInBounds i w) i

/-- The state that a key leads to. -/
def ofKey (key : Array UInt32) : Twister :=
  let steps := max stateSize key.size
  let mixed := (List.range steps).foldl (mixKey key) (ofWord 19650218, 1)
  let again := (List.range (stateSize - 1)).foldl mixAgain mixed
  ⟨again.1.setIfInBounds 0 0x80000000, stateSize⟩

/-- The words of a natural number, least significant first. -/
def wordsOf (n : Nat) : List UInt32 :=
  if n < 0x100000000 then [n.toUInt32] else n.toUInt32 :: wordsOf (n / 0x100000000)
termination_by n
decreasing_by omega

/-- The state that an integer leads to; its sign makes no difference. -/
def ofSeed (seed : Int) : Twister :=
  ofKey (wordsOf seed.natAbs).toArray

end Twister

end Ipld.Random
