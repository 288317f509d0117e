import Ipld.Text.Digits

/-!
# MD5

The message digest of RFC 1321: the message is padded to blocks of sixteen words, and each block
stirs a state of four words in sixty-four steps.  Words are little-endian.
-/

namespace Ipld.Md5

open Text

structure State where
  a : UInt32
  b : UInt32
  c : UInt32
  d : UInt32
  deriving DecidableEq, Repr

def State.initial : State :=
  ⟨0x67452301, 0xefcdab89, 0x98badcfe, 0x10325476⟩

/-- The integer parts of `2 ^ 32 · |sin n|`, for `n` from one to sixty-four. -/
def sines : List UInt32 := [
  0xd76aa478, 0xe8c7b756, 0x242070db, 0xc1bdceee, 0xf57c0faf, 0x4787c62a, 0xa8304613, 0xfd469501,
  0x698098d8, 0x8b44f7af, 0xffff5bb1, 0x895cd7be, 0x6b901122, 0xfd987193, 0xa679438e, 0x49b40821,
  0xf61e2562, 0xc040b340, 0x265e5a51, 0xe9b6c7aa, 0xd62f105d, 0x02441453, 0xd8a1e681, 0xe7d3fbc8,
  0x21e1cde6, 0xc33707d6, 0xf4d50d87, 0x455a14ed, 0xa9e3e905, 0xfcefa3f8, 0x676f02d9, 0x8d2a4c8a,
  0xfffa3942, 0x8771f681, 0x6d9d6122, 0xfde5380c, 0xa4beea44, 0x4bdecfa9, 0xf6bb4b60, 0xbebfbc70,
  0x289b7ec6, 0xeaa127fa, 0xd4ef3085, 0x04881d05, 0xd9d4d039, 0xe6db99e5, 0x1fa27cf8, 0xc4ac5665,
  0xf4292244, 0x432aff97, 0xab9423a7, 0xfc93a039, 0x655b59c3, 0x8f0ccc92, 0xffeff47d, 0x85845dd1,
  0x6fa87e4f, 0xfe2ce6e0, 0xa3014314, 0x4e0811a1, 0xf7537e82, 0xbd3af235, 0x2ad7d2bb, 0xeb86d391
]

/-- How far the words of each round are rotated. -/
def rotations : List UInt32 :=
  [[7, 12, 17, 22], [5, 9, 14, 20], [4, 11, 16, 23], [6, 10, 15, 21]].flatMap fun row =>
    row ++ row ++ row ++ row

/-- The step number, sine and rotation of every step. -/
def schedule : List (Nat × UInt32 × UInt32) :=
  (List.range 64).zip (sines.zip rotations)

def rotateLeft (w n : UInt32) : UInt32 :=
  (w <<< n) ||| (w >>> (32 - n))

/-- One step on the words of a block. -/
def step (block : Array UInt32) (s : State) (i : Nat × UInt32 × UInt32) : State :=
  let (n, sine, rotation) := i
  let (mixed, k) :=
    if n < 16 then ((s.b &&& s.c) ||| (~~~s.b &&& s.d), n)
    else if n < 32 then ((s.d &&& s.b) ||| (~~~s.d &&& s.c), (5 * n + 1) % 16)
    else if n < 48 then (s.b ^^^ s.c ^^^ s.d, (3 * n + 5) % 16)
    else (s.c ^^^ (s.b ||| ~~~s.d), 7 * n % 16)
  let sum := s.a + mixed + sine + block.getD k 0
  ⟨s.d, s.b + rotateLeft sum rotation, s.b, s.c⟩

/-- The state after one block. -/
def stir (s : State) (block : Array UInt32) : State :=
  let t := schedule.foldl (step block) s
  ⟨s.a + t.a, s.b + t.b, s.c + t.c, s.d + t.d⟩

/-- The bytes of a number, least significant first. -/
def littleEndian : (count : Nat) → (n : Nat) → List UInt8
  | 0, _ => []
  | count + 1, n => n.toUInt8 :: littleEndian count (n / 256)

/-- A message with its padding: one bit, zeros, and the length in bits. -/
def padded (message : List UInt8) : List UInt8 :=
  let zeros := (119 - message.length % 64) % 64
  message ++ 0x80 :: List.replicate zeros 0 ++ littleEndian 8 (8 * message.length)

/-- Bytes in groups of four, each as a word. -/
def words : List UInt8 → List UInt32
  | w :: x :: y :: z :: rest =>
    (w.toUInt32 ||| (x.toUInt32 <<< 8) ||| (y.toUInt32 <<< 16) ||| (z.toUInt32 <<< 24)) ::
      words rest
  | _ => []

/-- The state after all blocks. -/
def digest (ws : List UInt32) (s : State) : State :=
  match ws with
  | [] => s
  | w :: rest =>
    let block := (w :: rest).take 16
    digest (rest.drop 15) (stir s block.toArray)
termination_by ws.length
decreasing_by
  simp only [List.length_drop, List.length_cons]
  omega

/-- The digest of a message, as thirty-two hexadecimal digits. -/
def hex (message : List UInt8) : List Char :=
  let s := digest (words (padded message)) .initial
  ([s.a, s.b, s.c, s.d].flatMap fun w => littleEndian 4 w.toNat).flatMap fun byte =>
    hexPadded .lower 2 byte.toNat

end Ipld.Md5
