import SparqlComposer.Text.Basic

/-!
# MD5

The 128-bit message digest MD5 of a byte string. A message is padded to whole blocks of sixteen
little-endian words, and every block is mixed into the state of four words in 64 steps.
-/

namespace SparqlComposer.Md5

/-- The four words that are passed on from block to block. -/
structure State where
  a : UInt32
  b : UInt32
  c : UInt32
  d : UInt32

def State.initial : State := ⟨0x67452301, 0xefcdab89, 0x98badcfe, 0x10325476⟩

/-- The word added in each step: the leading 32 bits of the fraction of `|sin (i + 1)|`. -/
def sines : List UInt32 := [
  0xd76aa478, 0xe8c7b756, 0x242070db, 0xc1bdceee, 0xf57c0faf, 0x4787c62a, 0xa8304613, 0xfd469501,
  0x698098d8, 0x8b44f7af, 0xffff5bb1, 0x895cd7be, 0x6b901122, 0xfd987193, 0xa679438e, 0x49b40821,
  0xf61e2562, 0xc040b340, 0x265e5a51, 0xe9b6c7aa, 0xd62f105d, 0x02441453, 0xd8a1e681, 0xe7d3fbc8,
  0x21e1cde6, 0xc33707d6, 0xf4d50d87, 0x455a14ed, 0xa9e3e905, 0xfcefa3f8, 0x676f02d9, 0x8d2a4c8a,
  0xfffa3942, 0x8771f681, 0x6d9d6122, 0xfde5380c, 0xa4beea44, 0x4bdecfa9, 0xf6bb4b60, 0xbebfbc70,
  0x289b7ec6, 0xeaa127fa, 0xd4ef3085, 0x04881d05, 0xd9d4d039, 0xe6db99e5, 0x1fa27cf8, 0xc4ac5665,
  0xf4292244, 0x432aff97, 0xab9423a7, 0xfc93a039, 0x655b59c3, 0x8f0ccc92, 0xffeff47d, 0x85845dd1,
  0x6fa87e4f, 0xfe2ce6e0, 0xa3014314, 0x4e0811a1, 0xf7537e82, 0xbd3af235, 0x2ad7d2bb, 0xeb86d391]

/-- By how many places each step of a round rotates; the four amounts of a round repeat. -/
def rotations : List (List UInt32) :=
  [[7, 12, 17, 22], [5, 9, 14, 20], [4, 11, 16, 23], [6, 10, 15, 21]]

def rotation (i : Nat) : UInt32 := ((rotations.getD (i / 16) []).getD (i % 4) 0)

def rotateLeft (x amount : UInt32) : UInt32 := (x <<< amount) ||| (x >>> (32 - amount))

/-- The Boolean function of the round that step `i` belongs to. -/
def choose (i : Nat) (b c d : UInt32) : UInt32 :=
  match i / 16 with
  | 0 => (b &&& c) ||| (~~~b &&& d)
  | 1 => (d &&& b) ||| (~~~d &&& c)
  | 2 => b ^^^ c ^^^ d
  | _ => c ^^^ (b ||| ~~~d)

/-- The position in the block of the word that step `i` reads. -/
def wordIndex (i : Nat) : Nat :=
  match i / 16 with
  | 0 => i
  | 1 => (5 * i + 1) % 16
  | 2 => (3 * i + 5) % 16
  | _ => (7 * i) % 16

def step (block : List UInt32) (s : State) (i : Nat) (sine : UInt32) : State :=
  let sum := s.a + choose i s.b s.c s.d + sine + block.getD (wordIndex i) 0
  ⟨s.d, s.b + rotateLeft sum (rotation i), s.b, s.c⟩

def steps (block : List UInt32) : State → Nat → List UInt32 → State
  | s, _, [] => s
  | s, i, sine :: rest => steps block (step block s i sine) (i + 1) rest

/-- Mixes a block into the state. -/
def compress (s : State) (block : List UInt32) : State :=
  let t := steps block s 0 sines
  ⟨s.a + t.a, s.b + t.b, s.c + t.c, s.d + t.d⟩

/-! ## Bytes, words and blocks -/

/-- The little-endian bytes of a number, as many as asked for. -/
def littleEndian : Nat → Nat → List UInt8
  | 0, _ => []
  | count + 1, n => UInt8.ofNat (n % 256) :: littleEndian count (n / 256)

/-- The little-endian words of a byte string; up to three bytes at the end are left out. -/
def words : List UInt8 → List UInt32
  | a :: b :: c :: d :: rest =>
      (a.toUInt32 ||| (b.toUInt32 <<< 8) ||| (c.toUInt32 <<< 16) ||| (d.toUInt32 <<< 24)) ::
        words rest
  | _ => []

/-- The message, a single one bit, zeros, and the number of the message's bits: whole blocks. -/
def padded (message : List UInt8) : List UInt8 :=
  let zeros := (119 - message.length % 64) % 64
  message ++ 0x80 :: List.replicate zeros 0 ++ littleEndian 8 (8 * message.length)

theorem length_littleEndian (count n : Nat) : (littleEndian count n).length = count := by
  induction count generalizing n with
  | zero => rfl
  | succ count ih => simp [littleEndian, ih]

def blocks (ws : List UInt32) : List (List UInt32) :=
  if ws.length < 16 then [] else ws.take 16 :: blocks (ws.drop 16)
termination_by ws.length
decreasing_by simp; omega

def digest (message : List UInt8) : List UInt8 :=
  let s := (blocks (words (padded message))).foldl compress State.initial
  [s.a, s.b, s.c, s.d].flatMap fun word ↦ littleEndian 4 word.toNat

def hexByte (byte : UInt8) : Text :=
  [Nat.digitChar (byte.toNat / 16), Nat.digitChar (byte.toNat % 16)]

def hexDigest (message : List UInt8) : Text := (digest message).flatMap hexByte

/-- The digest of a text is that of its bytes in UTF-8. -/
def ofText (t : Text) : Text := hexDigest (t.flatMap String.utf8EncodeChar)

theorem length_digest (message : List UInt8) : (digest message).length = 16 := by
  simp [digest, length_littleEndian]

theorem length_hexDigest (message : List UInt8) : (hexDigest message).length = 32 := by
  have hbyte : ∀ byte, (hexByte byte).length = 2 := fun _ ↦ rfl
  simp [hexDigest, List.length_flatMap, hbyte, List.map_const', length_digest]

end SparqlComposer.Md5
