import FileCensus.Text.Utf8

/-!
# MD5

The digest takes its bytes one at a time: a full block of 64 is folded into the chain at once. How
the bytes are cut into pieces therefore plays no part.
-/

namespace FileCensus.Md5

structure Chain where
  a : UInt32
  b : UInt32
  c : UInt32
  d : UInt32
  deriving DecidableEq, Repr

/-- The integer parts of `2 ^ 32 * |sin (i + 1)|`. -/
def sines : Array UInt32 :=
  #[0xd76aa478, 0xe8c7b756, 0x242070db, 0xc1bdceee, 0xf57c0faf, 0x4787c62a,
    0xa8304613, 0xfd469501, 0x698098d8, 0x8b44f7af, 0xffff5bb1, 0x895cd7be,
    0x6b901122, 0xfd987193, 0xa679438e, 0x49b40821, 0xf61e2562, 0xc040b340,
    0x265e5a51, 0xe9b6c7aa, 0xd62f105d, 0x02441453, 0xd8a1e681, 0xe7d3fbc8,
    0x21e1cde6, 0xc33707d6, 0xf4d50d87, 0x455a14ed, 0xa9e3e905, 0xfcefa3f8,
    0x676f02d9, 0x8d2a4c8a, 0xfffa3942, 0x8771f681, 0x6d9d6122, 0xfde5380c,
    0xa4beea44, 0x4bdecfa9, 0xf6bb4b60, 0xbebfbc70, 0x289b7ec6, 0xeaa127fa,
    0xd4ef3085, 0x04881d05, 0xd9d4d039, 0xe6db99e5, 0x1fa27cf8, 0xc4ac5665,
    0xf4292244, 0x432aff97, 0xab9423a7, 0xfc93a039, 0x655b59c3, 0x8f0ccc92,
    0xffeff47d, 0x85845dd1, 0x6fa87e4f, 0xfe2ce6e0, 0xa3014314, 0x4e0811a1,
    0xf7537e82, 0xbd3af235, 0x2ad7d2bb, 0xeb86d391]

def shifts : Array UInt32 := #[7, 12, 17, 22, 5, 9, 14, 20, 4, 11, 16, 23, 6, 10, 15, 21]

def rotate (x count : UInt32) : UInt32 := (x <<< count) ||| (x >>> (32 - count))

/-- The mixing function of a round and the word of the block it takes. -/
def mix (s : Chain) (i : Nat) : UInt32 × Nat :=
  if i < 16 then ((s.b &&& s.c) ||| (~~~s.b &&& s.d), i)
  else if i < 32 then ((s.d &&& s.b) ||| (~~~s.d &&& s.c), (5 * i + 1) % 16)
  else if i < 48 then (s.b ^^^ s.c ^^^ s.d, (3 * i + 5) % 16)
  else (s.c ^^^ (s.b ||| ~~~s.d), 7 * i % 16)

def round (words : Array UInt32) (s : Chain) (i : Nat) : Chain :=
  let (f, k) := mix s i
  let sum := s.a + f + sines.getD i 0 + words.getD k 0
  ⟨s.d, s.b + rotate sum (shifts.getD (4 * (i / 16) + i % 4) 0), s.b, s.c⟩

/-- The little-endian word at a position of a block. -/
def wordAt (block : Array UInt8) (i : Nat) : UInt32 :=
  (block.getD i 0).toUInt32 ||| (block.getD (i + 1) 0).toUInt32 <<< 8
    ||| (block.getD (i + 2) 0).toUInt32 <<< 16 ||| (block.getD (i + 3) 0).toUInt32 <<< 24

def compress (s : Chain) (block : Array UInt8) : Chain :=
  let words := (Array.range 16).map fun i => wordAt block (4 * i)
  let t := (List.range 64).foldl (round words) s
  ⟨s.a + t.a, s.b + t.b, s.c + t.c, s.d + t.d⟩

/-- The chain after the full blocks so far, the bytes of the block begun, and the count of all. -/
structure State where
  chain : Chain
  block : Array UInt8
  count : Nat
  deriving DecidableEq, Repr

def start : State := ⟨⟨0x67452301, 0xefcdab89, 0x98badcfe, 0x10325476⟩, #[], 0⟩

def State.absorb (s : State) (byte : UInt8) : State :=
  let block := s.block.push byte
  if block.size = 64 then ⟨compress s.chain block, #[], s.count + 1⟩
  else ⟨s.chain, block, s.count + 1⟩

def State.absorbAll (s : State) (bytes : Bytes) : State := bytes.foldl State.absorb s

@[simp] theorem State.absorbAll_nil (s : State) : s.absorbAll [] = s := rfl

@[simp] theorem State.absorbAll_append (s : State) (x y : Bytes) :
    s.absorbAll (x ++ y) = (s.absorbAll x).absorbAll y := List.foldl_append

/-- A one bit, zeros, and the bit count, so that the last block is full. -/
def padding (count : Nat) : Bytes :=
  (0x80 :: List.replicate ((119 - count % 64) % 64) 0 : Bytes)
    ++ (List.range 8).map fun i => UInt8.ofNat ((8 * count) >>> (8 * i))

def hexDigit (n : Nat) : Char := Nat.digitChar n

def hexByte (byte : UInt8) : List Char := [hexDigit (byte.toNat / 16), hexDigit (byte.toNat % 16)]

def hexWord (word : UInt32) : List Char :=
  (List.range 4).flatMap fun i => hexByte (UInt8.ofNat (word.toNat >>> (8 * i)))

def Chain.hex (s : Chain) : String :=
  String.ofList (hexWord s.a ++ hexWord s.b ++ hexWord s.c ++ hexWord s.d)

def State.finish (s : State) : String := (s.absorbAll (padding s.count)).chain.hex

/-- The digest of bytes in lower-case hexadecimal. -/
def digest (bytes : Bytes) : String := (start.absorbAll bytes).finish

end FileCensus.Md5
