import ServiceClient.Text.Utf8

/-!
The digest MD5. The message gets a delimiter, zeros and its length in bits, so that it fills blocks
of 64 octets; every block then turns the four words of the state in 64 rounds.
-/

namespace ServiceClient.Digest.Md5

open Text (Octets)

structure State where
  a : UInt32
  b : UInt32
  c : UInt32
  d : UInt32
  deriving DecidableEq, Repr

def State.add (s t : State) : State := ⟨s.a + t.a, s.b + t.b, s.c + t.c, s.d + t.d⟩

def initial : State := ⟨0x67452301, 0xefcdab89, 0x98badcfe, 0x10325476⟩

/-- For round `i` the integer part of `2 ^ 32` times the absolute sine of `i + 1`. -/
def sines : Array UInt32 :=
  #[0xd76aa478, 0xe8c7b756, 0x242070db, 0xc1bdceee, 0xf57c0faf, 0x4787c62a, 0xa8304613, 0xfd469501,
    0x698098d8, 0x8b44f7af, 0xffff5bb1, 0x895cd7be, 0x6b901122, 0xfd987193, 0xa679438e, 0x49b40821,
    0xf61e2562, 0xc040b340, 0x265e5a51, 0xe9b6c7aa, 0xd62f105d, 0x02441453, 0xd8a1e681, 0xe7d3fbc8,
    0x21e1cde6, 0xc33707d6, 0xf4d50d87, 0x455a14ed, 0xa9e3e905, 0xfcefa3f8, 0x676f02d9, 0x8d2a4c8a,
    0xfffa3942, 0x8771f681, 0x6d9d6122, 0xfde5380c, 0xa4beea44, 0x4bdecfa9, 0xf6bb4b60, 0xbebfbc70,
    0x289b7ec6, 0xeaa127fa, 0xd4ef3085, 0x04881d05, 0xd9d4d039, 0xe6db99e5, 0x1fa27cf8, 0xc4ac5665,
    0xf4292244, 0x432aff97, 0xab9423a7, 0xfc93a039, 0x655b59c3, 0x8f0ccc92, 0xffeff47d, 0x85845dd1,
    0x6fa87e4f, 0xfe2ce6e0, 0xa3014314, 0x4e0811a1, 0xf7537e82, 0xbd3af235, 0x2ad7d2bb, 0xeb86d391]

def rotation (i : Nat) : UInt32 :=
  match i / 16, i % 4 with
  | 0, 0 => 7 | 0, 1 => 12 | 0, 2 => 17 | 0, _ => 22
  | 1, 0 => 5 | 1, 1 => 9 | 1, 2 => 14 | 1, _ => 20
  | 2, 0 => 4 | 2, 1 => 11 | 2, 2 => 16 | 2, _ => 23
  | _, 0 => 6 | _, 1 => 10 | _, 2 => 15 | _, _ => 21

def rotateLeft (x n : UInt32) : UInt32 := (x <<< n) ||| (x >>> (32 - n))

def mix (i : Nat) (s : State) : UInt32 :=
  match i / 16 with
  | 0 => (s.b &&& s.c) ||| (~~~s.b &&& s.d)
  | 1 => (s.d &&& s.b) ||| (~~~s.d &&& s.c)
  | 2 => s.b ^^^ s.c ^^^ s.d
  | _ => s.c ^^^ (s.b ||| ~~~s.d)

def wordIndex (i : Nat) : Nat :=
  match i / 16 with
  | 0 => i
  | 1 => (5 * i + 1) % 16
  | 2 => (3 * i + 5) % 16
  | _ => 7 * i % 16

def round (block : Array UInt32) (s : State) (i : Nat) : State :=
  let f := mix i s + s.a + sines.getD i 0 + block.getD (wordIndex i) 0
  ⟨s.d, s.b + rotateLeft f (rotation i), s.b, s.c⟩

def compress (s : State) (block : Array UInt32) : State :=
  s.add ((List.range 64).foldl (round block) s)

/-- The octets of a number, the low ones first. -/
def lowFirst (width n : Nat) : Octets :=
  (List.range width).map fun i => UInt8.ofNat (n / Nat.pow 256 i)

def zerosAfter (length : Nat) : Nat := (119 - length % 64) % 64

def pad (s : Octets) : Octets :=
  s ++ 0x80 :: List.replicate (zerosAfter s.length) 0 ++ lowFirst 8 (8 * s.length)

def words : Octets → List UInt32
  | a :: b :: c :: d :: rest =>
    (a.toUInt32 ||| b.toUInt32 <<< 8 ||| c.toUInt32 <<< 16 ||| d.toUInt32 <<< 24) :: words rest
  | _ => []

def foldBlocks (s : State) : (count : Nat) → List UInt32 → State
  | 0, _ => s
  | count + 1, ws => foldBlocks (compress s (ws.take 16).toArray) count (ws.drop 16)

def digest (s : Octets) : Octets :=
  let ws := words (pad s)
  let t := foldBlocks initial (ws.length / 16) ws
  [t.a, t.b, t.c, t.d].flatMap fun w => lowFirst 4 w.toNat

end ServiceClient.Digest.Md5
