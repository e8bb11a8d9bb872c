import Bourse.Word

/-!
# SHA-256

The digest of a byte string: the string is padded to whole blocks of sixteen 32-bit numbers, and
each block is mixed into a running state of eight numbers. The digest is that last state read as
one word.
-/

namespace Bourse.Sha256

/-- The running state. -/
structure State where
  a : UInt32
  b : UInt32
  c : UInt32
  d : UInt32
  e : UInt32
  f : UInt32
  g : UInt32
  h : UInt32
  deriving DecidableEq

/-- The state before the first block: the fractional parts of the square roots of the first eight
primes. -/
def start : State where
  a := 0x6a09e667
  b := 0xbb67ae85
  c := 0x3c6ef372
  d := 0xa54ff53a
  e := 0x510e527f
  f := 0x9b05688c
  g := 0x1f83d9ab
  h := 0x5be0cd19

/-- The constants of the rounds: the fractional parts of the cube roots of the first 64 primes. -/
def roundConstants : List UInt32 :=
  [0x428a2f98, 0x71374491, 0xb5c0fbcf, 0xe9b5dba5, 0x3956c25b, 0x59f111f1, 0x923f82a4, 0xab1c5ed5,
   0xd807aa98, 0x12835b01, 0x243185be, 0x550c7dc3, 0x72be5d74, 0x80deb1fe, 0x9bdc06a7, 0xc19bf174,
   0xe49b69c1, 0xefbe4786, 0x0fc19dc6, 0x240ca1cc, 0x2de92c6f, 0x4a7484aa, 0x5cb0a9dc, 0x76f988da,
   0x983e5152, 0xa831c66d, 0xb00327c8, 0xbf597fc7, 0xc6e00bf3, 0xd5a79147, 0x06ca6351, 0x14292967,
   0x27b70a85, 0x2e1b2138, 0x4d2c6dfc, 0x53380d13, 0x650a7354, 0x766a0abb, 0x81c2c92e, 0x92722c85,
   0xa2bfe8a1, 0xa81a664b, 0xc24b8b70, 0xc76c51a3, 0xd192e819, 0xd6990624, 0xf40e3585, 0x106aa070,
   0x19a4c116, 0x1e376c08, 0x2748774c, 0x34b0bcb5, 0x391c0cb3, 0x4ed8aa4a, 0x5b9cca4f, 0x682e6ff3,
   0x748f82ee, 0x78a5636f, 0x84c87814, 0x8cc70208, 0x90befffa, 0xa4506ceb, 0xbef9a3f7, 0xc67178f2]

/-- Rotate to the right. -/
def rotate (x count : UInt32) : UInt32 := (x >>> count) ||| (x <<< (32 - count))

/-- The number after a window of sixteen numbers of the expanded block. -/
def expand (window : Array UInt32) (i : Nat) : UInt32 :=
  let x := window.getD (i - 15) 0
  let y := window.getD (i - 2) 0
  let s0 := rotate x 7 ^^^ rotate x 18 ^^^ (x >>> 3)
  let s1 := rotate y 17 ^^^ rotate y 19 ^^^ (y >>> 10)
  window.getD (i - 16) 0 + s0 + window.getD (i - 7) 0 + s1

/-- The sixteen numbers of a block, expanded to 64. -/
def schedule (block : List UInt32) : List UInt32 :=
  ((List.range' 16 48).foldl (fun ws i => ws.push (expand ws i)) block.toArray).toList

/-- One round, with the sum of its constant and its number of the expanded block. -/
def round (s : State) (k w : UInt32) : State :=
  let s1 := rotate s.e 6 ^^^ rotate s.e 11 ^^^ rotate s.e 25
  let choice := (s.e &&& s.f) ^^^ ((s.e ^^^ 0xffffffff) &&& s.g)
  let t1 := s.h + s1 + choice + k + w
  let s0 := rotate s.a 2 ^^^ rotate s.a 13 ^^^ rotate s.a 22
  let majority := (s.a &&& s.b) ^^^ (s.a &&& s.c) ^^^ (s.b &&& s.c)
  ⟨t1 + (s0 + majority), s.a, s.b, s.c, s.d + t1, s.e, s.f, s.g⟩

/-- All rounds over an expanded block. -/
def rounds : State → List UInt32 → List UInt32 → State
  | s, k :: ks, w :: ws => rounds (round s k w) ks ws
  | s, _, _ => s

/-- Mix one block into the state. -/
def mix (s : State) (block : List UInt32) : State :=
  let t := rounds s roundConstants (schedule block)
  ⟨s.a + t.a, s.b + t.b, s.c + t.c, s.d + t.d, s.e + t.e, s.f + t.f, s.g + t.g, s.h + t.h⟩

/-- A byte string in groups of four, most significant byte first. -/
def numbers : Bytes → List UInt32
  | a :: b :: c :: d :: rest =>
    ((a.toUInt32 <<< 24) ||| (b.toUInt32 <<< 16) ||| (c.toUInt32 <<< 8) ||| d.toUInt32)
      :: numbers rest
  | _ => []

/-- Mix a number of blocks of 64 bytes into the state. -/
def mixAll : (blocks : Nat) → State → Bytes → State
  | 0, s, _ => s
  | blocks + 1, s, bytes => mixAll blocks (mix s (numbers (bytes.take 64))) (bytes.drop 64)

/-- The number of blocks of a padded string: its bytes, one mark and eight bytes of length. -/
def blockCount (length : Nat) : Nat := (length + 72) / 64

/-- The mark, zeros and the length in bits that complete the last block. -/
def padding (length : Nat) : Bytes :=
  0x80 :: List.replicate (64 * blockCount length - (length + 9)) 0 ++ Bytes.bigEndian 8 (8 * length)

/-- The digest of a byte string. -/
def digest (message : Bytes) : Word :=
  let length := message.length
  let s := mixAll (blockCount length) start (message ++ padding length)
  Word.wrap (Bytes.toNat
    ([s.a, s.b, s.c, s.d, s.e, s.f, s.g, s.h].flatMap fun x => Bytes.bigEndian 4 x.toNat))

end Bourse.Sha256
