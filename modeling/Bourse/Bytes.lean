/-!
# Byte strings

Numbers are written into byte strings at a fixed width, most significant byte first, and shown
as lower-case hexadecimal text. Words are computed with as bytes in the opposite order.
-/

namespace Bourse

/-- A byte string. -/
abbrev Bytes := List UInt8

namespace Bytes

/-- Put the `width` lowest bytes of `n`, most significant first, in front of `tail`. -/
def prependBigEndian : (width n : Nat) → (tail : Bytes) → Bytes
  | 0, _, tail => tail
  | width + 1, n, tail => prependBigEndian width (n / 256) (UInt8.ofNat n :: tail)

/-- The `width` lowest bytes of `n`, most significant first. -/
def bigEndian (width n : Nat) : Bytes := prependBigEndian width n []

/-- The number whose digits in base 256 are the given bytes, most significant first. -/
def toNat (bytes : Bytes) : Nat := bytes.foldl (fun n b => 256 * n + b.toNat) 0

/-- The bytes of a number are written in front of what follows. -/
theorem prependBigEndian_eq_append (width n : Nat) (tail : Bytes) :
    prependBigEndian width n tail = bigEndian width n ++ tail := by
  induction width generalizing n tail with
  | zero => rfl
  | succ width ih =>
    rw [bigEndian, prependBigEndian, prependBigEndian, ih, ih _ [_], List.append_assoc]
    rfl

@[simp] theorem bigEndian_zero (n : Nat) : bigEndian 0 n = [] := rfl

/-- The last byte is the number modulo 256; the bytes before it write the quotient. -/
theorem bigEndian_succ (width n : Nat) :
    bigEndian (width + 1) n = bigEndian width (n / 256) ++ [UInt8.ofNat n] :=
  prependBigEndian_eq_append width (n / 256) [UInt8.ofNat n]

@[simp] theorem length_bigEndian (width n : Nat) : (bigEndian width n).length = width := by
  induction width generalizing n with
  | zero => rfl
  | succ width ih => simp [bigEndian_succ, ih]

/-- The `width` lowest bytes of `n`, least significant first. -/
def littleEndian : (width n : Nat) → Bytes
  | 0, _ => []
  | width + 1, n => UInt8.ofNat n :: littleEndian width (n / 256)

/-- The number whose digits in base 256 are the given bytes, least significant first. -/
def ofLittleEndian (bytes : Bytes) : Nat := bytes.foldr (fun b n => b.toNat + 256 * n) 0

/-- The last `digits` hexadecimal digits at least, in lower case, padded with zeros. -/
def hexNumber (digits n : Nat) : String :=
  let text := Nat.toDigits 16 n
  String.ofList (List.replicate (digits - text.length) '0' ++ text)

/-- Two lower-case hexadecimal digits per byte. -/
def hex (bytes : Bytes) : String := String.join (bytes.map fun b => hexNumber 2 b.toNat)

end Bytes

end Bourse
