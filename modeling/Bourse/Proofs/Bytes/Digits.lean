import Bourse.Bytes
import Mathlib.Algebra.Group.Nat.Defs

/-!
# Bytes as digits

Reading the bytes of a number gives it modulo the capacity of their width, in whichever order they
are written. With the least significant byte first, a number may be cut after any byte: what
stands before the cut is the remainder by the capacity of these bytes, and what stands after it is
the quotient.
-/

namespace Bourse.Bytes

/-- Reading back gives the number modulo the capacity of the width. -/
theorem toNat_bigEndian (width n : Nat) : toNat (bigEndian width n) = n % 256 ^ width := by
  induction width generalizing n with
  | zero => simp [toNat, Nat.mod_one]
  | succ width ih =>
    have h := ih (n / 256)
    rw [toNat] at h
    rw [toNat, bigEndian_succ, List.foldl_append, h, Nat.pow_succ', Nat.mod_mul]
    simp
    omega

@[simp] theorem ofLittleEndian_nil : ofLittleEndian [] = 0 := rfl

@[simp] theorem ofLittleEndian_cons (b : UInt8) (bytes : Bytes) :
    ofLittleEndian (b :: bytes) = b.toNat + 256 * ofLittleEndian bytes := rfl

/-- A number takes as many bytes as it is given. -/
@[simp] theorem length_littleEndian (width n : Nat) : (littleEndian width n).length = width := by
  induction width generalizing n with
  | zero => rfl
  | succ width ih => rw [littleEndian, List.length_cons, ih]

/-- Reading back gives the number modulo the capacity of the width. -/
theorem ofLittleEndian_littleEndian (width n : Nat) :
    ofLittleEndian (littleEndian width n) = n % 256 ^ width := by
  induction width generalizing n with
  | zero => rw [Nat.pow_zero, Nat.mod_one, littleEndian, ofLittleEndian_nil]
  | succ width ih =>
    rw [littleEndian, ofLittleEndian_cons, ih, Nat.pow_succ', Nat.mod_mul, UInt8.toNat_ofNat']

/-- Bytes are read back from the number that they write. -/
theorem littleEndian_ofLittleEndian (bytes : Bytes) :
    littleEndian bytes.length (ofLittleEndian bytes) = bytes := by
  induction bytes with
  | nil => rfl
  | cons b bytes ih =>
    have hfirst : UInt8.ofNat (b.toNat + 256 * ofLittleEndian bytes) = b := by
      have hb := b.toNat_lt
      refine UInt8.toNat_inj.mp ?_
      rw [UInt8.toNat_ofNat']
      omega
    have hrest : (b.toNat + 256 * ofLittleEndian bytes) / 256 = ofLittleEndian bytes := by
      have hb := b.toNat_lt
      omega
    rw [List.length_cons, ofLittleEndian_cons, littleEndian, hfirst, hrest, ih]

/-- So many bytes do not make a number that is too large for them. -/
theorem ofLittleEndian_mod (bytes : Bytes) :
    ofLittleEndian bytes % 256 ^ bytes.length = ofLittleEndian bytes := by
  rw [← ofLittleEndian_littleEndian, littleEndian_ofLittleEndian]

/-- After the first bytes the quotient by their capacity is written. -/
theorem littleEndian_add (first rest n : Nat) :
    littleEndian (first + rest) n = littleEndian first n ++
      littleEndian rest (n / 256 ^ first) := by
  induction first generalizing n with
  | zero => rw [Nat.zero_add, Nat.pow_zero, Nat.div_one, littleEndian, List.nil_append]
  | succ first ih =>
    rw [Nat.succ_add, littleEndian, ih, Nat.div_div_eq_div_mul, ← Nat.pow_succ', littleEndian,
      List.cons_append]

/-- Some bytes in the middle write the number that is left when those before them are dropped. -/
theorem take_drop_littleEndian {width first count : Nat} (h : first + count ≤ width) (n : Nat) :
    ((littleEndian width n).drop first).take count = littleEndian count (n / 256 ^ first) := by
  obtain ⟨rest, rfl⟩ := Nat.exists_eq_add_of_le h
  rw [Nat.add_assoc, littleEndian_add, List.drop_left' (length_littleEndian ..), littleEndian_add,
    List.take_left' (length_littleEndian ..)]

/-- Zeros after the most significant byte do not count. -/
theorem ofLittleEndian_append_zeros (bytes : Bytes) (zeros : Nat) :
    ofLittleEndian (bytes ++ List.replicate zeros 0) = ofLittleEndian bytes := by
  induction bytes with
  | nil =>
    rw [List.nil_append]
    induction zeros with
    | zero => rfl
    | succ zeros ih => rw [List.replicate_succ, ofLittleEndian_cons, ih]; rfl
  | cons b bytes ih => rw [List.cons_append, ofLittleEndian_cons, ih, ofLittleEndian_cons]

/-- Only zeros are written for zero. -/
theorem ofLittleEndian_eq_zero_iff {bytes : Bytes} :
    ofLittleEndian bytes = 0 ↔ ∀ b ∈ bytes, b = 0 := by
  induction bytes with
  | nil => simp
  | cons b bytes ih =>
    rw [ofLittleEndian_cons, List.forall_mem_cons, ← ih, ← UInt8.toNat_inj, UInt8.toNat_zero]
    omega

end Bourse.Bytes
