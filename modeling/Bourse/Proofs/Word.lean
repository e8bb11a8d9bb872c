import Bourse.Address
import Bourse.Arithmetic
import Bourse.Word.Double
import Bourse.Proofs.Bytes.Digits

/-!
# The numbers behind words

What the operations on words, addresses and double words do to the numbers behind them, with their
bounds as powers of two.
-/

namespace Bourse

namespace Word

/-- A word is a number of 256 bits. -/
theorem toNat_lt (w : Word) : w.toNat < 2 ^ 256 := w.toNat_lt_size

/-- There is no word for a number of more than 256 bits. -/
theorem ofNat?_eq_none_iff {n : Nat} : ofNat? n = none ↔ 2 ^ 256 ≤ n := by
  unfold ofNat? size
  split <;> simp <;> omega

@[simp] theorem toNat_wrap (n : Nat) : (wrap n).toNat = n % 2 ^ 256 := rfl

/-- A number that is too large for a word is cut down to the greatest one. -/
@[simp] theorem toNat_clamp (n : Nat) : (clamp n).toNat = min n (2 ^ 256 - 1) := by
  unfold clamp top size
  split <;> simp only <;> omega

/-- A difference below zero is counted down from the size of a word. -/
@[simp] theorem toNat_subWrap (a b : Word) :
    (a.subWrap b).toNat = (2 ^ 256 + a.toNat - b.toNat) % 2 ^ 256 := rfl

@[simp] theorem toNat_top : top.toNat = 2 ^ 256 - 1 := rfl

/-- A word fits so many bits when it is below the power of two. -/
theorem fits?_eq (bits : Nat) (w : Word) :
    w.fits? bits = if w.toNat < 2 ^ bits then some w.toNat else none := by
  rw [fits?, Nat.one_shiftLeft]

/-- A word is determined by its bytes. -/
theorem toBytes_inj {a b : Word} : a.toBytes = b.toBytes ↔ a = b := by
  refine ⟨fun h => ext ?_, fun h => h ▸ rfl⟩
  have h' := congrArg Bytes.toNat h
  rw [toBytes, toBytes, Bytes.toNat_bigEndian, Bytes.toNat_bigEndian] at h'
  have ha := a.toNat_lt
  have hb := b.toNat_lt
  omega

@[simp] theorem toNat_ofLittleEndian (bytes : Bytes) :
    (ofLittleEndian bytes).toNat = Bytes.ofLittleEndian bytes % 2 ^ 256 := rfl

end Word

namespace Address

/-- An address is a number of 160 bits. -/
theorem toNat_lt (a : Address) : a.toNat < 2 ^ 160 := a.toNat_lt_size

/-- An address is determined by its bytes. -/
theorem toBytes_inj {a b : Address} : a.toBytes = b.toBytes ↔ a = b := by
  refine ⟨fun h => ext ?_, fun h => h ▸ rfl⟩
  have h' := congrArg Bytes.toNat h
  rw [toBytes, toBytes, Bytes.toNat_bigEndian, Bytes.toNat_bigEndian] at h'
  have ha := a.toNat_lt
  have hb := b.toNat_lt
  omega

end Address

namespace Arithmetic

/-- A number does not fit when it has more than 256 bits, and then it overflows. -/
theorem fit_eq_error_iff {n : Nat} {e : ArithmeticError} :
    fit n = .error e ↔ 2 ^ 256 ≤ n ∧ e = .overflow := by
  rw [← Word.ofNat?_eq_none_iff, fit]
  cases Word.ofNat? n <;> simp [eq_comm]

end Arithmetic

namespace DoubleWord

/-- A double word is a number of 512 bits. -/
theorem toNat_lt (d : DoubleWord) : d.toNat < 2 ^ 256 * 2 ^ 256 := d.toNat_lt_size

@[simp] theorem toNat_ofLittleEndian (bytes : Bytes) :
    (ofLittleEndian bytes).toNat = Bytes.ofLittleEndian bytes % (2 ^ 256 * 2 ^ 256) := rfl

@[simp] theorem toNat_ofWord (w : Word) : (ofWord w).toNat = w.toNat := by
  have hlt := w.toNat_lt
  rw [ofWord, toNat_ofLittleEndian, Bytes.ofLittleEndian_append_zeros,
    Bytes.ofLittleEndian_littleEndian]
  omega

/-- The product of two words is always a double word. -/
theorem mul?_ofWord (a b : Word) :
    ∃ product, mul? (ofWord a) (ofWord b) = some product ∧ product.toNat = a.toNat * b.toNat := by
  have hlt : (ofWord a).toNat * (ofWord b).toNat < 2 ^ 256 * 2 ^ 256 := by
    rw [toNat_ofWord, toNat_ofWord]
    exact Nat.mul_lt_mul'' a.toNat_lt b.toNat_lt
  refine ⟨⟨_, hlt⟩, dif_pos hlt, ?_⟩
  show (ofWord a).toNat * (ofWord b).toNat = _
  rw [toNat_ofWord, toNat_ofWord]

/-- A double word is written as its low half and then its high half. -/
theorem littleEndian_eq_append (d : DoubleWord) :
    d.littleEndian =
      Bytes.littleEndian 32 d.toNat ++ Bytes.littleEndian 32 (d.toNat / 256 ^ 32) :=
  Bytes.littleEndian_add 32 32 d.toNat

/-- The first half of the bytes is the low word. -/
theorem take_littleEndian (d : DoubleWord) :
    d.littleEndian.take 32 = Bytes.littleEndian 32 d.toNat := by
  rw [littleEndian_eq_append, List.take_left' (Bytes.length_littleEndian ..)]

/-- The second half of the bytes is the high word. -/
theorem drop_littleEndian (d : DoubleWord) :
    d.littleEndian.drop 32 = Bytes.littleEndian 32 (d.toNat / 256 ^ 32) := by
  rw [littleEndian_eq_append, List.drop_left' (Bytes.length_littleEndian ..)]

/-- The upper half is empty exactly in the numbers that are words. -/
theorem any_drop_littleEndian (d : DoubleWord) :
    (d.littleEndian.drop 32).any (· ≠ 0) = false ↔ d.toNat < 2 ^ 256 := by
  have hlt := d.toNat_lt
  have hzeros : (∀ b ∈ d.littleEndian.drop 32, b = 0) ↔ d.toNat / 256 ^ 32 % 256 ^ 32 = 0 := by
    rw [← Bytes.ofLittleEndian_eq_zero_iff, drop_littleEndian, Bytes.ofLittleEndian_littleEndian]
  simp only [List.any_eq_false, decide_eq_true_eq, Decidable.not_not, hzeros]
  omega

/-- So the halves give the number back if it is a word, and nothing otherwise. -/
theorem toWord?_eq_ofNat? (d : DoubleWord) : d.toWord? = Word.ofNat? d.toNat := by
  rw [toWord?]
  by_cases hword : d.toNat < 2 ^ 256
  · have hlower : (Word.ofLittleEndian (d.littleEndian.take 32)).toNat = d.toNat := by
      rw [Word.toNat_ofLittleEndian, take_littleEndian, Bytes.ofLittleEndian_littleEndian]
      omega
    rw [if_neg (ne_true_of_eq_false (d.any_drop_littleEndian.mpr hword))]
    exact (Word.ofNat?_eq_some_iff.mpr hlower).symm
  · have hfull := eq_true_of_ne_false fun h => hword (d.any_drop_littleEndian.mp h)
    rw [if_pos hfull]
    exact (Word.ofNat?_eq_none_iff.mpr (Nat.le_of_not_lt hword)).symm

end DoubleWord

end Bourse
