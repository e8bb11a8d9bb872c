import Bourse.Decimal
import Bourse.Proofs.Result
import Bourse.Proofs.Word
import Mathlib.Algebra.Order.Floor.Semifield
import Mathlib.Data.Rat.Floor

/-!
# Rescaling

A rescaled value is the exact one rounded down. With powers of ten on both sides this is one
quotient, whichever of the two numbers of decimals is the greater one. All the ways to rescale
move the point by some number of places, and they have a result exactly if both the power of ten
for these places and the exact value are words.
-/

namespace Bourse.Decimal

open Arithmetic

/-- Multiplying by ten again and again fits the exact product, as no intermediate one is above
it. -/
theorem timesTen_eq_fit (count : Nat) (acc : Word) :
    timesTen count acc = fit (acc.toNat * 10 ^ count) := by
  induction count generalizing acc with
  | zero => exact (fit_eq_ok_iff.mpr (Nat.mul_one _).symm).symm
  | succ count ih =>
    have hpower : acc.toNat * 10 ^ (count + 1) = acc.toNat * 10 * 10 ^ count := by
      rw [Nat.pow_succ', Nat.mul_assoc]
    rw [timesTen, hpower]
    cases hnext : Arithmetic.mul acc 10 with
    | ok next =>
      have hvalue : next.toNat = acc.toNat * 10 := mul_eq_ok_iff.mp hnext
      rw [← hvalue]
      exact ih next
    | error cause =>
      -- What is too great stays so when it is multiplied further.
      obtain ⟨hlarge, rfl⟩ := fit_eq_error_iff.mp hnext
      have hpos : 0 < 10 ^ count := Nat.pow_pos (by decide)
      exact (fit_eq_error_iff.mpr ⟨Nat.le_trans hlarge (Nat.le_mul_of_pos_right _ hpos), rfl⟩).symm

/-- There are no greater powers of ten among the words than those that are computed. -/
theorem pow10_eq_fit (exponent : Nat) : pow10 exponent = fit (10 ^ exponent) := by
  rw [pow10]
  split
  · next hlarge =>
    have hpower : 10 ^ 78 ≤ 10 ^ exponent := Nat.pow_le_pow_right (by decide) hlarge
    exact (fit_eq_error_iff.mpr ⟨Nat.le_trans (by decide) hpower, rfl⟩).symm
  · rw [timesTen_eq_fit, Word.toNat_one, Nat.one_mul]

/-- A power of ten is exact or none. -/
theorem pow10_eq_ok_iff {exponent : Nat} {w : Word} :
    pow10 exponent = .ok w ↔ w.toNat = 10 ^ exponent := by
  rw [pow10_eq_fit, fit_eq_ok_iff]

variable {a w : Word} {digits : Nat}

/-- A computation that starts from a power of ten fails if that is no word. -/
theorem pow10_bind_of_lt (h : maxExponent < digits) (f : Word → Except ArithmeticError Word) :
    pow10 digits >>= f = .error .overflow := by
  rw [pow10, if_pos h]
  rfl

/-- Otherwise it goes on with the power. -/
theorem exists_pow10_of_le (h : digits ≤ maxExponent) :
    ∃ power, pow10 digits = .ok power ∧ power.toNat = 10 ^ digits := by
  have hpower : 10 ^ digits ≤ 10 ^ maxExponent := Nat.pow_le_pow_right (by decide) h
  have hlt : 10 ^ digits < 2 ^ 256 := Nat.lt_of_le_of_lt hpower (by decide)
  exact ⟨⟨_, hlt⟩, pow10_eq_ok_iff.mpr rfl, rfl⟩

/-- Within the greatest exponent, digits are added exactly, if the result fits. -/
theorem widen_eq_fit (h : digits ≤ maxExponent) (a : Word) :
    widen a digits = fit (a.toNat * 10 ^ digits) := by
  obtain ⟨power, hpower, hvalue⟩ := exists_pow10_of_le h
  rw [widen, hpower, ← hvalue]
  rfl

/-- Within the greatest exponent, digits are cut off. -/
theorem narrow_eq_fit (h : digits ≤ maxExponent) (a : Word) :
    narrow a digits = fit (a.toNat / 10 ^ digits) := by
  obtain ⟨power, hpower, hvalue⟩ := exists_pow10_of_le h
  rw [narrow, hpower, ← hvalue]
  exact (fit_eq_ok_iff.mpr (Word.toNat_div a power)).symm

/-- The value with its point moved to the right by a number of places, rounded down. -/
def moved (a : Word) (places : Int) : Nat := a.toNat * 10 ^ places.toNat / 10 ^ (-places).toNat

/-- The number of places is a difference of two numbers of decimals. -/
theorem moved_sub (a : Word) (m n : Nat) : moved a (m - n) = a.toNat * 10 ^ m / 10 ^ n := by
  have hpos : ∀ k, 0 < 10 ^ k := fun k => Nat.pow_pos (by decide)
  rw [moved]
  obtain ⟨k, rfl⟩ | ⟨k, rfl⟩ :=
    (Nat.le_total n m).imp Nat.exists_eq_add_of_le Nat.exists_eq_add_of_le
  · have hright : ((n + k : Nat) - n : Int).toNat = k := by omega
    have hleft : (-((n + k : Nat) - n : Int)).toNat = 0 := by omega
    rw [hright, hleft, Nat.pow_zero, Nat.div_one, Nat.pow_add, Nat.mul_comm (10 ^ n),
      ← Nat.mul_assoc, Nat.mul_div_cancel _ (hpos n)]
  · have hright : (m - (m + k : Nat) : Int).toNat = 0 := by omega
    have hleft : (-(m - (m + k : Nat) : Int)).toNat = k := by omega
    rw [hright, hleft, Nat.pow_zero, Nat.mul_one, Nat.pow_add, Nat.mul_comm (10 ^ m),
      Nat.mul_div_mul_right _ _ (hpos m)]

/-- Among the rationals this is the product with the power of ten. -/
theorem moved_eq_floor (a : Word) (places : Int) :
    moved a places = ⌊(a.toNat : ℚ) * 10 ^ places⌋₊ := by
  rw [moved]
  obtain ⟨k, rfl | rfl⟩ := places.eq_nat_or_neg
  · have hleft : (-(k : Int)).toNat = 0 := by omega
    rw [hleft, Int.toNat_natCast, Nat.pow_zero, Nat.div_one, zpow_natCast]
    exact_mod_cast (Nat.floor_natCast (R := ℚ) _).symm
  · have hright : (-(k : Int)).toNat = 0 := by omega
    rw [hright, neg_neg, Int.toNat_natCast, Nat.pow_zero, Nat.mul_one, zpow_neg, zpow_natCast,
      ← div_eq_mul_inv]
    exact_mod_cast (Nat.floor_div_eq_div (K := ℚ) a.toNat (10 ^ k)).symm

/-- Moving to fewer digits gives no more. -/
theorem moved_le_of_nonpos {places : Int} (h : places ≤ 0) (a : Word) :
    moved a places ≤ a.toNat := by
  have hright : places.toNat = 0 := Int.toNat_of_nonpos h
  rw [moved, hright, Nat.pow_zero, Nat.mul_one]
  exact Nat.div_le_self _ _

/-- The outcome of moving the point by a number of places, if the value is to be `exact`. -/
structure Moves (result : Except ArithmeticError Word) (places : Int) (exact : Nat) : Prop where
  /-- The exact value is the result if it is a word and the power of ten is one. -/
  ok_iff : ∀ w, result = .ok w ↔ places.natAbs ≤ 77 ∧ w.toNat = exact
  /-- Otherwise the result is overflow. -/
  error_iff : ∀ cause, result = .error cause ↔
    cause = .overflow ∧ (77 < places.natAbs ∨ 2 ^ 256 ≤ exact)
  /-- To the left there is always a result within the reach of the powers. -/
  left : -77 ≤ places → places ≤ 0 → ∃ w, result = .ok w

/-- Within the greatest exponent, an amount is moved by so many places, if the result fits. -/
theorem scaleBy_eq_fit {places : Int} (h : places.natAbs ≤ maxExponent) (a : Word) :
    scaleBy a places = fit (moved a places) := by
  rw [scaleBy, moved]
  split
  · have hright : places.toNat = places.natAbs := by omega
    have hleft : (-places).toNat = 0 := by omega
    rw [widen_eq_fit h, hright, hleft, Nat.pow_zero, Nat.div_one]
  · have hright : places.toNat = 0 := by omega
    have hleft : (-places).toNat = places.natAbs := by omega
    rw [narrow_eq_fit h, hright, hleft, Nat.pow_zero, Nat.mul_one]

/-- Beyond the greatest exponent, every amount overflows. -/
theorem scaleBy_of_lt {places : Int} (h : maxExponent < places.natAbs) (a : Word) :
    scaleBy a places = .error .overflow := by
  rw [scaleBy, widen, narrow, pow10_bind_of_lt h, pow10_bind_of_lt h, ite_self]

/-- An amount is moved by so many places within the greatest exponent, and refused beyond it. -/
theorem moves_scaleBy (a : Word) (places : Int) :
    Moves (scaleBy a places) places (moved a places) := by
  obtain hreach | hbeyond := Nat.lt_or_ge maxExponent places.natAbs |>.symm
  · rw [scaleBy_eq_fit hreach]
    refine ⟨fun w => ?_, fun cause => ?_, fun _ hleft => ?_⟩
    · rw [fit_eq_ok_iff]
      exact (and_iff_right hreach).symm
    · rw [fit_eq_error_iff, and_comm]
      exact and_congr_right' (or_iff_right (Nat.not_lt.mpr hreach)).symm
    · have hlt := Nat.lt_of_le_of_lt (moved_le_of_nonpos hleft a) a.toNat_lt
      exact ⟨⟨_, hlt⟩, fit_eq_ok_iff.mpr rfl⟩
  · rw [scaleBy_of_lt hbeyond]
    refine ⟨fun w => iff_of_false (by rintro ⟨⟩) fun h => ?_, fun cause => ?_, fun hreach _ => ?_⟩
    · exact Nat.not_le.mpr hbeyond h.1
    · exact ⟨fun h => by cases h; exact ⟨rfl, Or.inl hbeyond⟩, fun h => by rw [h.1]⟩
    · rw [maxExponent] at hbeyond
      omega

/-- To eighteen decimals the point moves by those that are missing. -/
theorem to18_eq_scaleBy (a : Word) (decimals : Nat) :
    to18 a decimals = scaleBy a (18 - decimals) := by
  rw [to18, scaleBy, places]
  split
  · have hdigits : (18 - decimals : Int).natAbs = decimals - 18 := by omega
    rw [if_neg (by omega), hdigits]
  · have hdigits : (18 - decimals : Int).natAbs = 18 - decimals := by omega
    rw [if_pos (by omega), hdigits]

/-- From eighteen decimals it moves by those that are wanted. -/
theorem from18_eq_scaleBy (a : Word) (decimals : Nat) :
    from18 a decimals = scaleBy a (decimals - 18) := by
  rw [from18, scaleBy, places]
  split
  · have hdigits : (decimals - 18 : Int).natAbs = 18 - decimals := by omega
    rw [if_neg (by omega), hdigits]
  · have hdigits : (decimals - 18 : Int).natAbs = decimals - 18 := by omega
    rw [if_pos (by omega), hdigits]

/-- No power of ten is lost to the width of the exponent: those that are words are far within it. -/
theorem rescaleRatio_eq_scaleBy (ratio : Word) (outputDecimals inputDecimals : Nat) :
    rescaleRatio ratio outputDecimals inputDecimals =
      scaleBy ratio (inputDecimals - outputDecimals) := by
  have hleast : Int8.minValue.toInt = -128 := rfl
  have hgreatest : Int8.maxValue.toInt = 127 := rfl
  simp only [rescaleRatio, hleast, hgreatest]
  split
  · rfl
  · next hwide =>
    rw [scaleBy_of_lt]
    rw [maxExponent]
    omega

/-- A price between raw amounts is the price times the units of the input token in one unit of the
output token, rounded down. -/
theorem toNat_of_rescaleRatio {outputDecimals inputDecimals : Nat}
    (h : rescaleRatio a outputDecimals inputDecimals = .ok w) :
    w.toNat = a.toNat * 10 ^ inputDecimals / 10 ^ outputDecimals := by
  rw [rescaleRatio_eq_scaleBy] at h
  rw [((moves_scaleBy a _).ok_iff w).mp h |>.2, moved_sub]

/-- Rescaling gives the exact value rounded down. It fails where that is no word, and where the
power of ten for the places by which the point moves is none. -/
theorem rescaling_exact (a : Word) (decimals outputDecimals inputDecimals : UInt8)
    (exponent : Int8) : Moves (to18 a decimals.toNat) (18 - decimals.toNat)
      (a.toNat * 10 ^ 18 / 10 ^ decimals.toNat) ∧
    Moves (from18 a decimals.toNat) (decimals.toNat - 18)
      (a.toNat * 10 ^ decimals.toNat / 10 ^ 18) ∧
    Moves (scaleBy a exponent.toInt) exponent.toInt ⌊(a.toNat : ℚ) * 10 ^ exponent.toInt⌋₊ ∧
    Moves (rescaleRatio a outputDecimals.toNat inputDecimals.toNat)
      (inputDecimals.toNat - outputDecimals.toNat)
      (a.toNat * 10 ^ inputDecimals.toNat / 10 ^ outputDecimals.toNat) := by
  rw [to18_eq_scaleBy, from18_eq_scaleBy, rescaleRatio_eq_scaleBy, ← moved_eq_floor, ← moved_sub,
    ← moved_sub, ← moved_sub]
  exact ⟨moves_scaleBy a _, moves_scaleBy a _, moves_scaleBy a _, moves_scaleBy a _⟩

/-- One is refused with one decimal more than the powers of ten can drop, and zero with one
decimal more than they can append, though the value of both is zero. -/
theorem to18_from18_refuse_zero :
    ((1 : Word).toNat * 10 ^ 18 / 10 ^ 96 < 2 ^ 256 ∧ to18 1 96 = .error .overflow) ∧
    ((0 : Word).toNat * 10 ^ 96 / 10 ^ 18 < 2 ^ 256 ∧ from18 0 96 = .error .overflow) :=
  ⟨⟨by decide, rfl⟩, ⟨by decide, rfl⟩⟩

end Bourse.Decimal
