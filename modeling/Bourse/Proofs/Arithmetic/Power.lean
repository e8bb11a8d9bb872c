import Bourse.Proofs.Word
import Mathlib.Data.Nat.ModEq

/-!
# Powers are exact

Repeated squaring keeps the product of the accumulator and the remaining power of the square. With
checked products this is never lost to a square that is not needed: the highest bit of the
exponent is still to come whenever a square is formed, so the square divides the power. The
accumulator is zero only if the square is, and then no product fails at all.
-/

namespace Bourse.Arithmetic

/-- The digits that are left to go through are those of the exponent, the highest one included. -/
structure Digits (bits exponent : Nat) : Prop where
  lt : exponent < 2 ^ bits
  top : bits ≠ 0 → 2 ^ bits ≤ 2 * exponent

/-- An exponent has the digits that its length counts. -/
theorem digits_bitLength (exponent : Nat) : Digits (bitLength exponent) exponent := by
  rw [bitLength]
  split
  · next hzero =>
    exact ⟨by omega, fun h => absurd rfl h⟩
  · next hpos =>
    have htop := Nat.log2_self_le hpos
    refine ⟨Nat.lt_log2_self, fun _ => ?_⟩
    rw [Nat.pow_succ]
    omega

/-- Halving an exponent takes a digit off. -/
theorem Digits.next {bits exponent : Nat} (h : Digits (bits + 1) exponent) :
    Digits bits (exponent / 2) := by
  have hlt := h.lt
  have htop := h.top (Nat.succ_ne_zero bits)
  rw [Nat.pow_succ] at hlt htop
  refine ⟨by omega, fun hbits => ?_⟩
  obtain ⟨k, rfl⟩ := Nat.exists_eq_succ_of_ne_zero hbits
  rw [Nat.pow_succ] at htop ⊢
  omega

/-- While a digit is left the exponent is not zero. -/
theorem Digits.pos {bits exponent : Nat} (h : Digits bits exponent) (hbits : bits ≠ 0) :
    0 < exponent := by
  have htop := h.top hbits
  have hpow : 0 < 2 ^ bits := Nat.two_pow_pos bits
  omega

/-- The lowest digit of the exponent goes into the accumulator, the others into the square. -/
theorem mul_pow_eq (acc square exponent : Nat) :
    acc * square ^ exponent =
      acc * square ^ (exponent % 2) * (square * square) ^ (exponent / 2) := by
  have hexponent : exponent = exponent % 2 + 2 * (exponent / 2) := by omega
  calc acc * square ^ exponent
      = acc * square ^ (exponent % 2 + 2 * (exponent / 2)) := by rw [← hexponent]
    _ = acc * (square ^ (exponent % 2) * (square * square) ^ (exponent / 2)) := by
        rw [Nat.pow_add, Nat.pow_mul, Nat.pow_two]
    _ = acc * square ^ (exponent % 2) * (square * square) ^ (exponent / 2) :=
        (Nat.mul_assoc _ _ _).symm

/-- A square that is no word is a factor of the power, unless the accumulator is zero. -/
theorem fit_mul_square_pow {acc square exponent : Nat} (hlarge : 2 ^ 256 ≤ square * square)
    (hacc : acc = 0 → square = 0) (hexponent : 0 < exponent) :
    fit (acc * (square * square) ^ exponent) = .error .overflow := by
  have hpos : 0 < acc := by
    refine Nat.pos_of_ne_zero fun hzero => ?_
    rw [hacc hzero] at hlarge
    omega
  have hpower : square * square ≤ (square * square) ^ exponent := Nat.le_self_pow hexponent.ne' _
  exact fit_eq_error_iff.mpr ⟨hlarge.trans (hpower.trans (Nat.le_mul_of_pos_left _ hpos)), rfl⟩

/-- So is an accumulator that is no word. -/
theorem fit_mul_pow {acc square exponent : Nat} (hlarge : 2 ^ 256 ≤ acc * square)
    (hexponent : 0 < exponent) : fit (acc * square ^ exponent) = .error .overflow := by
  have hpower : square ≤ square ^ exponent := Nat.le_self_pow hexponent.ne' _
  exact fit_eq_error_iff.mpr ⟨hlarge.trans (Nat.mul_le_mul_left _ hpower), rfl⟩

/-- Going through the digits computes the power, and fails only if it is no word. -/
theorem raise_mul_eq_fit {bits exponent : Nat} (hdigits : Digits bits exponent) (square acc : Word)
    (hacc : acc.toNat = 0 → square.toNat = 0) :
    raise mul bits square acc exponent = fit (acc.toNat * square.toNat ^ exponent) := by
  induction bits generalizing square acc exponent with
  | zero =>
    have hzero : exponent = 0 := Nat.lt_one_iff.mp hdigits.lt
    subst hzero
    exact (fit_eq_ok_iff.mpr (Nat.mul_one _).symm).symm
  | succ bits ih =>
    -- The digits that follow, from an accumulator that has the lowest one in it.
    have hrest : ∀ next : Word, next.toNat = acc.toNat * square.toNat ^ (exponent % 2) →
        (if bits = 0 then pure next else do
            raise mul bits (← mul square square) next (exponent / 2)) =
          fit (acc.toNat * square.toNat ^ exponent) := by
      intro next hnext
      have hzero : next.toNat = 0 → square.toNat = 0 := by
        intro h
        rw [hnext] at h
        exact (Nat.mul_eq_zero.mp h).elim hacc fun hpow => (Nat.pow_eq_zero.mp hpow).1
      rw [mul_pow_eq, ← hnext]
      split
      · next hbits =>
        subst hbits
        have hhalf : exponent / 2 = 0 := Nat.lt_one_iff.mp hdigits.next.lt
        rw [hhalf]
        exact (fit_eq_ok_iff.mpr (Nat.mul_one _).symm).symm
      · next hbits =>
        cases hsquare : mul square square with
        | ok product =>
          have hproduct := mul_eq_ok_iff.mp hsquare
          rw [← hproduct]
          exact ih hdigits.next product next fun h => by rw [hproduct, hzero h]
        | error cause =>
          obtain ⟨hlarge, rfl⟩ := fit_eq_error_iff.mp hsquare
          exact (fit_mul_square_pow hlarge hzero (hdigits.next.pos hbits)).symm
    rw [raise]
    by_cases hodd : exponent % 2 = 1
    · rw [if_pos hodd]
      cases hproduct : mul acc square with
      | ok product =>
        apply hrest product
        rw [hodd, Nat.pow_one]
        exact mul_eq_ok_iff.mp hproduct
      | error cause =>
        obtain ⟨hlarge, rfl⟩ := fit_eq_error_iff.mp hproduct
        exact (fit_mul_pow hlarge (hdigits.pos (Nat.succ_ne_zero bits))).symm
    · rw [if_neg hodd]
      apply hrest acc
      have heven : exponent % 2 = 0 := by omega
      rw [heven, Nat.pow_zero, Nat.mul_one]

/-- A power is refused only if it is no word. -/
theorem pow_eq_fit (base exponent : Word) :
    pow base exponent = fit (base.toNat ^ exponent.toNat) := by
  have hone : (1 : Word).toNat = 0 → base.toNat = 0 := nofun
  rw [pow, raise_mul_eq_fit (digits_bitLength _) base 1 hone, Word.toNat_one, Nat.one_mul]

/-- A wrapping product is the exact one up to a multiple of the size of a word. -/
theorem mulWrap_modEq (a b : Word) : (a.mulWrap b).toNat ≡ a.toNat * b.toNat [MOD 2 ^ 256] :=
  Nat.mod_modEq _ _

/-- With products modulo `2 ^ 256`, going through the digits computes the power modulo `2 ^ 256`. -/
theorem raise_mulWrap_modEq {bits exponent : Nat} (hdigits : Digits bits exponent)
    (square acc : Word) :
    (Id.run (raise (fun a b => pure (a.mulWrap b)) bits square acc exponent)).toNat ≡
      acc.toNat * square.toNat ^ exponent [MOD 2 ^ 256] := by
  induction bits generalizing square acc exponent with
  | zero =>
    have hzero : exponent = 0 := Nat.lt_one_iff.mp hdigits.lt
    subst hzero
    rw [Nat.pow_zero, Nat.mul_one]
    exact Nat.ModEq.refl _
  | succ bits ih =>
    have hrest : ∀ next : Word,
        next.toNat ≡ acc.toNat * square.toNat ^ (exponent % 2) [MOD 2 ^ 256] →
        (Id.run (if bits = 0 then pure next else
            raise (fun a b => pure (a.mulWrap b)) bits (square.mulWrap square) next
              (exponent / 2))).toNat ≡
          acc.toNat * square.toNat ^ exponent [MOD 2 ^ 256] := by
      intro next hnext
      rw [mul_pow_eq]
      split
      · next hbits =>
        subst hbits
        have hhalf : exponent / 2 = 0 := Nat.lt_one_iff.mp hdigits.next.lt
        rw [hhalf, Nat.pow_zero, Nat.mul_one]
        exact hnext
      · exact (ih hdigits.next _ next).trans
          (hnext.mul ((mulWrap_modEq square square).pow _))
    rw [raise]
    by_cases hodd : exponent % 2 = 1
    · rw [if_pos hodd]
      apply hrest
      rw [hodd, Nat.pow_one]
      exact mulWrap_modEq acc square
    · rw [if_neg hodd]
      apply hrest
      have heven : exponent % 2 = 0 := by omega
      rw [heven, Nat.pow_zero, Nat.mul_one]
      exact Nat.ModEq.refl _

/-- A wrapping power is the remainder of the exact one. -/
theorem toNat_powWrap (base exponent : Word) :
    (powWrap base exponent).toNat = base.toNat ^ exponent.toNat % 2 ^ 256 := by
  have hpower := raise_mulWrap_modEq (digits_bitLength exponent.toNat) base 1
  rw [Word.toNat_one, Nat.one_mul] at hpower
  rw [← Nat.mod_eq_of_lt (powWrap base exponent).toNat_lt]
  exact hpower

/-- The power, in both readings of results that leave the range of words: the checked one is the
exact power when that is a word and overflow when it is none, and the wrapping one is its
remainder. Zero to the zero is one. -/
theorem pow_exact (base exponent : Word) :
    (∀ w, pow base exponent = .ok w ↔ w.toNat = base.toNat ^ exponent.toNat) ∧
    (∀ cause, pow base exponent = .error cause ↔
      2 ^ 256 ≤ base.toNat ^ exponent.toNat ∧ cause = .overflow) ∧
    (powWrap base exponent).toNat = base.toNat ^ exponent.toNat % 2 ^ 256 := by
  rw [pow_eq_fit]
  exact ⟨fun _ => fit_eq_ok_iff, fun _ => fit_eq_error_iff, toNat_powWrap base exponent⟩

example : pow 0 0 = .ok 1 := rfl

/-- The square of the highest bit is not formed, though it would not fit. -/
example : pow 2 255 = .ok ⟨2 ^ 255, by decide⟩ := by decide

end Bourse.Arithmetic
