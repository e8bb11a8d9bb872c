import Bourse.Decimal
import Bourse.Proofs.Word

/-!
# Products and quotients of decimals

A product over a divisor is refused only if the quotient is no word: the product itself has room
for twice as many bits. It is rounded down once. So a quotient and the product that undoes it, in
either order, round down twice. They never gain anything, hence the way back always has a result,
and what they lose is bounded by the two divisors.
-/

namespace Bourse.Decimal

open Arithmetic

/-- Only the quotient has to be a word. -/
theorem mulDiv_eq_fit {divisor : Word} (hdivisor : divisor ≠ 0) (a b : Word) :
    mulDiv a b divisor = fit (a.toNat * b.toNat / divisor.toNat) := by
  obtain ⟨product, hproduct, hvalue⟩ := DoubleWord.mul?_ofWord a b
  rw [mulDiv, if_neg hdivisor, hproduct]
  show orOverflow (product / .ofWord divisor).toWord? = _
  rw [DoubleWord.toWord?_eq_ofNat?, DoubleWord.toNat_div, DoubleWord.toNat_ofWord, hvalue, fit]
  cases Word.ofNat? (a.toNat * b.toNat / divisor.toNat) <;> rfl

/-- A decimal product is the rounded exact one, if it fits. -/
theorem mul_eq_fit (a b : Word) : mul a b = fit (a.toNat * b.toNat / 10 ^ 18) :=
  mulDiv_eq_fit (by decide) a b

/-- A decimal quotient is the rounded exact one, if it fits. -/
theorem div_eq_fit {b : Word} (hb : b ≠ 0) (a : Word) :
    div a b = fit (a.toNat * 10 ^ 18 / b.toNat) :=
  mulDiv_eq_fit hb a one

/-- Scaling up, dividing and going back never gives more. -/
theorem mul_div_mul_div_le (n d : Nat) {m : Nat} (hm : 0 < m) : n * m / d * d / m ≤ n :=
  calc n * m / d * d / m
      ≤ n * m / m := Nat.div_le_div_right (Nat.div_mul_le_self _ _)
    _ = n := Nat.mul_div_cancel _ hm

/-- Each of the two roundings costs less than its divisor. -/
theorem sub_mul_div_mul_div_lt (n : Nat) {m d : Nat} (hm : 0 < m) (hd : 0 < d) :
    (n - n * m / d * d / m) * m < d + m := by
  have hthere : n * m < n * m / d * d + d := Nat.lt_div_mul_add hd
  have hback : n * m / d * d < n * m / d * d / m * m + m := Nat.lt_div_mul_add hm
  rw [Nat.sub_mul]
  omega

/-- The way back from a word has a result, which is hardly less than the word. -/
theorem exists_fit_mul_div_mul_div (a : Word) {m d : Nat} (hm : 0 < m) (hd : 0 < d) :
    ∃ p, fit (a.toNat * m / d * d / m) = .ok p ∧ p ≤ a ∧ (a.toNat - p.toNat) * m < d + m := by
  have hle := mul_div_mul_div_le a.toNat d hm
  exact ⟨⟨_, Nat.lt_of_le_of_lt hle a.toNat_lt⟩, fit_eq_ok_iff.mpr rfl, hle,
    sub_mul_div_mul_div_lt a.toNat hm hd⟩

/-- A quotient times its divisor gives no more than what was divided, and little less. -/
theorem exists_mul_of_div {a b q : Word} (hb : b ≠ 0) (h : div a b = .ok q) :
    ∃ p, mul q b = .ok p ∧ p ≤ a ∧ (a.toNat - p.toNat) * 10 ^ 18 < b.toNat + 10 ^ 18 := by
  have hpos : 0 < b.toNat := Nat.pos_of_ne_zero fun hzero => hb (Word.ext hzero)
  rw [div_eq_fit hb, fit_eq_ok_iff] at h
  rw [mul_eq_fit, h]
  exact exists_fit_mul_div_mul_div a (Nat.pow_pos (by decide)) hpos

/-- A product over one of its factors gives no more than the other, and little less. -/
theorem exists_div_of_mul {a b p : Word} (hb : b ≠ 0) (h : mul a b = .ok p) :
    ∃ q, div p b = .ok q ∧ q ≤ a ∧ (a.toNat - q.toNat) * b.toNat < b.toNat + 10 ^ 18 := by
  have hpos : 0 < b.toNat := Nat.pos_of_ne_zero fun hzero => hb (Word.ext hzero)
  rw [mul_eq_fit, fit_eq_ok_iff] at h
  rw [div_eq_fit hb, h, Nat.add_comm b.toNat]
  exact exists_fit_mul_div_mul_div a hpos (Nat.pow_pos (by decide))

/-- A product over a divisor is the rounded exact quotient, also where the product is larger than
a word. -/
theorem mulDiv_eq_ok_iff {a b divisor w : Word} :
    mulDiv a b divisor = .ok w ↔ divisor ≠ 0 ∧ w.toNat = a.toNat * b.toNat / divisor.toNat := by
  by_cases hzero : divisor = 0
  · rw [mulDiv, if_pos hzero]
    exact iff_of_false (by rintro ⟨⟩) fun h => h.1 hzero
  · rw [mulDiv_eq_fit hzero, fit_eq_ok_iff, and_iff_right hzero]

/-- A product over a divisor fails for a zero divisor, or else because the quotient does not
fit. -/
theorem mulDiv_eq_error_iff {a b divisor : Word} {cause : ArithmeticError} :
    mulDiv a b divisor = .error cause ↔
      (divisor = 0 ∧ cause = .divisionByZero) ∨
      (divisor ≠ 0 ∧ 2 ^ 256 ≤ a.toNat * b.toNat / divisor.toNat ∧ cause = .overflow) := by
  by_cases hzero : divisor = 0
  · rw [mulDiv, if_pos hzero]
    simp [hzero, eq_comm]
  · rw [mulDiv_eq_fit hzero, fit_eq_error_iff]
    simp [hzero]

/-- A product over a divisor is the exact quotient rounded down, and it fails only for the divisor
zero or where the quotient is no word. So a quotient of eighteen decimals is undone by a product,
and a product by a quotient, up to what the two roundings cost. -/
theorem mulDiv_exact (a b divisor : Word) :
    (∀ w, mulDiv a b divisor = .ok w ↔
      divisor ≠ 0 ∧ w.toNat = a.toNat * b.toNat / divisor.toNat) ∧
    (∀ cause, mulDiv a b divisor = .error cause ↔
      (divisor = 0 ∧ cause = .divisionByZero) ∨
      (divisor ≠ 0 ∧ 2 ^ 256 ≤ a.toNat * b.toNat / divisor.toNat ∧ cause = .overflow)) ∧
    (0 < b →
      (∀ q, div a b = .ok q → ∃ p, mul q b = .ok p ∧ p ≤ a ∧
        (a.toNat - p.toNat) * 10 ^ 18 < b.toNat + 10 ^ 18) ∧
      (∀ p, mul a b = .ok p → ∃ q, div p b = .ok q ∧ q ≤ a ∧
        (a.toNat - q.toNat) * b.toNat < b.toNat + 10 ^ 18)) := by
  refine ⟨fun _ => mulDiv_eq_ok_iff, fun _ => mulDiv_eq_error_iff, fun hpos => ?_⟩
  have hb : b ≠ 0 := by
    rintro rfl
    exact Nat.lt_irrefl 0 hpos
  exact ⟨fun _ => exists_mul_of_div hb, fun _ => exists_div_of_mul hb⟩

/-- Half of the words' range, divided by one and a half and multiplied by it. Neither product on
the way is a word. -/
theorem mulDiv_exact_halves :
    (0 : Word) < 1500000000000000000 ∧
    div (.wrap (2 ^ 255)) 1500000000000000000 = .ok (.wrap (2 ^ 256 / 3)) ∧
    (∃ p, mul (.wrap (2 ^ 256 / 3)) 1500000000000000000 = .ok p ∧ p ≤ .wrap (2 ^ 255) ∧
      (2 ^ 255 - p.toNat) * 10 ^ 18 < 1500000000000000000 + 10 ^ 18) ∧
    mul (.wrap (2 ^ 255)) 1500000000000000000 = .ok (.wrap (3 * 2 ^ 254)) ∧
    ∃ q, div (.wrap (3 * 2 ^ 254)) 1500000000000000000 = .ok q ∧ q ≤ .wrap (2 ^ 255) ∧
      (2 ^ 255 - q.toNat) * 1500000000000000000 < 1500000000000000000 + 10 ^ 18 := by
  have hpos : (0 : Word) < 1500000000000000000 := by decide
  have hdiv : div (.wrap (2 ^ 255)) 1500000000000000000 = .ok (.wrap (2 ^ 256 / 3)) := by
    rw [div_eq_fit (by decide), fit_eq_ok_iff]
    decide
  have hmul : mul (.wrap (2 ^ 255)) 1500000000000000000 = .ok (.wrap (3 * 2 ^ 254)) := by
    rw [mul_eq_fit, fit_eq_ok_iff]
    decide
  obtain ⟨_, _, hreversible⟩ := mulDiv_exact (.wrap (2 ^ 255)) 1500000000000000000 1
  obtain ⟨hback, hforth⟩ := hreversible hpos
  exact ⟨hpos, hdiv, hback _ hdiv, hmul, hforth _ hmul⟩

end Bourse.Decimal
