import Bourse.Proofs.Decimal.Rescaling

/-!
# Rescaling there and back

Moving the point to the right and then to the left by the same number of places is exact. The
other way round the digits that were dropped are lost, and no more than these. A value that is
rescaled with saturation is the exact one as far as there are words, also for numbers of decimals
whose power of ten is none.
-/

namespace Bourse.Decimal

open Arithmetic

variable {a b w : Word}

/-- Moving to more digits multiplies. -/
theorem moved_natCast (a : Word) (k : Nat) : moved a k = a.toNat * 10 ^ k := by
  have h := moved_sub a k 0
  rwa [Int.natCast_zero, Int.sub_zero, Nat.pow_zero, Nat.div_one] at h

/-- Moving to fewer digits divides and rounds down. -/
theorem moved_neg_natCast (a : Word) (k : Nat) : moved a (-k) = a.toNat / 10 ^ k := by
  have h := moved_sub a 0 k
  rwa [Int.natCast_zero, Int.zero_sub, Nat.pow_zero, Nat.mul_one] at h

/-- Coming from 18 places multiplies by the one power of ten and divides by the other. -/
theorem moved_sub_places (a : Word) (decimals : Nat) :
    moved a (decimals - 18) = a.toNat * 10 ^ decimals / 10 ^ 18 :=
  moved_sub a decimals 18

/-- What has been appended can be dropped again. -/
theorem scaleBy_neg_natCast {k : Nat} (h : scaleBy a k = .ok b) : scaleBy b (-k) = .ok a := by
  obtain ⟨hreach, hvalue⟩ := ((moves_scaleBy a k).ok_iff b).mp h
  rw [moved_natCast] at hvalue
  refine ((moves_scaleBy b (-k)).ok_iff a).mpr ⟨?_, ?_⟩
  · rwa [Int.natAbs_neg]
  · rw [moved_neg_natCast, hvalue, Nat.mul_div_cancel _ (Nat.pow_pos (by decide))]

/-- Digits can be dropped and zeros be appended for them; what is missing then are the digits. -/
theorem exists_scaleBy_natCast {k : Nat} (hreach : k ≤ maxExponent) (b : Word) :
    ∃ c b', scaleBy b (-k) = .ok c ∧ scaleBy c k = .ok b' ∧ b' ≤ b ∧
      b.toNat - b'.toNat < 10 ^ k := by
  have hpos : 0 < 10 ^ k := Nat.pow_pos (by decide)
  have hdropped : b.toNat / 10 ^ k * 10 ^ k + b.toNat % 10 ^ k = b.toNat := by
    rw [Nat.mul_comm, Nat.div_add_mod]
  have hdigits : b.toNat % 10 ^ k < 10 ^ k := Nat.mod_lt _ hpos
  have hc : b.toNat / 10 ^ k < 2 ^ 256 := Nat.lt_of_le_of_lt (Nat.div_le_self _ _) b.toNat_lt
  have hb' : b.toNat / 10 ^ k * 10 ^ k < 2 ^ 256 :=
    Nat.lt_of_le_of_lt (Nat.div_mul_le_self _ _) b.toNat_lt
  refine ⟨⟨_, hc⟩, ⟨_, hb'⟩, ?_, ?_, Nat.div_mul_le_self _ _, ?_⟩
  · refine ((moves_scaleBy b (-k)).ok_iff _).mpr ⟨?_, (moved_neg_natCast b k).symm⟩
    rwa [Int.natAbs_neg]
  · exact ((moves_scaleBy _ k).ok_iff _).mpr ⟨hreach, (moved_natCast ⟨_, hc⟩ k).symm⟩
  · show b.toNat - b.toNat / 10 ^ k * 10 ^ k < 10 ^ k
    omega

/-- Saturation only replaces values that are no words, and all of these by the greatest word. -/
theorem toNat_from18Sat (a : Word) (decimals : Nat) :
    (from18Sat a decimals).toNat = min (2 ^ 256 - 1) (a.toNat * 10 ^ decimals / 10 ^ 18) := by
  rw [from18Sat, places]
  split
  · next hfewer =>
    -- Digits are dropped, fewer than the powers of ten reach.
    obtain ⟨w, hw⟩ := (moves_scaleBy a (decimals - 18)).left (by omega) (by omega)
    have hvalue := (((moves_scaleBy a _).ok_iff w).mp hw).2
    have hword := w.toNat_lt
    rw [from18_eq_scaleBy, hw, ← moved_sub_places, ← hvalue]
    show w.toNat = _
    omega
  · next hmore =>
    obtain ⟨k, rfl⟩ := Nat.exists_eq_add_of_le (Nat.not_lt.mp hmore)
    have hvalue : a.toNat * 10 ^ (18 + k) / 10 ^ 18 = a.toNat * 10 ^ k := by
      rw [Nat.pow_add, Nat.mul_comm (10 ^ 18), ← Nat.mul_assoc,
        Nat.mul_div_cancel _ (Nat.pow_pos (by decide))]
    rw [hvalue, Nat.add_sub_cancel_left]
    split
    · next power hpower =>
      rw [Word.mulSat, Word.toNat_clamp, pow10_eq_ok_iff.mp hpower, Nat.min_comm]
    · next cause hpower =>
      rw [pow10_eq_fit] at hpower
      have hlarge := (fit_eq_error_iff.mp hpower).1
      split
      · next hzero => rw [hzero, Word.toNat_zero, Nat.zero_mul, Nat.min_zero]
      · next hzero =>
        have hpos : 0 < a.toNat := Nat.pos_of_ne_zero fun h => hzero (Word.ext h)
        have hproduct := Nat.le_mul_of_pos_left (10 ^ k) hpos
        rw [Word.toNat_top]
        omega

/-- Where there is a result the saturating function has the same. -/
theorem from18Sat_of_from18 {decimals : Nat} (h : from18 a decimals = .ok w) :
    from18Sat a decimals = w := by
  rw [from18_eq_scaleBy] at h
  have hvalue := (((moves_scaleBy a _).ok_iff w).mp h).2
  have hlt := w.toNat_lt
  refine Word.ext ?_
  rw [toNat_from18Sat, ← moved_sub_places, ← hvalue]
  omega

/-- Rescaling with saturation gives the exact value as far as there are words, and so it agrees
with rescaling that can fail. What has been rescaled to more decimals is rescaled back exactly,
and what has been rescaled to fewer decimals comes back without the digits that were dropped. -/
theorem from18Sat_exact (a : Word) (decimals : Nat) :
    (from18Sat a decimals).toNat = min (2 ^ 256 - 1) (a.toNat * 10 ^ decimals / 10 ^ 18) ∧
    (∀ w, from18 a decimals = .ok w → from18Sat a decimals = w) ∧
    (decimals ≤ 18 →
      (∀ b, to18 a decimals = .ok b → from18 b decimals = .ok a) ∧
      ∀ b, ∃ c b', from18 b decimals = .ok c ∧ to18 c decimals = .ok b' ∧ b' ≤ b ∧
        b.toNat - b'.toNat < 10 ^ (18 - decimals)) ∧
    (18 ≤ decimals → ∀ b, from18 a decimals = .ok b → to18 b decimals = .ok a) := by
  simp only [to18_eq_scaleBy, from18_eq_scaleBy]
  refine ⟨toNat_from18Sat a decimals, fun w hw => from18Sat_of_from18 ?_, fun hfewer => ?_,
    fun hmore b hb => ?_⟩
  · rwa [from18_eq_scaleBy]
  · obtain ⟨k, hk⟩ := Nat.exists_eq_add_of_le hfewer
    have hto : (18 - decimals : Int) = k := by omega
    have hfrom : (decimals - 18 : Int) = -k := by omega
    have hdigits : 18 - decimals = k := by omega
    rw [hto, hfrom, hdigits]
    exact ⟨fun b => scaleBy_neg_natCast, exists_scaleBy_natCast (by rw [maxExponent]; omega)⟩
  · obtain ⟨k, rfl⟩ := Nat.exists_eq_add_of_le hmore
    have hto : (18 - (18 + k : Nat) : Int) = -k := by omega
    have hfrom : ((18 + k : Nat) - 18 : Int) = k := by omega
    rw [hfrom] at hb
    rw [hto]
    exact scaleBy_neg_natCast hb

/-- One with six decimals is exact with eighteen, and what has thirteen digits of eighteen
decimals is one of six decimals and less than a second one. Seven with eighteen decimals is exact
with twenty. -/
theorem from18Sat_exact_six_twenty :
    ((6 : Nat) ≤ 18 ∧
      to18 1000000 6 = .ok 1000000000000000000 ∧ from18 1000000000000000000 6 = .ok 1000000 ∧
      ∃ c b', from18 1999999999999 6 = .ok c ∧ to18 c 6 = .ok b' ∧ b' ≤ 1999999999999 ∧
        1999999999999 - b'.toNat < 10 ^ 12) ∧
    (18 : Nat) ≤ 20 ∧ from18 7 20 = .ok 700 ∧ to18 700 20 = .ok 7 ∧ from18Sat 7 20 = 700 := by
  have hsix : (6 : Nat) ≤ 18 := by decide
  have htwenty : (18 : Nat) ≤ 20 := by decide
  have hto : to18 1000000 6 = .ok 1000000000000000000 := rfl
  have hfrom : from18 7 20 = .ok 700 := rfl
  obtain ⟨_, _, hfewer, _⟩ := from18Sat_exact 1000000 6
  obtain ⟨_, hagree, _, hmore⟩ := from18Sat_exact 7 20
  obtain ⟨hback, hdrop⟩ := hfewer hsix
  exact ⟨⟨hsix, hto, hback _ hto, hdrop _⟩, htwenty, hfrom, hmore htwenty _ hfrom, hagree _ hfrom⟩

end Bourse.Decimal
