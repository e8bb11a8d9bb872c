import Bourse.Report
import Bourse.Proofs.Word

/-!
# Packed reports

The times of a report are the digits of its word in base `2 ^ 32`, so packing loses nothing and a
word is told by its times. Each of them is also found in four bytes of the word, which are the
same for all reports.
-/

namespace Bourse.Report

/-- Reports with the same times are equal. -/
theorem ext_times {r s : Report} (h : ∀ tier, r.times.get tier = s.times.get tier) : r = s := by
  obtain ⟨times⟩ := r
  obtain ⟨others⟩ := s
  exact congrArg mk (Vector.ext fun tier htier => h ⟨tier, htier⟩)

theorem digitsValue_cons (t : Time) (times : List Time) :
    digitsValue (t :: times) = t.toNat + 2 ^ 32 * digitsValue times := rfl

/-- Each digit is found back as a quotient and a remainder. -/
theorem digitsValue_div_mod {times : List Time} {tier : Nat} (h : tier < times.length) :
    digitsValue times / 2 ^ (32 * tier) % 2 ^ 32 = times[tier].toNat := by
  induction times generalizing tier with
  | nil => exact absurd h (Nat.not_lt_zero tier)
  | cons t times ih =>
    have ht := t.toNat_lt
    rw [digitsValue_cons]
    cases tier with
    | zero =>
      rw [Nat.mul_zero, Nat.pow_zero, Nat.div_one, List.getElem_cons_zero]
      omega
    | succ tier =>
      have hfirst : (t.toNat + 2 ^ 32 * digitsValue times) / 2 ^ 32 = digitsValue times := by omega
      rw [Nat.mul_add_one, Nat.add_comm (32 * tier), Nat.pow_add, ← Nat.div_div_eq_div_mul, hfirst,
        List.getElem_cons_succ]
      exact ih (Nat.lt_of_succ_lt_succ h)

/-- The time of a tier is cut out of the word at 32 bits for each tier before it. -/
theorem get_times_ofWord (w : Word) (tier : Fin 8) :
    (ofWord w).times.get tier = UInt32.ofNat (w.toNat >>> (32 * tier.val)) :=
  Vector.getElem_ofFn tier.isLt

/-- The time of a tier is a digit of the word to the base of 2 ^ 32. -/
theorem toNat_get_times_ofWord (w : Word) (tier : Fin 8) :
    ((ofWord w).times.get tier).toNat = w.toNat / 2 ^ (32 * tier.val) % 2 ^ 32 := by
  rw [get_times_ofWord, UInt32.toNat_ofNat', Nat.shiftRight_eq_div_pow]

/-- Unpacking undoes packing. -/
theorem ofWord_toWord (r : Report) : ofWord r.toWord = r := by
  refine ext_times fun tier => UInt32.toNat_inj.mp ?_
  have hlength : tier.val < r.times.toList.length := by
    rw [Vector.length_toList]
    exact tier.isLt
  rw [toNat_get_times_ofWord, toWord, digitsValue_div_mod hlength, Vector.getElem_toList]
  rfl

/-- Cutting out so many digits and putting them together again leaves the remainder. -/
theorem digitsValue_ofFn (count n : Nat) :
    digitsValue (List.ofFn fun tier : Fin count => UInt32.ofNat (n / 2 ^ (32 * tier.val))) =
      n % 2 ^ (32 * count) := by
  induction count generalizing n with
  | zero =>
    rw [List.ofFn_zero, Nat.mul_zero, Nat.pow_zero, Nat.mod_one]
    rfl
  | succ count ih =>
    have hrest : ∀ tier : Fin count,
        n / 2 ^ (32 * tier.succ.val) = n / 2 ^ 32 / 2 ^ (32 * tier.val) := by
      intro tier
      rw [Fin.val_succ, Nat.mul_add_one, Nat.add_comm, Nat.pow_add, Nat.div_div_eq_div_mul]
    rw [List.ofFn_succ, digitsValue_cons]
    simp only [hrest, ih]
    rw [Fin.val_zero, Nat.mul_zero, Nat.pow_zero, Nat.div_one, UInt32.toNat_ofNat', Nat.mul_add_one,
      Nat.add_comm (32 * count), Nat.pow_add, Nat.mod_mul]

/-- Packing undoes unpacking. -/
theorem toWord_ofWord (w : Word) : (ofWord w).toWord = w := by
  have hlt := w.toNat_lt
  refine Word.ext ?_
  show digitsValue (ofWord w).times.toList = w.toNat
  unfold ofWord
  simp only [Vector.toList_ofFn, Nat.shiftRight_eq_div_pow]
  rw [digitsValue_ofFn]
  exact Nat.mod_eq_of_lt hlt

/-- Words with the same times are equal. -/
theorem word_ext {v w : Word} (h : ∀ tier, (ofWord v).times.get tier = (ofWord w).times.get tier) :
    v = w := by
  rw [← toWord_ofWord v, ext_times h, toWord_ofWord]

/-- The time in the four bytes of a packed report that are set aside for a tier. -/
def slot (w : Word) (tier : Fin 8) : Time :=
  UInt32.ofNat (Bytes.ofLittleEndian (((Bytes.littleEndian 32 w.toNat).drop (4 * tier)).take 4))

/-- The bytes that are set aside for a tier hold its time. -/
theorem slot_eq_get_times (w : Word) (tier : Fin 8) : slot w tier = (ofWord w).times.get tier := by
  have htier := tier.isLt
  have hpower : 256 ^ (4 * tier.val) = 2 ^ (32 * tier.val) := by
    rw [Nat.pow_mul, Nat.pow_mul]
  refine UInt32.toNat_inj.mp ?_
  rw [slot, Bytes.take_drop_littleEndian (by omega), Bytes.ofLittleEndian_littleEndian,
    UInt32.toNat_ofNat', toNat_get_times_ofWord, hpower]
  exact Nat.mod_mod _ _

/-- A slot of the word of a report is the time of that tier. -/
theorem slot_toWord (r : Report) (tier : Fin 8) : slot r.toWord tier = r.times.get tier := by
  rw [slot_eq_get_times, ofWord_toWord]

end Bourse.Report
