import Bourse.Proofs.Report.Packing
import Bourse.Proofs.Word
import Mathlib.Algebra.BigOperators.Fin

/-!
# Times in four bytes each

A report may also be changed in the bytes of its word: four of them are overwritten for each tier.
Places of different tiers have no byte in common, so what is written for one tier is read there
and nowhere else, in whatever order the tiers are gone through. Since a word is told by its eight
times, the words that come of this are the same as those that are packed again from the changed
times.
-/

namespace Bourse.Report

/-- The time in the four bytes that are set aside for a tier. -/
def slotOf (bytes : Bytes) (tier : Nat) : Time :=
  UInt32.ofNat (Bytes.ofLittleEndian ((bytes.drop (4 * tier)).take 4))

/-- Overwrite the four bytes that are set aside for a tier. -/
def setSlot (bytes : Bytes) (tier : Nat) (time : Time) : Bytes :=
  bytes.take (4 * tier) ++ (Bytes.littleEndian 4 time.toNat ++ bytes.drop (4 * tier + 4))

section

variable {bytes : Bytes} {tier other : Nat} (time : Time)

theorem length_setSlot (h : 4 * tier + 4 ≤ bytes.length) :
    (setSlot bytes tier time).length = bytes.length := by
  unfold setSlot
  simp only [List.length_append, List.length_take, List.length_drop, Bytes.length_littleEndian]
  omega

/-- A slot that was written holds what was written. -/
theorem slotOf_setSlot_self (h : 4 * tier + 4 ≤ bytes.length) :
    slotOf (setSlot bytes tier time) tier = time := by
  have hbefore : (bytes.take (4 * tier)).length = 4 * tier := List.length_take_of_le (by omega)
  have hfits : time.toNat < 256 ^ 4 := by
    have ht := time.toNat_lt
    omega
  unfold slotOf setSlot
  rw [List.drop_left' hbefore, List.take_left' (Bytes.length_littleEndian ..),
    Bytes.ofLittleEndian_littleEndian, Nat.mod_eq_of_lt hfits, UInt32.ofNat_toNat]

/-- The bytes of another tier are not touched. -/
theorem slotOf_setSlot_of_ne (h : 4 * tier + 4 ≤ bytes.length) (hne : other ≠ tier) :
    slotOf (setSlot bytes tier time) other = slotOf bytes other := by
  have hbefore : (bytes.take (4 * tier)).length = 4 * tier := List.length_take_of_le (by omega)
  unfold slotOf setSlot
  rcases Nat.lt_or_gt_of_ne hne with hlt | hgt
  · -- The other tier lies wholly before the overwritten bytes.
    have hroom : 4 ≤ ((bytes.take (4 * tier)).drop (4 * other)).length := by
      rw [List.length_drop, hbefore]
      omega
    rw [List.drop_append_of_le_length (by omega), List.take_append_of_le_length hroom,
      List.drop_take, List.take_take, Nat.min_eq_left (by omega)]
  · have hskip : (bytes.take (4 * tier) ++ Bytes.littleEndian 4 time.toNat).length ≤ 4 * other := by
      rw [List.length_append, hbefore, Bytes.length_littleEndian]
      omega
    have hplace : 4 * tier + 4 + (4 * other - (4 * tier + 4)) = 4 * other := by omega
    rw [← List.append_assoc, List.drop_append, List.drop_eq_nil_of_le hskip, List.nil_append,
      List.length_append, hbefore, Bytes.length_littleEndian, List.drop_drop, hplace]

end

/-- Overwrite the bytes of some tiers, one after the other. -/
def setSlots (bytes : Bytes) (times : Nat → Time) (which : List Nat) : Bytes :=
  which.foldl (fun bytes tier => setSlot bytes tier (times tier)) bytes

section

variable {bytes : Bytes} {times : Nat → Time} {which : List Nat}

/-- Writing slots keeps the length. -/
theorem length_setSlots (hbytes : bytes.length = 32) (hwhich : ∀ tier ∈ which, tier < tiers) :
    (setSlots bytes times which).length = 32 := by
  induction which generalizing bytes with
  | nil => exact hbytes
  | cons tier which ih =>
    obtain ⟨hfirst, hrest⟩ := List.forall_mem_cons.mp hwhich
    unfold tiers at hfirst
    refine ih ?_ hrest
    rw [length_setSlot _ (by omega), hbytes]

/-- Each of the tiers has its new time and every other one has its old time. -/
theorem slotOf_setSlots (hbytes : bytes.length = 32) (hwhich : ∀ tier ∈ which, tier < tiers)
    (tier : Nat) :
    slotOf (setSlots bytes times which) tier =
      if tier ∈ which then times tier else slotOf bytes tier := by
  induction which generalizing bytes with
  | nil =>
    rw [if_neg List.not_mem_nil]
    rfl
  | cons first which ih =>
    obtain ⟨hfirst, hrest⟩ := List.forall_mem_cons.mp hwhich
    have hplace : 4 * first + 4 ≤ bytes.length := by
      unfold tiers at hfirst
      omega
    have hlength : (setSlot bytes first (times first)).length = 32 := by
      rw [length_setSlot _ hplace, hbytes]
    show slotOf (setSlots (setSlot bytes first (times first)) times which) tier = _
    rw [ih hlength hrest]
    by_cases hlater : tier ∈ which
    · rw [if_pos hlater, if_pos (List.mem_cons_of_mem first hlater)]
    · rw [if_neg hlater]
      by_cases hsame : tier = first
      · subst hsame
        rw [if_pos (List.mem_cons_self ..), slotOf_setSlot_self _ hplace]
      · have hnone : tier ∉ first :: which := by
          rw [List.mem_cons]
          exact not_or.mpr ⟨hsame, hlater⟩
        rw [if_neg hnone, slotOf_setSlot_of_ne _ hplace hsame]

end

/-- The value of digits is the sum of what they stand for at their places. -/
theorem digitsValue_ofFn_eq_sum {count : Nat} (times : Fin count → Time) :
    digitsValue (List.ofFn times) = ∑ tier, (times tier).toNat * 2 ^ (32 * tier.val) := by
  induction count with
  | zero =>
    rw [List.ofFn_zero, Fin.sum_univ_zero]
    rfl
  | succ count ih =>
    rw [List.ofFn_succ, digitsValue_cons, ih, Fin.sum_univ_succ, Finset.mul_sum, Fin.val_zero,
      Nat.mul_zero, Nat.pow_zero, Nat.mul_one]
    refine congrArg _ (Finset.sum_congr rfl fun tier _ => ?_)
    rw [Fin.val_succ, Nat.mul_add_one, Nat.add_comm (32 * tier.val), Nat.pow_add]
    exact Nat.mul_left_comm ..

/-- A word is the sum of its times, each at its place. -/
theorem toNat_eq_sum (w : Word) :
    w.toNat = ∑ tier : Fin 8, ((ofWord w).times.get tier).toNat * 2 ^ (32 * tier.val) := by
  have htimes : (ofWord w).times.toList = List.ofFn fun tier => (ofWord w).times.get tier := by
    simp only [get_times_ofWord]
    exact Vector.toList_ofFn
  have hpacked : (ofWord w).toWord.toNat = w.toNat := by rw [toWord_ofWord]
  rw [← digitsValue_ofFn_eq_sum, ← htimes]
  exact hpacked.symm

/-- The tiers above the first one have the times of the report. -/
theorem timeAt_succ (r : Report) (tier : Fin 8) : r.timeAt (tier + 1) = r.times.get tier := by
  have htier : r.times[tier.val]? = some (r.times.get tier) := Vector.getElem?_eq_getElem tier.isLt
  unfold timeAt
  rw [if_neg (Nat.succ_ne_zero _), Nat.add_sub_cancel, htier, Option.getD_some]

/-- A tier that does not exist is never reached. -/
theorem timeAt_of_lt (r : Report) {tier : Nat} (h : tiers < tier) : r.timeAt tier = .never := by
  unfold tiers at h
  have habsent : r.times[tier - 1]? = none := Vector.getElem?_eq_none (by omega)
  unfold timeAt
  rw [if_neg (by omega), habsent, Option.getD_none]

/-- Setting a range changes the times of its tiers and no others. -/
theorem get_times_setRange (r : Report) (start stop : Nat) (time : Time) (tier : Fin 8) :
    (r.setRange start stop time).times.get tier =
      if start ≤ tier.val ∧ tier.val < stop then time else r.times.get tier :=
  Vector.getElem_mapIdx ..

/-- The elapsed time of a tier is the difference, or zero where the older time is later. -/
theorem get_times_elapsed (newer older : Report) (tier : Fin 8) :
    (elapsed newer older).times.get tier =
      if older.times.get tier ≤ newer.times.get tier then
        newer.times.get tier - older.times.get tier
      else 0 :=
  Vector.getElem_zipWith ..

/-- Setting a range of tiers changes the times of these tiers, as far as they exist, and no
others. -/
theorem timeAt_setRange (r : Report) (start stop tier : Nat) (time : Time) :
    (r.setRange start stop time).timeAt tier =
      if start < tier ∧ tier ≤ min stop tiers then time else r.timeAt tier := by
  unfold tiers
  rcases tier with _ | tier
  · rw [if_neg (by omega)]
    rfl
  · by_cases htier : tier < 8
    · have hrange : start < tier + 1 ∧ tier + 1 ≤ min stop 8 ↔ start ≤ tier ∧ tier < stop := by
        omega
      have hset := get_times_setRange r start stop time ⟨tier, htier⟩
      simp only [hrange]
      rw [← timeAt_succ, ← timeAt_succ] at hset
      exact hset
    · have hbeyond : tiers < tier + 1 := by
        unfold tiers
        omega
      rw [if_neg (by omega), timeAt_of_lt _ hbeyond, timeAt_of_lt _ hbeyond]

/-- A difference of times is their difference as numbers, or zero. -/
theorem toNat_get_times_elapsed (newer older : Report) (tier : Fin 8) :
    ((elapsed newer older).times.get tier).toNat =
      (newer.times.get tier).toNat - (older.times.get tier).toNat := by
  rw [get_times_elapsed]
  split
  · next hle => exact UInt32.toNat_sub_of_le _ _ hle
  · next hlt =>
    rw [UInt32.not_le, UInt32.lt_iff_toNat_lt] at hlt
    rw [UInt32.toNat_zero]
    omega

/-- The times of a word of bytes are the slots of the bytes. -/
theorem get_times_ofLittleEndian {bytes : Bytes} (h : bytes.length = 32) (tier : Fin 8) :
    (ofWord (.ofLittleEndian bytes)).times.get tier = slotOf bytes tier := by
  have hnumber := Bytes.ofLittleEndian_mod bytes
  have hbytes := Bytes.littleEndian_ofLittleEndian bytes
  rw [h] at hnumber hbytes
  have hword : (Word.ofLittleEndian bytes).toNat = Bytes.ofLittleEndian bytes := hnumber
  rw [← slot_eq_get_times, slot, hword, hbytes]
  rfl

/-- The word with the time written in its bytes for every tier above `start` up to `stop`. -/
def writeRange (w : Word) (start stop : Nat) (time : Time) : Word :=
  .ofLittleEndian (setSlots (Bytes.littleEndian 32 w.toNat) (fun _ => time)
    (List.range' start (min stop tiers - start)))

/-- The word with the differences of the times of two words written in empty bytes. -/
def writeElapsed (newer older : Word) : Word :=
  .ofLittleEndian (setSlots (List.replicate 32 0)
    (fun tier =>
      let n := slotOf (Bytes.littleEndian 32 newer.toNat) tier
      let o := slotOf (Bytes.littleEndian 32 older.toNat) tier
      if o ≤ n then n - o else 0)
    (List.range tiers))

/-- Writing a range slot by slot is the same as setting it in the report. -/
theorem writeRange_eq (w : Word) (start stop : Nat) (time : Time) :
    writeRange w start stop time = ((ofWord w).setRange start stop time).toWord := by
  have hwhich : ∀ tier ∈ List.range' start (min stop tiers - start), tier < tiers := by
    intro tier htier
    rw [List.mem_range'_1] at htier
    omega
  refine word_ext fun tier => ?_
  have htier := tier.isLt
  have hmem : tier.val ∈ List.range' start (min stop tiers - start) ↔
      start ≤ tier.val ∧ tier.val < stop := by
    unfold tiers
    rw [List.mem_range'_1]
    omega
  unfold writeRange
  rw [ofWord_toWord, get_times_setRange,
    get_times_ofLittleEndian (length_setSlots (Bytes.length_littleEndian ..) hwhich),
    slotOf_setSlots (Bytes.length_littleEndian ..) hwhich, ← slot_eq_get_times]
  simp only [hmem]
  rfl

/-- Writing the differences slot by slot gives the elapsed report. -/
theorem writeElapsed_eq (newer older : Word) :
    writeElapsed newer older = (elapsed (ofWord newer) (ofWord older)).toWord := by
  have hwhich : ∀ tier ∈ List.range tiers, tier < tiers := fun tier => List.mem_range.mp
  refine word_ext fun tier => ?_
  have hmem : tier.val ∈ List.range tiers := List.mem_range.mpr tier.isLt
  unfold writeElapsed
  rw [ofWord_toWord, get_times_elapsed,
    get_times_ofLittleEndian (length_setSlots List.length_replicate hwhich),
    slotOf_setSlots List.length_replicate hwhich, if_pos hmem, ← slot_eq_get_times,
      ← slot_eq_get_times]
  rfl

/-- The laws of packed reports. Setting a range of tiers is seen at these tiers and at no others,
for any ends of the range; the time of a tier is the part of the word with the same number,
counted from one; differences are taken tier by tier and stop at zero; a word is the sum of its
parts at their places, so words with the same eight times are equal. And all of this holds as well
of words that are changed in their bytes: a time is read from four of them, and writing over
these, tier by tier, gives the same words. -/
theorem packing_laws (w newer older : Word) :
    (∀ (start stop tier : Nat) (time : Time),
      (ofWord ((ofWord w).setRange start stop time).toWord).timeAt tier =
        if start < tier ∧ tier ≤ min stop 8 then time else (ofWord w).timeAt tier) ∧
    (∀ tier : Fin 8, (ofWord w).timeAt (tier + 1) = (ofWord w).times.get tier) ∧
    (∀ tier : Fin 8,
      ((ofWord (elapsed (ofWord newer) (ofWord older)).toWord).timeAt (tier + 1)).toNat =
        ((ofWord newer).timeAt (tier + 1)).toNat - ((ofWord older).timeAt (tier + 1)).toNat) ∧
    w.toNat = ∑ tier : Fin 8, ((ofWord w).times.get tier).toNat * 2 ^ (32 * tier.val) ∧
    ((∀ tier : Fin 8, (ofWord newer).timeAt (tier + 1) = (ofWord older).timeAt (tier + 1)) ↔
      newer = older) ∧
    (∀ tier : Fin 8, (ofWord w).times.get tier = slot w tier) ∧
    (∀ (start stop : Nat) (time : Time),
      ((ofWord w).setRange start stop time).toWord = writeRange w start stop time) ∧
    (elapsed (ofWord newer) (ofWord older)).toWord = writeElapsed newer older := by
  refine ⟨?_, ?_, ?_, ?_, ⟨?_, ?_⟩, ?_, ?_, ?_⟩
  · intro start stop tier time
    rw [ofWord_toWord]
    exact timeAt_setRange (ofWord w) start stop tier time
  · exact timeAt_succ (ofWord w)
  · intro tier
    rw [ofWord_toWord, timeAt_succ, timeAt_succ, timeAt_succ]
    exact toNat_get_times_elapsed (ofWord newer) (ofWord older) tier
  · exact toNat_eq_sum w
  · intro h
    refine word_ext fun tier => ?_
    rw [← timeAt_succ, ← timeAt_succ]
    exact h tier
  · rintro rfl tier
    rfl
  · exact fun tier => (slot_eq_get_times w tier).symm
  · exact fun start stop time => (writeRange_eq w start stop time).symm
  · exact (writeElapsed_eq newer older).symm

/-- A range may end beyond the last tier, and there is nothing in one that ends before it starts. -/
example : (ofWord (writeRange .top 6 200 7)).times.toList =
    [.never, .never, .never, .never, .never, .never, 7, 7] ∧ writeRange .top 5 2 7 = .top := by
  decide

end Bourse.Report
