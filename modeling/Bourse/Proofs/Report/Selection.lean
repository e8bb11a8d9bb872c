import Bourse.Proofs.Report.Packing
import Mathlib.Data.List.Induction

/-!
# Selection across reports

The scan of a tier goes through the times in report order and keeps one of those that it has met.
What it ends with is told by two lists, all times of the tier and those that match the reference:
whether there are enough matching times depends on the quorum, and which of them is selected on
the choice. The earliest and the latest one are the same in any order of the reports.
-/

namespace Bourse.Report

variable {quorum : Quorum} {choice : Choice} {reference time : Time} {times matching : List Time}

/-- There are enough matching times. -/
def Quorum.Met (quorum : Quorum) (times matching : List Time) : Prop :=
  match quorum with
  | .every => times ≠ [] ∧ matching = times
  | .any => matching ≠ []

/-- The time is the chosen one of the matching times. -/
def Choice.Picks (choice : Choice) (matching : List Time) (time : Time) : Prop :=
  match choice with
  | .min => time ∈ matching ∧ ∀ other ∈ matching, time ≤ other
  | .max => time ∈ matching ∧ ∀ other ∈ matching, other ≤ time
  | .first => matching.head? = some time

/-- The time is to be selected from the times of a tier. -/
structure Selects (quorum : Quorum) (choice : Choice) (reference : Time) (times : List Time)
    (time : Time) : Prop where
  /-- With enough matching times it is one of them. -/
  met : quorum.Met times (times.filter (· ≤ reference)) →
    choice.Picks (times.filter (· ≤ reference)) time
  /-- Otherwise the tier counts as never reached. -/
  unmet : ¬ quorum.Met times (times.filter (· ≤ reference)) → time = .never

/-- Take the matching times into account one after the other. -/
def Choice.gather (choice : Choice) (selected : Option Time) (matching : List Time) : Option Time :=
  matching.foldl (fun selected time => some (choice.combine selected time)) selected

/-- The last time is combined with what has been gathered from those before it. -/
theorem Choice.gather_append (choice : Choice) (matching : List Time) (time : Time) :
    choice.gather none (matching ++ [time]) =
      some (choice.combine (choice.gather none matching) time) :=
  List.foldl_append ..

/-- An extreme time compared with one more time: the further one of both is extreme among all. -/
theorem extreme_append (le : Time → Time → Prop) [Std.Refl le] [IsTrans Time le]
    {selected next : Time} (h : selected ∈ matching ∧ ∀ other ∈ matching, le selected other)
    (hnext : next = selected ∧ le selected time ∨ next = time ∧ le time selected) :
    next ∈ matching ++ [time] ∧ ∀ other ∈ matching ++ [time], le next other := by
  obtain ⟨hmem, hextreme⟩ := h
  rw [List.forall_mem_append, List.forall_mem_singleton]
  obtain ⟨rfl, hle⟩ | ⟨rfl, hle⟩ := hnext
  · exact ⟨List.mem_append_left _ hmem, hextreme, hle⟩
  · have hfurther : ∀ other ∈ matching, le next other :=
      fun other hother => Trans.trans hle (hextreme other hother)
    exact ⟨List.mem_append_right _ (List.mem_singleton_self _), hfurther, Std.Refl.refl next⟩

/-- The next time is chosen from itself and from what was chosen before. -/
theorem Choice.Picks.combine {selected : Time} (h : choice.Picks matching selected) (time : Time) :
    choice.Picks (matching ++ [time]) (choice.combine (some selected) time) := by
  cases choice with
  | min =>
    refine extreme_append (· ≤ ·) h ?_
    rw [Choice.combine]
    split
    · next hle => exact Or.inl ⟨rfl, hle⟩
    · next hlt => exact Or.inr ⟨rfl, UInt32.le_of_lt (UInt32.not_le.mp hlt)⟩
  | max =>
    refine extreme_append (· ≥ ·) h ?_
    rw [Choice.combine]
    split
    · next hle => exact Or.inr ⟨rfl, hle⟩
    · next hlt => exact Or.inl ⟨rfl, UInt32.le_of_lt (UInt32.not_le.mp hlt)⟩
  | first =>
    show (matching ++ [time]).head? = some selected
    rw [List.head?_append, show matching.head? = some selected from h, Option.some_or]

/-- From at least one matching time the chosen one is gathered. -/
theorem Choice.gather_picks (choice : Choice) (h : matching ≠ []) :
    ∃ time, choice.gather none matching = some time ∧ choice.Picks matching time := by
  induction matching using List.reverseRecOn with
  | nil => exact absurd rfl h
  | append_singleton matching time ih =>
    rw [gather_append]
    by_cases hempty : matching = []
    · subst hempty
      refine ⟨time, rfl, ?_⟩
      cases choice <;> simp [Picks]
    · obtain ⟨selected, hselected, hpicks⟩ := ih hempty
      rw [hselected]
      exact ⟨_, rfl, hpicks.combine time⟩

/-- A choice picks one time only. -/
theorem Choice.Picks.unique {other : Time} (h : choice.Picks matching time)
    (h' : choice.Picks matching other) : time = other := by
  cases choice with
  | min => exact UInt32.le_antisymm (h.2 other h'.1) (h'.2 time h.1)
  | max => exact UInt32.le_antisymm (h'.2 time h.1) (h.2 other h'.1)
  | first => exact Option.some.inj (Eq.trans (Eq.symm h) h')

/-- The least and the greatest time do not depend on the order of the times. -/
theorem Choice.Picks.perm {matching' : List Time} (hchoice : choice ≠ .first)
    (hperm : matching.Perm matching') (h : choice.Picks matching time) :
    choice.Picks matching' time := by
  cases choice with
  | min => exact ⟨hperm.mem_iff.mp h.1, fun other hother => h.2 other (hperm.mem_iff.mpr hother)⟩
  | max => exact ⟨hperm.mem_iff.mp h.1, fun other hother => h.2 other (hperm.mem_iff.mpr hother)⟩
  | first => exact absurd rfl hchoice

/-- Times that are too late are passed over if any matching time is enough. -/
theorem scan_any (choice : Choice) (reference : Time) (selected : Option Time) (times : List Time) :
    scan .any choice reference selected times =
      choice.gather selected (times.filter (· ≤ reference)) := by
  induction times generalizing selected with
  | nil => rfl
  | cons time times ih =>
    rw [scan]
    by_cases hmatch : time ≤ reference
    · rw [if_pos hmatch, ih, List.filter_cons_of_pos (by simpa using hmatch)]
      rfl
    · rw [if_neg hmatch, List.filter_cons_of_neg (by simpa using hmatch)]
      exact ih selected

/-- If every time is needed, all of them are gathered, or a single one that is too late undoes
everything. -/
theorem scan_every (choice : Choice) (reference : Time) (selected : Option Time)
    (times : List Time) :
    scan .every choice reference selected times =
      if times.filter (· ≤ reference) = times then choice.gather selected times else none := by
  induction times generalizing selected with
  | nil => rfl
  | cons time times ih =>
    rw [scan]
    by_cases hmatch : time ≤ reference
    · rw [if_pos hmatch, ih, List.filter_cons_of_pos (by simpa using hmatch)]
      simp only [List.cons.injEq, true_and]
      rfl
    · have hlate : (time :: times).filter (· ≤ reference) ≠ time :: times := by
        intro h
        have hall := List.filter_eq_self.mp h time (List.mem_cons_self ..)
        exact hmatch (of_decide_eq_true hall)
      rw [if_neg hmatch, if_neg hlate]

/-- The scan selects what the quorum and the choice ask for, and never if there is nothing. -/
theorem selects_scan (quorum : Quorum) (choice : Choice) (reference : Time) (times : List Time) :
    Selects quorum choice reference times
      ((scan quorum choice reference none times).getD .never) := by
  cases quorum with
  | every =>
    rw [scan_every]
    refine ⟨?_, fun hunmet => ?_⟩
    · rintro ⟨hsome, hall⟩
      obtain ⟨time, htime, hpicks⟩ := choice.gather_picks hsome
      rw [if_pos hall, htime, hall]
      exact hpicks
    · split
      · next hall =>
        -- Without a report nothing is needed, but nothing is gathered either.
        have hempty : times = [] := not_not.mp fun hsome => hunmet ⟨hsome, hall⟩
        rw [hempty]
        rfl
      · rfl
  | any =>
    rw [scan_any]
    refine ⟨fun hsome => ?_, fun hunmet => ?_⟩
    · obtain ⟨time, htime, hpicks⟩ := choice.gather_picks hsome
      rw [htime]
      exact hpicks
    · rw [not_not.mp hunmet]
      rfl

/-- Whether a quorum is met does not depend on the order of the times. -/
theorem Quorum.met_perm {times' : List Time} (hperm : times.Perm times') :
    quorum.Met times (times.filter (· ≤ reference)) ↔
      quorum.Met times' (times'.filter (· ≤ reference)) := by
  cases quorum with
  | every =>
    simp only [Met, List.filter_eq_self, ne_eq, ← List.length_eq_zero_iff, hperm.length_eq,
      hperm.mem_iff]
  | any =>
    simp only [Met, ne_eq, ← List.length_eq_zero_iff, (hperm.filter _).length_eq]

/-- Only the first matching time depends on the order of the times. -/
theorem Selects.eq_of_perm {times' : List Time} {other : Time} (hchoice : choice ≠ .first)
    (hperm : times.Perm times') (h : Selects quorum choice reference times time)
    (h' : Selects quorum choice reference times' other) : time = other := by
  by_cases hmet : quorum.Met times (times.filter (· ≤ reference))
  · have hpicks := (h.met hmet).perm hchoice (hperm.filter _)
    exact hpicks.unique (h'.met ((Quorum.met_perm hperm).mp hmet))
  · rw [h.unmet hmet, h'.unmet fun hmet' => hmet ((Quorum.met_perm hperm).mpr hmet')]

/-- Each tier is scanned by itself. -/
theorem get_times_select (reports : List Report) (reference : Time) (quorum : Quorum)
    (choice : Choice) (tier : Fin 8) :
    (select reports reference quorum choice).times.get tier =
      (scan quorum choice reference none (reports.map fun r => r.times.get tier)).getD .never :=
  Vector.getElem_ofFn tier.isLt

/-- The selection has for each tier what is to be selected from the times of this tier. -/
theorem selects_select (words : List Word) (reference : Time) (quorum : Quorum) (choice : Choice)
    (tier : Fin 8) :
    Selects quorum choice reference (words.map fun w => slot w tier)
      ((select (words.map .ofWord) reference quorum choice).times.get tier) := by
  have htimes : words.map (fun w => slot w tier) =
      (words.map .ofWord).map fun r : Report => r.times.get tier := by
    rw [List.map_map]
    exact List.map_congr_left fun w _ => slot_eq_get_times w tier
  rw [htimes, get_times_select]
  exact selects_scan quorum choice reference _

/-- Each tier of the selected report has the chosen one of the times not later than the reference,
provided that there are enough of them, and is never reached otherwise. The earliest and the
latest times do not depend on the order of the reports. -/
theorem select_tierwise (words : List Word) (reference : Time) (quorum : Quorum) (choice : Choice) :
    (∀ tier : Fin 8,
      Selects quorum choice reference (words.map fun w => slot w tier)
        (slot (select (words.map .ofWord) reference quorum choice).toWord tier)) ∧
    (choice ≠ .first → ∀ others : List Word, others.Perm words →
      select (others.map .ofWord) reference quorum choice =
        select (words.map .ofWord) reference quorum choice) := by
  refine ⟨fun tier => ?_, fun hchoice others hperm => ?_⟩
  · rw [slot_toWord]
    exact selects_select words reference quorum choice tier
  · refine ext_times fun tier => ?_
    exact (selects_select others reference quorum choice tier).eq_of_perm hchoice (hperm.map _)
      (selects_select words reference quorum choice tier)

/-- The reports of two accounts, of which one has not reached the last tier. -/
def twoAccounts : List Word :=
  [toWord ⟨#v[1, 5, 10, 20, 30, 40, 50, 60]⟩, toWord ⟨#v[2, 3, 15, 10, 35, 45, 55, .never]⟩]

/-- At the time thirty both accounts have the second tier, one of them since three, and only one
has the fifth tier. -/
theorem select_tierwise_twoAccounts :
    twoAccounts.map (fun w => slot w 1) = [5, 3] ∧
    Choice.Picks .min [5, 3] (slot (select (twoAccounts.map .ofWord) 30 .every .min).toWord 1) ∧
    twoAccounts.map (fun w => slot w 4) = [30, 35] ∧
    slot (select (twoAccounts.map .ofWord) 30 .every .min).toWord 4 = .never ∧
    Choice.min ≠ .first ∧ twoAccounts.reverse.Perm twoAccounts ∧
    select (twoAccounts.reverse.map .ofWord) 30 .every .min =
      select (twoAccounts.map .ofWord) 30 .every .min := by
  have hsecond : twoAccounts.map (fun w => slot w 1) = [5, 3] := by decide
  have hfifth : twoAccounts.map (fun w => slot w 4) = [30, 35] := by decide
  have hchoice : Choice.min ≠ .first := by decide
  obtain ⟨htiers, horder⟩ := select_tierwise twoAccounts 30 .every .min
  have htier := htiers 1
  have hlater := htiers 4
  rw [hsecond] at htier
  rw [hfifth] at hlater
  refine ⟨hsecond, htier.met ⟨by decide, by decide⟩, hfifth, hlater.unmet ?_, hchoice,
    List.reverse_perm _, horder hchoice _ (List.reverse_perm _)⟩
  rintro ⟨_, hall⟩
  exact absurd hall (by decide)

/-- With any matching time the tiers are judged one by one. -/
example : (select (twoAccounts.map .ofWord) 30 .any .max).times.toList =
    [2, 5, 15, 20, 30, .never, .never, .never] := by
  decide

end Bourse.Report
