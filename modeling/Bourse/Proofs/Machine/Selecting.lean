import Bourse.Proofs.Machine.Running
import Bourse.Proofs.Report.Selection
import Bourse.Proofs.Word

/-!
# Tiers that were never reached

A tier that was never reached has the latest of all times. Before that time a selection passes it
over, or fails to have the tier if it needs all reports. A reference at that time or beyond lets
every time match, and then this one is chosen from like the others.
-/

namespace Bourse

/-- No time is later than the one for a tier that is never reached. -/
theorem Time.le_never (t : Time) : t ≤ never := by
  have ht := t.toNat_lt
  rw [UInt32.le_iff_toNat_le]
  exact Nat.le_of_lt_succ ht

namespace Report

variable {choice : Choice} {quorum : Quorum} {reference time other : Time} {times : List Time}

/-- A reference before the latest time matches only times of tiers that were reached. -/
theorem filter_le_of_lt_never (href : reference < .never) (times : List Time) :
    (times.filter (· ≠ .never)).filter (· ≤ reference) = times.filter (· ≤ reference) := by
  rw [List.filter_filter]
  refine List.filter_congr fun t _ => ?_
  by_cases hmatch : t ≤ reference
  · have hreached : t ≠ .never := fun h => UInt32.not_le.mpr href (h ▸ hmatch)
    simp [hmatch, hreached]
  · simp [hmatch]

/-- If all reports are needed, one that never reached the tier is enough to miss it. -/
theorem Selects.eq_never_of_every (href : reference < .never)
    (h : Selects .every choice reference times time) (hnever : .never ∈ times) : time = .never := by
  refine h.unmet ?_
  rintro ⟨_, hall⟩
  have hmatch := List.filter_eq_self.mp hall _ hnever
  exact UInt32.not_le.mpr href (of_decide_eq_true hmatch)

/-- If any report is enough, those that never reached the tier may as well be left out. -/
theorem Selects.eq_of_reached (href : reference < .never)
    (h : Selects .any choice reference times time)
    (h' : Selects .any choice reference (times.filter (· ≠ .never)) other) : time = other := by
  have hmatching := filter_le_of_lt_never href times
  by_cases hmet : times.filter (· ≤ reference) = []
  · have hmet' : ¬ Quorum.any.Met (times.filter (· ≠ .never))
        ((times.filter (· ≠ .never)).filter (· ≤ reference)) := fun h => h (hmatching.trans hmet)
    rw [h.unmet fun h => h hmet, h'.unmet hmet']
  · have hpicks := h'.met fun h => hmet (hmatching.symm.trans h)
    rw [hmatching] at hpicks
    exact (h.met hmet).unique hpicks

/-- Nothing is selected where there is nothing. -/
theorem Selects.eq_never_of_nil (h : Selects quorum choice reference [] time) : time = .never := by
  refine h.unmet ?_
  cases quorum with
  | every => exact fun hmet => hmet.1 rfl
  | any => exact fun hmet => hmet rfl

/-- At the latest time every time matches, so the choice is among all of them. -/
theorem Selects.picks_of_never (h : Selects quorum choice .never times time) (hsome : times ≠ []) :
    choice.Picks times time := by
  have hall : times.filter (· ≤ .never) = times :=
    List.filter_eq_self.mpr fun t _ => decide_eq_true t.le_never
  have hpicks := h.met
  rw [hall] at hpicks
  refine hpicks ?_
  cases quorum with
  | every => exact ⟨hsome, rfl⟩
  | any => exact hsome

/-- The reports that have reached a tier at some time. -/
def reached (reports : List Word) (tier : Fin 8) : List Word :=
  reports.filter fun w => slot w tier ≠ .never

/-- The reports that have reached the tier are those whose time is not the one for never. -/
theorem slots_reached (reports : List Word) (tier : Fin 8) :
    (reached reports tier).map (fun w => slot w tier) =
      (reports.map fun w => slot w tier).filter (· ≠ .never) := by
  rw [reached, List.filter_map]
  rfl

/-- No more reports have reached a tier than there are. -/
theorem length_reached_le (reports : List Word) (tier : Fin 8) :
    (reached reports tier).length ≤ reports.length := List.length_filter_le ..

end Report

namespace Selection

/-- The time that a word on the stack names as the reference. Beyond the latest time it is the
latest. -/
def reference (w : Word) : Time := UInt32.ofNat ((w.fits? 32).getD (UInt32.size - 1))

/-- A reference that is below the greatest time is before never. -/
theorem reference_lt_never {w : Word} (h : w.toNat < 2 ^ 32 - 1) : reference w < .never := by
  have hfits : w.toNat < 2 ^ 32 := by omega
  rw [UInt32.lt_iff_toNat_lt, reference, Word.fits?_eq, if_pos hfits, Option.getD_some,
    UInt32.toNat_ofNat', Nat.mod_eq_of_lt hfits]
  exact h

/-- Every larger reference is clamped to the time for never. -/
theorem reference_eq_never {w : Word} (h : 2 ^ 32 - 1 ≤ w.toNat) : reference w = .never := by
  rw [reference, Word.fits?_eq]
  split
  · next hfits =>
    have hlast : w.toNat = 2 ^ 32 - 1 := by omega
    rw [Option.getD_some, hlast]
    rfl
  · rfl

/-- The same selection over another number of reports. -/
def among (s : Selection) (reports : List Word) : Selection :=
  { s with length := UInt8.ofNat reports.length }

/-- What is selected, as a word. -/
def pick (s : Selection) (reports : List Word) (w : Word) : Word :=
  (Report.select (reports.map .ofWord) (reference w) s.quorum s.choice).toWord

/-- What the instruction picks for a tier is what is to be selected from the times of that
tier. -/
theorem selects_pick (s : Selection) (reports : List Word) (w : Word) (tier : Fin 8) :
    Report.Selects s.quorum s.choice (reference w) (reports.map fun r => Report.slot r tier)
      (Report.slot (s.pick reports w) tier) := by
  rw [pick, Report.slot_toWord]
  exact Report.selects_select reports (reference w) s.quorum s.choice tier

end Selection

namespace Instruction

open Machine Report

variable {m : Machine} {below reports : List Word} {reference : Word} {selection : Selection}

/-- The reports and the reference above them are replaced by the selection. -/
theorem exec_tierSelect (env : Environment)
    (hstack : m.stack.toList = below ++ reports ++ [reference])
    (hlength : selection.length.toNat = reports.length) (hroom : below.length < m.alloc) :
    (tierSelect selection).exec env m =
      .ok () { m with stack := (below ++ [selection.pick reports reference]).toArray } := by
  have hreports := popMany_of_stack (m := { m with stack := (below ++ reports).toArray }) rfl
  rw [← hlength] at hreports
  simp only [exec, Bind.bind, EStateM.bind, pop_of_stack hstack, hreports]
  exact push_of_room m _ hroom

/-- The selection replaces the reports and the reference above them, and its tiers are told by
whether the reference is before the latest time. If it is, a tier that one of the reports has
never reached is missed when all of them are needed; when any is enough, it has the same time as
if these reports were left out. If it is not, even the time of a tier that was never reached is
one to choose from. -/
theorem tierSelect_unreached (env : Environment)
    (hstack : m.stack.toList = below ++ reports ++ [reference])
    (hlength : selection.length.toNat = reports.length) (hroom : below.length < m.alloc) :
    ∃ w, (tierSelect selection).exec env m = .ok () { m with stack := (below ++ [w]).toArray } ∧
      ∀ tier : Fin 8,
        (reference.toNat < 2 ^ 32 - 1 →
          (selection.quorum = .every → (∃ report ∈ reports, slot report tier = .never) →
            slot w tier = .never) ∧
          (selection.quorum = .any →
            (∃ w', (tierSelect (selection.among (reached reports tier))).exec env
                { m with stack := (below ++ reached reports tier ++ [reference]).toArray } =
                  .ok () { m with stack := (below ++ [w']).toArray } ∧
              slot w tier = slot w' tier) ∧
            (reached reports tier = [] → slot w tier = .never))) ∧
        (2 ^ 32 - 1 ≤ reference.toNat → reports ≠ [] →
          selection.choice.Picks (reports.map fun r => slot r tier) (slot w tier)) := by
  refine ⟨_, exec_tierSelect env hstack hlength hroom, fun tier => ⟨fun hbefore => ⟨?_, ?_⟩, ?_⟩⟩
  · rintro hquorum ⟨report, hmem, hnever⟩
    have hselects := selection.selects_pick reports reference tier
    rw [hquorum] at hselects
    refine hselects.eq_never_of_every (Selection.reference_lt_never hbefore) ?_
    exact hnever ▸ List.mem_map_of_mem hmem
  · intro hquorum
    -- The reports that are left are selected from by the same rule, only fewer of them.
    have hless := length_reached_le reports tier
    have hbyte := selection.length.toNat_lt
    have hlength' : (selection.among (reached reports tier)).length.toNat =
        (reached reports tier).length := by
      rw [Selection.among, UInt8.toNat_ofNat']
      omega
    have hstack' : ({ m with stack := (below ++ reached reports tier ++ [reference]).toArray } :
        Machine).stack.toList = below ++ reached reports tier ++ [reference] := rfl
    have hexec' := exec_tierSelect env hstack' hlength' hroom
    have hselects := selection.selects_pick reports reference tier
    have hselects' := (selection.among (reached reports tier)).selects_pick (reached reports tier)
      reference tier
    have hamong : (selection.among (reached reports tier)).quorum = .any := hquorum
    rw [hquorum] at hselects
    rw [hamong, slots_reached] at hselects'
    have hsame := hselects.eq_of_reached (Selection.reference_lt_never hbefore) hselects'
    refine ⟨⟨_, hexec', hsame⟩, fun hnone => ?_⟩
    rw [← slots_reached, List.map_eq_nil_iff.mpr hnone] at hselects'
    exact hsame.trans hselects'.eq_never_of_nil
  · intro hlate hsome
    have hselects := selection.selects_pick reports reference tier
    rw [Selection.reference_eq_never hlate] at hselects
    refine hselects.picks_of_never ?_
    exact fun hnil => hsome (List.map_eq_nil_iff.mp hnil)

/-- A machine with the reports of two accounts and a reference above them. -/
def accountsMachine (reference : Word) : Machine :=
  { Machine.start {} 4 .empty with stack := ([9] ++ twoAccounts ++ [reference]).toArray }

/-- At the time thirty the last tier, which the second account has never reached, is missed when
both are needed. -/
theorem tierSelect_unreached_twoAccounts :
    (accountsMachine 30).stack.toList = [9] ++ twoAccounts ++ [30] ∧
    (⟨.every, .min, 2⟩ : Selection).length.toNat = twoAccounts.length ∧
    [(9 : Word)].length < (accountsMachine 30).alloc ∧
    (30 : Word).toNat < 2 ^ 32 - 1 ∧ (∃ report ∈ twoAccounts, slot report 7 = .never) ∧
    ∃ w, (tierSelect ⟨.every, .min, 2⟩).exec ⟨.empty, #[]⟩ (accountsMachine 30) =
        .ok () { accountsMachine 30 with stack := ([9] ++ [w]).toArray } ∧
      slot w 7 = .never := by
  have hstack : (accountsMachine 30).stack.toList = [9] ++ twoAccounts ++ [30] := rfl
  have hlength : (⟨.every, .min, 2⟩ : Selection).length.toNat = twoAccounts.length := rfl
  have hroom : [(9 : Word)].length < (accountsMachine 30).alloc := by decide
  have hbefore : (30 : Word).toNat < 2 ^ 32 - 1 := by decide
  have hnever : ∃ report ∈ twoAccounts, slot report 7 = .never := by decide
  obtain ⟨w, hexec, htiers⟩ := tierSelect_unreached ⟨.empty, #[]⟩ hstack hlength hroom
  exact ⟨hstack, hlength, hroom, hbefore, hnever, w, hexec, ((htiers 7).1 hbefore).1 rfl hnever⟩

/-- With the greatest word as the reference the last tier counts as reached by both accounts since
sixty, and as never reached if any of them is enough and the latest time is chosen, though the
first account alone has reached it at sixty. -/
theorem tierSelect_counts_unreached :
    (∃ report ∈ twoAccounts, slot report 7 = .never) ∧
    (∃ w, (tierSelect ⟨.every, .min, 2⟩).exec ⟨.empty, #[]⟩ (accountsMachine .top) =
        .ok () { accountsMachine .top with stack := ([9] ++ [w]).toArray } ∧
      slot w 7 = 60 ∧ slot w 7 ≠ .never) ∧
    ∃ w w', (tierSelect ⟨.any, .max, 2⟩).exec ⟨.empty, #[]⟩ (accountsMachine .top) =
        .ok () { accountsMachine .top with stack := ([9] ++ [w]).toArray } ∧
      (tierSelect ⟨.any, .max, 1⟩).exec ⟨.empty, #[]⟩
          { accountsMachine .top with stack :=
            ([9] ++ reached twoAccounts 7 ++ [Word.top]).toArray } =
        .ok () { accountsMachine .top with stack := ([9] ++ [w']).toArray } ∧
      slot w 7 = .never ∧ slot w' 7 = 60 := by
  have hroom : [(9 : Word)].length < (accountsMachine .top).alloc := by decide
  refine ⟨by decide, ⟨_, exec_tierSelect ⟨.empty, #[]⟩ rfl rfl hroom, by decide, by decide⟩, ?_⟩
  have hreached : (⟨.any, .max, 1⟩ : Selection).length.toNat = (reached twoAccounts 7).length := by
    decide
  have hstack : ({ accountsMachine .top with
      stack := ([9] ++ reached twoAccounts 7 ++ [Word.top]).toArray } : Machine).stack.toList =
        [9] ++ reached twoAccounts 7 ++ [Word.top] := rfl
  have hfirst := exec_tierSelect ⟨.empty, #[]⟩ hstack hreached hroom
  exact ⟨_, _, exec_tierSelect ⟨.empty, #[]⟩ rfl rfl hroom, hfirst, by decide, by decide⟩

end Instruction

end Bourse
