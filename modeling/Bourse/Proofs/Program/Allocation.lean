import Bourse.Proofs.Machine.Room
import Bourse.Proofs.Machine.Running
import Bourse.Proofs.Program.Soundness

/-!
# The room that a run needs

The check finds how high the stack of a source becomes. A run that comes to its end has been
exactly so high after one of its instructions, so no smaller room suffices: with less, the same
run goes as far as to the first instruction after which the walk finds more values than there is
room for, and overflows there.
-/

namespace Bourse

namespace Heights

variable {constants : Nat} {h h' : Heights} {us : List CodeUnit}

/-- The height after an instruction is at most the greatest one. -/
theorem last_le_peak_of_foldlM (hwalk : us.foldlM (nextUnit constants) h = .ok h')
    (hstart : h.last ≤ h.peak) : h'.last ≤ h'.peak := by
  refine foldlM_eq_ok_induction (P := fun k => k.last ≤ k.peak) hwalk hstart ?_
  intro k u k' _ _ hnext
  obtain ⟨i, _, _, _, _, hmax⟩ := nextUnit_eq_ok hnext
  omega

/-- The unit after `done` is the first one after which a walk finds more than `alloc` values. -/
structure FirstAbove (constants alloc : Nat) (done : List CodeUnit) (u : CodeUnit) : Prop where
  above : ∃ h, (done ++ [u]).foldlM (nextUnit constants) .start = .ok h ∧ alloc < h.last
  before : ∀ earlier, earlier <+: done →
    ∃ h, earlier.foldlM (nextUnit constants) .start = .ok h ∧ h.last ≤ alloc

/-- A unit is the first above when the walk before it has not been above. -/
theorem firstAbove_of_peak_le {alloc : Nat} {done : List CodeUnit} {u : CodeUnit}
    (hdone : done.foldlM (nextUnit constants) .start = .ok h)
    (hnext : nextUnit constants h u = .ok h')
    (hbefore : h.peak ≤ alloc) (habove : alloc < h'.last) : FirstAbove constants alloc done u := by
  refine ⟨⟨h', ?_, habove⟩, ?_⟩
  · rw [foldlM_append_cons_of_ok hdone, hnext]
    rfl
  · rintro earlier ⟨later, rfl⟩
    rw [List.foldlM_append, bind_eq_ok_iff] at hdone
    obtain ⟨k, hearlier, hlater⟩ := hdone
    have hlast := last_le_peak_of_foldlM hearlier (Nat.le_refl _)
    have hpeak := peak_le_of_foldlM hlater
    exact ⟨k, hearlier, by omega⟩

end Heights

namespace Machine

/-- The heights of the stack after each unit of a run, up to the first fault. -/
def heightsAfter (env : Environment) : List CodeUnit → Machine → List Nat
  | [], _ => []
  | u :: us, m =>
    match runUnit env u m with
    | .ok () m' => m'.height :: heightsAfter env us m'
    | .error _ _ => []

variable {env : Environment} {us : List CodeUnit} {h h' : Heights} {m m' : Machine}

/-- A unit that the walk goes over leaves the room alone and takes the stack to the height that
the walk finds. -/
theorem height_of_runUnit {u : CodeUnit} (hnext : Heights.nextUnit env.constants.size h u = .ok h')
    (hroom : h'.last ≤ m.alloc) (hheight : m.height = h.last) (hrun : runUnit env u m = .ok () m') :
    m'.alloc = m.alloc ∧ m'.height = h'.last := by
  have hend := leads_runUnit env hnext hroom m rfl hheight
  rw [hrun] at hend
  exact ⟨hend.1, hend.2.1⟩

/-- So do units one after the other. -/
theorem height_of_runUnits (hwalk : us.foldlM (Heights.nextUnit env.constants.size) h = .ok h')
    (hroom : h'.peak ≤ m.alloc) (hheight : m.height = h.last)
    (hrun : runUnits env us m = .ok () m') : m'.alloc = m.alloc ∧ m'.height = h'.last := by
  induction us generalizing h m with
  | nil =>
    cases hwalk
    cases hrun
    exact ⟨rfl, hheight⟩
  | cons u us ih =>
    rw [List.foldlM_cons, bind_eq_ok_iff] at hwalk
    obtain ⟨k, hnext, hrest⟩ := hwalk
    obtain ⟨n, hunit, hunits⟩ := runUnits_cons_eq_ok hrun
    obtain ⟨i, _, _, _, _, hmax⟩ := Heights.nextUnit_eq_ok hnext
    have hpeak := Heights.peak_le_of_foldlM hrest
    obtain ⟨halloc, hlast⟩ := height_of_runUnit hnext (by omega) hheight hunit
    rw [← halloc]
    exact ih hrest (by omega) hlast hunits

/-- The greatest height of a run that comes to its end is the one that the walk finds. -/
theorem foldl_max_heightsAfter (env : Environment)
    (hwalk : us.foldlM (Heights.nextUnit env.constants.size) h = .ok h')
    (hroom : h'.peak ≤ m.alloc) (hheight : m.height = h.last)
    (hrun : runUnits env us m = .ok () m') :
    (heightsAfter env us m).foldl max h.peak = h'.peak := by
  induction us generalizing h m with
  | nil =>
    cases hwalk
    rfl
  | cons u us ih =>
    rw [List.foldlM_cons, bind_eq_ok_iff] at hwalk
    obtain ⟨k, hnext, hrest⟩ := hwalk
    obtain ⟨n, hunit, hunits⟩ := runUnits_cons_eq_ok hrun
    obtain ⟨i, _, _, _, _, hmax⟩ := Heights.nextUnit_eq_ok hnext
    have hpeak := Heights.peak_le_of_foldlM hrest
    obtain ⟨halloc, hlast⟩ := height_of_runUnit hnext (by omega) hheight hunit
    rw [heightsAfter, hunit]
    simp only [List.foldl_cons]
    rw [hlast, ← hmax]
    exact ih hrest (by omega) hlast hunits

/-- With room for the height after it, a unit does the same as with more room. -/
theorem runUnit_withRoom_of_le {u : CodeUnit} (alloc : Nat)
    (hnext : Heights.nextUnit env.constants.size h u = .ok h') (hheight : m.height = h.last)
    (hfits : h.last ≤ alloc) (hle : alloc ≤ m.alloc) (hlast : h'.last ≤ alloc)
    (hrun : runUnit env u m = .ok () m') :
    runUnit env u (m.withRoom alloc) = .ok () (m'.withRoom alloc) := by
  have hnarrows := Narrows.runUnit hle env u m rfl (by omega)
  have hleads := leads_runUnit env hnext hlast (m.withRoom alloc) rfl hheight
  rw [hrun] at hnarrows
  generalize runUnit env u (m.withRoom alloc) = r at hnarrows hleads
  cases hnarrows with
  | ok => rfl
  -- An overflow is no fault of a unit that the walk goes over.
  | overflow => cases hleads

/-- Without room for the height after it, a unit overflows. -/
theorem runUnit_withRoom_of_lt {u : CodeUnit} (alloc : Nat)
    (hnext : Heights.nextUnit env.constants.size h u = .ok h') (hheight : m.height = h.last)
    (hfits : h.last ≤ alloc) (hlast : alloc < h'.last) (hroom : h'.last ≤ m.alloc)
    (hrun : runUnit env u m = .ok () m') :
    ∃ n, runUnit env u (m.withRoom alloc) = .error (.stackOverflow alloc) n := by
  have hnarrows := Narrows.runUnit (by omega) env u m rfl (by omega : m.height ≤ alloc)
  have hheight' := (height_of_runUnit hnext hroom hheight hrun).2
  rw [hrun] at hnarrows
  generalize runUnit env u (m.withRoom alloc) = r at hnarrows
  cases hnarrows with
  | ok _ _ fits => omega
  | overflow _ n => exact ⟨n, rfl⟩

/-- With less room than a run needs, it overflows at the first unit that needs more. -/
theorem runUnits_withRoom (env : Environment) (alloc : Nat)
    (hwalk : us.foldlM (Heights.nextUnit env.constants.size) h = .ok h') (hroom : h'.peak ≤ m.alloc)
    (hheight : m.height = h.last) (hstart : h.last ≤ h.peak) (hfits : h.peak ≤ alloc)
    (hless : alloc < h'.peak) (hrun : runUnits env us m = .ok () m') :
    ∃ done u rest k k' n, us = done ++ u :: rest ∧
      done.foldlM (Heights.nextUnit env.constants.size) h = .ok k ∧
      Heights.nextUnit env.constants.size k u = .ok k' ∧ k.peak ≤ alloc ∧ alloc < k'.last ∧
      runUnits env us (m.withRoom alloc) = .error (u.pos, .stackOverflow alloc) n := by
  induction us generalizing h m with
  | nil =>
    cases hwalk
    omega
  | cons u us ih =>
    rw [List.foldlM_cons, bind_eq_ok_iff] at hwalk
    obtain ⟨k, hnext, hrest⟩ := hwalk
    obtain ⟨n, hunit, hunits⟩ := runUnits_cons_eq_ok hrun
    obtain ⟨i, _, _, _, _, hmax⟩ := Heights.nextUnit_eq_ok hnext
    have hpeak := Heights.peak_le_of_foldlM hrest
    by_cases hlast : k.last ≤ alloc
    · obtain ⟨halloc, hheight'⟩ := height_of_runUnit hnext (by omega) hheight hunit
      have hsame := runUnit_withRoom_of_le alloc hnext hheight (by omega) (by omega) hlast hunit
      obtain ⟨done, v, rest, l, l', o, hsplit, hdone, hover, hbefore, habove, hfault⟩ :=
        ih hrest (by omega) hheight' (by omega) (by omega) hunits
      refine ⟨u :: done, v, rest, l, l', o, ?_, ?_, hover, hbefore, habove, ?_⟩
      · rw [hsplit, List.cons_append]
      · rw [List.foldlM_cons, hnext]
        exact hdone
      · rw [runUnits_cons_of_ok hsame]
        exact hfault
    · obtain ⟨o, hfault⟩ :=
        runUnit_withRoom_of_lt alloc hnext hheight (by omega) (by omega) (by omega) hunit
      exact ⟨[], u, us, h, k, o, rfl, rfl, hnext, hfits, by omega, runUnits_cons_of_error hfault⟩

/-- A run of a source that comes to its end in the room that the check has found has needed all of
it: that is its greatest height, and with less room it overflows at the first unit after which the
walk is above. -/
theorem room_exact (env : Environment) {required : Nat} {code : Bytes} {heights : Heights}
    (hcheck : Code.check env.constants.size required code = .ok heights) (settings : Settings)
    (scratch : Scratch) {m : Machine}
    (hrun : runUnits env (Code.units 0 code) (.start settings heights.peak scratch) = .ok () m) :
    (heightsAfter env (Code.units 0 code) (.start settings heights.peak scratch)).foldl max 0 =
      heights.peak ∧
    ∀ alloc < heights.peak, ∃ done u rest n, Code.units 0 code = done ++ u :: rest ∧
      Heights.FirstAbove env.constants.size alloc done u ∧
      runUnits env (Code.units 0 code) (.start settings alloc scratch) =
        .error (u.pos, .stackOverflow alloc) n := by
  have hwalk := (Code.check_eq_ok hcheck).1
  refine ⟨foldl_max_heightsAfter env hwalk (Nat.le_refl _) rfl hrun, ?_⟩
  intro alloc hless
  obtain ⟨done, u, rest, k, k', n, hsplit, hdone, hnext, hbefore, habove, hfault⟩ :=
    runUnits_withRoom env alloc hwalk (Nat.le_refl _) rfl (Nat.le_refl _) (Nat.zero_le alloc) hless
      hrun
  exact ⟨done, u, rest, n, hsplit, Heights.firstAbove_of_peak_le hdone hnext hbefore habove, hfault⟩

/-- The eight parts of a word need room for eight values. -/
theorem room_exact_parts :
    Code.check 1 8 [0, 0, 0, 1, 0, 30, 0, 0] = .ok ⟨8, 8⟩ ∧
    ∃ m, runUnits ⟨.empty, #[7]⟩ (Code.units 0 [0, 0, 0, 1, 0, 30, 0, 0]) (.start {} 8 .empty) =
      .ok () m ∧
    (heightsAfter ⟨.empty, #[7]⟩ (Code.units 0 [0, 0, 0, 1, 0, 30, 0, 0])
      (.start {} 8 .empty)).foldl max 0 = 8 ∧
    ∀ alloc < 8, ∃ done u rest n, Code.units 0 [0, 0, 0, 1, 0, 30, 0, 0] = done ++ u :: rest ∧
      Heights.FirstAbove 1 alloc done u ∧
      runUnits ⟨.empty, #[7]⟩ (Code.units 0 [0, 0, 0, 1, 0, 30, 0, 0]) (.start {} alloc .empty) =
        .error (u.pos, .stackOverflow alloc) n := by
  have hcheck : Code.check 1 8 [0, 0, 0, 1, 0, 30, 0, 0] = .ok ⟨8, 8⟩ := rfl
  have hsource : Program.partsProgram.source? (⟨0, 8⟩ : Entry).source.toNat =
      some ([0, 0, 0, 1, 0, 30, 0, 0], ⟨8, 8⟩) := rfl
  have heval : (Program.partsProgram.eval {} ⟨0, 8⟩ .empty .empty).toOption =
      some ⟨[7, 0, 0, 0, 0, 0, 0, 0], .empty, 2⟩ := by decide +kernel
  rcases Program.eval_cases {} .empty .empty hsource (Code.check_eq_ok hcheck).1 with
    ⟨pos, cause, _, hfault⟩ | ⟨m, hrun, _⟩
  · rw [hfault] at heval
    cases heval
  · exact ⟨hcheck, m, hrun, room_exact ⟨.empty, #[7]⟩ hcheck {} .empty hrun⟩

end Machine

end Bourse
