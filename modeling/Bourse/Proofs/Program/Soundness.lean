import Bourse.Evaluation
import Bourse.Proofs.Machine.Height
import Bourse.Proofs.Result

/-!
# Soundness of the check

A run of a checked source does on the stack what the walk of the check has done on its height. So
at every unit that a run reaches, the stack is as high as the walk has found there, and no run
overflows the stack, underflows it, reads beyond it or beyond the constants, or meets code that
cannot be read.
-/

namespace Bourse

namespace Heights

/-- A unit that the walk accepts holds an instruction with an accepted operand, enough values and
enough room. -/
theorem nextUnit_eq_ok {constants : Nat} {h h' : Heights} {u : CodeUnit}
    (hnext : nextUnit constants h u = .ok h') :
    ∃ i, u.content = .ok i ∧ i.checkOperand h.last constants = .ok () ∧ i.inputs ≤ h.last ∧
      h'.last = h.last - i.inputs + i.outputs ∧ h'.peak = max h.peak h'.last := by
  rw [nextUnit] at hnext
  cases hcontent : u.content with
  | error cause =>
    rw [hcontent] at hnext
    cases hnext
  | ok i =>
    rw [hcontent] at hnext
    simp only [next] at hnext
    cases hcheck : i.checkOperand h.last constants with
    | error cause =>
      rw [hcheck] at hnext
      cases hnext
    | ok _ =>
      rw [hcheck] at hnext
      simp only at hnext
      split at hnext
      · cases hnext
      next hinputs =>
      split at hnext
      · cases hnext
      cases hnext
      exact ⟨i, rfl, hcheck, Nat.le_of_not_lt hinputs, rfl, rfl⟩

/-- The greatest height never becomes less on a walk. -/
theorem peak_le_of_foldlM {constants : Nat} {h h' : Heights} {us : List CodeUnit}
    (hwalk : us.foldlM (nextUnit constants) h = .ok h') : h.peak ≤ h'.peak := by
  refine foldlM_eq_ok_induction (P := fun k => h.peak ≤ k.peak) hwalk (Nat.le_refl _) ?_
  intro k u k' _ hpeak hnext
  obtain ⟨i, _, _, _, _, hmax⟩ := nextUnit_eq_ok hnext
  omega

end Heights

/-- The check of a source finds what the walk over it finds, if the source consists of whole
units, fits a segment and leaves enough values. -/
theorem Code.check_eq_ok_iff {constants required : Nat} {code : Bytes} {h : Heights} :
    Code.check constants required code = .ok h ↔
      code.length ≤ maxPosition ∧ code.length % unitSize = 0 ∧ Heights.walk constants code = .ok h ∧
        required ≤ h.last := by
  rw [Code.check]
  split
  · next hlong =>
    refine iff_of_false (by simp) ?_
    omega
  next hlong =>
  split
  · next hmisaligned => exact iff_of_false (by simp) fun hcheck => hmisaligned hcheck.2.1
  next haligned =>
  rw [bind_eq_ok_iff]
  constructor
  · rintro ⟨found, hwalk, hcheck⟩
    split at hcheck
    · cases hcheck
    next hrequired =>
    cases hcheck
    exact ⟨by omega, by omega, hwalk, by omega⟩
  · rintro ⟨_, _, hwalk, hrequired⟩
    refine ⟨h, hwalk, ?_⟩
    rw [if_neg (by omega)]

/-- The check of a source is a walk over it that leaves enough values. -/
theorem Code.check_eq_ok {constants required : Nat} {code : Bytes} {h : Heights}
    (hcheck : Code.check constants required code = .ok h) :
    Heights.walk constants code = .ok h ∧ required ≤ h.last :=
  (Code.check_eq_ok_iff.mp hcheck).2.2

/-- The check of a program has checked each source. -/
theorem Deployment.check_eq_ok {d : Deployment} {required : List Nat} {found : List Heights}
    (h : d.check required = .ok found) {index : Nat} {code : Bytes}
    (hcode : d.sources[index]? = some code) :
    ∃ heights, found[index]? = some heights ∧
      Code.check d.constants.size (required[index]?.getD 0) code = .ok heights := by
  rw [check] at h
  split at h
  · cases h
  split at h
  · cases h
  have hindexed : d.sources.zipIdx[index]? = some (code, index) := by
    rw [List.getElem?_zipIdx, hcode, Option.map_some, Nat.zero_add]
  obtain ⟨heights, hfound, hsource⟩ := mapM_getElem?_eq_some h hindexed
  refine ⟨heights, hfound, ?_⟩
  simp only at hsource
  cases hchecked : Code.check d.constants.size (required[index]?.getD 0) code with
  | error flaw =>
    rw [hchecked] at hsource
    cases hsource
  | ok checked =>
    rw [hchecked] at hsource
    cases hsource
    rfl

/-- A deployed program is the given one with the heights that the check has found. -/
theorem Program.deploy_eq_ok {d : Deployment} {required : List Nat} {p : Program}
    (h : Program.deploy d required = .ok p) :
    p.toDeployment = d ∧ d.check required = .ok p.heights := by
  unfold deploy at h
  split at h
  · cases h
  next heights hcheck =>
  cases h
  exact ⟨rfl, hcheck⟩

namespace Machine

variable {alloc n : Nat}

/-- Paying leaves the height, and fails for the limit only. -/
theorem leads_pay (cost : Nat) : Leads alloc n n (pay cost) fun _ => True := by
  intro m halloc hheight
  rw [pay]
  by_cases hlimit : (m.charge cost).withinLimit
  · rw [if_pos hlimit]
    exact ⟨halloc, hheight, trivial⟩
  · rw [if_neg hlimit]
    rfl

/-- A unit takes the stack to the height that the walk finds after it. -/
theorem leads_runUnit (env : Environment) {h h' : Heights} {u : CodeUnit}
    (hnext : Heights.nextUnit env.constants.size h u = .ok h') (hroom : h'.last ≤ alloc) :
    Leads alloc h.last h'.last (runUnit env u) fun _ => True := by
  obtain ⟨i, hcontent, hcheck, hinputs, hlast, _⟩ := Heights.nextUnit_eq_ok hnext
  obtain ⟨rest, hrest⟩ := Nat.exists_eq_add_of_le' hinputs
  rw [hrest] at hcheck
  have hlast' : h'.last = rest + i.outputs := by omega
  rw [runUnit, hcontent, hrest, hlast']
  apply (i.leads_exec env hcheck (by omega)).bind
  intro _ _
  exact leads_pay i.complexity

/-- Units take the stack from the height that a walk begins with to the one that it ends with. -/
theorem runUnits_of_walk (env : Environment) {us : List CodeUnit} {h h' : Heights}
    (hwalk : us.foldlM (Heights.nextUnit env.constants.size) h = .ok h') {m : Machine}
    (hroom : h'.peak ≤ m.alloc) (hheight : m.height = h.last) :
    match runUnits env us m with
    | .ok () m' => m'.height = h'.last
    | .error (_, cause) _ => cause.isStatic = false := by
  induction us generalizing h m with
  | nil =>
    cases hwalk
    exact hheight
  | cons u us ih =>
    rw [List.foldlM_cons, bind_eq_ok_iff] at hwalk
    obtain ⟨k, hnext, hrest⟩ := hwalk
    have hpeak := Heights.peak_le_of_foldlM hrest
    obtain ⟨i, _, _, _, _, hmax⟩ := Heights.nextUnit_eq_ok hnext
    have hunit := leads_runUnit env hnext (show k.last ≤ m.alloc by omega) m rfl hheight
    simp only [runUnits, Bind.bind, EStateM.bind, EStateM.adaptExcept]
    cases hrun : runUnit env u m with
    | error cause m' =>
      rw [hrun] at hunit
      exact hunit
    | ok _ m' =>
      rw [hrun] at hunit
      obtain ⟨halloc, hheight', _⟩ := hunit
      exact ih hrest (by omega) hheight'

end Machine

namespace Program

/-- What the check of a program promises for a run of its source with this code and these
heights. -/
structure RunsSafely (p : Program) (settings : Settings) (entry : Entry) (context : Context)
    (scratch : Scratch) (code : Bytes) (heights : Heights) : Prop where
  source : p.source? entry.source.toNat = some (code, heights)
  walk : Heights.walk p.constants.size code = .ok heights
  present : ∀ index, p.eval settings entry context scratch ≠ .error (.sourceAbsent index)
  /-- A fault depends on values. -/
  fault : ∀ index pos cause,
    p.eval settings entry context scratch = .error (.fault index pos cause) → cause.isStatic = false
  /-- Whatever units a run has executed, the stack is as high as after a walk over them. -/
  height : ∀ done rest m, Code.units 0 code = done ++ rest →
    Machine.runUnits ⟨context, p.constants⟩ done (.start settings heights.peak scratch) = .ok () m →
      ∃ h, done.foldlM (Heights.nextUnit p.constants.size) .start = .ok h ∧ m.height = h.last
  /-- A run that succeeds ends at the last height, and returns as many values as there are and are
  asked for. -/
  outcome : ∀ outcome, p.eval settings entry context scratch = .ok outcome →
    (∃ m, Machine.runUnits ⟨context, p.constants⟩ (Code.units 0 code)
      (.start settings heights.peak scratch) = .ok () m ∧ m.height = heights.last) ∧
    outcome.values.length = min entry.maxOutputs.toNat heights.last

section

variable {p : Program} {settings : Settings} {entry : Entry} {context : Context} {scratch : Scratch}
  {code : Bytes} {heights : Heights}

/-- A walk over a whole source begins with a walk over the units that have been executed. -/
theorem height_of_walk (hwalk : Heights.walk p.constants.size code = .ok heights)
    {done rest : List CodeUnit} {m : Machine} (hunits : Code.units 0 code = done ++ rest)
    (hrun : Machine.runUnits ⟨context, p.constants⟩ done (.start settings heights.peak scratch) =
      .ok () m) :
    ∃ h, done.foldlM (Heights.nextUnit p.constants.size) .start = .ok h ∧ m.height = h.last := by
  rw [Heights.walk, hunits, List.foldlM_append, bind_eq_ok_iff] at hwalk
  obtain ⟨h, hdone, hrest⟩ := hwalk
  have hend := Machine.runUnits_of_walk ⟨context, p.constants⟩ hdone
    (m := .start settings heights.peak scratch) (Heights.peak_le_of_foldlM hrest) rfl
  rw [hrun] at hend
  exact ⟨h, hdone, hend⟩

/-- A run ends with a fault that depends on values, or at the last height that the walk has
found. -/
theorem eval_cases (settings : Settings) (context : Context) (scratch : Scratch)
    (hsource : p.source? entry.source.toNat = some (code, heights))
    (hwalk : Heights.walk p.constants.size code = .ok heights) :
    (∃ pos cause, cause.isStatic = false ∧
      p.eval settings entry context scratch = .error (.fault entry.source.toNat pos cause)) ∨
    ∃ m, Machine.runUnits ⟨context, p.constants⟩ (Code.units 0 code)
        (.start settings heights.peak scratch) = .ok () m ∧ m.height = heights.last ∧
      p.eval settings entry context scratch =
        .ok ⟨(m.stack.extract (m.stack.size - entry.maxOutputs.toNat)).toList, m.scratch,
          m.spent⟩ := by
  have hend := Machine.runUnits_of_walk ⟨context, p.constants⟩ hwalk
    (m := .start settings heights.peak scratch) (Nat.le_refl _) rfl
  cases hrun : Machine.runUnits ⟨context, p.constants⟩ (Code.units 0 code)
      (.start settings heights.peak scratch) with
  | error fault m =>
    obtain ⟨pos, cause⟩ := fault
    rw [hrun] at hend
    exact Or.inl ⟨pos, cause, hend, by simp only [eval, hsource, hrun]⟩
  | ok _ m =>
    rw [hrun] at hend
    exact Or.inr ⟨m, rfl, hend, by simp only [eval, hsource, hrun]⟩

/-- Every run of a source over which the walk succeeds is safe. -/
theorem runsSafely_of_walk (hsource : p.source? entry.source.toNat = some (code, heights))
    (hwalk : Heights.walk p.constants.size code = .ok heights) :
    p.RunsSafely settings entry context scratch code heights := by
  rcases eval_cases settings context scratch hsource hwalk with
    ⟨pos, cause, hfault, heval⟩ | ⟨m, hrun, hheight, heval⟩
  · refine ⟨hsource, hwalk, ?_, ?_, fun _ _ _ => height_of_walk hwalk, ?_⟩
    · simp [heval]
    · intro index pos' cause' hresult
      rw [heval] at hresult
      cases hresult
      exact hfault
    · simp [heval]
  · refine ⟨hsource, hwalk, ?_, ?_, fun _ _ _ => height_of_walk hwalk, ?_⟩
    · simp [heval]
    · simp [heval]
    · intro outcome hresult
      rw [heval] at hresult
      cases hresult
      have hsize : m.stack.size = heights.last := hheight
      refine ⟨⟨m, hrun, hheight⟩, ?_⟩
      simp only [Array.length_toList, Array.size_extract]
      omega

end

/-- Every run of every source of a deployed program is safe. -/
theorem runsSafely_of_deploy {d : Deployment} {required : List Nat} {p : Program}
    (hdeploy : deploy d required = .ok p) (settings : Settings) (entry : Entry) (context : Context)
    (scratch : Scratch) (hsource : entry.source.toNat < d.sources.length) :
    ∃ code heights, d.sources[entry.source.toNat]? = some code ∧
      p.RunsSafely settings entry context scratch code heights := by
  obtain ⟨rfl, hcheck⟩ := deploy_eq_ok hdeploy
  have hcode := List.getElem?_eq_getElem hsource
  obtain ⟨heights, hheights, hchecked⟩ := Deployment.check_eq_ok hcheck hcode
  obtain ⟨hwalk, _⟩ := Code.check_eq_ok hchecked
  refine ⟨p.sources[entry.source.toNat], heights, hcode, runsSafely_of_walk ?_ hwalk⟩
  simp [source?, hcode, hheights]

/-- A source that pushes a constant and takes it apart. -/
def partsDeployment : Deployment := ⟨[[0, 0, 0, 1, 0, 30, 0, 0]], #[7]⟩

/-- The program with this source. -/
def partsProgram : Program where
  toDeployment := partsDeployment
  heights := [⟨8, 8⟩]
  id := partsDeployment.id
  accepted := ⟨[8], rfl⟩
  id_eq := rfl

/-- Runs in which three of the eight values that the source leaves are asked for are safe. -/
theorem runsSafely_partsProgram :
    deploy partsDeployment [8] = .ok partsProgram ∧ 0 < partsDeployment.sources.length ∧
    ∃ code heights, partsDeployment.sources[0]? = some code ∧
      partsProgram.RunsSafely {} ⟨0, 3⟩ .empty .empty code heights := by
  have hdeploy : deploy partsDeployment [8] = .ok partsProgram := rfl
  have hsource : 0 < partsDeployment.sources.length := Nat.zero_lt_one
  exact ⟨hdeploy, hsource, runsSafely_of_deploy hdeploy {} ⟨0, 3⟩ .empty .empty hsource⟩

end Program

end Bourse
