import Bourse.Proofs.Code.Assembly
import Bourse.Proofs.Machine.Shortage
import Bourse.Proofs.Program.Allocation

/-!
# The check rejects only what cannot run

Where the walk of the check finds too few values, too many, or an operand that names what is not
there, no run gets any further, in whatever context and from whatever scratch values: up to there
the run has done on the stack what the walk has done on its height, and the unit that the walk
refuses faults on a stack of that height. The exceptions are operands that count too few values,
some of which could be run.
-/

namespace Bourse

/-- Where no run gets past the flaw. -/
def SourceFlaw.fatalAt? : SourceFlaw → Option Nat
  | .operand _ _ (.arityTooSmall _) => none
  | .operand pos _ _ | .stackUnderflow pos _ | .stackOverflow pos => some pos
  | .tooLong _ | .misaligned _ | .decode .. | .tooFewOutputs .. => none

/-- The fault that shows the flaw in a run, if it is always the same. -/
def SourceFlaw.fault? : SourceFlaw → Option Fault
  | .operand _ _ cause => cause.fault?
  | .stackUnderflow .. => some .stackUnderflow
  | .tooLong _ | .misaligned _ | .decode .. | .stackOverflow _ | .tooFewOutputs .. => none

namespace Heights

variable {constants : Nat} {h h' : Heights} {us : List CodeUnit} {u : CodeUnit} {flaw : SourceFlaw}

/-- What is wrong with a unit that the walk comes to. -/
inductive Flawed (constants : Nat) (h : Heights) (u : CodeUnit) : SourceFlaw → Prop
  | decode {cause : DecodeError} (content : u.content = .error cause) :
      Flawed constants h u (.decode u.pos cause)
  | operand {i : Instruction} {cause : OperandError} (content : u.content = .ok i)
      (refused : i.checkOperand h.last constants = .error cause) :
      Flawed constants h u (.operand u.pos i cause)
  | underflow {i : Instruction} (content : u.content = .ok i) (few : h.last < i.inputs) :
      Flawed constants h u (.stackUnderflow u.pos i)
  | overflow {i : Instruction} (content : u.content = .ok i)
      (accepted : i.checkOperand h.last constants = .ok ()) (inputs : i.inputs ≤ h.last)
      (many : maxHeight < h.last - i.inputs + i.outputs) :
      Flawed constants h u (.stackOverflow u.pos)

/-- The walk refuses a unit for a flaw that the unit has. -/
theorem flawed_of_nextUnit (hnext : nextUnit constants h u = .error flaw) :
    Flawed constants h u flaw := by
  rw [nextUnit] at hnext
  cases hcontent : u.content with
  | error cause =>
    rw [hcontent] at hnext
    cases hnext
    exact .decode hcontent
  | ok i =>
    rw [hcontent] at hnext
    simp only [next] at hnext
    cases hcheck : i.checkOperand h.last constants with
    | error cause =>
      rw [hcheck] at hnext
      cases hnext
      exact .operand hcontent hcheck
    | ok _ =>
      rw [hcheck] at hnext
      simp only at hnext
      split at hnext
      · next hfew =>
        cases hnext
        exact .underflow hcontent hfew
      next hinputs =>
      split at hnext
      · next hmany =>
        cases hnext
        exact .overflow hcontent hcheck (Nat.le_of_not_lt hinputs) hmany
      · cases hnext

/-- A fatal flaw is where the unit is. -/
theorem Flawed.pos_eq {pos : Nat} (h : Flawed constants h u flaw)
    (hfatal : flaw.fatalAt? = some pos) : u.pos = pos := by
  cases h with
  | decode => cases hfatal
  | @operand i cause =>
    cases cause with
    | arityTooSmall => cases hfatal
    | constantOutOfRange | stackReadOutOfRange | contextColumnOutOfRange =>
      cases hfatal
      rfl
  | underflow | overflow =>
    cases hfatal
    rfl

/-- A walk stays below the greatest height that is allowed. -/
theorem peak_le_maxHeight_of_foldlM (hwalk : us.foldlM (nextUnit constants) h = .ok h')
    (hstart : h.peak ≤ maxHeight) : h'.peak ≤ maxHeight := by
  refine foldlM_eq_ok_induction (P := fun k => k.peak ≤ maxHeight) hwalk hstart ?_
  intro k u k' _ hpeak hnext
  obtain ⟨i, hcontent, hcheck, hinputs, hlast, hmax⟩ := nextUnit_eq_ok hnext
  have hroom : ¬ maxHeight < k.last - i.inputs + i.outputs := by
    intro hmany
    rw [nextUnit, hcontent] at hnext
    simp only [next, hcheck, if_neg (Nat.not_lt.mpr hinputs), if_pos hmany] at hnext
    cases hnext
  omega

end Heights

namespace Machine

variable {env : Environment} {m : Machine}

/-- An instruction that leaves more values than there is room for faults. -/
theorem exec_of_outgrown {i : Instruction}
    (hcheck : i.checkOperand m.height env.constants.size = .ok ()) (hinputs : i.inputs ≤ m.height)
    (hfits : m.height ≤ m.alloc) (hmany : m.alloc < m.height - i.inputs + i.outputs) :
    ∃ cause m', i.exec env m = .error cause m' := by
  obtain ⟨rest, hrest⟩ := Nat.exists_eq_add_of_le' hinputs
  have hgrown : m.alloc < rest + i.outputs := by omega
  -- With enough room the stack would become higher than the machine allows.
  have hnarrows :=
    Narrows.exec (Nat.le_of_lt hgrown) env i (m.withRoom (rest + i.outputs)) rfl hfits
  rw [hrest] at hcheck
  have hleads := i.leads_exec env hcheck (Nat.le_refl _) (m.withRoom (rest + i.outputs)) rfl hrest
  rw [withRoom_withRoom, withRoom_alloc] at hnarrows
  generalize i.exec env (m.withRoom (rest + i.outputs)) = r at hnarrows hleads
  generalize i.exec env m = s at hnarrows
  cases hnarrows with
  | ok _ _ fits =>
    have hheight := hleads.2.1
    omega
  | error cause m' => exact ⟨cause, _, rfl⟩
  | overflow _ m' => exact ⟨_, m', rfl⟩

/-- A unit with a fatal flaw faults, and the fault shows the flaw. -/
theorem runUnit_of_flawed {h : Heights} {u : CodeUnit} {flaw : SourceFlaw} {pos : Nat}
    (hflawed : Heights.Flawed env.constants.size h u flaw) (hfatal : flaw.fatalAt? = some pos)
    (hroom : m.alloc = Heights.maxHeight) (hfits : m.height ≤ m.alloc)
    (hheight : m.height = h.last) :
    ∃ cause m', runUnit env u m = .error cause m' ∧
      ∀ shown, flaw.fault? = some shown → cause = shown := by
  cases hflawed with
  | decode content => cases hfatal
  | @operand i cause content refused =>
    rw [← hheight] at refused
    have harity : ∀ required, cause ≠ .arityTooSmall required := by
      rintro required rfl
      cases hfatal
    obtain ⟨fault, m', hfault, hshown⟩ := Instruction.exec_of_checkOperand_eq_error refused harity
    exact ⟨fault, m', runUnit_of_exec_error content hfault, hshown⟩
  | @underflow i content few =>
    obtain ⟨m', hfault⟩ := i.starves_exec env few m hheight
    refine ⟨_, m', runUnit_of_exec_error content hfault, ?_⟩
    rintro shown ⟨⟩
    rfl
  | @overflow i content accepted inputs many =>
    rw [← hheight] at accepted inputs many
    obtain ⟨cause, m', hfault⟩ := exec_of_outgrown accepted inputs hfits (hroom ▸ many)
    refine ⟨cause, m', runUnit_of_exec_error content hfault, ?_⟩
    rintro shown ⟨⟩

end Machine

/-- What is found in a unit has been found by the walk. -/
theorem Code.walk_of_check_eq_error {constants required : Nat} {code : Bytes} {flaw : SourceFlaw}
    {pos : Nat} (hcheck : Code.check constants required code = .error flaw)
    (hfatal : flaw.fatalAt? = some pos) : Heights.walk constants code = .error flaw := by
  rw [Code.check] at hcheck
  split at hcheck
  · cases hcheck
    cases hfatal
  split at hcheck
  · cases hcheck
    cases hfatal
  cases hwalk : Heights.walk constants code with
  | error found =>
    rw [hwalk] at hcheck
    cases hcheck
    rfl
  | ok h =>
    rw [hwalk, ok_bind] at hcheck
    split at hcheck
    · cases hcheck
      cases hfatal
    · cases hcheck

namespace Machine

/-- Where the check finds a source fatally flawed, every run of it in all the room that there can
be has ended: it has failed before, or it fails there with the fault that shows the flaw. This is
so for any code, that of a list of instructions among it. -/
theorem run_stops_at_flaw (env : Environment) {required : Nat} {code : Bytes} {flaw : SourceFlaw}
    {pos : Nat} (hcheck : Code.check env.constants.size required code = .error flaw)
    (hfatal : flaw.fatalAt? = some pos) (settings : Settings) (scratch : Scratch) :
    ∃ failedAt cause m,
      runUnits env (Code.units 0 code) (.start settings Heights.maxHeight scratch) =
        .error (failedAt, cause) m ∧
      (failedAt < pos ∨ failedAt = pos ∧ ∀ shown, flaw.fault? = some shown → cause = shown) := by
  obtain ⟨done, u, rest, h, hsplit, hdone, hnext⟩ :=
    exists_of_foldlM_eq_error (Code.walk_of_check_eq_error hcheck hfatal)
  have hflawed := Heights.flawed_of_nextUnit hnext
  have hpos := hflawed.pos_eq hfatal
  have hpeak := Heights.peak_le_maxHeight_of_foldlM hdone (Nat.zero_le _)
  have hlast := Heights.last_le_peak_of_foldlM hdone (Nat.le_refl _)
  rw [hsplit]
  cases hrun : runUnits env done (.start settings Heights.maxHeight scratch) with
  | error fault m =>
    obtain ⟨failedAt, cause⟩ := fault
    obtain ⟨v, hv, rfl⟩ := exists_unit_of_runUnits_error hrun
    have hbefore := Code.pos_lt_of_units_eq hsplit hv
    exact ⟨v.pos, cause, m, runUnits_append_of_error _ hrun, Or.inl (hpos ▸ hbefore)⟩
  | ok _ m =>
    obtain ⟨halloc, hheight⟩ := height_of_runUnits hdone hpeak rfl hrun
    have hroom : m.alloc = Heights.maxHeight := halloc
    obtain ⟨cause, m', hfault, hshown⟩ := runUnit_of_flawed hflawed hfatal hroom (by omega) hheight
    refine ⟨u.pos, cause, m', ?_, Or.inr ⟨hpos, hshown⟩⟩
    rw [runUnits_append_of_ok _ hrun]
    exact runUnits_cons_of_error hfault

/-- A sum of two values where there is only one. -/
theorem run_stops_at_flaw_fold :
    Code.check 1 0 [0, 0, 0, 1, 0, 4, 0, 2] = .error (.stackUnderflow 4 (.fold .add 2)) ∧
    (SourceFlaw.stackUnderflow 4 (.fold .add 2)).fatalAt? = some 4 ∧
    ∃ failedAt cause m, runUnits ⟨.empty, #[7]⟩ (Code.units 0 [0, 0, 0, 1, 0, 4, 0, 2])
        (.start {} Heights.maxHeight .empty) = .error (failedAt, cause) m ∧
      (failedAt < 4 ∨ failedAt = 4 ∧
        ∀ shown, (SourceFlaw.stackUnderflow 4 (.fold .add 2)).fault? = some shown →
          cause = shown) := by
  have hcheck : Code.check 1 0 [0, 0, 0, 1, 0, 4, 0, 2] =
      .error (.stackUnderflow 4 (.fold .add 2)) := rfl
  exact ⟨hcheck, rfl, run_stops_at_flaw ⟨.empty, #[7]⟩ hcheck rfl {} .empty⟩

end Machine

end Bourse
