import Bourse.Evaluation

/-!
# Accesses, units and runs

An access takes values off the top of the stack or puts one there; the values below stay. A run
executes its first unit and goes on with the others on the machine that this leaves, or ends with
a fault at its position. So a run of units one after the other is taken apart at any place between
them.
-/

namespace Bourse.Machine

variable {env : Environment} {u : CodeUnit} {us : List CodeUnit} {m m' : Machine} {cause : Fault}
  {below values : List Word} {w : Word}

/-- The topmost value comes off the stack. -/
theorem pop_of_stack (h : m.stack.toList = below ++ [w]) :
    pop m = .ok w { m with stack := below.toArray } := by
  have hstack : m.stack = (below ++ [w]).toArray := by
    rw [← h, Array.toArray_toList]
  rw [pop, hstack]
  simp

/-- The topmost values come off the stack. -/
theorem popMany_of_stack (h : m.stack.toList = below ++ values) :
    popMany values.length m = .ok values { m with stack := below.toArray } := by
  have hstack : m.stack = (below ++ values).toArray := by
    rw [← h, Array.toArray_toList]
  have hsize : m.stack.size = below.length + values.length := by simp [hstack]
  have hrest : m.stack.size - values.length = below.length := by omega
  rw [popMany, if_pos (by omega), hrest, hstack]
  simp

/-- With room for it a value goes on top of the stack. -/
theorem push_of_room (m : Machine) (w : Word) (hroom : below.length < m.alloc) :
    push w { m with stack := below.toArray } =
      .ok () { m with stack := (below ++ [w]).toArray } := by
  have hfree : below.toArray.size < m.alloc := hroom
  simp only [push, if_pos hfree, List.push_toArray]

/-- An instruction that faults is not paid for. -/
theorem runUnit_of_exec_error {i : Instruction} (hcontent : u.content = .ok i)
    (h : i.exec env m = .error cause m') : runUnit env u m = .error cause m' := by
  simp only [runUnit, hcontent, runInstruction, Bind.bind, EStateM.bind, h]

/-- A run goes on where its first unit has led. -/
theorem runUnits_cons_of_ok (h : runUnit env u m = .ok () m') :
    runUnits env (u :: us) m = runUnits env us m' := by
  simp only [runUnits, Bind.bind, EStateM.bind, EStateM.adaptExcept, h]

/-- A run whose first unit fails fails at the offset of that unit. -/
theorem runUnits_cons_of_error (h : runUnit env u m = .error cause m') :
    runUnits env (u :: us) m = .error (u.pos, cause) m' := by
  simp only [runUnits, Bind.bind, EStateM.bind, EStateM.adaptExcept, h]

/-- A run that comes to its end has executed its first unit. -/
theorem runUnits_cons_eq_ok (h : runUnits env (u :: us) m = .ok () m') :
    ∃ n, runUnit env u m = .ok () n ∧ runUnits env us n = .ok () m' := by
  cases hunit : runUnit env u m with
  | error cause n =>
    rw [runUnits_cons_of_error hunit] at h
    cases h
  | ok _ n =>
    rw [runUnits_cons_of_ok hunit] at h
    exact ⟨n, rfl, h⟩

/-- A run that fails does so at its first unit, or after it. -/
theorem runUnits_cons_eq_error {fault : Nat × Fault}
    (h : runUnits env (u :: us) m = .error fault m') :
    (∃ cause, runUnit env u m = .error cause m' ∧ fault = (u.pos, cause)) ∨
    ∃ n, runUnit env u m = .ok () n ∧ runUnits env us n = .error fault m' := by
  cases hunit : runUnit env u m with
  | error cause n =>
    rw [runUnits_cons_of_error hunit] at h
    cases h
    exact Or.inl ⟨cause, rfl, rfl⟩
  | ok _ n =>
    rw [runUnits_cons_of_ok hunit] at h
    exact Or.inr ⟨n, rfl, h⟩

/-- Where a run fails there is a unit. -/
theorem exists_unit_of_runUnits_error {pos : Nat} {fault : Fault}
    (h : runUnits env us m = .error (pos, fault) m') : ∃ u ∈ us, u.pos = pos := by
  induction us generalizing m with
  | nil => cases h
  | cons u us ih =>
    rcases runUnits_cons_eq_error h with ⟨cause, _, hfault⟩ | ⟨n, _, hrest⟩
    · cases hfault
      exact ⟨u, List.mem_cons_self .., rfl⟩
    · obtain ⟨v, hv, hpos⟩ := ih hrest
      exact ⟨v, List.mem_cons_of_mem _ hv, hpos⟩

/-- A run goes on where its first units have led. -/
theorem runUnits_append_of_ok (vs : List CodeUnit) (h : runUnits env us m = .ok () m') :
    runUnits env (us ++ vs) m = runUnits env vs m' := by
  induction us generalizing m with
  | nil =>
    cases h
    rfl
  | cons u us ih =>
    obtain ⟨n, hunit, hrest⟩ := runUnits_cons_eq_ok h
    rw [List.cons_append, runUnits_cons_of_ok hunit]
    exact ih hrest

/-- A run whose first units fail fails as they do. -/
theorem runUnits_append_of_error (vs : List CodeUnit) {fault : Nat × Fault}
    (h : runUnits env us m = .error fault m') : runUnits env (us ++ vs) m = .error fault m' := by
  induction us generalizing m with
  | nil => cases h
  | cons u us ih =>
    rcases runUnits_cons_eq_error h with ⟨cause, hunit, rfl⟩ | ⟨n, hunit, hrest⟩
    · exact runUnits_cons_of_error hunit
    · rw [List.cons_append, runUnits_cons_of_ok hunit]
      exact ih hrest

end Bourse.Machine
