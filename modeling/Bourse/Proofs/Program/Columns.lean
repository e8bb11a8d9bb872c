import Bourse.Proofs.Machine.Running

/-!
# The columns that a program sees

Two instructions look at the context, and both name the column in their operand: what is on the
stack chooses at most a row of it. So the columns that a source can look at are known before it
runs. Contexts that agree on these columns are the same to it, and a run that comes to its end has
found a cell in each of them.
-/

namespace Bourse

/-- The column of the context that an instruction names. -/
def Instruction.column? : Instruction → Option Nat
  | .context cell => some cell.column.toNat
  | .contextRow column => some column.toNat
  | _ => none

/-- The column that a unit of code names. -/
def CodeUnit.column? (u : CodeUnit) : Option Nat := u.content.toOption.bind Instruction.column?

/-- The columns that code names. -/
def Code.columns (code : Bytes) : List Nat := (Code.units 0 code).filterMap CodeUnit.column?

/-- The columns that a source of a program names. -/
def Program.columns (p : Program) (source : Nat) : List Nat :=
  match p.source? source with
  | some (code, _) => Code.columns code
  | none => []

/-- Each of these columns is absent from both contexts, or has the same rows in both. -/
def Context.AgreeOn (columns : List Nat) (c c' : Context) : Prop :=
  ∀ column ∈ columns, c.column? column = c'.column? column

/-- The columns of a source are those that its code names. -/
theorem Program.columns_of_source {p : Program} {source : Nat} {code : Bytes} {heights : Heights}
    (h : p.source? source = some (code, heights)) : p.columns source = Code.columns code := by
  rw [columns, h]

/-- A unit names the column that its instruction names. -/
theorem CodeUnit.column?_of_content {u : CodeUnit} {i : Instruction} (h : u.content = .ok i) :
    u.column? = i.column? := by
  rw [column?, h]
  rfl

/-- A cell is looked up in its column. -/
theorem Context.cell?_congr {c c' : Context} {column : Nat}
    (h : c.column? column = c'.column? column) (row : Nat) :
    c.cell? column row = c'.cell? column row := by
  rw [cell?, cell?, h]

variable {env env' : Environment}

/-- An instruction does the same in two contexts that agree on the column that it names. -/
theorem Instruction.exec_congr {i : Instruction} (hconstants : env.constants = env'.constants)
    (hcolumn : ∀ column, i.column? = some column →
      env.context.column? column = env'.context.column? column) :
    i.exec env = i.exec env' := by
  cases i with
  | read source =>
    obtain ⟨bank, index⟩ := source
    cases bank with
    | stack => rfl
    | constant => simp only [exec, hconstants]
  | context cell => simp only [exec, Context.cell?_congr (hcolumn _ rfl)]
  | contextRow column =>
    -- The row comes from the stack, so the cells of all rows have to agree.
    simp only [exec, Context.cell?_congr (hcolumn _ rfl)]
  | _ => rfl

namespace Machine

/-- A unit sees nothing of a context but the column that it names. -/
theorem runUnit_congr {u : CodeUnit} (hconstants : env.constants = env'.constants)
    (hcolumn : ∀ column, u.column? = some column →
      env.context.column? column = env'.context.column? column) :
    runUnit env u = runUnit env' u := by
  cases hcontent : u.content with
  | error cause => simp only [runUnit, hcontent]
  | ok i =>
    rw [CodeUnit.column?_of_content hcontent] at hcolumn
    simp only [runUnit, hcontent, runInstruction, i.exec_congr hconstants hcolumn]

/-- Units do the same in two contexts that agree on all columns that they name. -/
theorem runUnits_congr {us : List CodeUnit} (hconstants : env.constants = env'.constants)
    (hcolumns : env.context.AgreeOn (us.filterMap CodeUnit.column?) env'.context) :
    runUnits env us = runUnits env' us := by
  induction us with
  | nil => rfl
  | cons u us ih =>
    have hfirst : runUnit env u = runUnit env' u := by
      apply runUnit_congr hconstants
      intro column hcolumn
      exact hcolumns column (List.mem_filterMap.mpr ⟨u, List.mem_cons_self .., hcolumn⟩)
    have hrest : runUnits env us = runUnits env' us := by
      apply ih
      intro column hmem
      obtain ⟨v, hv, hcolumn⟩ := List.mem_filterMap.mp hmem
      exact hcolumns column (List.mem_filterMap.mpr ⟨v, List.mem_cons_of_mem _ hv, hcolumn⟩)
    rw [runUnits, runUnits, hfirst, hrest]

end Machine

/-- A source has the same result in two contexts that agree on all columns that it names. -/
theorem Program.eval_congr {p : Program} {entry : Entry} {c c' : Context}
    (h : c.AgreeOn (p.columns entry.source.toNat) c') (settings : Settings) (scratch : Scratch) :
    p.eval settings entry c scratch = p.eval settings entry c' scratch := by
  cases hsource : p.source? entry.source.toNat with
  | none => simp only [eval, hsource]
  | some found =>
    obtain ⟨code, heights⟩ := found
    rw [columns_of_source hsource] at h
    have hruns : Machine.runUnits ⟨c, p.constants⟩ (Code.units 0 code) =
        Machine.runUnits ⟨c', p.constants⟩ (Code.units 0 code) :=
      Machine.runUnits_congr rfl h
    simp only [eval, hsource, hruns]

variable {m m' : Machine} {column : Nat}

/-- Only what is there is pushed. -/
theorem Machine.exists_of_pushOr {fault : Fault} {w? : Option Word}
    (h : pushOr fault w? m = .ok () m') : ∃ w, w? = some w := by
  cases w? with
  | none => cases h
  | some w => exact ⟨w, rfl⟩

/-- An instruction that names a column has found a cell in it, unless it faults. -/
theorem Instruction.exists_cell_of_exec {i : Instruction} (h : i.exec env m = .ok () m')
    (hcolumn : i.column? = some column) : ∃ row w, env.context.cell? column row = some w := by
  cases i with
  | context cell =>
    cases hcolumn
    exact ⟨_, Machine.exists_of_pushOr h⟩
  | contextRow column =>
    cases hcolumn
    simp only [exec, Bind.bind, EStateM.bind] at h
    split at h
    · exact ⟨_, Machine.exists_of_pushOr h⟩
    · cases h
  | _ => cases hcolumn

namespace Machine

/-- A unit that names a column and succeeds has found a cell in it. -/
theorem exists_cell_of_runUnit {u : CodeUnit} (h : runUnit env u m = .ok () m')
    (hcolumn : u.column? = some column) : ∃ row w, env.context.cell? column row = some w := by
  cases hcontent : u.content with
  | error cause =>
    rw [CodeUnit.column?, hcontent] at hcolumn
    cases hcolumn
  | ok i =>
    rw [CodeUnit.column?_of_content hcontent] at hcolumn
    simp only [runUnit, hcontent, runInstruction, Bind.bind, EStateM.bind] at h
    split at h
    · next hexec => exact i.exists_cell_of_exec hexec hcolumn
    · cases h

/-- Code has no jumps, so a run that comes to its end has executed every unit. -/
theorem exists_cell_of_runUnits {us : List CodeUnit} (h : runUnits env us m = .ok () m')
    (hcolumn : column ∈ us.filterMap CodeUnit.column?) :
    ∃ row w, env.context.cell? column row = some w := by
  induction us generalizing m with
  | nil => cases hcolumn
  | cons u us ih =>
    obtain ⟨n, hunit, hunits⟩ := runUnits_cons_eq_ok h
    obtain ⟨v, hv, hnamed⟩ := List.mem_filterMap.mp hcolumn
    rcases List.mem_cons.mp hv with rfl | hv
    · exact exists_cell_of_runUnit hunit hnamed
    · exact ih hunits (List.mem_filterMap.mpr ⟨v, hv, hnamed⟩)

end Machine

/-- A successful run of a source has found a cell in every column that the source names. -/
theorem Program.exists_cell_of_eval {p : Program} {settings : Settings} {entry : Entry}
    {context : Context} {scratch : Scratch} {outcome : Outcome}
    (h : p.eval settings entry context scratch = .ok outcome)
    (hcolumn : column ∈ p.columns entry.source.toNat) :
    ∃ row w, context.cell? column row = some w := by
  cases hsource : p.source? entry.source.toNat with
  | none =>
    rw [columns, hsource] at hcolumn
    cases hcolumn
  | some found =>
    obtain ⟨code, heights⟩ := found
    rw [columns_of_source hsource] at hcolumn
    simp only [eval, hsource] at h
    split at h
    · cases h
    · next n hrun => exact Machine.exists_cell_of_runUnits hrun hcolumn

end Bourse
