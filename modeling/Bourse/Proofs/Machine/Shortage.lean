import Bourse.Instruction.Effect
import Bourse.Machine.Exec

/-!
# What an instruction cannot do without

An instruction pops all its inputs before anything else of it can fault. So with fewer values on
the stack it underflows, whatever the values are. And an operand that names what is not there is
met by a fault in every context, since no context has more columns than the check allows for.
-/

namespace Bourse

namespace Machine

/-- On a stack of height `n` the access finds too few values. -/
def Starves {α : Type} (n : Nat) (x : Access α) : Prop :=
  ∀ m : Machine, m.height = n → ∃ m', x m = .error .stackUnderflow m'

namespace Starves

variable {α β : Type} {n count : Nat}

/-- What runs short in its first part runs short. -/
theorem bind {x : Access α} (hx : Starves n x) (f : α → Access β) : Starves n (x >>= f) := by
  intro m hheight
  obtain ⟨m', hfault⟩ := hx m hheight
  refine ⟨m', ?_⟩
  simp only [Bind.bind, EStateM.bind, hfault]

/-- What pops a value and then finds too few finds too few. -/
theorem pop_bind {f : Word → Access β} (hf : ∀ k, n = k + 1 → ∀ w, Starves k (f w)) :
    Starves n (pop >>= f) := by
  intro m hheight
  have hsize : m.stack.size = n := hheight
  simp only [Bind.bind, EStateM.bind, pop]
  cases hback : m.stack.back? with
  | none => exact ⟨m, rfl⟩
  | some w =>
    rw [Array.back?_eq_getElem?] at hback
    obtain ⟨htop, _⟩ := Array.getElem?_eq_some_iff.mp hback
    refine hf (n - 1) (by omega) w { m with stack := m.stack.pop } ?_
    rw [height, Array.size_pop, hsize]

theorem pop (h : n < 1) (f : Word → Access β) : Starves n (pop >>= f) :=
  pop_bind fun k hk => absurd hk (by omega)

theorem pop_pop (h : n < 2) (f : Word → Word → Access β) :
    Starves n (Machine.pop >>= fun b => Machine.pop >>= f b) :=
  pop_bind fun _ hk _ => pop (by omega) _

/-- Popping runs short where there are not so many values. -/
theorem popMany (h : n < count) (f : List Word → Access β) : Starves n (popMany count >>= f) := by
  apply bind
  intro m hheight
  have hsize : m.stack.size = n := hheight
  refine ⟨m, ?_⟩
  rw [Machine.popMany, if_neg (by omega)]

theorem unary (h : n < 1) (f : Word → Except ArithmeticError Word) : Starves n (unary f) :=
  pop h _

theorem binary (h : n < 2) (f : Word → Word → Except ArithmeticError Word) :
    Starves n (binary f) :=
  pop_pop h _

end Starves

end Machine

/-- No context has a cell beyond the greatest number of columns. -/
theorem Context.cell?_eq_none (c : Context) {column : Nat} (row : Nat) (h : maxColumns ≤ column) :
    c.cell? column row = none := by
  have hcolumn : c.columns[column]? = none := List.getElem?_eq_none (Nat.le_trans c.length_le h)
  rw [cell?, column?, hcolumn]
  rfl

/-- The fault that shows a refused operand in a run. -/
def OperandError.fault? : OperandError → Option Fault
  | .constantOutOfRange index _ => some (.constantOutOfBounds index)
  | .stackReadOutOfRange index height => some (.stackReadOutOfBounds index height)
  | .contextColumnOutOfRange _ | .arityTooSmall _ => none

namespace Instruction

open Machine

/-- With fewer values on the stack than it takes, an instruction underflows. -/
theorem starves_exec (env : Environment) (i : Instruction) {n : Nat} (h : n < i.inputs) :
    Starves n (i.exec env) := by
  cases i with
  | read source => exact absurd h (Nat.not_lt_zero n)
  | context cell => exact absurd h (Nat.not_lt_zero n)
  | contextRow column => exact .pop h _
  | ensure count => exact .popMany h _
  | fold op count =>
    intro m hheight
    exact Starves.popMany h _ m hheight
  | isZero => exact .unary h _
  | compare op => exact .binary h _
  | choose =>
    apply Starves.pop_bind
    intro k hk no
    apply Starves.pop_bind
    intro l hl yes
    have hinputs : n < 3 := h
    exact .pop (by omega) _
  | any count => exact .popMany h _
  | every count => exact .popMany h _
  | to18 decimals => exact .unary h _
  | from18 decimals => exact .unary h _
  | scaleBy exponent => exact .unary h _
  | mul18 decimals => exact .binary h _
  | div18 decimals => exact .binary h _
  | get => exact .pop h _
  | set => exact .pop_pop h _
  | hash count => exact .popMany h _
  | explode => exact .pop h _
  | tierAt tier => exact .unary h _
  | tierSet range => exact .binary h _
  | tierElapsed => exact .binary h _
  | tierSelect selection =>
    apply Starves.pop_bind
    intro k hk reference
    have hinputs : n < selection.length.toNat + 1 := h
    exact .popMany (by omega) _

section

variable {env : Environment} {m : Machine}

/-- A constant that does not exist is out of bounds. -/
theorem exec_read_constant {index : Fin 32768} (h : env.constants.size ≤ index.val) :
    (read ⟨.constant, index⟩).exec env m = .error (.constantOutOfBounds index.val) m := by
  simp only [exec, Array.getElem?_eq_none h]
  rfl

/-- A read at or above the height is out of bounds. -/
theorem exec_read_stack {index : Fin 32768} (h : m.height ≤ index.val) :
    (read ⟨.stack, index⟩).exec env m = .error (.stackReadOutOfBounds index.val m.height) m := by
  have hnone : m.stack[index.val]? = none := Array.getElem?_eq_none h
  simp only [exec, Bind.bind, EStateM.bind, Machine.read, hnone]
  rfl

/-- A column that no context can have is out of bounds. -/
theorem exec_context {cell : CellRef} (h : Context.maxColumns ≤ cell.column.toNat) :
    (context cell).exec env m =
      .error (.contextOutOfBounds cell.column.toNat cell.row.toNat) m := by
  simp only [exec, env.context.cell?_eq_none _ h]
  rfl

/-- The row is popped first, so the column is looked for only if there is a row. -/
theorem exec_contextRow {column : UInt8} (h : Context.maxColumns ≤ column.toNat) :
    ∃ fault m', (contextRow column).exec env m = .error fault m' := by
  simp only [exec, Bind.bind, EStateM.bind, pop]
  cases m.stack.back? with
  | none => exact ⟨_, _, rfl⟩
  | some row =>
    simp only [env.context.cell?_eq_none _ h]
    exact ⟨_, _, rfl⟩

/-- A refused operand, unless it counts too few values, faults in every run, and the fault shows
what was refused. -/
theorem exec_of_checkOperand_eq_error {i : Instruction} {cause : OperandError}
    (h : i.checkOperand m.height env.constants.size = .error cause)
    (harity : ∀ required, cause ≠ .arityTooSmall required) :
    ∃ fault m', i.exec env m = .error fault m' ∧
      ∀ shown, cause.fault? = some shown → fault = shown := by
  unfold checkOperand at h
  split at h
  · cases h
    exact absurd rfl (harity _)
  split at h
  · split at h
    · cases h
    next habsent =>
    cases h
    refine ⟨_, _, exec_read_constant (Nat.le_of_not_lt habsent), ?_⟩
    rintro shown ⟨⟩
    rfl
  · split at h
    · cases h
    next habsent =>
    cases h
    refine ⟨_, _, exec_read_stack (Nat.le_of_not_lt habsent), ?_⟩
    rintro shown ⟨⟩
    rfl
  · split at h
    · cases h
    next habsent =>
    cases h
    refine ⟨_, _, exec_context (Nat.le_of_not_lt habsent), ?_⟩
    rintro shown ⟨⟩
  · split at h
    · cases h
    next habsent =>
    cases h
    obtain ⟨fault, m', hfault⟩ := exec_contextRow (Nat.le_of_not_lt habsent)
    refine ⟨fault, m', hfault, ?_⟩
    rintro shown ⟨⟩
  · cases h

end

end Instruction

end Bourse
