import Bourse.Proofs.Context.Building
import Bourse.Proofs.Machine.Running
import Bourse.Proofs.Word

/-!
# Looking up the context

Two instructions push a cell of the context: one names the row, the other pops it. Both push the
cell if there is one and fault otherwise. A row that is popped may be any word, and is cut off far
beyond the last row that a column can have; so a row that is cut off is as absent as the one it
stands for.
-/

namespace Bourse

/-- No column has a row beyond the greatest number of rows. -/
theorem Context.cell?_eq_none_of_row (c : Context) (column : Nat) {row : Nat} (h : maxRows ≤ row) :
    c.cell? column row = none := by
  rw [cell?]
  cases hcolumn : c.column? column with
  | none => rfl
  | some words =>
    have hlength := c.rows_le words (List.mem_of_getElem? hcolumn)
    exact List.getElem?_eq_none (Nat.le_trans hlength h)

/-- The word is in this cell of the context of a call. -/
def Context.Cell (sender book : Address) (columns : List (List Word)) (signed : List SignedRow)
    (column row : Nat) (w : Word) : Prop :=
  ∃ words, Layout sender book columns signed column words ∧ words[row]? = some w

section

variable {sender book : Address} {columns : List (List Word)} {signed : List SignedRow}

/-- The cells of a context are the ones of its columns. -/
theorem Context.Shows.cell?_eq_some_iff {c : Context} (h : c.Shows sender book columns signed)
    {column row : Nat} {w : Word} :
    c.cell? column row = some w ↔ Cell sender book columns signed column row w := by
  simp only [cell?, Option.bind_eq_bind, Option.bind_eq_some_iff, h.column?_eq_some_iff]
  rfl

/-- A cell is missing where nothing is laid out. -/
theorem Context.Shows.cell?_eq_none_iff {c : Context} (h : c.Shows sender book columns signed)
    {column row : Nat} :
    c.cell? column row = none ↔ ∀ w, ¬ Cell sender book columns signed column row w := by
  simp only [Option.eq_none_iff_forall_ne_some, ne_eq, h.cell?_eq_some_iff]

end

/-- The number of a row that is popped. -/
def Word.rowNumber (row : Word) : Nat := min row.toNat (2 ^ 64 - 1)

/-- A row that is too large for a number of a row is clamped to the greatest one. -/
theorem Word.getD_fits?_eq_rowNumber (row : Word) :
    (row.fits? 64).getD (UInt64.size - 1) = row.rowNumber := by
  rw [fits?_eq, rowNumber, UInt64.size]
  split
  · rw [Option.getD_some]
    omega
  · rw [Option.getD_none]
    omega

/-- Cutting off a row does not make a cell of it. -/
theorem Context.cell?_rowNumber (c : Context) (column : Nat) (row : Word) :
    c.cell? column row.rowNumber = c.cell? column row.toNat := by
  by_cases hrow : row.toNat < 2 ^ 64
  · have hsame : row.rowNumber = row.toNat := by
      rw [Word.rowNumber]
      omega
    rw [hsame]
  · have hbeyond : maxRows ≤ row.toNat := by
      rw [maxRows]
      omega
    have hcut : maxRows ≤ row.rowNumber := by
      rw [maxRows, Word.rowNumber]
      omega
    rw [c.cell?_eq_none_of_row column hbeyond, c.cell?_eq_none_of_row column hcut]

namespace Machine

variable {m : Machine} {below : List Word}

/-- The machine with the stack `below` and what was found on top of it. -/
def foundOver (m : Machine) (below : List Word) (fault : Fault) :
    Option Word → EStateM.Result Fault Machine Unit
  | some w => .ok () { m with stack := (below ++ [w]).toArray }
  | none => .error fault { m with stack := below.toArray }

/-- With room on the stack, only a missing value keeps it from being pushed. -/
theorem pushOr_of_room (m : Machine) (fault : Fault) (w? : Option Word)
    (hroom : below.length < m.alloc) :
    pushOr fault w? { m with stack := below.toArray } = m.foundOver below fault w? := by
  cases w? with
  | none => rfl
  | some w => exact push_of_room m w hroom

end Machine

namespace Instruction

open Machine

variable {env : Environment} {m : Machine} {below : List Word} {row : Word}

/-- The cell that is named is looked up. -/
theorem exec_context_of_stack (cell : CellRef) (hstack : m.stack.toList = below)
    (hroom : below.length < m.alloc) :
    (context cell).exec env m =
      m.foundOver below (.contextOutOfBounds cell.column.toNat cell.row.toNat)
        (env.context.cell? cell.column.toNat cell.row.toNat) := by
  rw [← pushOr_of_room m _ _ hroom, ← hstack, Array.toArray_toList]
  rfl

/-- The cell in the row that is popped is looked up, whatever the word that names the row. -/
theorem exec_contextRow_of_stack (column : UInt8) (hstack : m.stack.toList = below ++ [row])
    (hroom : below.length < m.alloc) :
    (contextRow column).exec env m =
      m.foundOver below (.contextOutOfBounds column.toNat row.rowNumber)
        (env.context.cell? column.toNat row.toNat) := by
  simp only [exec, Bind.bind, EStateM.bind, pop_of_stack hstack, row.getD_fits?_eq_rowNumber,
    Context.cell?_rowNumber]
  exact pushOr_of_room m _ _ hroom

end Instruction

/-- The context of a call shows exactly what the call supplies and what is verified. It is refused
for the first row whose signature is not accepted, else for its number of columns, else for the
first column that is too long. Otherwise it is built, and shows each part at its place. A program
finds the cells of these columns and no others: a cell that is there is pushed, one that is not is
a fault, and a row number that fits no machine is that of no cell. -/
theorem context_exposes_exactly (verify : Verifier) (sender book : Address)
    (columns : List (List Word)) (signed : List SignedRow) :
    (∀ e, Context.build verify sender book columns signed = .error e ↔
      Context.Refused verify sender book columns signed e) ∧
    (∀ c, Context.build verify sender book columns signed = .ok c ↔
      (∀ e, ¬ Context.Refused verify sender book columns signed e) ∧
        c.Shows sender book columns signed) ∧
    ((∀ e, ¬ Context.Refused verify sender book columns signed e) →
      ∃ c, Context.build verify sender book columns signed = .ok c) ∧
    ∀ c, Context.build verify sender book columns signed = .ok c →
      ∀ (constants : Array Word) (m : Machine) (below : List Word), below.length < m.alloc →
      (∀ cell : CellRef, m.stack.toList = below →
        (∀ w, Context.Cell sender book columns signed cell.column.toNat cell.row.toNat w →
          (Instruction.context cell).exec ⟨c, constants⟩ m =
            .ok () { m with stack := (below ++ [w]).toArray }) ∧
        ((∀ w, ¬ Context.Cell sender book columns signed cell.column.toNat cell.row.toNat w) →
          (Instruction.context cell).exec ⟨c, constants⟩ m =
            .error (.contextOutOfBounds cell.column.toNat cell.row.toNat) m)) ∧
      ∀ (column : UInt8) (row : Word), m.stack.toList = below ++ [row] →
        (∀ w, Context.Cell sender book columns signed column.toNat row.toNat w →
          (Instruction.contextRow column).exec ⟨c, constants⟩ m =
            .ok () { m with stack := (below ++ [w]).toArray }) ∧
        ((∀ w, ¬ Context.Cell sender book columns signed column.toNat row.toNat w) →
          (Instruction.contextRow column).exec ⟨c, constants⟩ m =
            .error (.contextOutOfBounds column.toNat (min row.toNat (2 ^ 64 - 1)))
              { m with stack := below.toArray }) ∧
        (2 ^ 64 ≤ row.toNat → ∀ w,
          ¬ Context.Cell sender book columns signed column.toNat row.toNat w) := by
  refine ⟨fun e => Context.build_eq_error_iff, fun c => Context.build_eq_ok_iff_shows,
    Context.exists_build_of_not_refused, ?_⟩
  intro c hbuild constants m below hroom
  have hshows := (Context.build_eq_ok_iff_shows.mp hbuild).2
  refine ⟨fun cell hstack => ⟨fun w hcell => ?_, fun hnone => ?_⟩,
    fun column row hstack => ⟨fun w hcell => ?_, fun hnone => ?_, fun hbeyond => ?_⟩⟩
  · rw [Instruction.exec_context_of_stack cell hstack hroom, hshows.cell?_eq_some_iff.mpr hcell]
    rfl
  · rw [Instruction.exec_context_of_stack cell hstack hroom, hshows.cell?_eq_none_iff.mpr hnone,
      ← hstack, Machine.foundOver, Array.toArray_toList]
  · rw [Instruction.exec_contextRow_of_stack column hstack hroom,
      hshows.cell?_eq_some_iff.mpr hcell]
    rfl
  · rw [Instruction.exec_contextRow_of_stack column hstack hroom,
      hshows.cell?_eq_none_iff.mpr hnone]
    rfl
  · refine hshows.cell?_eq_none_iff.mp (c.cell?_eq_none_of_row column.toNat ?_)
    rw [Context.maxRows]
    omega

end Bourse
