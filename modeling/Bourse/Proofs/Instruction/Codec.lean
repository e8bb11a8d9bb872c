import Bourse.Instruction.Encoding

/-!
# Reading accepts what writing produces

For each layout of an operand, a value is read from exactly one number: the one that is written
for it. So an instruction is read from one opcode and one operand only, and no two pairs are read
as the same instruction.
-/

namespace Bourse

namespace MemoryRef

/-- The lowest bit of the operand tells the bank, the others the index. -/
theorem toNat_encode (r : MemoryRef) :
    r.encode.toNat = 2 * r.index.val + match r.bank with | .stack => 0 | .constant => 1 := by
  obtain ⟨bank, index, h⟩ := r
  cases bank <;> simp only [encode, UInt16.toNat_ofNat'] <;> omega

/-- Every operand names exactly one cell of memory. -/
theorem decode_eq_iff {operand : UInt16} {r : MemoryRef} :
    decode operand = r ↔ r.encode = operand := by
  rw [← UInt16.toNat_inj, toNat_encode]
  obtain ⟨bank, index, h⟩ := r
  simp only [decode, mk.injEq, Fin.mk.injEq]
  cases bank <;> simp only [ite_eq_left_iff, ite_eq_right_iff, reduceCtorEq, imp_false] <;> omega

end MemoryRef

namespace CellRef

/-- The high byte of the operand is the column, the low one the row. -/
theorem toNat_encode (r : CellRef) : r.encode.toNat = 256 * r.column.toNat + r.row.toNat := by
  have hcolumn := r.column.toNat_lt
  have hrow := r.row.toNat_lt
  simp only [encode, UInt16.toNat_ofNat']
  omega

/-- Every operand names exactly one cell of a context. -/
theorem decode_eq_iff {operand : UInt16} {r : CellRef} :
    decode operand = r ↔ r.encode = operand := by
  rw [← UInt16.toNat_inj, toNat_encode]
  obtain ⟨column, row⟩ := r
  have hcolumn := column.toNat_lt
  have hrow := row.toNat_lt
  have hoperand := operand.toNat_lt
  simp only [decode, mk.injEq, ← UInt8.toNat_inj, UInt8.toNat_ofNat']
  omega

end CellRef

namespace TierRange

/-- The range takes four bits for the start and the rest for the end. -/
theorem toNat_encode (r : TierRange) : r.encode.toNat = r.start + 16 * r.stop := by
  have hstart := r.start_le_stop
  have hstop := r.stop_le
  simp only [Report.tiers] at hstop
  simp only [encode, UInt16.toNat_ofNat']
  omega

/-- An operand names a range when it is the one that the range is written as. -/
theorem decode?_eq_some_iff {operand : UInt16} {r : TierRange} :
    decode? operand = some r ↔ r.encode = operand := by
  rw [← UInt16.toNat_inj, toNat_encode]
  obtain ⟨start, stop, hstart, hstop⟩ := r
  have hbound : stop ≤ 8 := hstop
  simp only [decode?, of?]
  by_cases hbyte : operand.toNat < 256
  · rw [if_pos hbyte]
    by_cases hends : operand.toNat % 16 ≤ operand.toNat / 16 ∧ operand.toNat / 16 ≤ Report.tiers
    · rw [dif_pos hends, Option.some.injEq, mk.injEq]
      omega
    · rw [dif_neg hends]
      simp only [Report.tiers] at hends
      simp only [reduceCtorEq, false_iff]
      omega
  · rw [if_neg hbyte]
    simp only [reduceCtorEq, false_iff]
    omega

end TierRange

/-- A code stands for the quorum that has it. -/
theorem Report.Quorum.ofCode?_eq_some_iff {code : Nat} {quorum : Report.Quorum} :
    ofCode? code = some quorum ↔ quorum.code = code := by
  constructor
  · intro h
    unfold ofCode? at h
    split at h <;> cases h <;> rfl
  · rintro rfl
    cases quorum <;> rfl

theorem Report.Choice.ofCode?_eq_some_iff {code : Nat} {choice : Report.Choice} :
    ofCode? code = some choice ↔ choice.code = code := by
  constructor
  · intro h
    unfold ofCode? at h
    split at h <;> cases h <;> rfl
  · rintro rfl
    cases choice <;> rfl

/-- The code of a quorum takes one bit. -/
theorem Report.Quorum.code_lt (quorum : Report.Quorum) : quorum.code < 2 := by
  cases quorum <;> decide

theorem Report.Choice.code_lt (choice : Report.Choice) : choice.code < 4 := by
  cases choice <;> decide

namespace Selection

/-- The low byte of the operand is the number of reports, above it stand the two codes. -/
theorem toNat_encode (s : Selection) :
    s.encode.toNat = s.length.toNat + 256 * s.choice.code + 1024 * s.quorum.code := by
  have hquorum := s.quorum.code_lt
  have hchoice := s.choice.code_lt
  have hlength := s.length.toNat_lt
  simp only [encode, UInt16.toNat_ofNat']
  omega

/-- An operand names a selection when it is the one that the selection is written as. -/
theorem decode?_eq_some_iff {operand : UInt16} {s : Selection} :
    decode? operand = some s ↔ s.encode = operand := by
  rw [← UInt16.toNat_inj, toNat_encode]
  obtain ⟨quorum, choice, length⟩ := s
  have hquorum := quorum.code_lt
  have hchoice := choice.code_lt
  have hlength := length.toNat_lt
  have hoperand := operand.toNat_lt
  simp only [decode?, Option.bind_eq_bind, Option.bind_eq_some_iff, Option.pure_def,
    Option.some.injEq, Report.Quorum.ofCode?_eq_some_iff, Report.Choice.ofCode?_eq_some_iff,
    mk.injEq, ← UInt8.toNat_inj, UInt8.toNat_ofNat']
  constructor
  · rintro ⟨_, hq, _, hc, rfl, rfl, hlow⟩
    omega
  · intro h
    exact ⟨quorum, by omega, choice, by omega, rfl, rfl, by omega⟩

end Selection

namespace Instruction

/-- Whatever the reader reads, it is written with this opcode and the operand that was read. -/
def Reads (accept : UInt16 → Option Instruction) (opcode : UInt16) : Prop :=
  ∀ operand i, accept operand = some i → i.opcode = opcode ∧ i.operand = operand

section

variable {opcode : UInt16}

/-- An instruction that takes every operand is written with the operand that was read. -/
theorem reads_total {make : UInt16 → Instruction}
    (h : ∀ x, (make x).opcode = opcode ∧ (make x).operand = x) :
    Reads (fun x => some (make x)) opcode := by
  intro operand i haccept
  cases haccept
  exact h operand

/-- An instruction that takes a byte is read from no operand above a byte. -/
theorem reads_byteOperand {make : UInt8 → Instruction}
    (h : ∀ b, (make b).opcode = opcode ∧ (make b).operand = b.toUInt16) :
    Reads (byteOperand make) opcode := by
  intro operand i haccept
  rw [byteOperand] at haccept
  split at haccept
  · next hbyte =>
    cases haccept
    refine ⟨(h _).1, ?_⟩
    rw [(h _).2, ← UInt16.toNat_inj, UInt8.toNat_toUInt16, UInt16.toNat_toUInt8]
    exact Nat.mod_eq_of_lt hbyte
  · cases haccept

/-- An instruction without an operand is read from zero only. -/
theorem reads_noOperand {j : Instruction} (h : j.opcode = opcode ∧ j.operand = 0) :
    Reads (noOperand j) opcode := by
  intro operand i haccept
  rw [noOperand] at haccept
  split at haccept
  · next hzero =>
    cases haccept
    rw [hzero]
    exact h
  · cases haccept

/-- The instruction for one tier is written with the tier that was read. -/
theorem reads_tierOperand : Reads tierOperand 31 := by
  intro operand i haccept
  rw [tierOperand] at haccept
  split at haccept
  · cases haccept
    exact ⟨rfl, UInt16.ofNat_toNat⟩
  · cases haccept

/-- An instruction is written with what was read if its operand is. -/
theorem reads_map {α : Type} {decode? : UInt16 → Option α} {make : α → Instruction}
    (h : ∀ x a, decode? x = some a → (make a).opcode = opcode ∧ (make a).operand = x) :
    Reads (fun x => (decode? x).map make) opcode := by
  intro operand i haccept
  obtain ⟨a, ha, rfl⟩ := Option.map_eq_some_iff.mp haccept
  exact h operand a ha

end

/-- Each reader stands at the opcode with which its instructions are written. -/
theorem reads_of_reader? {opcode : UInt16} {accept : UInt16 → Option Instruction}
    (h : reader? opcode = some accept) : Reads accept opcode := by
  have hopcode : UInt16.ofNat opcode.toNat = opcode := UInt16.ofNat_toNat
  rw [reader?] at h
  -- One case for each row of the table, in its order; what no row holds reads nothing.
  split at h <;> rename_i hrow <;> cases h <;> rw [hrow] at hopcode <;> subst hopcode
  · exact reads_total fun x => ⟨rfl, MemoryRef.decode_eq_iff.mp rfl⟩
  · exact reads_total fun x => ⟨rfl, CellRef.decode_eq_iff.mp rfl⟩
  · exact reads_byteOperand fun b => ⟨rfl, rfl⟩
  · exact reads_total fun x => ⟨rfl, rfl⟩
  · exact reads_total fun x => ⟨rfl, rfl⟩
  · exact reads_total fun x => ⟨rfl, rfl⟩
  · exact reads_total fun x => ⟨rfl, rfl⟩
  · exact reads_total fun x => ⟨rfl, rfl⟩
  · exact reads_total fun x => ⟨rfl, rfl⟩
  · exact reads_total fun x => ⟨rfl, rfl⟩
  · exact reads_total fun x => ⟨rfl, rfl⟩
  · exact reads_total fun x => ⟨rfl, rfl⟩
  · exact reads_total fun x => ⟨rfl, rfl⟩
  · exact reads_total fun x => ⟨rfl, rfl⟩
  · exact reads_total fun x => ⟨rfl, rfl⟩
  · exact reads_noOperand ⟨rfl, rfl⟩
  · exact reads_noOperand ⟨rfl, rfl⟩
  · exact reads_noOperand ⟨rfl, rfl⟩
  · exact reads_noOperand ⟨rfl, rfl⟩
  · exact reads_noOperand ⟨rfl, rfl⟩
  · exact reads_total fun x => ⟨rfl, rfl⟩
  · exact reads_total fun x => ⟨rfl, rfl⟩
  · exact reads_byteOperand fun b => ⟨rfl, rfl⟩
  · exact reads_byteOperand fun b => ⟨rfl, rfl⟩
  · exact reads_byteOperand fun b => ⟨rfl, congrArg UInt8.toUInt16 b.toUInt8_toInt8⟩
  · exact reads_byteOperand fun b => ⟨rfl, rfl⟩
  · exact reads_byteOperand fun b => ⟨rfl, rfl⟩
  · exact reads_noOperand ⟨rfl, rfl⟩
  · exact reads_noOperand ⟨rfl, rfl⟩
  · exact reads_total fun x => ⟨rfl, rfl⟩
  · exact reads_noOperand ⟨rfl, rfl⟩
  · exact reads_tierOperand
  · exact reads_map fun x range hrange => ⟨rfl, TierRange.decode?_eq_some_iff.mp hrange⟩
  · exact reads_noOperand ⟨rfl, rfl⟩
  · exact reads_map fun x selection hselection => ⟨rfl, Selection.decode?_eq_some_iff.mp hselection⟩

/-- What the reader of an opcode accepts is the decoded instruction. -/
theorem decode_of_reader? {opcode operand : UInt16} {accept : UInt16 → Option Instruction}
    {i : Instruction} (hreader : reader? opcode = some accept) (haccept : accept operand = some i) :
    decode opcode operand = .ok i := by
  rw [decode, hreader]
  simp only [haccept]

/-- A byte is accepted as an operand. -/
theorem byteOperand_toUInt16 (make : UInt8 → Instruction) (b : UInt8) :
    byteOperand make b.toUInt16 = some (make b) := by
  rw [byteOperand, UInt8.toNat_toUInt16, if_pos b.toNat_lt, UInt8.toUInt8_toUInt16]

/-- What is written for an instruction is read as that instruction. -/
theorem decode_opcode_operand (i : Instruction) : decode i.opcode i.operand = .ok i := by
  cases i with
  | read source =>
    exact decode_of_reader? rfl (congrArg (some ∘ read) (MemoryRef.decode_eq_iff.mpr rfl))
  | context cell =>
    exact decode_of_reader? rfl (congrArg (some ∘ context) (CellRef.decode_eq_iff.mpr rfl))
  | fold op count => cases op <;> rfl
  | compare op => cases op <;> rfl
  | ensure count | any count | every count | hash count => rfl
  | isZero | choose | get | set | explode | tierElapsed => rfl
  | contextRow byte | to18 byte | from18 byte | mul18 byte | div18 byte =>
    exact decode_of_reader? rfl (byteOperand_toUInt16 _ byte)
  | scaleBy exponent =>
    refine decode_of_reader? rfl ((byteOperand_toUInt16 _ exponent.toUInt8).trans ?_)
    rw [Int8.toInt8_toUInt8]
  | tierAt tier =>
    refine decode_of_reader? rfl ?_
    have htier : (UInt16.ofNat tier.val).toNat = tier.val := by
      rw [UInt16.toNat_ofNat']
      omega
    simp only [operand, tierOperand, htier, tier.isLt, dite_true]
  | tierSet range =>
    have hread := TierRange.decode?_eq_some_iff.mpr (rfl : range.encode = range.encode)
    exact decode_of_reader? rfl (Option.map_eq_some_iff.mpr ⟨range, hread, rfl⟩)
  | tierSelect selection =>
    have hread := Selection.decode?_eq_some_iff.mpr (rfl : selection.encode = selection.encode)
    exact decode_of_reader? rfl (Option.map_eq_some_iff.mpr ⟨selection, hread, rfl⟩)

/-- An instruction is read from exactly one opcode and operand. -/
theorem decode_eq_ok_iff {opcode operand : UInt16} {i : Instruction} :
    decode opcode operand = .ok i ↔ i.opcode = opcode ∧ i.operand = operand := by
  constructor
  · intro h
    rw [decode] at h
    cases hreader : reader? opcode with
    | none =>
      rw [hreader] at h
      cases h
    | some accept =>
      rw [hreader] at h
      simp only at h
      split at h
      · cases h
      · next haccept =>
        cases h
        exact reads_of_reader? hreader operand i haccept
  · rintro ⟨rfl, rfl⟩
    exact decode_opcode_operand i

end Instruction

end Bourse
