import Bourse.Proofs.Code.Assembly

/-!
# Code that is cut off by the end of a segment

An instruction is written as two numbers, each of which has to fit, and the size of a segment is
not a multiple of four. So there are three outcomes of encoding an instruction: all of it is
written, or its opcode alone, or nothing. Encoding is not undone: the opcode that was written
stays. A segment that is filled from the beginning keeps all instructions that were encoded, and
at most one opcode behind them.
-/

namespace Bourse

/-- Instructions are written as the bytes of their raw form. -/
theorem Instruction.flatMap_bytes_map_raw (l : List Instruction) :
    (l.map raw).flatMap RawInstruction.bytes = l.flatMap bytes :=
  List.flatMap_map ..

namespace Segment

/-- Write instructions in order, going on after those that fail, and tell which were written
whole. -/
def encodeEach : List RawInstruction → Segment → List RawInstruction × Segment
  | [], s => ([], s)
  | r :: rs, s =>
    match encodeRaw r s with
    | .ok _ t => (r :: (encodeEach rs t).1, (encodeEach rs t).2)
    | .error _ t => encodeEach rs t

/-- The number of instructions that still fit whole. -/
def room (s : Segment) : Nat := (Code.maxPosition - s.bytes.size) / Code.unitSize

/-- What is written of the first instruction that does not fit whole: its opcode, if there is
space for two bytes behind those that do. -/
def remnant (s : Segment) (rs : List RawInstruction) : Bytes :=
  if 2 ≤ (Code.maxPosition - s.bytes.size) % Code.unitSize then
    (rs[s.room]?.map fun r => Bytes.ofNumber r.opcode).getD []
  else
    []

section

variable {s : Segment}

/-- An instruction that fits takes one place. -/
theorem room_extend_bytes (r : RawInstruction) (h : s.bytes.size ≤ 65531) :
    s.room = (s.extend r.bytes).room + 1 := by
  simp only [room, size_extend, RawInstruction.length_bytes, Code.maxPosition, Code.unitSize]
  omega

/-- Where an instruction fits, what is left behind is left by a later one. -/
theorem remnant_extend_bytes (r : RawInstruction) (rs : List RawInstruction)
    (h : s.bytes.size ≤ 65531) : (s.extend r.bytes).remnant rs = s.remnant (r :: rs) := by
  have hmod : (Code.maxPosition - (s.extend r.bytes).bytes.size) % Code.unitSize =
      (Code.maxPosition - s.bytes.size) % Code.unitSize := by
    simp only [size_extend, RawInstruction.length_bytes, Code.maxPosition, Code.unitSize]
    omega
  rw [remnant, remnant, hmod, room_extend_bytes r h, List.getElem?_cons_succ]

/-- A full segment has no place for an instruction. -/
theorem room_eq_zero (h : 65531 < s.bytes.size) : s.room = 0 := by
  simp only [room, Code.maxPosition, Code.unitSize]
  omega

/-- Where not even an opcode fits, nothing is left behind. -/
theorem remnant_eq_nil (rs : List RawInstruction) (h : 65533 < s.bytes.size) :
    s.remnant rs = [] := by
  refine if_neg ?_
  simp only [Code.maxPosition, Code.unitSize]
  omega

/-- Where an opcode fits and its operand does not, the opcode is left behind. -/
theorem remnant_cons (r : RawInstruction) (rs : List RawInstruction) (hfull : 65531 < s.bytes.size)
    (hopcode : s.bytes.size ≤ 65533) : s.remnant (r :: rs) = Bytes.ofNumber r.opcode := by
  have hspace : 2 ≤ (Code.maxPosition - s.bytes.size) % Code.unitSize := by
    simp only [Code.maxPosition, Code.unitSize]
    omega
  rw [remnant, if_pos hspace, room_eq_zero hfull]
  rfl

/-- The position is behind the appended bytes. -/
theorem pos_extend (s : Segment) (bytes : Bytes) :
    (s.extend bytes).pos = (s.extend bytes).bytes.size :=
  (size_extend s bytes).symm

/-- A segment with the cursor at its end is extended by nothing to itself. -/
theorem extend_nil (h : s.pos = s.bytes.size) : s.extend [] = s := by
  cases s
  simp only at h
  simp [extend, h]

/-- As many instructions are written whole as there is room for, and behind them what there is
space for of the next one. -/
theorem encodeEach_eq (rs : List RawInstruction) (h : s.pos = s.bytes.size) :
    encodeEach rs s = (rs.take s.room,
      s.extend ((rs.take s.room).flatMap RawInstruction.bytes ++ s.remnant rs)) := by
  induction rs generalizing s with
  | nil => simp [encodeEach, remnant, extend_nil h]
  | cons r rs ih =>
    rw [encodeEach, encodeRaw_eq]
    rcases Nat.lt_or_ge 65531 s.bytes.size with hfull | hfits
    · rw [if_neg (by omega), room_eq_zero hfull, List.take_zero, List.flatMap_nil, List.nil_append]
      rcases Nat.lt_or_ge 65533 s.bytes.size with hnone | hopcode
      · rw [if_neg (by omega), remnant_eq_nil _ hnone]
        simp only
        rw [ih h, room_eq_zero hfull, remnant_eq_nil _ hnone]
        rfl
      · -- The opcode leaves no space for another one.
        have hsize : 65533 < (s.extend (Bytes.ofNumber r.opcode)).bytes.size := by
          have hlength : (Bytes.ofNumber r.opcode).length = 2 := rfl
          rw [size_extend, hlength]
          omega
        rw [if_pos hopcode, remnant_cons r rs hfull hopcode]
        simp only
        rw [ih (pos_extend ..), room_eq_zero (by omega), remnant_eq_nil _ hsize, List.take_zero]
        exact congrArg _ (extend_nil (pos_extend ..))
    · rw [if_pos hfits]
      simp only
      rw [ih (pos_extend ..), room_extend_bytes r hfits, List.take_succ_cons, List.flatMap_cons,
        ← remnant_extend_bytes r rs hfits, extend_extend, List.append_assoc]

end

/-- What a segment holds that was filled from its beginning. -/
theorem encodeEach_empty (rs : List RawInstruction) :
    encodeEach rs .empty =
      (rs.take 16383,
        empty.extend
          ((rs.take 16383).flatMap RawInstruction.bytes ++
            (rs[16383]?.map fun r => Bytes.ofNumber r.opcode).getD [])) :=
  encodeEach_eq (s := .empty) rs rfl

end Segment

namespace Code

/-- Code behind that of some instructions is read on its own. -/
theorem mapM_units_append {pos : Nat} (l : List Instruction) (rest : Bytes)
    (h : pos + 4 * l.length ≤ maxPosition) :
    (units pos (l.flatMap Instruction.bytes ++ rest)).mapM CodeUnit.content =
      ((units (pos + 4 * l.length) rest).mapM CodeUnit.content).map (l ++ ·) := by
  induction l generalizing pos with
  | nil =>
    rw [List.flatMap_nil, List.nil_append, List.length_nil, Nat.mul_zero, Nat.add_zero]
    cases (units pos rest).mapM CodeUnit.content <;> rfl
  | cons i l ih =>
    rw [List.length_cons] at h
    have hread : readUnit pos _ _ _ _ = .ok i := readUnit_eq_ok_iff.mpr ⟨by omega, rfl⟩
    have hunits : units pos ((i :: l).flatMap Instruction.bytes ++ rest) =
        ⟨pos, .ok i⟩ :: units (pos + 4) (l.flatMap Instruction.bytes ++ rest) := by
      rw [← hread]
      rfl
    have hpos : pos + 4 * (l.length + 1) = pos + 4 + 4 * l.length := by omega
    rw [hunits, List.mapM_cons, ok_bind, ih (by omega), List.length_cons, hpos]
    cases (units (pos + 4 + 4 * l.length) rest).mapM CodeUnit.content <;> rfl

/-- An opcode without its operand is the end of the code. -/
theorem disassemble_append_opcode (l : List Instruction) (opcode : UInt16)
    (h : 4 * l.length ≤ maxPosition) :
    disassemble (l.flatMap Instruction.bytes ++ Bytes.ofNumber opcode) = .error .endOfCode := by
  rw [disassemble, mapM_units_append l _ (by omega)]
  rfl

end Code

namespace Segment

/-- A segment that is written from the start holds the first 16383 instructions, and then the
opcode of the next one. -/
theorem bytes_encodeEach_raw (l : List Instruction) :
    (encodeEach (l.map Instruction.raw) .empty).2.bytes.toList =
      (l.take 16383).flatMap Instruction.bytes ++
        (l[16383]?.map fun i => Bytes.ofNumber i.opcode).getD [] := by
  have hempty : empty.bytes.toList = [] := rfl
  rw [encodeEach_empty, toList_extend, hempty, List.nil_append, ← List.map_take,
    Instruction.flatMap_bytes_map_raw, List.getElem?_map, Option.map_map]
  rfl

/-- A segment that was filled from its beginning can be disassembled as long as no instruction has
failed. -/
theorem disassemble_encodeEach (l : List Instruction) :
    Code.disassemble (encodeEach (l.map Instruction.raw) .empty).2.bytes.toList =
      if l.length ≤ 16383 then .ok l else .error .endOfCode := by
  rw [bytes_encodeEach_raw]
  by_cases hfits : l.length ≤ 16383
  · rw [if_pos hfits, List.take_of_length_le hfits, List.getElem?_eq_none hfits, Option.map_none,
      Option.getD_none, List.append_nil, Code.disassemble_eq_ok_iff]
    refine ⟨rfl, ?_⟩
    simp only [Code.maxPosition]
    omega
  · have hlength : (l.take 16383).length = 16383 := List.length_take_of_le (by omega)
    rw [if_neg hfits, List.getElem?_eq_getElem (by omega), Option.map_some, Option.getD_some]
    refine Code.disassemble_append_opcode _ _ ?_
    simp only [hlength, Code.maxPosition]
    omega

/-- The instructions that were written whole can be disassembled. -/
theorem disassemble_take_encodeEach (l : List Instruction) :
    Code.disassemble ((encodeEach (l.map Instruction.raw) .empty).2.bytes.toList.take 65532) =
      .ok (l.take 16383) := by
  have hlength := Instruction.length_flatMap_bytes (l.take 16383)
  rw [List.length_take] at hlength
  rw [bytes_encodeEach_raw, Code.disassemble_eq_ok_iff, List.length_take, Code.maxPosition]
  refine ⟨?_, by omega⟩
  by_cases hfits : l.length ≤ 16383
  · rw [List.getElem?_eq_none hfits, Option.map_none, Option.getD_none, List.append_nil,
      List.take_of_length_le (by omega)]
  · exact List.take_left' (by omega)

/-- Encoding an instruction leaves the segment as it is unless the instruction fits, or two or
three bytes are left: then its opcode is written without its operand, and the cursor moves behind
it. What was filled from the beginning, whichever instructions have failed, holds the first 16383
and the opcode of the next one. It can be disassembled to just these if there was no next one, and
cannot if there was, unless that opcode is taken off. -/
theorem encode_cut_off :
    (∀ i, encode i = encodeRaw i.raw) ∧
    (∀ r s, encodeRaw r s =
      if s.bytes.size ≤ 65531 then .ok () (s.extend r.bytes)
      else if s.bytes.size ≤ 65533 then .error .full (s.extend (Bytes.ofNumber r.opcode))
      else .error .full s) ∧
    (∀ rs, encodeEach rs .empty =
      (rs.take 16383, empty.extend ((rs.take 16383).flatMap RawInstruction.bytes ++
        (rs[16383]?.map fun r => Bytes.ofNumber r.opcode).getD []))) ∧
    ∀ l : List Instruction,
      Code.disassemble (encodeEach (l.map Instruction.raw) .empty).2.bytes.toList =
        (if l.length ≤ 16383 then .ok l else .error .endOfCode) ∧
      Code.disassemble ((encodeEach (l.map Instruction.raw) .empty).2.bytes.toList.take 65532) =
        .ok (l.take 16383) :=
  ⟨encode_eq_encodeRaw, encodeRaw_eq, encodeEach_empty,
    fun l => ⟨disassemble_encodeEach l, disassemble_take_encodeEach l⟩⟩

/-- Encoding that fails is not undone: a segment with three bytes left keeps an opcode, and one
that was filled with an instruction too many cannot be disassembled. -/
theorem encode_keeps_opcode :
    (∃ s, encode .isZero ⟨Array.replicate 65532 0, 0⟩ = .error .full s ∧
      s.bytes.size = 65534 ∧ s.pos = 65534) ∧
    Code.disassemble
      (encodeEach (List.replicate 16384 Instruction.isZero.raw) .empty).2.bytes.toList =
        .error .endOfCode := by
  constructor
  · refine ⟨extend ⟨Array.replicate 65532 0, 0⟩ (Bytes.ofNumber 15), ?_, ?_, ?_⟩
    · rw [encode_eq_encodeRaw, encodeRaw_eq, Array.size_replicate, if_neg (by decide),
        if_pos (by decide)]
      rfl
    · rw [size_extend, Array.size_replicate]
      rfl
    · rw [pos_extend, size_extend, Array.size_replicate]
      rfl
  · rw [← List.map_replicate, disassemble_encodeEach, List.length_replicate]
    rfl

end Segment

end Bourse
