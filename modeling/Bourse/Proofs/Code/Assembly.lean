import Bourse.Code
import Bourse.Proofs.Instruction.Codec
import Bourse.Proofs.Result

/-!
# Assembling and disassembling

The code of a list of instructions is their four bytes each, one after the other, if it fits a
segment. Disassembling is the inverse: a byte string is the code of at most one list, it is the
code of the list it is disassembled to, and a byte string that is the code of no list fails at its
first unit that cannot be read. Units can be counted off from the beginning of the code, or read
one after the other at the cursor of a segment; both find the same.
-/

namespace Bourse

/-- The two bytes of a number, the most significant one first. -/
def Bytes.ofNumber (n : UInt16) : Bytes := [UInt8.ofNat (n.toNat / 256), UInt8.ofNat n.toNat]

/-- Two bytes write one number only. -/
theorem Bytes.ofNumber_eq_iff {high low : UInt8} {n : UInt16} :
    ofNumber n = [high, low] ↔ number high low = n := by
  have hn := n.toNat_lt
  have hhigh := high.toNat_lt
  have hlow := low.toNat_lt
  simp only [ofNumber, number, List.cons.injEq, and_true, ← UInt8.toNat_inj, ← UInt16.toNat_inj,
    UInt8.toNat_ofNat', UInt16.toNat_ofNat']
  omega

/-- The four bytes of an instruction. -/
def Instruction.bytes (i : Instruction) : Bytes :=
  Bytes.ofNumber i.opcode ++ Bytes.ofNumber i.operand

@[simp] theorem Instruction.length_bytes (i : Instruction) : i.bytes.length = 4 := rfl

/-- Assembled code has four bytes for each instruction. -/
theorem Instruction.length_flatMap_bytes (l : List Instruction) :
    (l.flatMap Instruction.bytes).length = 4 * l.length := by
  induction l with
  | nil => rfl
  | cons i l ih =>
    rw [List.flatMap_cons, List.length_append, ih, length_bytes, List.length_cons]
    omega

/-- The bounds on the operands of an instruction. The types of operands leave out all others. -/
def Instruction.Valid : Instruction → Prop
  | .read source => source.index.val ≤ 0x7FFF
  | .tierAt tier => tier.val ≤ 8
  | .tierSet range => range.start ≤ range.stop ∧ range.stop ≤ 8
  | _ => True

/-- What an instruction is written as is valid. -/
theorem Instruction.valid (i : Instruction) : i.Valid := by
  cases i with
  | read source => exact Nat.le_of_lt_succ source.index.isLt
  | tierAt tier => exact Nat.le_of_lt_succ tier.isLt
  | tierSet range => exact ⟨range.start_le_stop, range.stop_le⟩
  | _ => trivial

namespace Code

/-- A unit is read as the instruction with its bytes, if it ends within the segment. -/
theorem readUnit_eq_ok_iff {pos : Nat} {a b c d : UInt8} {i : Instruction} :
    readUnit pos a b c d = .ok i ↔ pos + 4 ≤ maxPosition ∧ i.bytes = [a, b, c, d] := by
  rw [readUnit]
  have hbytes : i.bytes = [a, b, c, d] ↔
      Bytes.ofNumber i.opcode = [a, b] ∧ Bytes.ofNumber i.operand = [c, d] := by
    simp only [Instruction.bytes, Bytes.ofNumber, List.cons_append, List.nil_append,
      List.cons.injEq, and_true, and_assoc]
  by_cases hfits : pos + unitSize ≤ maxPosition
  · rw [if_pos hfits, Instruction.decode_eq_ok_iff, hbytes, Bytes.ofNumber_eq_iff,
      Bytes.ofNumber_eq_iff]
    simp only [unitSize] at hfits
    simp [hfits, eq_comm]
  · rw [if_neg hfits]
    simp only [unitSize] at hfits
    simp [hfits]

/-- Units are read as a list of instructions if they are the bytes of that list and end within the
segment. -/
theorem mapM_units_eq_ok_iff {pos : Nat} {code : Bytes} {l : List Instruction}
    (hpos : pos ≤ maxPosition) :
    (units pos code).mapM CodeUnit.content = .ok l ↔
      code = l.flatMap Instruction.bytes ∧ pos + 4 * l.length ≤ maxPosition := by
  fun_induction units pos code generalizing l with
  | case1 pos =>
    cases l with
    | nil => simpa [pure, Except.pure] using hpos
    | cons i l => simp [pure, Except.pure, Instruction.bytes, Bytes.ofNumber]
  | case2 pos a b c d rest ih =>
    simp only [List.mapM_cons, bind_eq_ok_iff, pure_eq_ok_iff]
    constructor
    · rintro ⟨i, hi, l, hl, rfl⟩
      obtain ⟨hfits, hbytes⟩ := readUnit_eq_ok_iff.mp hi
      obtain ⟨hrest, hend⟩ := (ih hfits).mp hl
      simp only [unitSize] at hend
      rw [List.flatMap_cons, hbytes, ← hrest, List.length_cons]
      exact ⟨rfl, by omega⟩
    · rintro ⟨hcode, hend⟩
      cases l with
      | nil => cases hcode
      | cons i l =>
        rw [List.length_cons] at hend
        have hcode' : [a, b, c, d] ++ rest = i.bytes ++ l.flatMap Instruction.bytes := hcode
        obtain ⟨hbytes, hrest⟩ := List.append_inj hcode' rfl
        have hfits : pos + unitSize ≤ maxPosition := by
          simp only [unitSize]
          omega
        refine ⟨i, readUnit_eq_ok_iff.mpr ⟨hfits, hbytes.symm⟩, l, (ih hfits).mpr ⟨hrest, ?_⟩, rfl⟩
        simp only [unitSize]
        omega
  | case3 code pos hne hshort =>
    -- Fewer than four bytes are left, and no list of instructions is written with so few.
    have hread : ([⟨pos, .error .endOfCode⟩] : List CodeUnit).mapM CodeUnit.content ≠ .ok l := by
      simp [bind, Except.bind]
    refine ⟨fun h => absurd h hread, ?_⟩
    rintro ⟨rfl, _⟩
    cases l with
    | nil => exact absurd rfl hne
    | cons i l => exact absurd rfl (hshort _ _ _ _ _)

/-- Code is disassembled to a list of instructions if it consists of their bytes and fits a
segment. -/
theorem disassemble_eq_ok_iff {code : Bytes} {l : List Instruction} :
    disassemble code = .ok l ↔ code = l.flatMap Instruction.bytes ∧ 4 * l.length ≤ maxPosition := by
  rw [disassemble, mapM_units_eq_ok_iff (Nat.zero_le _), Nat.zero_add]

end Code

/-- An opcode with an operand, be they the numbers of an instruction or not. -/
structure RawInstruction where
  opcode : UInt16
  operand : UInt16
  deriving DecidableEq

/-- The numbers that an instruction is written as. -/
def Instruction.raw (i : Instruction) : RawInstruction := ⟨i.opcode, i.operand⟩

namespace RawInstruction

/-- The four bytes of an opcode and an operand. -/
def bytes (r : RawInstruction) : Bytes := Bytes.ofNumber r.opcode ++ Bytes.ofNumber r.operand

@[simp] theorem length_bytes (r : RawInstruction) : r.bytes.length = 4 := rfl

end RawInstruction

namespace Segment

/-- The segment with some bytes behind its code and the cursor behind them. -/
def extend (s : Segment) (bytes : Bytes) : Segment :=
  ⟨s.bytes ++ bytes.toArray, s.bytes.size + bytes.length⟩

@[simp] theorem size_extend (s : Segment) (bytes : Bytes) :
    (s.extend bytes).bytes.size = s.bytes.size + bytes.length := by
  simp [extend]

/-- The bytes of a segment are kept when more are appended. -/
theorem toList_extend (s : Segment) (bytes : Bytes) :
    (s.extend bytes).bytes.toList = s.bytes.toList ++ bytes := by
  simp [extend]

/-- Bytes can be appended in two parts. -/
theorem extend_extend (s : Segment) (bytes others : Bytes) :
    (s.extend bytes).extend others = s.extend (bytes ++ others) := by
  simp [extend, Nat.add_assoc]

/-- A number is appended as two bytes, or not at all where it does not fit. -/
theorem writeNumber_eq (n : UInt16) (s : Segment) :
    writeNumber n s =
      if s.bytes.size + 2 ≤ Code.maxPosition then .ok () (s.extend (Bytes.ofNumber n))
      else .error .full s := by
  have hbytes : (s.bytes.push (UInt8.ofNat (n.toNat / 256))).push (UInt8.ofNat n.toNat) =
      s.bytes ++ (Bytes.ofNumber n).toArray := by
    apply Array.ext'
    simp [Bytes.ofNumber]
  simp only [writeNumber, hbytes, extend, Array.size_append, List.size_toArray]

/-- Write an opcode and an operand, as an instruction with them is written. -/
def encodeRaw (r : RawInstruction) : EStateM SegmentError Segment Unit := do
  writeNumber r.opcode
  writeNumber r.operand

theorem encode_eq_encodeRaw (i : Instruction) : encode i = encodeRaw i.raw := rfl

/-- Both numbers are written, or the first of them, or none. -/
theorem encodeRaw_eq (r : RawInstruction) (s : Segment) :
    encodeRaw r s =
      if s.bytes.size ≤ 65531 then .ok () (s.extend r.bytes)
      else if s.bytes.size ≤ 65533 then .error .full (s.extend (Bytes.ofNumber r.opcode))
      else .error .full s := by
  have hlength : (Bytes.ofNumber r.opcode).length = 2 := rfl
  have hmax : Code.maxPosition = 65535 := rfl
  simp only [encodeRaw, Bind.bind, EStateM.bind, writeNumber_eq]
  by_cases hopcode : s.bytes.size + 2 ≤ Code.maxPosition
  · simp only [if_pos hopcode, size_extend, extend_extend, hlength]
    by_cases hoperand : s.bytes.size ≤ 65531
    · rw [if_pos hoperand, if_pos (by omega), RawInstruction.bytes]
    · rw [if_neg hoperand, if_neg (by omega), if_pos (by omega)]
  · simp only [if_neg hopcode]
    rw [if_neg (by omega), if_neg (by omega)]

/-- An instruction is written behind the code that is there if its four bytes fit. -/
theorem encode_cases (i : Instruction) (s : Segment) :
    match encode i s with
    | .ok () s' => s'.bytes.toList = s.bytes.toList ++ i.bytes ∧ s.bytes.size + 4 ≤ Code.maxPosition
    | .error _ _ => Code.maxPosition < s.bytes.size + 4 := by
  have hmax : Code.maxPosition = 65535 := rfl
  rw [encode_eq_encodeRaw, encodeRaw_eq]
  by_cases hfits : s.bytes.size ≤ 65531
  · rw [if_pos hfits]
    exact ⟨toList_extend s i.bytes, by omega⟩
  · have hbeyond : Code.maxPosition < s.bytes.size + 4 := by omega
    rw [if_neg hfits]
    by_cases hopcode : s.bytes.size ≤ 65533
    · rw [if_pos hopcode]
      exact hbeyond
    · rw [if_neg hopcode]
      exact hbeyond

/-- Instructions are written behind the code that is there if all their bytes fit. -/
theorem forM_encode_cases (l : List Instruction) {s : Segment}
    (hs : s.bytes.size ≤ Code.maxPosition) :
    match l.forM encode s with
    | .ok () s' => s'.bytes.toList = s.bytes.toList ++ l.flatMap Instruction.bytes ∧
        s.bytes.size + 4 * l.length ≤ Code.maxPosition
    | .error _ _ => Code.maxPosition < s.bytes.size + 4 * l.length := by
  induction l generalizing s with
  | nil => exact ⟨(List.append_nil _).symm, hs⟩
  | cons i l ih =>
    have hfirst := encode_cases i s
    have hcons : (i :: l).forM encode s = (EStateM.bind (encode i) fun _ => l.forM encode) s := rfl
    rw [hcons, EStateM.bind, List.length_cons]
    cases hencode : encode i s with
    | error e s' =>
      rw [hencode] at hfirst
      simp only at hfirst ⊢
      omega
    | ok _ s' =>
      rw [hencode] at hfirst
      obtain ⟨hbytes, hfits⟩ := hfirst
      have hsize : s'.bytes.size = s.bytes.size + 4 := by
        rw [← Array.length_toList, hbytes, List.length_append, Array.length_toList,
          Instruction.length_bytes]
      have hrest := ih (s := s') (by omega)
      simp only
      cases hwrite : l.forM encode s' with
      | error e t =>
        rw [hwrite] at hrest
        simp only at hrest ⊢
        omega
      | ok _ t =>
        rw [hwrite] at hrest
        obtain ⟨hcode, hend⟩ := hrest
        refine ⟨?_, by omega⟩
        rw [hcode, hbytes, List.flatMap_cons, List.append_assoc]

end Segment

namespace Code

/-- Instructions are assembled to their bytes, if these fit a segment. -/
theorem assemble_eq_ok_iff {l : List Instruction} {code : Bytes} :
    assemble l = .ok code ↔ code = l.flatMap Instruction.bytes ∧ 4 * l.length ≤ maxPosition := by
  have hwrite := Segment.forM_encode_cases l (s := .empty) (Nat.zero_le _)
  rw [assemble]
  cases hforM : l.forM Segment.encode Segment.empty with
  | error e s =>
    rw [hforM] at hwrite
    simp only [Segment.empty, List.size_toArray, List.length_nil] at hwrite
    simp only [reduceCtorEq, false_iff]
    omega
  | ok _ s =>
    rw [hforM] at hwrite
    obtain ⟨hcode, hfits⟩ := hwrite
    simp only [Segment.empty, List.size_toArray, List.length_nil, List.nil_append,
      Nat.zero_add] at hcode hfits
    simp only [Except.ok.injEq, hcode, hfits, and_true, eq_comm]

/-- What the unit with an index is read as. A unit that is cut off, or ends beyond the last
position, is not read. -/
def unitAt (code : Bytes) (index : Nat) : Except DecodeError Instruction :=
  match code.drop (4 * index) with
  | a :: b :: c :: d :: _ =>
    if 4 * index + 4 ≤ maxPosition then
      Instruction.decode (Bytes.number a b) (Bytes.number c d)
    else
      .error .endOfCode
  | _ => .error .endOfCode

/-- A unit that is cut off, or ends beyond the last position, is the end of the code. -/
theorem unitAt_eq_endOfCode {code : Bytes} {index : Nat}
    (h : code.length < 4 * index + 4 ∨ maxPosition < 4 * index + 4) :
    unitAt code index = .error .endOfCode := by
  have hlength : (code.drop (4 * index)).length = code.length - 4 * index := List.length_drop
  rw [unitAt]
  split
  · next a b c d rest hcode =>
    rw [hcode] at hlength
    simp only [List.length_cons] at hlength
    rw [if_neg (by omega)]
  · rfl

/-- Code read from a later instruction on has the later units. -/
theorem drop_units (pos index : Nat) (code : Bytes) :
    (units pos code).drop index = units (pos + 4 * index) (code.drop (4 * index)) := by
  induction index generalizing pos code with
  | zero => rfl
  | succ index ih =>
    have hdrop : code.drop (4 * (index + 1)) = (code.drop 4).drop (4 * index) := by
      rw [List.drop_drop, Nat.mul_succ, Nat.add_comm]
    have hpos : pos + 4 * (index + 1) = pos + 4 + 4 * index := by omega
    rw [hdrop, hpos, ← ih, Nat.add_comm index 1, ← List.drop_drop]
    match code with
    | [] | [_] | [_, _] | [_, _, _] | _ :: _ :: _ :: _ :: _ => simp [units, unitSize]

/-- The units are those that are counted off from the beginning. -/
theorem getElem?_units (code : Bytes) (index : Nat) :
    (units 0 code)[index]? =
      if 4 * index < code.length then some ⟨4 * index, unitAt code index⟩ else none := by
  rw [← List.head?_drop, drop_units, Nat.zero_add, unitAt]
  have hlength : (code.drop (4 * index)).length = code.length - 4 * index := List.length_drop
  match hcode : code.drop (4 * index) with
  | [] =>
    rw [hcode, List.length_nil] at hlength
    rw [if_neg (by omega)]
    rfl
  | [_] | [_, _] | [_, _, _] | _ :: _ :: _ :: _ :: _ =>
    rw [hcode] at hlength
    simp only [List.length_cons] at hlength
    rw [if_pos (by omega)]
    rfl

/-- A unit before another one has the lesser position. -/
theorem pos_lt_of_units_eq {code : Bytes} {done rest : List CodeUnit} {u v : CodeUnit}
    (hsplit : units 0 code = done ++ u :: rest) (hv : v ∈ done) : v.pos < u.pos := by
  have hpos : ∀ (index : Nat) (w : CodeUnit), (done ++ u :: rest)[index]? = some w →
      w.pos = 4 * index := by
    intro index w hw
    rw [← hsplit, getElem?_units] at hw
    split at hw
    · cases hw
      rfl
    · cases hw
  obtain ⟨index, hlt, rfl⟩ := List.mem_iff_getElem.mp hv
  have hearlier := hpos index done[index] (by
    rw [List.getElem?_append_left hlt, List.getElem?_eq_getElem hlt])
  have hlater := hpos done.length u (by simp)
  omega

/-- Units come in the order of their positions. -/
theorem pairwise_units (pos : Nat) (code : Bytes) :
    (units pos code).Pairwise (fun u v => u.pos < v.pos) ∧ ∀ u ∈ units pos code, pos ≤ u.pos := by
  fun_induction units pos code with
  | case1 pos => simp
  | case2 pos a b c d rest ih =>
    obtain ⟨hpairwise, hfrom⟩ := ih
    have hlater : ∀ u ∈ units (pos + unitSize) rest, pos < u.pos := by
      intro u hu
      have hbeyond := hfrom u hu
      rw [unitSize] at hbeyond
      omega
    refine ⟨List.pairwise_cons.mpr ⟨hlater, hpairwise⟩, ?_⟩
    exact List.forall_mem_cons.mpr ⟨Nat.le_refl _, fun u hu => Nat.le_of_lt (hlater u hu)⟩
  | case3 code pos hne hshort => simp

/-- Disassembling fails with the failure of the first unit that has one. -/
theorem disassemble_eq_error_iff {code : Bytes} {e : DecodeError} :
    disassemble code = .error e ↔ ∃ index, 4 * index < code.length ∧ unitAt code index = .error e ∧
      ∀ j < index, ∃ i, unitAt code j = .ok i := by
  rw [disassemble, mapM_eq_error_iff]
  constructor
  · rintro ⟨index, u, hu, hfail, hbefore⟩
    rw [getElem?_units] at hu
    split at hu
    · next hlt =>
      cases hu
      refine ⟨index, hlt, hfail, ?_⟩
      intro j hj
      refine hbefore j hj ⟨4 * j, unitAt code j⟩ ?_
      rw [getElem?_units, if_pos (by omega)]
    · cases hu
  · rintro ⟨index, hlt, hfail, hbefore⟩
    refine ⟨index, ⟨4 * index, unitAt code index⟩, ?_, hfail, ?_⟩
    · rw [getElem?_units, if_pos hlt]
    · intro j hj u hu
      rw [getElem?_units, if_pos (by omega)] at hu
      cases hu
      exact hbefore j hj

/-- Code can be disassembled if it consists of whole units that can all be read, and fits a
segment. -/
theorem exists_disassemble_eq_ok_iff {code : Bytes} :
    (∃ l, disassemble code = .ok l) ↔ code.length % 4 = 0 ∧ code.length ≤ 65532 ∧
      ∀ index < code.length / 4, ∃ i, unitAt code index = .ok i := by
  have hunits : (∃ l, disassemble code = .ok l) ↔
      ∀ index, 4 * index < code.length → ∃ i, unitAt code index = .ok i := by
    simp only [disassemble, exists_mapM_eq_ok_iff, getElem?_units]
    constructor
    · intro h index hlt
      exact h index ⟨4 * index, unitAt code index⟩ (if_pos hlt)
    · intro h index u hu
      split at hu
      · next hlt =>
        cases hu
        exact h index hlt
      · cases hu
  constructor
  · intro h
    obtain ⟨l, hl⟩ := h
    obtain ⟨hcode, hfits⟩ := disassemble_eq_ok_iff.mp hl
    have hlength : code.length = 4 * l.length := by
      rw [hcode, Instruction.length_flatMap_bytes]
    simp only [maxPosition] at hfits
    refine ⟨by omega, by omega, ?_⟩
    intro index hindex
    exact hunits.mp ⟨l, hl⟩ index (by omega)
  · rintro ⟨haligned, _, hread⟩
    exact hunits.mpr fun index hlt => hread index (by omega)

end Code

namespace Segment

variable {bytes : Array UInt8} {pos : Nat}

/-- Two bytes at a position are a number, if they end within the segment. -/
theorem numberAt?_of_drop {a b : UInt8} {rest : Bytes}
    (h : bytes.toList.drop pos = a :: b :: rest) :
    numberAt? bytes pos = if pos + 2 ≤ Code.maxPosition then some (Bytes.number a b) else none := by
  have ha : bytes[pos]? = some a := by
    rw [← Array.getElem?_toList, ← Nat.add_zero pos, ← List.getElem?_drop, h]
    rfl
  have hb : bytes[pos + 1]? = some b := by
    rw [← Array.getElem?_toList, ← List.getElem?_drop, h]
    rfl
  simp [numberAt?, ha, hb]

/-- Fewer than two bytes are no number. -/
theorem numberAt?_eq_none (h : (bytes.toList.drop pos).length < 2) :
    numberAt? bytes pos = none := by
  have hb : bytes[pos + 1]? = none := by
    rw [← Array.getElem?_toList, ← List.getElem?_drop]
    exact List.getElem?_eq_none (by omega)
  cases ha : bytes[pos]? <;> simp [numberAt?, ha, hb]

/-- Where no two numbers can be read, no instruction is. -/
theorem decode_eq_endOfCode {s : Segment}
    (h : numberAt? s.bytes s.pos = none ∨ numberAt? s.bytes (s.pos + 2) = none) :
    ∃ s', decode s = .error .endOfCode s' := by
  simp only [decode, Bind.bind, EStateM.bind, EStateM.adaptExcept, readNumber]
  cases hopcode : numberAt? s.bytes s.pos with
  | none => exact ⟨_, rfl⟩
  | some opcode =>
    rcases h with hnone | hnone
    · rw [hopcode] at hnone
      cases hnone
    · simp only [hnone]
      exact ⟨_, rfl⟩

/-- Two numbers at the cursor are read as opcode and operand. -/
theorem decode_of_numbers {s : Segment} {opcode operand : UInt16}
    (hopcode : numberAt? s.bytes s.pos = some opcode)
    (hoperand : numberAt? s.bytes (s.pos + 2) = some operand) :
    decode s = match Instruction.decode opcode operand with
      | .ok i => .ok i { s with pos := s.pos + 4 }
      | .error e => .error e { s with pos := s.pos + 4 } := by
  simp only [decode, Bind.bind, EStateM.bind, EStateM.adaptExcept, readNumber, hopcode, hoperand]
  cases Instruction.decode opcode operand <;> rfl

/-- What the cursor is at is read as a unit, and the cursor moves past it. -/
theorem decode_of_drop {s : Segment} {a b c d : UInt8} {rest : Bytes}
    (h : s.bytes.toList.drop s.pos = a :: b :: c :: d :: rest) :
    match Code.readUnit s.pos a b c d with
    | .ok i => decode s = .ok i { s with pos := s.pos + 4 }
    | .error e => ∃ s', decode s = .error e s' := by
  have hopcode := numberAt?_of_drop h
  have hrest : s.bytes.toList.drop (s.pos + 2) = c :: d :: rest := by
    rw [← List.drop_drop, h]
    rfl
  have hoperand := numberAt?_of_drop hrest
  rw [Code.readUnit, Code.unitSize]
  by_cases hfits : s.pos + 4 ≤ Code.maxPosition
  · rw [if_pos (by omega)] at hopcode hoperand
    rw [if_pos hfits, decode_of_numbers hopcode hoperand]
    cases Instruction.decode (Bytes.number a b) (Bytes.number c d) with
    | error e => exact ⟨_, rfl⟩
    | ok i => rfl
  · rw [if_neg (by omega)] at hoperand
    rw [if_neg hfits]
    exact decode_eq_endOfCode (Or.inr hoperand)

/-- Fewer than four bytes at the cursor are no unit. -/
theorem decode_of_short {s : Segment} (h : (s.bytes.toList.drop s.pos).length < 4) :
    ∃ s', decode s = .error .endOfCode s' := by
  apply decode_eq_endOfCode
  have hoperand : (s.bytes.toList.drop (s.pos + 2)).length < 2 := by
    rw [← List.drop_drop, List.length_drop]
    omega
  exact Or.inr (numberAt?_eq_none hoperand)

/-- An instruction that is read is the first unit from the cursor on, and the cursor moves past
it. -/
theorem decode_eq_ok {s s' : Segment} {i : Instruction} (h : decode s = .ok i s') :
    s' = { s with pos := s.pos + 4 } ∧ s.pos + 4 ≤ s.bytes.size ∧
      Code.units s.pos (s.bytes.toList.drop s.pos) =
        ⟨s.pos, .ok i⟩ :: Code.units (s.pos + 4) (s.bytes.toList.drop (s.pos + 4)) := by
  match hcode : s.bytes.toList.drop s.pos with
  | [] | [_] | [_, _] | [_, _, _] =>
    obtain ⟨t, ht⟩ := decode_of_short (s := s) (by simp [hcode])
    rw [ht] at h
    cases h
  | a :: b :: c :: d :: rest =>
    have hdecode := decode_of_drop hcode
    cases hunit : Code.readUnit s.pos a b c d with
    | error e =>
      rw [hunit] at hdecode
      obtain ⟨t, ht⟩ := hdecode
      rw [ht] at h
      cases h
    | ok j =>
      rw [hunit] at hdecode
      rw [hdecode] at h
      cases h
      have hlength := congrArg List.length hcode
      simp only [List.length_drop, Array.length_toList, List.length_cons] at hlength
      have hrest : s.bytes.toList.drop (s.pos + 4) = rest := by
        rw [← List.drop_drop, hcode]
        rfl
      refine ⟨rfl, by omega, ?_⟩
      rw [Code.units, hunit, hrest, Code.unitSize]

/-- Where code is left and no instruction is read, the first unit from the cursor on cannot be
read. -/
theorem decode_eq_error {s s' : Segment} {e : DecodeError} (h : decode s = .error e s')
    (hleft : s.pos < s.bytes.size) :
    ∃ rest, Code.units s.pos (s.bytes.toList.drop s.pos) = ⟨s.pos, .error e⟩ :: rest := by
  match hcode : s.bytes.toList.drop s.pos with
  | [] =>
    have hpassed := List.drop_eq_nil_iff.mp hcode
    rw [Array.length_toList] at hpassed
    omega
  | [_] | [_, _] | [_, _, _] =>
    obtain ⟨t, ht⟩ := decode_of_short (s := s) (by simp [hcode])
    rw [ht] at h
    cases h
    exact ⟨[], rfl⟩
  | a :: b :: c :: d :: rest =>
    have hdecode := decode_of_drop hcode
    cases hunit : Code.readUnit s.pos a b c d with
    | ok i =>
      rw [hunit] at hdecode
      rw [hdecode] at h
      cases h
    | error e' =>
      rw [hunit] at hdecode
      obtain ⟨t, ht⟩ := hdecode
      rw [ht] at h
      cases h
      rw [Code.units, hunit]
      exact ⟨_, rfl⟩

/-- Read instructions, one after the other, until the cursor has passed all code. -/
def decodeRest (s : Segment) : Except DecodeError (List Instruction) :=
  if s.atEnd then
    .ok []
  else
    match _h : decode s with
    | .error e _ => .error e
    | .ok i s' => do return i :: (← decodeRest s')
termination_by s.bytes.size - s.pos
decreasing_by
  obtain ⟨rfl, hsize, _⟩ := decode_eq_ok _h
  simp only
  omega

/-- The instructions from the cursor on are the units from there on. -/
theorem decodeRest_eq (s : Segment) :
    decodeRest s = (Code.units s.pos (s.bytes.toList.drop s.pos)).mapM CodeUnit.content := by
  fun_induction decodeRest s with
  | case1 s hend =>
    have hpassed : s.bytes.toList.length ≤ s.pos := by simpa [atEnd] using hend
    rw [List.drop_eq_nil_of_le hpassed]
    rfl
  | case2 s hend e s' hread =>
    have hleft : s.pos < s.bytes.size := by simpa [atEnd] using hend
    obtain ⟨rest, hunits⟩ := decode_eq_error hread hleft
    rw [hunits, List.mapM_cons]
    rfl
  | case3 s hend i s' hread ih =>
    obtain ⟨rfl, _, hunits⟩ := decode_eq_ok hread
    rw [ih, hunits, List.mapM_cons]
    rfl

/-- Reading from the beginning to the end is disassembling. -/
theorem decodeRest_ofBytes (code : Bytes) : decodeRest (.ofBytes code) = Code.disassemble code :=
  decodeRest_eq (.ofBytes code)

end Segment

namespace Code

/-- Assembling succeeds up to the size of a segment, and disassembling is its inverse on exactly
the byte strings of whole units that fit a segment and can all be read. On any other one
disassembling fails with the failure of the first unit that has one. It finds the same as reading
to the end at a cursor. -/
theorem disassemble_inverts_assemble :
    (∀ l : List Instruction, (∃ code, assemble l = .ok code) ↔ l.length ≤ 16383) ∧
    (∀ l code, assemble l = .ok code ↔ disassemble code = .ok l) ∧
    (∀ i : Instruction, i.Valid) ∧
    (∀ code, Segment.decodeRest (.ofBytes code) = disassemble code) ∧
    (∀ code, (∃ l, disassemble code = .ok l) ↔ code.length % 4 = 0 ∧ code.length ≤ 65532 ∧
      ∀ index < code.length / 4, ∃ i, unitAt code index = .ok i) ∧
    (∀ code e, disassemble code = .error e ↔ ∃ index, 4 * index < code.length ∧
      unitAt code index = .error e ∧ ∀ j < index, ∃ i, unitAt code j = .ok i) ∧
    ∀ code index, code.length < 4 * index + 4 ∨ 0xFFFF < 4 * index + 4 →
      unitAt code index = .error .endOfCode := by
  refine ⟨?_, ?_, Instruction.valid, Segment.decodeRest_ofBytes, ?_, ?_, ?_⟩
  · intro l
    simp only [assemble_eq_ok_iff, maxPosition, exists_eq_left]
    omega
  · intro l code
    rw [assemble_eq_ok_iff, disassemble_eq_ok_iff]
  · intro code
    exact exists_disassemble_eq_ok_iff
  · intro code e
    exact disassemble_eq_error_iff
  · intro code index h
    exact unitAt_eq_endOfCode h

end Code

end Bourse
