import Bourse.Instruction.Encoding

/-!
# Program code

The code of a program is a byte string of four-byte units, each an opcode and an operand with the
most significant byte first. Code is written into a segment of at most 65535 bytes, so no unit
ends beyond that position. A segment also has a cursor, from which single numbers and instructions
are read.
-/

namespace Bourse

/-- The 16-bit number that two bytes write. -/
def Bytes.number (high low : UInt8) : UInt16 := UInt16.ofNat (256 * high.toNat + low.toNat)

namespace Code

/-- The greatest position in a segment, and the greatest number of bytes. -/
def maxPosition : Nat := 65535

/-- The number of bytes of one unit. -/
def unitSize : Nat := 4

end Code

/-- Why a number cannot be read from a segment or written to it. -/
inductive SegmentError where
  /-- There are no two bytes at the cursor, or they end beyond the last position. -/
  | readOutside
  /-- Two more bytes do not fit. -/
  | full
  deriving DecidableEq, Repr

/-- The sentence that reports a failure at the bounds of a segment. -/
def SegmentError.message : SegmentError → String
  | .readOutside =>
    "attempt to read or write outside of code segment (i.e. at position > 0xFFFF)"
  | .full => "attempt to read or write outside of code segment (i.e. at position > 0xFFFF)."

/-- Code under construction or inspection. -/
structure Segment where
  /-- The code. -/
  bytes : Array UInt8
  /-- The cursor. -/
  pos : Nat
  deriving DecidableEq

namespace Segment

/-- No code. -/
def empty : Segment := ⟨#[], 0⟩

/-- Existing code, with the cursor at its beginning. -/
def ofBytes (bytes : Bytes) : Segment := ⟨bytes.toArray, 0⟩

/-- Whether the cursor has passed all code. -/
def atEnd (s : Segment) : Bool := s.bytes.size ≤ s.pos

/-- The number at a position. -/
def numberAt? (bytes : Array UInt8) (pos : Nat) : Option UInt16 := do
  let high ← bytes[pos]?
  let low ← bytes[pos + 1]?
  if pos + 2 ≤ Code.maxPosition then some (Bytes.number high low) else none

/-- Read the number at the cursor and move past it. -/
def readNumber : EStateM SegmentError Segment UInt16 := fun s =>
  match numberAt? s.bytes s.pos with
  | some n => .ok n { s with pos := s.pos + 2 }
  | none => .error .readOutside s

/-- Append a number and move the cursor to the end. -/
def writeNumber (n : UInt16) : EStateM SegmentError Segment Unit := fun s =>
  if s.bytes.size + 2 ≤ Code.maxPosition then
    let bytes := (s.bytes.push (UInt8.ofNat (n.toNat / 256))).push (UInt8.ofNat n.toNat)
    .ok () ⟨bytes, bytes.size⟩
  else
    .error .full s

/-- Read the instruction at the cursor and move past what was read of it. -/
def decode : EStateM DecodeError Segment Instruction := do
  let opcode ← readNumber.adaptExcept fun _ => DecodeError.endOfCode
  let operand ← readNumber.adaptExcept fun _ => DecodeError.endOfCode
  match Instruction.decode opcode operand with
  | .ok i => return i
  | .error e => throw e

/-- Append an instruction: its opcode, then its operand. -/
def encode (i : Instruction) : EStateM SegmentError Segment Unit := do
  writeNumber i.opcode
  writeNumber i.operand

/-- The text of a segment with its cursor. -/
def text (s : Segment) : String :=
  "Marshaller \x7b bytecode: ["
    ++ String.intercalate ", " (s.bytes.toList.map fun b => toString b.toNat)
    ++ "], byte_pos: " ++ toString s.pos ++ " \x7d"

end Segment

/-- A four-byte unit of code with its position; a unit that cannot be read holds the cause. -/
structure CodeUnit where
  pos : Nat
  content : Except DecodeError Instruction

namespace Code

/-- Read a unit of four bytes that begins at a position. -/
def readUnit (pos : Nat) (a b c d : UInt8) : Except DecodeError Instruction :=
  if pos + unitSize ≤ maxPosition then
    Instruction.decode (Bytes.number a b) (Bytes.number c d)
  else
    .error .endOfCode

/-- The units of code whose first byte has the given position. Fewer than four bytes at the end
are a unit that cannot be read. -/
def units : (pos : Nat) → Bytes → List CodeUnit
  | _, [] => []
  | pos, a :: b :: c :: d :: rest => ⟨pos, readUnit pos a b c d⟩ :: units (pos + unitSize) rest
  | pos, _ => [⟨pos, .error .endOfCode⟩]

/-- Write instructions as code. -/
def assemble (instructions : List Instruction) : Except SegmentError Bytes :=
  match instructions.forM Segment.encode Segment.empty with
  | .ok _ s => .ok s.bytes.toList
  | .error e _ => .error e

/-- Read code as instructions; the first unit that cannot be read is the cause of failure. -/
def disassemble (code : Bytes) : Except DecodeError (List Instruction) :=
  (units 0 code).mapM CodeUnit.content

end Code

end Bourse
