import Bourse.Instruction

/-!
# The encoding of instructions

An instruction is written as an opcode and an operand, both 16-bit numbers. Reading accepts
exactly the pairs that writing produces: an opcode outside the table is unknown, and an operand
that belongs to no instruction with its opcode is invalid.
-/

namespace Bourse

/-- Why a program text cannot be read. -/
inductive DecodeError where
  /-- An instruction is cut off, or ends beyond the last position of a segment. -/
  | endOfCode
  /-- No instruction has the opcode. -/
  | unknownOpcode (opcode : UInt16)
  /-- No instruction with the opcode has the operand. -/
  | invalidOperand (opcode operand : UInt16)
  deriving DecidableEq, Repr

/-- The sentence that reports a failure to read. -/
def DecodeError.message : DecodeError → String
  | .endOfCode => "unexpected end of the source bytecode."
  | .unknownOpcode opcode => "unknown opcode " ++ toString opcode.toNat ++ "."
  | .invalidOperand opcode operand =>
    "invalid operand " ++ toString operand.toNat ++ " for the instruction with opcode "
      ++ toString opcode.toNat ++ "."

namespace FoldOp

/-- The opcode of an operation over a number of values. -/
def opcode : FoldOp → UInt16
  | .add => 4
  | .sub => 5
  | .mul => 6
  | .div => 7
  | .rem => 8
  | .exp => 9
  | .min => 10
  | .max => 11
  | .addSat => 12
  | .subSat => 13
  | .mulSat => 14

end FoldOp

/-- The opcode of a comparison. -/
def Comparison.opcode : Comparison → UInt16
  | .eq => 16
  | .lt => 17
  | .gt => 18

namespace Instruction

/-- The opcode of an instruction. -/
def opcode : Instruction → UInt16
  | .read _ => 0
  | .context _ => 1
  | .contextRow _ => 2
  | .ensure _ => 3
  | .fold op _ => op.opcode
  | .isZero => 15
  | .compare op => op.opcode
  | .choose => 19
  | .any _ => 20
  | .every _ => 21
  | .to18 _ => 22
  | .from18 _ => 23
  | .scaleBy _ => 24
  | .mul18 _ => 25
  | .div18 _ => 26
  | .get => 27
  | .set => 28
  | .hash _ => 29
  | .explode => 30
  | .tierAt _ => 31
  | .tierSet _ => 32
  | .tierElapsed => 33
  | .tierSelect _ => 34

/-- The operand of an instruction; zero for one that has none. -/
def operand : Instruction → UInt16
  | .read source => source.encode
  | .context cell => cell.encode
  | .contextRow column => column.toUInt16
  | .ensure count | .fold _ count | .any count | .every count | .hash count => count
  | .to18 decimals | .from18 decimals | .mul18 decimals | .div18 decimals => decimals.toUInt16
  | .scaleBy exponent => exponent.toUInt8.toUInt16
  | .tierAt tier => UInt16.ofNat tier.val
  | .tierSet range => range.encode
  | .tierSelect selection => selection.encode
  | .isZero | .compare _ | .choose | .get | .set | .explode | .tierElapsed => 0

/-- The reader of an operand that counts values. -/
def countOperand (make : UInt16 → Instruction) (operand : UInt16) : Option Instruction :=
  some (make operand)

/-- The reader of an operand of one byte. -/
def byteOperand (make : UInt8 → Instruction) (operand : UInt16) : Option Instruction :=
  if operand.toNat < 256 then some (make operand.toUInt8) else none

/-- The reader of an operand that must be zero. -/
def noOperand (i : Instruction) (operand : UInt16) : Option Instruction :=
  if operand = 0 then some i else none

/-- The reader of a tier. -/
def tierOperand (operand : UInt16) : Option Instruction :=
  if h : operand.toNat < 9 then some (.tierAt ⟨operand.toNat, h⟩) else none

/-- The reader of the operands that go with an opcode. -/
def reader? (opcode : UInt16) : Option (UInt16 → Option Instruction) :=
  match opcode.toNat with
  | 0 => some fun x => some (.read (MemoryRef.decode x))
  | 1 => some fun x => some (.context (CellRef.decode x))
  | 2 => some (byteOperand .contextRow)
  | 3 => some (countOperand .ensure)
  | 4 => some (countOperand (.fold .add))
  | 5 => some (countOperand (.fold .sub))
  | 6 => some (countOperand (.fold .mul))
  | 7 => some (countOperand (.fold .div))
  | 8 => some (countOperand (.fold .rem))
  | 9 => some (countOperand (.fold .exp))
  | 10 => some (countOperand (.fold .min))
  | 11 => some (countOperand (.fold .max))
  | 12 => some (countOperand (.fold .addSat))
  | 13 => some (countOperand (.fold .subSat))
  | 14 => some (countOperand (.fold .mulSat))
  | 15 => some (noOperand .isZero)
  | 16 => some (noOperand (.compare .eq))
  | 17 => some (noOperand (.compare .lt))
  | 18 => some (noOperand (.compare .gt))
  | 19 => some (noOperand .choose)
  | 20 => some (countOperand .any)
  | 21 => some (countOperand .every)
  | 22 => some (byteOperand .to18)
  | 23 => some (byteOperand .from18)
  | 24 => some (byteOperand fun x => .scaleBy x.toInt8)
  | 25 => some (byteOperand .mul18)
  | 26 => some (byteOperand .div18)
  | 27 => some (noOperand .get)
  | 28 => some (noOperand .set)
  | 29 => some (countOperand .hash)
  | 30 => some (noOperand .explode)
  | 31 => some tierOperand
  | 32 => some fun x => (TierRange.decode? x).map .tierSet
  | 33 => some (noOperand .tierElapsed)
  | 34 => some fun x => (Selection.decode? x).map .tierSelect
  | _ => none

/-- Read an instruction. -/
def decode (opcode operand : UInt16) : Except DecodeError Instruction :=
  match reader? opcode with
  | none => .error (.unknownOpcode opcode)
  | some accept =>
    match accept operand with
    | none => .error (.invalidOperand opcode operand)
    | some i => .ok i

end Instruction

end Bourse
