import Bourse.Report

/-!
# Operands

Each instruction carries one 16-bit operand. This module holds the operands with an inner layout,
their encodings, and their texts. An operand that no encoding produces is no value of its type.
-/

namespace Bourse

/-- Where a value is read from. -/
inductive Bank where
  /-- The stack, counted from the bottom. -/
  | stack
  /-- The constants of the program. -/
  | constant
  deriving DecidableEq, Repr

/-- The name of a bank. -/
def Bank.text : Bank → String
  | .stack => "stack"
  | .constant => "constant"

/-- A place in a bank: the bank in the lowest bit, the index in the fifteen bits above. -/
structure MemoryRef where
  bank : Bank
  index : Fin 32768
  deriving DecidableEq, Repr

namespace MemoryRef

/-- The place with the given index, if it takes at most fifteen bits. -/
def of? (bank : Bank) (index : Nat) : Option MemoryRef :=
  if h : index < 32768 then some ⟨bank, index, h⟩ else none

/-- Write the operand. -/
def encode (r : MemoryRef) : UInt16 :=
  UInt16.ofNat (2 * r.index + match r.bank with | .stack => 0 | .constant => 1)

/-- Read the operand. -/
def decode (operand : UInt16) : MemoryRef :=
  ⟨if operand.toNat % 2 = 0 then .stack else .constant,
    ⟨operand.toNat / 2, by have := operand.toNat_lt; omega⟩⟩

/-- The text of a place. -/
def text (r : MemoryRef) : String := r.bank.text ++ " " ++ toString r.index.val

end MemoryRef

/-- A cell of the context: the column in the high byte, the row in the low byte. -/
structure CellRef where
  column : UInt8
  row : UInt8
  deriving DecidableEq, Repr

namespace CellRef

/-- Write the operand. -/
def encode (r : CellRef) : UInt16 := UInt16.ofNat (256 * r.column.toNat + r.row.toNat)

/-- Read the operand. -/
def decode (operand : UInt16) : CellRef :=
  ⟨UInt8.ofNat (operand.toNat / 256), UInt8.ofNat operand.toNat⟩

/-- The text of a cell. -/
def text (r : CellRef) : String := toString r.column.toNat ++ ", " ++ toString r.row.toNat

end CellRef

/-- The tiers above `start` up to `stop`: the start in the four lowest bits, the stop in the next
four. -/
structure TierRange where
  start : Nat
  stop : Nat
  start_le_stop : start ≤ stop
  stop_le : stop ≤ Report.tiers
  deriving DecidableEq, Repr

namespace TierRange

/-- The range with the given ends, if they are in order and within the tiers. -/
def of? (start stop : Nat) : Option TierRange :=
  if h : start ≤ stop ∧ stop ≤ Report.tiers then some ⟨start, stop, h.1, h.2⟩ else none

/-- Write the operand. -/
def encode (r : TierRange) : UInt16 := UInt16.ofNat (r.start + 16 * r.stop)

/-- Read the operand. -/
def decode? (operand : UInt16) : Option TierRange :=
  if operand.toNat < 256 then of? (operand.toNat % 16) (operand.toNat / 16) else none

/-- The text of a range. -/
def text (r : TierRange) : String := toString r.start ++ ", " ++ toString r.stop

end TierRange

/-- A selection across reports: the number of reports in the low byte, the choice in the next two
bits, the quorum in the bit above. -/
structure Selection where
  quorum : Report.Quorum
  choice : Report.Choice
  length : UInt8
  deriving DecidableEq, Repr

namespace Selection

/-- Write the operand. -/
def encode (s : Selection) : UInt16 :=
  UInt16.ofNat (s.length.toNat + 256 * s.choice.code + 1024 * s.quorum.code)

/-- Read the operand. -/
def decode? (operand : UInt16) : Option Selection := do
  let quorum ← Report.Quorum.ofCode? (operand.toNat / 1024)
  let choice ← Report.Choice.ofCode? (operand.toNat / 256 % 4)
  return ⟨quorum, choice, UInt8.ofNat operand.toNat⟩

/-- The text of a selection. -/
def text (s : Selection) : String :=
  s.quorum.text ++ " " ++ s.choice.text ++ " " ++ toString s.length.toNat

end Selection

end Bourse
