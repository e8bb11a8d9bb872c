import Bourse.Instruction.Operand

/-!
# Instructions

The instructions of pricing programs. Each pops its inputs from the top of a stack of words and
pushes its outputs. An instruction over a number of values folds them from the deepest one upwards.
-/

namespace Bourse

/-- The operations that combine a number of values from left to right. -/
inductive FoldOp where
  | add
  | sub
  | mul
  | div
  | rem
  | exp
  | min
  | max
  /-- Addition clamped to the greatest word. -/
  | addSat
  /-- Subtraction that stops at zero. -/
  | subSat
  /-- Multiplication clamped to the greatest word. -/
  | mulSat
  deriving DecidableEq, Repr

/-- The comparisons of two values. -/
inductive Comparison where
  | eq
  | lt
  | gt
  deriving DecidableEq, Repr

/-- One step of a pricing program. -/
inductive Instruction where
  /-- Push a constant or a copy of a value on the stack. -/
  | read (source : MemoryRef)
  /-- Push a cell of the context. -/
  | context (cell : CellRef)
  /-- Pop a row number and push the cell in that row of the column. -/
  | contextRow (column : UInt8)
  /-- Pop values and fail if one of them is zero. -/
  | ensure (count : UInt16)
  /-- Pop values and push their combination. -/
  | fold (op : FoldOp) (count : UInt16)
  /-- Pop a value and push whether it is zero. -/
  | isZero
  /-- Pop two values and push whether they compare so. -/
  | compare (op : Comparison)
  /-- Pop a condition and two alternatives; push the first one unless the condition is zero. -/
  | choose
  /-- Pop values and push the first one that is not zero, or zero. -/
  | any (count : UInt16)
  /-- Pop values and push the first one if none is zero, or zero. -/
  | every (count : UInt16)
  /-- Pop a raw amount and push it with eighteen decimals. -/
  | to18 (decimals : UInt8)
  /-- Pop an eighteen-decimal value and push it as a raw amount. -/
  | from18 (decimals : UInt8)
  /-- Pop a value and push it times a power of ten. -/
  | scaleBy (exponent : Int8)
  /-- Pop a raw amount and an eighteen-decimal value and push their product. -/
  | mul18 (decimals : UInt8)
  /-- Pop a raw amount and an eighteen-decimal value and push their quotient. -/
  | div18 (decimals : UInt8)
  /-- Pop a key and push the scratch value under it. -/
  | get
  /-- Pop a key and a value and store the value under the key. -/
  | set
  /-- Pop values and push the digest of their bytes. -/
  | hash (count : UInt16)
  /-- Pop a word and push its eight 32-bit parts, lowest first. -/
  | explode
  /-- Pop a report and push the time of a tier. -/
  | tierAt (tier : Fin 9)
  /-- Pop a report and a time and push the report with that time in a range. -/
  | tierSet (range : TierRange)
  /-- Pop two reports and push their difference. -/
  | tierElapsed
  /-- Pop reports and a reference time and push the selection. -/
  | tierSelect (selection : Selection)
  deriving DecidableEq

namespace FoldOp

/-- The name of an operation. -/
def name : FoldOp → String
  | .add => "add"
  | .sub => "sub"
  | .mul => "mul"
  | .div => "div"
  | .rem => "rem"
  | .exp => "exp"
  | .min => "min"
  | .max => "max"
  | .addSat => "adds"
  | .subSat => "subs"
  | .mulSat => "muls"

end FoldOp

/-- The name of a comparison. -/
def Comparison.name : Comparison → String
  | .eq => "eq"
  | .lt => "lt"
  | .gt => "gt"

namespace Instruction

/-- A name with its operand, in columns seven characters wide. -/
def line (name operand : String) : String :=
  name ++ "".pushn ' ' (7 - name.length) ++ " " ++ operand

/-- The text of an instruction: its name, and its operand if it has one. -/
def text : Instruction → String
  | .read source => line "read" source.text
  | .context cell => line "context" cell.text
  | .contextRow column => line "ctxrow" (toString column.toNat)
  | .ensure count => line "ensure" (toString count.toNat)
  | .fold op count => line op.name (toString count.toNat)
  | .isZero => "iszero"
  | .compare op => op.name
  | .choose => "eif"
  | .any count => line "any" (toString count.toNat)
  | .every count => line "every" (toString count.toNat)
  | .to18 decimals => line "scale18" (toString decimals.toNat)
  | .from18 decimals => line "scalen" (toString decimals.toNat)
  | .scaleBy exponent => line "scaleby" (toString exponent.toInt)
  | .mul18 decimals => line "mul18" (toString decimals.toNat)
  | .div18 decimals => line "div18" (toString decimals.toNat)
  | .get => "get"
  | .set => "set"
  | .hash count => line "hash" (toString count.toNat)
  | .explode => "explode"
  | .tierAt tier => line "tierat" (toString tier.val)
  | .tierSet range => line "tierupd" range.text
  | .tierElapsed => "tierdiff"
  | .tierSelect selection => line "selectlte" selection.text

end Instruction

end Bourse
