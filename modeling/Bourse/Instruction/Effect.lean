import Bourse.Context
import Bourse.Instruction

/-!
# Static effects

What can be said of an instruction without running it: how many values it takes from the stack and
leaves on it, what it costs, and which operands are refused at a given height of the stack and a
given number of constants.
-/

namespace Bourse

/-- Why the operand of an instruction is refused. -/
inductive OperandError where
  /-- There is no such constant. -/
  | constantOutOfRange (index constants : Nat)
  /-- There is no such value on the stack. -/
  | stackReadOutOfRange (index height : Nat)
  /-- No context has such a column. -/
  | contextColumnOutOfRange (column : Nat)
  /-- The instruction takes too few values. -/
  | arityTooSmall (required : Nat)
  deriving DecidableEq, Repr

/-- The clause that reports a refused operand. -/
def OperandError.message : OperandError → String
  | .constantOutOfRange index constants =>
    "reference to constant #" ++ toString index ++ " while only " ++ toString constants
      ++ " constants are present."
  | .stackReadOutOfRange index height =>
    "read of stack item " ++ toString index ++ " while the stack height is " ++ toString height
      ++ "."
  | .contextColumnOutOfRange column =>
    "context column " ++ toString column ++ " is outside of the context matrix."
  | .arityTooSmall required =>
    "instruction requires at least " ++ toString required ++ " inputs."

namespace Instruction

/-- How many values the instruction pops. -/
def inputs : Instruction → Nat
  | .read _ | .context _ => 0
  | .contextRow _ | .isZero | .to18 _ | .from18 _ | .scaleBy _ | .get | .explode | .tierAt _ => 1
  | .compare _ | .mul18 _ | .div18 _ | .set | .tierSet _ | .tierElapsed => 2
  | .choose => 3
  | .ensure count | .fold _ count | .any count | .every count | .hash count => count.toNat
  | .tierSelect selection => selection.length.toNat + 1

/-- How many values the instruction pushes. -/
def outputs : Instruction → Nat
  | .ensure _ | .set => 0
  | .explode => 8
  | _ => 1

/-- How many values the instruction must at least be told to take. -/
def minArity : Instruction → Nat
  | .fold _ _ => 2
  | .ensure _ | .any _ | .every _ | .hash _ => 1
  | .tierSelect _ => 2
  | _ => 0

/-- What the instruction costs. -/
def complexity : Instruction → Nat
  | .fold .exp _ => 8
  | .hash count => count.toNat
  | .tierSelect selection => 8 * selection.length.toNat
  | _ => 1

/-- Refuse an operand that cannot be right at this height of the stack and with so many
constants. -/
def checkOperand (i : Instruction) (height constants : Nat) : Except OperandError Unit :=
  if i.inputs < i.minArity then
    .error (.arityTooSmall i.minArity)
  else
    match i with
    | .read ⟨.constant, index⟩ =>
      if index.val < constants then .ok () else .error (.constantOutOfRange index.val constants)
    | .read ⟨.stack, index⟩ =>
      if index.val < height then .ok () else .error (.stackReadOutOfRange index.val height)
    | .context cell =>
      if cell.column.toNat < Context.maxColumns then .ok ()
      else .error (.contextColumnOutOfRange cell.column.toNat)
    | .contextRow column =>
      if column.toNat < Context.maxColumns then .ok ()
      else .error (.contextColumnOutOfRange column.toNat)
    | _ => .ok ()

end Instruction

end Bourse
