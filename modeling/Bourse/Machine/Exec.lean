import Bourse.Arithmetic
import Bourse.Context
import Bourse.Decimal
import Bourse.Machine

/-!
# Running an instruction

What each instruction does to the machine: which values it pops and in which order, what it
computes from them, and what it pushes. Values are popped one by one or a number of them at once;
the second kind takes all or none.
-/

namespace Bourse

/-- What a program can look at beside the machine. -/
structure Environment where
  /-- The context of the call. -/
  context : Context
  /-- The constants of the program. -/
  constants : Array Word

namespace FoldOp

/-- Combine two values. -/
def apply (op : FoldOp) (mode : ArithmeticMode) (a b : Word) : Except ArithmeticError Word :=
  match op, mode with
  | .add, .checked => Arithmetic.add a b
  | .add, .wrapping => .ok (a.addWrap b)
  | .sub, .checked => Arithmetic.sub a b
  | .sub, .wrapping => .ok (a.subWrap b)
  | .mul, .checked => Arithmetic.mul a b
  | .mul, .wrapping => .ok (a.mulWrap b)
  | .div, _ => Arithmetic.div a b
  | .rem, _ => Arithmetic.rem a b
  | .exp, .checked => Arithmetic.pow a b
  | .exp, .wrapping => .ok (Arithmetic.powWrap a b)
  | .min, _ => .ok (Min.min a b)
  | .max, _ => .ok (Max.max a b)
  | .addSat, _ => .ok (a.addSat b)
  | .subSat, _ => .ok (a.subSat b)
  | .mulSat, _ => .ok (a.mulSat b)

end FoldOp

/-- Compare two values. -/
def Comparison.holds : Comparison → Word → Word → Bool
  | .eq, a, b => a = b
  | .lt, a, b => a < b
  | .gt, a, b => b < a

namespace Machine

/-- Replace the topmost value. -/
def unary (f : Word → Except ArithmeticError Word) : Access Unit := do
  let a ← pop
  push (← amount (f a))

/-- Replace the two topmost values by one. -/
def binary (f : Word → Word → Except ArithmeticError Word) : Access Unit := do
  let b ← pop
  let a ← pop
  push (← amount (f a b))

/-- Replace the topmost `count` values by their combination from the deepest one upwards. -/
def foldMany (f : Word → Word → Except ArithmeticError Word) (count : Nat) : Access Unit := do
  match ← popMany count with
  | [] => throw .stackUnderflow
  | first :: rest => push (← amount (rest.foldlM f first))

/-- Put a value on the stack, or fault when there is none. -/
def pushOr (fault : Fault) : Option Word → Access Unit
  | some w => push w
  | none => throw fault

end Machine

namespace Instruction

open Machine

/-- Run an instruction. -/
def exec (env : Environment) : Instruction → Access Unit
  | .read ⟨.stack, index⟩ => do push (← Machine.read index.val)
  | .read ⟨.constant, index⟩ =>
    pushOr (.constantOutOfBounds index.val) env.constants[index.val]?
  | .context cell =>
    pushOr (.contextOutOfBounds cell.column.toNat cell.row.toNat)
      (env.context.cell? cell.column.toNat cell.row.toNat)
  | .contextRow column => do
    let row := ((← pop).fits? 64).getD (UInt64.size - 1)
    pushOr (.contextOutOfBounds column.toNat row) (env.context.cell? column.toNat row)
  | .ensure count => do
    let values ← popMany count.toNat
    match values.findIdx? (· = 0) with
    | some index => throw (.ensureFailed index)
    | none => if values.isEmpty then throw .stackUnderflow
  | .fold op count => do foldMany (op.apply (← mode)) count.toNat
  | .isZero => unary fun a => .ok (.ofBool (a = 0))
  | .compare op => binary fun a b => .ok (.ofBool (op.holds a b))
  | .choose => do
    let no ← pop
    let yes ← pop
    let condition ← pop
    push (if condition = 0 then no else yes)
  | .any count => do
    let values ← popMany count.toNat
    push ((values.find? (· ≠ 0)).getD 0)
  | .every count => do
    let values ← popMany count.toNat
    push (if values.all (· ≠ 0) then values.head?.getD 0 else 0)
  | .to18 decimals => unary fun a => Decimal.to18 a decimals.toNat
  | .from18 decimals => unary fun a => Decimal.from18 a decimals.toNat
  | .scaleBy exponent => unary fun a => Decimal.scaleBy a exponent.toInt
  | .mul18 decimals => binary fun a b => do Decimal.mul (← Decimal.to18 a decimals.toNat) b
  | .div18 decimals => binary fun a b => do Decimal.div (← Decimal.to18 a decimals.toNat) b
  | .get => do push (← load (← pop))
  | .set => do
    let value ← pop
    let key ← pop
    store key value
  | .hash count => do
    let values ← popMany count.toNat
    push (Sha256.digest (Word.concatBytes values))
  | .explode => do
    let w ← pop
    (Report.ofWord w).times.toList.forM fun time => push time.toWord
  | .tierAt tier => unary fun a => .ok ((Report.ofWord a).timeAt tier.val).toWord
  | .tierSet range => binary fun report time =>
    match time.fits? 32 with
    | some t => .ok ((Report.ofWord report).setRange range.start range.stop (UInt32.ofNat t)).toWord
    | none => .error .overflow
  | .tierElapsed => binary fun newer older =>
    .ok (Report.elapsed (.ofWord newer) (.ofWord older)).toWord
  | .tierSelect selection => do
    let reference := ((← pop).fits? 32).getD (UInt32.size - 1)
    let reports ← popMany selection.length.toNat
    push (Report.select (reports.map .ofWord) (UInt32.ofNat reference)
      selection.quorum selection.choice).toWord

end Instruction

end Bourse
