import Bourse.Machine.Exec
import Bourse.Program

/-!
# Evaluating a program

A run of one source of a program: its units are executed in order on a machine with the room that
the check has found, and each is paid for after it has been executed. The result is the top of the
final stack, the final scratch values, and the cost.
-/

namespace Bourse

/-- Which source to run, and how many values to take from the top of its final stack. -/
structure Entry where
  source : UInt16
  maxOutputs : UInt16
  deriving DecidableEq, Repr

namespace Entry

/-- The entry whose source is in the high half of a number and whose count is in the low half. -/
def ofSelector (selector : UInt32) : Entry :=
  ⟨UInt16.ofNat (selector.toNat / 65536), UInt16.ofNat selector.toNat⟩

/-- The number of an entry. -/
def selector (e : Entry) : UInt32 := UInt32.ofNat (65536 * e.source.toNat + e.maxOutputs.toNat)

/-- The text of an entry. -/
def text (e : Entry) : String := toString e.source.toNat ++ ":" ++ toString e.maxOutputs.toNat

end Entry

/-- Why a run has no result. -/
inductive EvalError where
  /-- There is no such source. -/
  | sourceAbsent (source : Nat)
  /-- The unit at a position of the source has faulted. -/
  | fault (source pos : Nat) (cause : Fault)
  deriving DecidableEq

/-- The sentence that reports a failed run. -/
def EvalError.message : EvalError → String
  | .sourceAbsent source => "evaluable has no source #" ++ toString source
  | .fault source pos cause =>
    "evaluation of source #" ++ toString source ++ " aborted at offset 0x"
      ++ (Bytes.hexNumber 4 pos).toUpper ++ ": " ++ cause.message

/-- The result of a run. -/
structure Outcome where
  /-- The values from the top of the final stack, deepest first. -/
  values : List Word
  /-- The final scratch values. -/
  scratch : Scratch
  /-- The cost. -/
  complexity : Nat
  deriving DecidableEq

/-- The topmost value of the result. -/
def Outcome.top? (o : Outcome) : Option Word := o.values.getLast?

namespace Machine

/-- Add to the cost, and fault when that exceeds the limit. -/
def pay (cost : Nat) : Access Unit := fun m =>
  let m := m.charge cost
  if m.withinLimit then .ok () m else .error .complexityExceeded m

/-- Execute an instruction and pay for it. -/
def runInstruction (env : Environment) (i : Instruction) : Access Unit := do
  i.exec env
  pay i.complexity

/-- Execute a unit of code. -/
def runUnit (env : Environment) (u : CodeUnit) : Access Unit :=
  match u.content with
  | .ok i => runInstruction env i
  | .error cause => throw (.decode cause)

/-- Execute units in order; a fault comes with the position of its unit. -/
def runUnits (env : Environment) : List CodeUnit → EStateM (Nat × Fault) Machine Unit
  | [] => pure ()
  | u :: us => do
    (runUnit env u).adaptExcept fun cause => (u.pos, cause)
    runUnits env us

end Machine

namespace Program

/-- Run a source of a program from given scratch values. -/
def eval (p : Program) (settings : Settings) (entry : Entry) (context : Context)
    (scratch : Scratch) : Except EvalError Outcome :=
  match p.source? entry.source.toNat with
  | none => .error (.sourceAbsent entry.source.toNat)
  | some (code, heights) =>
    let m := Machine.start settings heights.peak scratch
    match Machine.runUnits ⟨context, p.constants⟩ (Code.units 0 code) m with
    | .error (pos, cause) _ => .error (.fault entry.source.toNat pos cause)
    | .ok () m =>
      .ok ⟨(m.stack.extract (m.stack.size - entry.maxOutputs.toNat)).toList, m.scratch, m.spent⟩

end Program

end Bourse
