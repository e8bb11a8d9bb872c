import Bourse.Proofs.Machine.Composition
import Bourse.Proofs.Machine.Height

/-!
# Operands that no code has

The operand of an instruction is narrower in code than the number that the machine would work
with: an index has fifteen bits of sixteen, there is no tier above the eighth, and the ends of a
range are in order and within the tiers. Beyond these bounds an instruction is still one that can
be run, and no judgment on running it depends on them. Within them it is the instruction that code
has.
-/

namespace Bourse

/-- An instruction with any operand that its place can hold. -/
inductive WideInstruction where
  /-- One with an operand that code can have. -/
  | coded (i : Instruction)
  /-- Push a constant or a copy of a value on the stack. -/
  | read (bank : Bank) (index : UInt16)
  /-- Pop a report and push the time of a tier. -/
  | tierAt (tier : UInt8)
  /-- Pop a report and a time and push the report with that time in a range. -/
  | tierSet (start stop : UInt8)
  deriving DecidableEq

namespace WideInstruction

open Machine

/-- The instruction that code has, if it can have one with this operand. -/
def coded? : WideInstruction → Option Instruction
  | .coded i => some i
  | .read bank index => (MemoryRef.of? bank index.toNat).map .read
  | .tierAt tier => if h : tier.toNat < 9 then some (.tierAt ⟨tier.toNat, h⟩) else none
  | .tierSet start stop => (TierRange.of? start.toNat stop.toNat).map .tierSet

/-- How many values the instruction pops. -/
def inputs : WideInstruction → Nat
  | .coded i => i.inputs
  | .read _ _ => 0
  | .tierAt _ => 1
  | .tierSet _ _ => 2

/-- How many values the instruction pushes. -/
def outputs : WideInstruction → Nat
  | .coded i => i.outputs
  | .read _ _ | .tierAt _ | .tierSet _ _ => 1

/-- Refuse an operand that cannot be right at this height of the stack and with so many
constants. -/
def checkOperand (height constants : Nat) : WideInstruction → Except OperandError Unit
  | .coded i => i.checkOperand height constants
  | .read .constant index =>
    if index.toNat < constants then .ok () else .error (.constantOutOfRange index.toNat constants)
  | .read .stack index =>
    if index.toNat < height then .ok () else .error (.stackReadOutOfRange index.toNat height)
  | .tierAt _ | .tierSet _ _ => .ok ()

/-- Run an instruction. -/
def exec (env : Environment) : WideInstruction → Access Unit
  | .coded i => i.exec env
  | .read .stack index => do push (← Machine.read index.toNat)
  | .read .constant index =>
    pushOr (.constantOutOfBounds index.toNat) env.constants[index.toNat]?
  | .tierAt tier => unary fun a => .ok ((Report.ofWord a).timeAt tier.toNat).toWord
  | .tierSet start stop => binary fun report time =>
    match time.fits? 32 with
    | some t =>
      .ok ((Report.ofWord report).setRange start.toNat stop.toNat (UInt32.ofNat t)).toWord
    | none => .error .overflow

/-- An instruction that code can have does what it does in code. -/
theorem exec_of_coded? {w : WideInstruction} {i : Instruction} (h : w.coded? = some i) :
    w.inputs = i.inputs ∧ w.outputs = i.outputs ∧
      (∀ height constants, w.checkOperand height constants = i.checkOperand height constants) ∧
      ∀ env, w.exec env = i.exec env := by
  cases w with
  | coded j =>
    cases h
    exact ⟨rfl, rfl, fun _ _ => rfl, fun _ => rfl⟩
  | read bank index =>
    simp only [coded?, MemoryRef.of?] at h
    split at h
    · cases h
      cases bank <;> exact ⟨rfl, rfl, fun _ _ => rfl, fun _ => rfl⟩
    · cases h
  | tierAt tier =>
    simp only [coded?] at h
    split at h
    · cases h
      exact ⟨rfl, rfl, fun _ _ => rfl, fun _ => rfl⟩
    · cases h
  | tierSet start stop =>
    simp only [coded?, TierRange.of?] at h
    split at h
    · cases h
      exact ⟨rfl, rfl, fun _ _ => rfl, fun _ => rfl⟩
    · cases h

/-- Whether the instruction looks at the stack from the bottom up. -/
def readsStack : WideInstruction → Bool
  | .coded (.read ⟨.stack, _⟩) | .read .stack _ => true
  | _ => false

/-- An instruction that reads within the stack pushes what it reads there. -/
theorem exists_read_of_readsStack {w : WideInstruction} (h : w.readsStack = true) :
    w.inputs = 0 ∧ w.outputs = 1 ∧
      ∃ index, ∀ env, w.exec env = (do push (← Machine.read index)) := by
  unfold readsStack at h
  split at h
  · next index => exact ⟨rfl, rfl, index.val, fun _ => rfl⟩
  · next index => exact ⟨rfl, rfl, index.toNat, fun _ => rfl⟩
  · cases h

/-- Only reading from the stack is checked against its height. -/
theorem checkOperand_height {w : WideInstruction} (h : w.readsStack = false)
    (height height' constants : Nat) :
    w.checkOperand height constants = w.checkOperand height' constants := by
  cases w with
  | coded i =>
    cases i with
    | read source =>
      obtain ⟨bank, index⟩ := source
      cases bank with
      | stack => cases h
      | constant => rfl
    | _ => rfl
  | read bank index =>
    cases bank with
    | stack => cases h
    | constant => rfl
  | tierAt tier => rfl
  | tierSet start stop => rfl

/-- With an accepted operand it takes and leaves as many values as its static effect says. -/
theorem leads_exec (env : Environment) (w : WideInstruction) {alloc rest : Nat}
    (hcheck : w.checkOperand (rest + w.inputs) env.constants.size = .ok ())
    (hroom : rest + w.outputs ≤ alloc) :
    Leads alloc (rest + w.inputs) (rest + w.outputs) (w.exec env) fun _ => True := by
  cases w with
  | coded i => exact i.leads_exec env hcheck hroom
  | read bank index =>
    cases bank with
    | stack =>
      have hindex : index.toNat < rest := by
        by_cases hlt : index.toNat < rest
        · exact hlt
        · simp [checkOperand, inputs, hlt] at hcheck
      exact (leads_read hindex).bind fun w _ => leads_push w hroom
    | constant =>
      have hindex : index.toNat < env.constants.size := by
        by_cases hlt : index.toNat < env.constants.size
        · exact hlt
        · simp [checkOperand, hlt] at hcheck
      refine leads_pushOr ?_ hroom
      intro hnone
      rw [Array.getElem?_eq_getElem hindex] at hnone
      cases hnone
  | tierAt tier => exact leads_unary _ hroom
  | tierSet start stop => exact leads_binary _ hroom

end WideInstruction

namespace Machine

variable {J : {α : Type} → Access α → Prop}

/-- A judgment about the top of the stack holds for all instructions that do not look further down
and do not touch the scratch values. -/
theorem TopOnly.wideExec (h : TopOnly J) (env : Environment) (w : WideInstruction)
    (hread : w.readsStack = false) (hget : w ≠ .coded .get) (hset : w ≠ .coded .set) :
    J (w.exec env) := by
  cases w with
  | coded i =>
    refine h.exec env i ?_ ?_ ?_
    · rintro index rfl
      cases hread
    · rintro rfl
      exact hget rfl
    · rintro rfl
      exact hset rfl
  | read bank index =>
    cases bank with
    | stack => cases hread
    | constant => exact h.pushOr _ _
  | tierAt tier => exact h.unary _
  | tierSet start stop => exact h.binary _

/-- A judgment without a rule for storing holds for all instructions but the one that stores. -/
theorem Storeless.wideExec (h : Storeless J) (env : Environment) (w : WideInstruction)
    (hset : w ≠ .coded .set) : J (w.exec env) := by
  cases w with
  | coded i =>
    refine h.exec env i ?_
    rintro rfl
    exact hset rfl
  | read bank index =>
    cases bank with
    | stack => exact h.bind (h.read index.toNat) h.push
    | constant => exact h.pushOr _ _
  | tierAt tier => exact h.unary _
  | tierSet start stop => exact h.binary _

/-- A judgment with a rule for every access holds for all instructions. -/
theorem Compositional.wideExec (h : Compositional J) (env : Environment) (w : WideInstruction) :
    J (w.exec env) := by
  by_cases hset : w = .coded .set
  · subst hset
    exact h.exec env .set
  · exact h.toStoreless.wideExec env w hset

end Machine

end Bourse
