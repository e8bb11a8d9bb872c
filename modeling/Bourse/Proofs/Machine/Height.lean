import Bourse.Instruction.Effect
import Bourse.Machine.Exec

/-!
# The height of the stack

How an access to the machine changes the height of the stack, whatever the values on it are. An
access that finds enough values and enough room can still fail on what it computes, but not on the
stack; and for an instruction with an accepted operand the static effect tells what is enough.
-/

namespace Bourse

/-- The faults that do not depend on values: those of the stack, of the constants and of the
code. -/
def Fault.isStatic : Fault → Bool
  | .stackOverflow _ | .stackUnderflow | .stackReadOutOfBounds .. | .constantOutOfBounds _
  | .decode _ => true
  | .contextOutOfBounds .. | .arithmetic _ | .ensureFailed _ | .complexityExceeded => false

namespace Machine

/-- With room for `alloc` values, the access takes a stack of height `n` to height `k` and returns
what satisfies `P`, unless it faults on something else than the stack. -/
def Leads {α : Type} (alloc n k : Nat) (x : Access α) (P : α → Prop) : Prop :=
  ∀ m : Machine, m.alloc = alloc → m.height = n →
    match x m with
    | .ok a m' => m'.alloc = alloc ∧ m'.height = k ∧ P a
    | .error cause _ => cause.isStatic = false

namespace Leads

variable {α β : Type} {alloc n k l : Nat} {P : α → Prop} {Q : β → Prop}

/-- Returning a value leaves the height. -/
theorem pure {a : α} (ha : P a) : Leads alloc n n (Pure.pure a) P := by
  intro m halloc hheight
  exact ⟨halloc, hheight, ha⟩

/-- The second computation starts at the height to which the first one has led. -/
theorem bind {x : Access α} {f : α → Access β} (hx : Leads alloc n k x P)
    (hf : ∀ a, P a → Leads alloc k l (f a) Q) : Leads alloc n l (x >>= f) Q := by
  intro m halloc hheight
  have hfirst := hx m halloc hheight
  simp only [Bind.bind, EStateM.bind]
  cases hxm : x m with
  | error cause m' =>
    rw [hxm] at hfirst
    exact hfirst
  | ok a m' =>
    rw [hxm] at hfirst
    obtain ⟨halloc', hheight', ha⟩ := hfirst
    exact hf a ha m' halloc' hheight'

/-- A failure on values leads to any height. -/
theorem throw {cause : Fault} (h : cause.isStatic = false) :
    Leads alloc n k (throw cause : Access α) P := by
  intro m _ _
  exact h

end Leads

section

variable {alloc n : Nat}

/-- A push needs room for one more. -/
theorem leads_push (w : Word) (h : n < alloc) : Leads alloc n (n + 1) (push w) fun _ => True := by
  intro m halloc hheight
  have hsize : m.stack.size = n := hheight
  rw [push, if_pos (by omega)]
  refine ⟨halloc, ?_, trivial⟩
  rw [height, Array.size_push, hsize]

/-- A pop takes one value, if there is one. -/
theorem leads_pop : Leads alloc (n + 1) n pop fun _ => True := by
  intro m halloc hheight
  have hsize : m.stack.size = n + 1 := hheight
  have htop : m.stack.size - 1 < m.stack.size := by omega
  rw [pop, Array.back?_eq_getElem?, Array.getElem?_eq_getElem htop]
  refine ⟨halloc, ?_, trivial⟩
  rw [height, Array.size_pop, hsize, Nat.add_sub_cancel]

/-- Popping so many values takes all of them and fails at no height that has them. -/
theorem leads_popMany (count : Nat) :
    Leads alloc (n + count) n (popMany count) fun ws => ws.length = count := by
  intro m halloc hheight
  have hsize : m.stack.size = n + count := hheight
  rw [popMany, if_pos (by omega)]
  refine ⟨halloc, ?_, ?_⟩
  · rw [height, Array.size_shrink, hsize]
    omega
  · simp only [Array.length_toList, Array.size_extract]
    omega

/-- A read below the top finds a value and leaves the height. -/
theorem leads_read {index : Nat} (h : index < n) :
    Leads alloc n n (read index) fun _ => True := by
  intro m halloc hheight
  have hsize : m.stack.size = n := hheight
  have hindex : index < m.stack.size := by omega
  rw [read, Array.getElem?_eq_getElem hindex]
  exact ⟨halloc, hheight, trivial⟩

theorem leads_mode : Leads alloc n n mode fun _ => True := by
  intro m halloc hheight
  exact ⟨halloc, hheight, trivial⟩

theorem leads_load (key : Word) : Leads alloc n n (load key) fun _ => True := by
  intro m halloc hheight
  exact ⟨halloc, hheight, trivial⟩

theorem leads_store (key value : Word) : Leads alloc n n (store key value) fun _ => True := by
  intro m halloc hheight
  exact ⟨halloc, hheight, trivial⟩

/-- An amount either is there or fails on its values. -/
theorem leads_amount (result : Except ArithmeticError Word) :
    Leads alloc n n (amount result) fun _ => True := by
  intro m halloc hheight
  cases result with
  | error cause => rfl
  | ok w => exact ⟨halloc, hheight, trivial⟩

/-- The changed value takes the place of the one that was popped. -/
theorem leads_unary (f : Word → Except ArithmeticError Word) (h : n < alloc) :
    Leads alloc (n + 1) (n + 1) (unary f) fun _ => True := by
  apply leads_pop.bind
  intro a _
  apply (leads_amount (f a)).bind
  intro w _
  exact leads_push w h

/-- One value takes the place of two. -/
theorem leads_binary (f : Word → Word → Except ArithmeticError Word) (h : n < alloc) :
    Leads alloc (n + 2) (n + 1) (binary f) fun _ => True := by
  apply leads_pop.bind
  intro b _
  apply leads_pop.bind
  intro a _
  apply (leads_amount (f a b)).bind
  intro w _
  exact leads_push w h

/-- One value takes the place of all that are folded. -/
theorem leads_foldMany (f : Word → Word → Except ArithmeticError Word) {count : Nat}
    (hcount : count ≠ 0) (h : n < alloc) :
    Leads alloc (n + count) (n + 1) (foldMany f count) fun _ => True := by
  apply (leads_popMany count).bind
  intro values hlength
  cases values with
  | nil => exact absurd hlength.symm hcount
  | cons first rest =>
    apply (leads_amount (rest.foldlM f first)).bind
    intro w _
    exact leads_push w h

/-- The values that an instruction needs are popped, and one is pushed in their place. -/
theorem leads_popMany_push {count : Nat} (f : List Word → Word) (h : n < alloc) :
    Leads alloc (n + count) (n + 1) (popMany count >>= fun values => push (f values))
      fun _ => True := by
  apply (leads_popMany count).bind
  intro values _
  exact leads_push (f values) h

/-- A value that is missing is a failure on values, so the push leads one further. -/
theorem leads_pushOr {fault : Fault} {w? : Option Word}
    (hfault : w? = none → fault.isStatic = false) (h : n < alloc) :
    Leads alloc n (n + 1) (pushOr fault w?) fun _ => True := by
  cases w? with
  | none => exact .throw (hfault rfl)
  | some w => exact leads_push w h

/-- Pushing many values needs room for all of them. -/
theorem leads_forM_push {α : Type} (f : α → Word) {xs : List α} {count : Nat}
    (hlength : xs.length = count) (h : n + count ≤ alloc) :
    Leads alloc n (n + count) (xs.forM fun x => push (f x)) fun _ => True := by
  induction xs generalizing n count with
  | nil =>
    subst hlength
    exact .pure trivial
  | cons x xs ih =>
    rw [List.length_cons, Nat.add_comm] at hlength
    rw [← hlength, ← Nat.add_assoc] at h ⊢
    apply (leads_push (f x) (by omega)).bind
    intro _ _
    exact ih rfl h

end

end Machine

namespace Instruction

open Machine

/-- An accepted operand tells the instruction to take enough values. -/
theorem minArity_le_of_checkOperand {i : Instruction} {height constants : Nat}
    (h : i.checkOperand height constants = .ok ()) : i.minArity ≤ i.inputs := by
  unfold checkOperand at h
  by_cases hfew : i.inputs < i.minArity
  · rw [if_pos hfew] at h
    cases h
  · omega

/-- The check admits reads below the height only. -/
theorem lt_of_checkOperand_stack {index : Fin 32768} {height constants : Nat}
    (h : (read ⟨.stack, index⟩).checkOperand height constants = .ok ()) : index.val < height := by
  by_cases hlt : index.val < height
  · exact hlt
  · simp [checkOperand, inputs, minArity, hlt] at h

/-- The check admits constants that exist only. -/
theorem lt_of_checkOperand_constant {index : Fin 32768} {height constants : Nat}
    (h : (read ⟨.constant, index⟩).checkOperand height constants = .ok ()) :
    index.val < constants := by
  by_cases hlt : index.val < constants
  · exact hlt
  · simp [checkOperand, inputs, minArity, hlt] at h

/-- An instruction with an accepted operand takes and leaves as many values as its static effect
says. -/
theorem leads_exec (env : Environment) (i : Instruction) {alloc rest : Nat}
    (hcheck : i.checkOperand (rest + i.inputs) env.constants.size = .ok ())
    (hroom : rest + i.outputs ≤ alloc) :
    Leads alloc (rest + i.inputs) (rest + i.outputs) (i.exec env) fun _ => True := by
  have harity := minArity_le_of_checkOperand hcheck
  cases i with
  | read source =>
    obtain ⟨bank, index⟩ := source
    cases bank with
    | stack =>
      apply (leads_read (lt_of_checkOperand_stack hcheck)).bind
      intro w _
      exact leads_push w hroom
    | constant =>
      have hindex := lt_of_checkOperand_constant hcheck
      refine leads_pushOr ?_ hroom
      intro hnone
      rw [Array.getElem?_eq_getElem hindex] at hnone
      cases hnone
  | context cell => exact leads_pushOr (fun _ => rfl) hroom
  | contextRow column =>
    apply leads_pop.bind
    intro row _
    exact leads_pushOr (fun _ => rfl) hroom
  | ensure count =>
    apply (leads_popMany count.toNat).bind
    intro values hlength
    cases values.findIdx? (· = 0) with
    | some index => exact .throw rfl
    | none =>
      have hnonempty : values.isEmpty = false := by
        rw [List.isEmpty_eq_false_iff, ← List.length_pos_iff, hlength]
        exact harity
      simp only [hnonempty]
      exact .pure trivial
  | fold op count =>
    have hcount : count.toNat ≠ 0 := by
      simp only [minArity, inputs] at harity
      omega
    apply leads_mode.bind
    intro mode _
    exact leads_foldMany (op.apply mode) hcount hroom
  | isZero => exact leads_unary _ hroom
  | compare op => exact leads_binary _ hroom
  | choose =>
    apply leads_pop.bind
    intro no _
    apply leads_pop.bind
    intro yes _
    apply leads_pop.bind
    intro condition _
    exact leads_push _ hroom
  | any count => exact leads_popMany_push _ hroom
  | every count => exact leads_popMany_push _ hroom
  | to18 decimals => exact leads_unary _ hroom
  | from18 decimals => exact leads_unary _ hroom
  | scaleBy exponent => exact leads_unary _ hroom
  | mul18 decimals => exact leads_binary _ hroom
  | div18 decimals => exact leads_binary _ hroom
  | get =>
    apply leads_pop.bind
    intro key _
    apply (leads_load key).bind
    intro w _
    exact leads_push w hroom
  | set =>
    apply leads_pop.bind
    intro value _
    apply leads_pop.bind
    intro key _
    exact leads_store key value
  | hash count => exact leads_popMany_push _ hroom
  | explode =>
    apply leads_pop.bind
    intro w _
    exact leads_forM_push Time.toWord Vector.length_toList hroom
  | tierAt tier => exact leads_unary _ hroom
  | tierSet range => exact leads_binary _ hroom
  | tierElapsed => exact leads_binary _ hroom
  | tierSelect selection =>
    apply leads_pop.bind
    intro reference _
    exact leads_popMany_push _ hroom

end Instruction

end Bourse
