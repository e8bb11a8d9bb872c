import Bourse.Evaluation

/-!
# Two machines side by side

Two machines that differ only in what a program does not look at are taken through the same
accesses. An access that starts on both with what it looks at being the same ends alike: with the
same value and machines that again differ only so, or with the same fault. Whatever may differ is
a parameter here; each use names the relation between its machines and shows that accesses keep
it.
-/

namespace Bourse

/-- Whether the reading of results that leave the range of words matters to the operation. -/
def FoldOp.heedsMode : FoldOp → Bool
  | .add | .sub | .mul | .exp => true
  | .div | .rem | .min | .max | .addSat | .subSat | .mulSat => false

/-- An operation that does not heed the mode is the same in both. -/
theorem FoldOp.apply_eq_of_heedsMode {op : FoldOp} (h : op.heedsMode = false)
    (mode mode' : ArithmeticMode) : op.apply mode = op.apply mode' := by
  cases op <;> first | rfl | cases h

/-- Whether the reading of results that leave the range of words matters to the instruction. -/
def Instruction.heedsMode : Instruction → Bool
  | .fold op _ => op.heedsMode
  | _ => false

namespace Machine

/-- Related machines show a program the same stack and the same scratch values, and remain related
when the same is done to both. -/
structure Indistinct (R : Machine → Machine → Prop) : Prop where
  stack : ∀ {m n}, R m n → m.stack = n.stack
  alloc : ∀ {m n}, R m n → m.alloc = n.alloc
  read : ∀ {m n}, R m n → ∀ key, m.scratch.read key = n.scratch.read key
  setStack : ∀ {m n}, R m n → ∀ stack, R { m with stack } { n with stack }
  store : ∀ {m n}, R m n → ∀ key value, R { m with scratch := m.scratch.insert key value }
    { n with scratch := n.scratch.insert key value }

/-- Two results of an access: the same value on related machines, or the same failure. -/
inductive EndAlike {ε α : Type} (R : Machine → Machine → Prop) :
    EStateM.Result ε Machine α → EStateM.Result ε Machine α → Prop
  | ok {m n : Machine} (a : α) (h : R m n) : EndAlike R (.ok a m) (.ok a n)
  | error (e : ε) (m n : Machine) : EndAlike R (.error e m) (.error e n)

/-- On related machines the two accesses end alike. -/
def Coupled {ε α : Type} (R : Machine → Machine → Prop) (x y : EStateM ε Machine α) : Prop :=
  ∀ m n, R m n → EndAlike R (x m) (y n)

namespace Coupled

variable {ε α β : Type} {R : Machine → Machine → Prop}

/-- Returning a value leaves the machines coupled. -/
theorem pure (a : α) : Coupled R (Pure.pure a : EStateM ε Machine α) (Pure.pure a) := by
  intro m n h
  exact .ok a h

/-- Both machines fail with the same cause. -/
theorem throw (e : ε) :
    Coupled R (MonadExcept.throw e : EStateM ε Machine α) (MonadExcept.throw e) := by
  intro m n _
  exact .error e m n

/-- Computations that keep the machines coupled can be put one after the other. -/
theorem bind {x y : EStateM ε Machine α} {f g : α → EStateM ε Machine β} (hx : Coupled R x y)
    (hf : ∀ a, Coupled R (f a) (g a)) : Coupled R (x >>= f) (y >>= g) := by
  intro m n h
  have hfirst := hx m n h
  simp only [Bind.bind, EStateM.bind]
  generalize x m = r at hfirst
  generalize y n = s at hfirst
  cases hfirst with
  | @ok m' n' a h' => exact hf a m' n' h'
  | error e m' n' => exact .error e m' n'

/-- Renaming a cause keeps the machines coupled. -/
theorem adaptExcept {ε' : Type} {x y : EStateM ε Machine α} (f : ε → ε') (h : Coupled R x y) :
    Coupled R (x.adaptExcept f) (y.adaptExcept f) := by
  intro m n hmn
  have hend := h m n hmn
  simp only [EStateM.adaptExcept]
  generalize x m = r at hend
  generalize y n = s at hend
  cases hend with
  | ok a h' => exact .ok a h'
  | error e m' n' => exact .error (f e) m' n'

end Coupled

section

variable {R : Machine → Machine → Prop} (hR : Indistinct R)

include hR

/-- Coupled machines take the same push, or are both full. -/
theorem coupled_push (w : Word) : Coupled R (push w) (push w) := by
  intro m n h
  have hstack := hR.stack h
  have halloc := hR.alloc h
  rw [push, push, hstack]
  by_cases hroom : n.stack.size < n.alloc
  · rw [if_pos (halloc ▸ hroom), if_pos hroom]
    exact .ok () (hR.setStack h _)
  · rw [if_neg (halloc ▸ hroom), if_neg hroom, halloc]
    exact .error _ m n

/-- Coupled machines have the same word on top, or none. -/
theorem coupled_pop : Coupled R pop pop := by
  intro m n h
  have hstack := hR.stack h
  simp only [pop, hstack]
  split
  · exact .ok _ (hR.setStack h _)
  · exact .error _ m n

/-- Coupled machines have the same words on top. -/
theorem coupled_popMany (count : Nat) : Coupled R (popMany count) (popMany count) := by
  intro m n h
  have hstack := hR.stack h
  simp only [popMany, hstack]
  split
  · exact .ok _ (hR.setStack h _)
  · exact .error _ m n

/-- Coupled machines have the same word at an index. -/
theorem coupled_read (index : Nat) : Coupled R (read index) (read index) := by
  intro m n h
  have hstack := hR.stack h
  simp only [read, hstack]
  split
  · exact .ok _ h
  · exact .error _ m n

theorem coupled_load (key : Word) : Coupled R (load key) (load key) := by
  intro m n h
  rw [load, load, hR.read h key]
  exact .ok _ h

theorem coupled_store (key value : Word) : Coupled R (store key value) (store key value) := by
  intro m n h
  exact .ok () (hR.store h key value)

omit hR in
theorem coupled_amount (result : Except ArithmeticError Word) :
    Coupled R (amount result) (amount result) := by
  intro m n h
  cases result with
  | ok w => exact .ok w h
  | error cause => exact .error _ m n

theorem coupled_unary (f : Word → Except ArithmeticError Word) : Coupled R (unary f) (unary f) := by
  apply (coupled_pop hR).bind
  intro a
  apply (coupled_amount (f a)).bind
  intro w
  exact coupled_push hR w

theorem coupled_binary (f : Word → Word → Except ArithmeticError Word) :
    Coupled R (binary f) (binary f) := by
  apply (coupled_pop hR).bind
  intro b
  apply (coupled_pop hR).bind
  intro a
  apply (coupled_amount (f a b)).bind
  intro w
  exact coupled_push hR w

/-- Folding the topmost values in the same way keeps the machines coupled. -/
theorem coupled_foldMany (f : Word → Word → Except ArithmeticError Word) (count : Nat) :
    Coupled R (foldMany f count) (foldMany f count) := by
  apply (coupled_popMany hR count).bind
  intro values
  cases values with
  | nil => exact .throw _
  | cons first rest =>
    apply (coupled_amount (rest.foldlM f first)).bind
    intro w
    exact coupled_push hR w

/-- Replacing the topmost values in the same way keeps the machines coupled. -/
theorem coupled_popMany_push (count : Nat) (f : List Word → Word) :
    Coupled R (popMany count >>= fun values => push (f values))
      (popMany count >>= fun values => push (f values)) := by
  apply (coupled_popMany hR count).bind
  intro values
  exact coupled_push hR (f values)

/-- Coupled machines both push the value or both lack it. -/
theorem coupled_pushOr (fault : Fault) (w? : Option Word) :
    Coupled R (pushOr fault w?) (pushOr fault w?) := by
  cases w? with
  | none => exact .throw fault
  | some w => exact coupled_push hR w

theorem coupled_forM_push {α : Type} (f : α → Word) (xs : List α) :
    Coupled R (xs.forM fun x => push (f x)) (xs.forM fun x => push (f x)) := by
  induction xs with
  | nil => exact .pure ()
  | cons x xs ih =>
    apply (coupled_push hR (f x)).bind
    intro _
    exact ih

end

end Machine

namespace Instruction

open Machine

/-- An instruction ends alike on related machines, if they agree on the mode or it does not
matter. -/
theorem coupled_exec {R : Machine → Machine → Prop} (hR : Indistinct R) (env : Environment)
    (i : Instruction)
    (hmode : i.heedsMode = true → ∀ {m n}, R m n → m.settings.mode = n.settings.mode) :
    Coupled R (i.exec env) (i.exec env) := by
  cases i with
  | read source =>
    obtain ⟨bank, index⟩ := source
    cases bank with
    | stack =>
      apply (coupled_read hR index.val).bind
      intro w
      exact coupled_push hR w
    | constant => exact coupled_pushOr hR _ _
  | context cell => exact coupled_pushOr hR _ _
  | contextRow column =>
    apply (coupled_pop hR).bind
    intro row
    exact coupled_pushOr hR _ _
  | ensure count =>
    apply (coupled_popMany hR count.toNat).bind
    intro values
    cases values.findIdx? (· = 0) with
    | some index => exact .throw _
    | none =>
      cases values.isEmpty with
      | true => exact .throw _
      | false => exact .pure ()
  | fold op count =>
    intro m n h
    have hcombine : op.apply m.settings.mode = op.apply n.settings.mode := by
      cases hop : op.heedsMode with
      | true => rw [hmode hop h]
      | false => exact FoldOp.apply_eq_of_heedsMode hop _ _
    have hfold := coupled_foldMany hR (op.apply n.settings.mode) count.toNat m n h
    show EndAlike R (foldMany (op.apply m.settings.mode) count.toNat m) _
    rw [hcombine]
    exact hfold
  | isZero => exact coupled_unary hR _
  | compare op => exact coupled_binary hR _
  | choose =>
    apply (coupled_pop hR).bind
    intro no
    apply (coupled_pop hR).bind
    intro yes
    apply (coupled_pop hR).bind
    intro condition
    exact coupled_push hR _
  | any count => exact coupled_popMany_push hR _ _
  | every count => exact coupled_popMany_push hR _ _
  | to18 decimals => exact coupled_unary hR _
  | from18 decimals => exact coupled_unary hR _
  | scaleBy exponent => exact coupled_unary hR _
  | mul18 decimals => exact coupled_binary hR _
  | div18 decimals => exact coupled_binary hR _
  | get =>
    apply (coupled_pop hR).bind
    intro key
    apply (coupled_load hR key).bind
    intro w
    exact coupled_push hR w
  | set =>
    apply (coupled_pop hR).bind
    intro value
    apply (coupled_pop hR).bind
    intro key
    exact coupled_store hR key value
  | hash count => exact coupled_popMany_push hR _ _
  | explode =>
    apply (coupled_pop hR).bind
    intro w
    exact coupled_forM_push hR _ _
  | tierAt tier => exact coupled_unary hR _
  | tierSet range => exact coupled_binary hR _
  | tierElapsed => exact coupled_binary hR _
  | tierSelect selection =>
    apply (coupled_pop hR).bind
    intro reference
    exact coupled_popMany_push hR _ _

end Instruction

namespace Machine

section

variable {R : Machine → Machine → Prop} (hR : Indistinct R)
  (hmode : ∀ {m n}, R m n → m.settings.mode = n.settings.mode)
  (hpay : ∀ cost, Coupled R (pay cost) (pay cost))

include hR hmode hpay

/-- A unit ends alike on related machines that are run and pay in the same way. -/
theorem coupled_runUnit (env : Environment) (u : CodeUnit) :
    Coupled R (runUnit env u) (runUnit env u) := by
  rw [runUnit]
  cases u.content with
  | error cause => exact .throw _
  | ok i =>
    apply (i.coupled_exec hR env fun _ => hmode).bind
    intro _
    exact hpay i.complexity

/-- If every unit keeps the machines coupled then so does the whole code. -/
theorem coupled_runUnits (env : Environment) (us : List CodeUnit) :
    Coupled R (runUnits env us) (runUnits env us) := by
  induction us with
  | nil => exact .pure ()
  | cons u us ih =>
    apply ((coupled_runUnit hR hmode hpay env u).adaptExcept _).bind
    intro _
    exact ih

end

end Machine

end Bourse
