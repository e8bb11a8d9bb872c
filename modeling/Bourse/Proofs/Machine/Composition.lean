import Bourse.Machine.Exec

/-!
# What instructions are made of

Every instruction is a sequence of a few accesses to the machine. So a judgment on accesses that
holds of these few and is kept by sequencing holds of every instruction, and the table of
instructions is gone through once for all such judgments. Only one instruction stores a scratch
value, so a judgment that need not hold of storing one still holds of all others; and a judgment
that need not hold of looking at scratch values or below the top of the stack either holds of all
but the three that do these things.
-/

namespace Bourse

namespace Machine

/-- The judgment holds of the single accesses to the top of the stack and to the mode, and is kept
by sequencing. -/
structure TopOnly (J : {α : Type} → Access α → Prop) : Prop where
  pure : ∀ {α : Type} (a : α), J (Pure.pure a : Access α)
  throw : ∀ {α : Type} (cause : Fault), J (MonadExcept.throw cause : Access α)
  bind : ∀ {α β : Type} {x : Access α} {f : α → Access β}, J x → (∀ a, J (f a)) → J (x >>= f)
  push : ∀ w, J (push w)
  pop : J pop
  popMany : ∀ count, J (popMany count)
  mode : J mode
  amount : ∀ result, J (amount result)

/-- The judgment holds of the single accesses to a machine, storing a scratch value apart, and is
kept by sequencing. -/
structure Storeless (J : {α : Type} → Access α → Prop) : Prop extends TopOnly J where
  read : ∀ index, J (read index)
  load : ∀ key, J (load key)

/-- The judgment holds of the single accesses to a machine and is kept by sequencing. -/
structure Compositional (J : {α : Type} → Access α → Prop) : Prop extends Storeless J where
  store : ∀ key value, J (store key value)

namespace TopOnly

variable {J : {α : Type} → Access α → Prop} (h : TopOnly J)

include h

theorem unary (f : Word → Except ArithmeticError Word) : J (unary f) := by
  apply h.bind h.pop
  intro a
  exact h.bind (h.amount (f a)) h.push

theorem binary (f : Word → Word → Except ArithmeticError Word) : J (binary f) := by
  apply h.bind h.pop
  intro b
  apply h.bind h.pop
  intro a
  exact h.bind (h.amount (f a b)) h.push

/-- Folding the topmost values is composed of accesses to the top. -/
theorem foldMany (f : Word → Word → Except ArithmeticError Word) (count : Nat) :
    J (foldMany f count) := by
  apply h.bind (h.popMany count)
  intro values
  cases values with
  | nil => exact h.throw _
  | cons first rest => exact h.bind (h.amount (rest.foldlM f first)) h.push

theorem popMany_push (count : Nat) (f : List Word → Word) :
    J (Machine.popMany count >>= fun values => Machine.push (f values)) :=
  h.bind (h.popMany count) fun values => h.push (f values)

/-- Pushing a value that may be missing is composed of accesses to the top. -/
theorem pushOr (fault : Fault) (w? : Option Word) : J (pushOr fault w?) := by
  cases w? with
  | none => exact h.throw fault
  | some w => exact h.push w

theorem forM_push {α : Type} (f : α → Word) (xs : List α) :
    J (xs.forM fun x => Machine.push (f x)) := by
  induction xs with
  | nil => exact h.pure ()
  | cons x xs ih => exact h.bind (h.push (f x)) fun _ => ih

/-- All instructions but the reads within the stack and the two for scratch values only touch the
top. -/
theorem exec (env : Environment) (i : Instruction) (hread : ∀ index, i ≠ .read ⟨.stack, index⟩)
    (hget : i ≠ .get) (hset : i ≠ .set) : J (i.exec env) := by
  cases i with
  | read source =>
    obtain ⟨bank, index⟩ := source
    cases bank with
    | stack => exact absurd rfl (hread index)
    | constant => exact h.pushOr _ _
  | context cell => exact h.pushOr _ _
  | contextRow column => exact h.bind h.pop fun row => h.pushOr _ _
  | ensure count =>
    apply h.bind (h.popMany count.toNat)
    intro values
    cases values.findIdx? (· = 0) with
    | some index => exact h.throw _
    | none =>
      cases values.isEmpty with
      | true => exact h.throw _
      | false => exact h.pure ()
  | fold op count => exact h.bind h.mode fun mode => h.foldMany (op.apply mode) count.toNat
  | isZero => exact h.unary _
  | compare op => exact h.binary _
  | choose =>
    apply h.bind h.pop
    intro no
    apply h.bind h.pop
    intro yes
    apply h.bind h.pop
    intro condition
    exact h.push _
  | any count => exact h.popMany_push _ _
  | every count => exact h.popMany_push _ _
  | to18 decimals => exact h.unary _
  | from18 decimals => exact h.unary _
  | scaleBy exponent => exact h.unary _
  | mul18 decimals => exact h.binary _
  | div18 decimals => exact h.binary _
  | get => exact absurd rfl hget
  | set => exact absurd rfl hset
  | hash count => exact h.popMany_push _ _
  | explode => exact h.bind h.pop fun w => h.forM_push _ _
  | tierAt tier => exact h.unary _
  | tierSet range => exact h.binary _
  | tierElapsed => exact h.binary _
  | tierSelect selection => exact h.bind h.pop fun reference => h.popMany_push _ _

end TopOnly

/-- All instructions but the one that stores do without the rule for storing. -/
theorem Storeless.exec {J : {α : Type} → Access α → Prop} (h : Storeless J) (env : Environment)
    (i : Instruction) (hset : i ≠ .set) : J (i.exec env) := by
  by_cases hget : i = .get
  · subst hget
    apply h.bind h.pop
    intro key
    exact h.bind (h.load key) h.push
  · by_cases hread : ∃ index, i = .read ⟨.stack, index⟩
    · obtain ⟨index, rfl⟩ := hread
      exact h.bind (h.read index.val) h.push
    · exact h.toTopOnly.exec env i (not_exists.mp hread) hget hset

namespace Compositional

variable {J : {α : Type} → Access α → Prop}

/-- Every instruction is composed of the accesses that have a rule. -/
theorem exec (h : Compositional J) (env : Environment) (i : Instruction) : J (i.exec env) := by
  by_cases hset : i = .set
  · subst hset
    apply h.bind h.pop
    intro value
    apply h.bind h.pop
    intro key
    exact h.store key value
  · exact h.toStoreless.exec env i hset

end Compositional

/-- The access does not touch this part of the machine. -/
def Keeps {β : Type} (part : Machine → β) {α : Type} (x : Access α) : Prop :=
  ∀ m a m', x m = .ok a m' → part m' = part m

section

variable {β : Type} {part : Machine → β}

/-- Only storing a scratch value touches more than the stack. -/
theorem storeless_keeps (hstack : ∀ (m : Machine) stack, part { m with stack } = part m) :
    Storeless (Keeps part) where
  pure := by
    rintro α a m _ _ ⟨⟩
    rfl
  throw := by
    rintro α cause m _ _ ⟨⟩
  bind := by
    intro α β x f hx hf m b m' h
    simp only [Bind.bind, EStateM.bind] at h
    split at h
    · next a n hfirst => rw [hf a n b m' h, hx m a n hfirst]
    · cases h
  push := by
    intro w m _ m' h
    rw [Machine.push] at h
    split at h <;> cases h
    exact hstack m _
  pop := by
    intro m _ m' h
    rw [Machine.pop] at h
    split at h <;> cases h
    exact hstack m _
  popMany := by
    intro count m _ m' h
    rw [Machine.popMany] at h
    split at h <;> cases h
    exact hstack m _
  read := by
    intro index m _ m' h
    rw [Machine.read] at h
    split at h <;> cases h
    rfl
  mode := by
    rintro m _ _ ⟨⟩
    rfl
  load := by
    rintro key m _ _ ⟨⟩
    rfl
  amount := by
    rintro (cause | w) m _ _ ⟨⟩
    rfl

/-- What is neither on the stack nor a scratch value is not touched. -/
theorem compositional_keeps (hstack : ∀ (m : Machine) stack, part { m with stack } = part m)
    (hscratch : ∀ (m : Machine) scratch, part { m with scratch } = part m) :
    Compositional (Keeps part) where
  toStoreless := storeless_keeps hstack
  store := by
    rintro key value m _ _ ⟨⟩
    exact hscratch m _

end

end Machine

end Bourse
