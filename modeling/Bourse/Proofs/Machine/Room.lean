import Bourse.Evaluation
import Bourse.Proofs.Machine.Composition

/-!
# Less room on the stack

Nothing that an instruction does depends on how much room the stack has, except that it overflows
when there is no more. So with less room a run does the same as with more room, on a stack that
fits the smaller room, until it overflows.
-/

namespace Bourse.Machine

/-- The same machine with room for so many values. -/
def withRoom (m : Machine) (alloc : Nat) : Machine := { m with alloc }

@[simp] theorem alloc_withRoom (m : Machine) (alloc : Nat) : (m.withRoom alloc).alloc = alloc := rfl

@[simp] theorem height_withRoom (m : Machine) (alloc : Nat) :
    (m.withRoom alloc).height = m.height := rfl

@[simp] theorem withRoom_withRoom (m : Machine) (room alloc : Nat) :
    (m.withRoom room).withRoom alloc = m.withRoom alloc := rfl

@[simp] theorem withRoom_alloc (m : Machine) : m.withRoom m.alloc = m := rfl

/-- A machine starts alike with any room. -/
@[simp] theorem withRoom_start (settings : Settings) (room alloc : Nat) (scratch : Scratch) :
    (start settings room scratch).withRoom alloc = start settings alloc scratch := rfl

/-- Where there is room for `room` values the result is the first one, and the second one where
there is room for `alloc` values only. -/
inductive Narrowed {α : Type} (alloc room : Nat) :
    EStateM.Result Fault Machine α → EStateM.Result Fault Machine α → Prop
  | ok {m : Machine} (a : α) (room_eq : m.alloc = room) (fits : m.height ≤ alloc) :
      Narrowed alloc room (.ok a m) (.ok a (m.withRoom alloc))
  | error (cause : Fault) (m : Machine) :
      Narrowed alloc room (.error cause m) (.error cause (m.withRoom alloc))
  | overflow (r : EStateM.Result Fault Machine α) (m : Machine) :
      Narrowed alloc room r (.error (.stackOverflow alloc) m)

/-- With room for `alloc` values the access does the same as with room for `room` values, or it
overflows. -/
def Narrows {α : Type} (alloc room : Nat) (x : Access α) : Prop :=
  ∀ m : Machine, m.alloc = room → m.height ≤ alloc →
    Narrowed alloc room (x m) (x (m.withRoom alloc))

namespace Narrows

variable {α β : Type} {alloc room : Nat}

/-- Returning a value needs no room. -/
theorem pure (a : α) : Narrows alloc room (Pure.pure a : Access α) := by
  intro m hroom hfits
  exact .ok a hroom hfits

/-- A failure needs no room. -/
theorem throw (cause : Fault) : Narrows alloc room (MonadExcept.throw cause : Access α) := by
  intro m _ _
  exact .error cause m

/-- The second computation has the same room as the first one. -/
theorem bind {x : Access α} {f : α → Access β} (hx : Narrows alloc room x)
    (hf : ∀ a, Narrows alloc room (f a)) : Narrows alloc room (x >>= f) := by
  intro m hroom hfits
  have hfirst := hx m hroom hfits
  simp only [Bind.bind, EStateM.bind]
  generalize x m = r at hfirst
  generalize x (m.withRoom alloc) = s at hfirst
  cases hfirst with
  | @ok m' a hroom' hfits' => exact hf a m' hroom' hfits'
  | error cause m' => exact .error cause m'
  | overflow r m' => exact .overflow _ m'

/-- With less room a push either does the same or overflows. -/
theorem push (hle : alloc ≤ room) (w : Word) : Narrows alloc room (push w) := by
  intro m hroom hfits
  by_cases hless : m.stack.size < alloc
  · have hwith : Machine.push w (m.withRoom alloc) =
        .ok () (({ m with stack := m.stack.push w } : Machine).withRoom alloc) := if_pos hless
    rw [hwith, Machine.push, if_pos (by omega)]
    refine .ok () hroom ?_
    rw [height, Array.size_push]
    exact hless
  · have hwith : Machine.push w (m.withRoom alloc) =
        .error (.stackOverflow alloc) (m.withRoom alloc) :=
      if_neg hless
    rw [hwith]
    exact .overflow _ _

theorem pop : Narrows alloc room pop := by
  intro m hroom hfits
  have hsize : m.stack.size ≤ alloc := hfits
  simp only [Machine.pop, withRoom]
  split
  · refine .ok _ hroom ?_
    rw [height, Array.size_pop]
    omega
  · exact .error _ m

theorem popMany (count : Nat) : Narrows alloc room (popMany count) := by
  intro m hroom hfits
  have hsize : m.stack.size ≤ alloc := hfits
  have hstack : (m.withRoom alloc).stack = m.stack := rfl
  rw [Machine.popMany, Machine.popMany, hstack]
  split
  · refine .ok _ (m := { m with stack := m.stack.shrink (m.stack.size - count) }) hroom ?_
    rw [height, Array.size_shrink]
    omega
  · exact .error _ m

/-- A read needs no room. -/
theorem read (index : Nat) : Narrows alloc room (read index) := by
  intro m hroom hfits
  simp only [Machine.read, withRoom]
  split
  · exact .ok _ hroom hfits
  · exact .error _ m

/-- The mode does not depend on the room. -/
theorem mode : Narrows alloc room mode := by
  intro m hroom hfits
  exact .ok _ hroom hfits

theorem load (key : Word) : Narrows alloc room (load key) := by
  intro m hroom hfits
  exact .ok _ hroom hfits

theorem store (key value : Word) : Narrows alloc room (store key value) := by
  intro m hroom hfits
  exact .ok () (m := { m with scratch := m.scratch.insert key value }) hroom hfits

/-- Taking an amount needs no room. -/
theorem amount (result : Except ArithmeticError Word) : Narrows alloc room (amount result) := by
  intro m hroom hfits
  cases result with
  | ok w => exact .ok w hroom hfits
  | error cause => exact .error _ m

/-- Paying for an instruction needs no room. -/
theorem pay (cost : Nat) : Narrows alloc room (pay cost) := by
  intro m hroom hfits
  have hlimit : ((m.withRoom alloc).charge cost).withinLimit = (m.charge cost).withinLimit := rfl
  rw [Machine.pay, Machine.pay, hlimit]
  split
  · exact .ok () (m := m.charge cost) hroom hfits
  · exact .error _ (m.charge cost)

/-- The single accesses do, so everything that is made of them does. -/
theorem compositional (hle : alloc ≤ room) : Compositional (Narrows alloc room) where
  pure := Narrows.pure
  throw := Narrows.throw
  bind := Narrows.bind
  push := Narrows.push hle
  pop := Narrows.pop
  popMany := Narrows.popMany
  read := Narrows.read
  mode := Narrows.mode
  load := Narrows.load
  store := Narrows.store
  amount := Narrows.amount

/-- An instruction does the same with less room, or overflows. -/
theorem exec (hle : alloc ≤ room) (env : Environment) (i : Instruction) :
    Narrows alloc room (i.exec env) :=
  (compositional hle).exec env i

/-- A unit of code does the same with less room, or overflows. -/
theorem runUnit (hle : alloc ≤ room) (env : Environment) (u : CodeUnit) :
    Narrows alloc room (runUnit env u) := by
  rw [Machine.runUnit]
  cases u.content with
  | ok i => exact (exec hle env i).bind fun _ => pay i.complexity
  | error cause => exact .throw _

end Narrows

/-- The machine that an access leaves, whether it succeeds or not. -/
def left {α : Type} : EStateM.Result Fault Machine α → Machine
  | .ok _ m | .error _ m => m

/-- A stack that is within its room is so after the access, whether it succeeds or not. -/
def StaysWithin {α : Type} (x : Access α) : Prop :=
  ∀ m : Machine, m.height ≤ m.alloc → (left (x m)).height ≤ (left (x m)).alloc

/-- Every access stays within the room. -/
theorem compositional_staysWithin : Compositional StaysWithin where
  pure := fun _ _ hfits => hfits
  throw := fun _ _ hfits => hfits
  bind := by
    intro α β x f hx hf m hfits
    have hfirst := hx m hfits
    simp only [Bind.bind, EStateM.bind]
    cases hresult : x m with
    | ok a n =>
      rw [hresult] at hfirst
      exact hf a n hfirst
    | error cause n =>
      rw [hresult] at hfirst
      exact hfirst
  push := by
    intro w m hfits
    rw [push]
    split
    · next hless =>
      simp only [left, height, Array.size_push]
      exact hless
    · exact hfits
  pop := by
    intro m hfits
    rw [pop]
    split
    · simp only [left, height, Array.size_pop]
      exact Nat.le_trans (Nat.sub_le _ _) hfits
    · exact hfits
  popMany := by
    intro count m hfits
    rw [popMany]
    split
    · simp only [left, height, Array.size_shrink]
      exact Nat.le_trans (Nat.min_le_right _ _) hfits
    · exact hfits
  read := by
    intro index m hfits
    rw [read]
    split <;> exact hfits
  mode := fun _ hfits => hfits
  load := fun _ _ hfits => hfits
  store := fun _ _ _ hfits => hfits
  amount := by
    intro result m hfits
    cases result <;> exact hfits

/-- No instruction makes a stack higher than its room. -/
theorem height_le_alloc_of_exec (env : Environment) (i : Instruction) {m : Machine}
    (hfits : m.height ≤ m.alloc) : (left (i.exec env m)).height ≤ (left (i.exec env m)).alloc :=
  compositional_staysWithin.exec env i m hfits

end Bourse.Machine
