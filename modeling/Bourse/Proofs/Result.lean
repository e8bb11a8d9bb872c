/-!
# Results of computations that can fail

A computation written as a sequence of steps succeeds exactly when each step does, with the value
that the next step is given. These equations take such a sequence apart from its result.
-/

namespace Bourse

variable {ε ε' α β : Type}

/-- A sequence of two steps succeeds through the value of the first. -/
theorem bind_eq_ok_iff {x : Except ε α} {f : α → Except ε β} {b : β} :
    x >>= f = .ok b ↔ ∃ a, x = .ok a ∧ f a = .ok b := by
  cases x with
  | error e => simp [bind, Except.bind]
  | ok a => simp [bind, Except.bind]

/-- What is returned is the result. -/
theorem pure_eq_ok_iff {a b : α} : (pure a : Except ε α) = .ok b ↔ a = b := by
  simp [pure, Except.pure]

/-- Naming a failure differently does not touch a success. -/
theorem mapError_eq_ok_iff {f : ε → ε'} {x : Except ε α} {a : α} :
    x.mapError f = .ok a ↔ x = .ok a := by
  cases x with
  | error e => exact iff_of_false (by rintro ⟨⟩) (by rintro ⟨⟩)
  | ok a' =>
    constructor
    · rintro ⟨⟩
      rfl
    · rintro ⟨⟩
      rfl

/-- A computation goes on with the result of its first part. -/
theorem ok_bind (a : α) (f : α → Except ε β) : (.ok a : Except ε α) >>= f = f a := rfl

theorem ok_mapError (a : α) (f : ε → ε') : (.ok a : Except ε α).mapError f = .ok a := rfl

/-- An error may be renamed part by part. -/
theorem mapError_bind (g : ε → ε') (x : Except ε α) (f : α → Except ε β) :
    (x >>= f).mapError g = x.mapError g >>= fun a => (f a).mapError g := by
  cases x <;> rfl

/-- What is known of a success tells that it is one. -/
theorem exists_of_toOption_map_eq_some {x : Except ε α} {f : α → β} {b : β}
    (h : x.toOption.map f = some b) : ∃ a, x = .ok a ∧ f a = b := by
  cases x with
  | error e => cases h
  | ok a => exact ⟨a, rfl, Option.some.inj h⟩

/-- A fold succeeds step by step: what holds at its start and is kept by each step holds at its
end. -/
theorem foldlM_eq_ok_induction {f : β → α → Except ε β} {P : β → Prop} {xs : List α} {b c : β}
    (h : xs.foldlM f b = .ok c) (hb : P b)
    (hstep : ∀ b x c, x ∈ xs → P b → f b x = .ok c → P c) : P c := by
  induction xs generalizing b with
  | nil =>
    rw [List.foldlM_nil, pure_eq_ok_iff] at h
    exact h ▸ hb
  | cons x xs ih =>
    rw [List.foldlM_cons, bind_eq_ok_iff] at h
    obtain ⟨d, hd, hrest⟩ := h
    refine ih hrest (hstep b x d (List.mem_cons_self ..) hb hd) ?_
    intro b' y c' hy
    exact hstep b' y c' (List.mem_cons_of_mem _ hy)

/-- A fold goes on from where it has come to. -/
theorem foldlM_append_cons_of_ok {f : β → α → Except ε β} {done : List α} {b c : β}
    (h : done.foldlM f b = .ok c) (x : α) (rest : List α) :
    (done ++ x :: rest).foldlM f b = f c x >>= fun d => rest.foldlM f d := by
  rw [List.foldlM_append, h, ok_bind, List.foldlM_cons]

/-- A map fails with the failure of the first element that has one. -/
theorem mapM_eq_error_iff {f : α → Except ε β} {xs : List α} {e : ε} :
    xs.mapM f = .error e ↔ ∃ (k : Nat) (x : α), xs[k]? = some x ∧ f x = .error e ∧
      ∀ j < k, ∀ y, xs[j]? = some y → ∃ b, f y = .ok b := by
  induction xs with
  | nil => simp [pure, Except.pure]
  | cons x xs ih =>
    cases hx : f x with
    | error e' =>
      have hfirst : (x :: xs).mapM f = .error e' := by
        rw [List.mapM_cons, hx]
        rfl
      rw [hfirst]
      constructor
      · intro h
        cases h
        exact ⟨0, x, rfl, hx, fun j hj => absurd hj (Nat.not_lt_zero j)⟩
      · rintro ⟨k, y, hy, hfail, hbefore⟩
        cases k with
        | zero =>
          cases hy
          rw [hx] at hfail
          cases hfail
          rfl
        | succ k =>
          obtain ⟨b, hb⟩ := hbefore 0 (Nat.succ_pos k) x rfl
          rw [hx] at hb
          cases hb
    | ok b =>
      have hrest : (x :: xs).mapM f = .error e ↔ xs.mapM f = .error e := by
        rw [List.mapM_cons, hx]
        cases xs.mapM f <;> simp [bind, Except.bind, pure, Except.pure]
      rw [hrest, ih]
      constructor
      · rintro ⟨k, y, hy, hfail, hbefore⟩
        refine ⟨k + 1, y, hy, hfail, ?_⟩
        intro j hj z hz
        cases j with
        | zero =>
          cases hz
          exact ⟨b, hx⟩
        | succ j => exact hbefore j (Nat.lt_of_succ_lt_succ hj) z hz
      · rintro ⟨k, y, hy, hfail, hbefore⟩
        cases k with
        | zero =>
          cases hy
          rw [hx] at hfail
          cases hfail
        | succ k => exact ⟨k, y, hy, hfail, fun j hj => hbefore (j + 1) (Nat.succ_lt_succ hj)⟩

/-- A successful map has a value for each element, at the same place. -/
theorem mapM_getElem?_eq_some {f : α → Except ε β} {xs : List α} {ys : List β}
    (h : xs.mapM f = .ok ys) {index : Nat} {x : α} (hx : xs[index]? = some x) :
    ∃ y, ys[index]? = some y ∧ f x = .ok y := by
  induction xs generalizing ys index with
  | nil => cases hx
  | cons first xs ih =>
    simp only [List.mapM_cons, bind_eq_ok_iff, pure_eq_ok_iff] at h
    obtain ⟨y, hy, rest, hrest, rfl⟩ := h
    cases index with
    | zero =>
      cases hx
      exact ⟨y, rfl, hy⟩
    | succ index => exact ih hrest hx

/-- A map succeeds with the same values if each element has the same value. -/
theorem mapM_eq_ok_of_imp {f g : α → Except ε β} {xs : List α} {ys : List β}
    (h : xs.mapM f = .ok ys) (hg : ∀ x ∈ xs, ∀ y, f x = .ok y → g x = .ok y) :
    xs.mapM g = .ok ys := by
  induction xs generalizing ys with
  | nil => exact h
  | cons x xs ih =>
    simp only [List.mapM_cons, bind_eq_ok_iff, pure_eq_ok_iff] at h ⊢
    obtain ⟨y, hy, rest, hrest, rfl⟩ := h
    rw [List.forall_mem_cons] at hg
    exact ⟨y, hg.1 y hy, rest, ih hrest hg.2, rfl⟩

/-- A map succeeds exactly when each element has a value. -/
theorem exists_mapM_eq_ok_iff {f : α → Except ε β} {xs : List α} :
    (∃ ys, xs.mapM f = .ok ys) ↔ ∀ (k : Nat) (x : α), xs[k]? = some x → ∃ y, f x = .ok y := by
  constructor
  · rintro ⟨ys, hys⟩ k x hx
    obtain ⟨y, _, hy⟩ := mapM_getElem?_eq_some hys hx
    exact ⟨y, hy⟩
  · intro h
    cases hmap : xs.mapM f with
    | ok ys => exact ⟨ys, rfl⟩
    | error e =>
      obtain ⟨k, x, hx, hfail, _⟩ := mapM_eq_error_iff.mp hmap
      obtain ⟨y, hy⟩ := h k x hx
      rw [hfail] at hy
      cases hy

/-- Whatever the computation fails with satisfies `P`. -/
def FailsOnly (P : ε → Prop) (x : Except ε α) : Prop := ∀ e, x = .error e → P e

namespace FailsOnly

variable {P : ε → Prop}

/-- A result is no failure. -/
theorem ok (a : α) : FailsOnly P (.ok a : Except ε α) := by
  intro e h
  cases h

/-- A failure with an admitted cause. -/
theorem error {e : ε} (h : P e) : FailsOnly P (.error e : Except ε α) := by
  intro e' h'
  cases h'
  exact h

/-- Both parts of a computation fail with an admitted cause only; the second one is only looked at
for results that the first one has. -/
theorem bind {x : Except ε α} {f : α → Except ε β} (hx : FailsOnly P x)
    (hf : ∀ a, x = .ok a → FailsOnly P (f a)) : FailsOnly P (x >>= f) := by
  cases x with
  | error e => exact error (hx e rfl)
  | ok a => exact hf a rfl

/-- A renamed cause is admitted if the cause is admitted under its new name. -/
theorem mapError {f : ε → ε'} {P : ε' → Prop} {x : Except ε α}
    (h : FailsOnly (fun e => P (f e)) x) : FailsOnly P (x.mapError f) := by
  cases x with
  | error e => exact error (h e rfl)
  | ok a => exact ok a

/-- A fold fails only so if each step that it comes to does. -/
theorem foldlM_of_reached {f : β → α → Except ε β} {xs : List α} {b : β}
    (hstep : ∀ done x rest c, xs = done ++ x :: rest → done.foldlM f b = .ok c →
      FailsOnly P (f c x)) :
    FailsOnly P (xs.foldlM f b) := by
  induction xs generalizing b with
  | nil => exact ok b
  | cons x xs ih =>
    rw [List.foldlM_cons]
    refine (hstep [] x xs b rfl rfl).bind fun c hc => ih ?_
    intro done y rest d hxs hdone
    refine hstep (x :: done) y rest d (congrArg (x :: ·) hxs) ?_
    rw [List.foldlM_cons, hc]
    exact hdone

end FailsOnly

/-- A fold fails with the failure of a step that it comes to. -/
theorem exists_of_foldlM_eq_error {f : β → α → Except ε β} {xs : List α} {b : β} {e : ε}
    (h : xs.foldlM f b = .error e) :
    ∃ done x rest c, xs = done ++ x :: rest ∧ done.foldlM f b = .ok c ∧ f c x = .error e := by
  refine FailsOnly.foldlM_of_reached (P := fun e => ∃ done x rest c, xs = done ++ x :: rest ∧
    done.foldlM f b = .ok c ∧ f c x = .error e) ?_ e h
  intro done x rest c hxs hdone e' hfail
  exact ⟨done, x, rest, c, hxs, hdone, hfail⟩

/-- Two computations end alike: with related values, or with the same failure. -/
inductive Alike (R : α → β → Prop) : Except ε α → Except ε β → Prop
  | ok {a : α} {b : β} (h : R a b) : Alike R (.ok a) (.ok b)
  | error (e : ε) : Alike R (.error e) (.error e)

namespace Alike

variable {γ δ : Type} {R : α → β → Prop} {S : γ → δ → Prop} {x : Except ε α} {y : Except ε β}

/-- Results that are alike are followed by computations that are alike. -/
theorem bind {f : α → Except ε γ} {g : β → Except ε δ} (h : Alike R x y)
    (hf : ∀ a b, R a b → Alike S (f a) (g b)) : Alike S (x >>= f) (y >>= g) := by
  cases h with
  | ok hab => exact hf _ _ hab
  | error e => exact .error e

/-- The same computation before two that end alike. -/
theorem bind_same {z : Except ε α} {f : α → Except ε γ} {g : α → Except ε δ}
    (hf : ∀ a, Alike S (f a) (g a)) : Alike S (z >>= f) (z >>= g) := by
  cases z with
  | error e => exact .error e
  | ok a => exact hf a

/-- Results stay alike when their errors are renamed. -/
theorem mapError {f : ε → ε'} (h : Alike R x y) : Alike R (x.mapError f) (y.mapError f) := by
  cases h with
  | ok hab => exact .ok hab
  | error e => exact .error (f e)

/-- Folds with steps that end alike end alike. -/
theorem foldlM {f : α → γ → Except ε α} {g : β → γ → Except ε β}
    (hstep : ∀ a b c, R a b → Alike R (f a c) (g b c)) (cs : List γ) {a : α} {b : β} (h : R a b) :
    Alike R (cs.foldlM f a) (cs.foldlM g b) := by
  induction cs generalizing a b with
  | nil => exact .ok h
  | cons c cs ih =>
    rw [List.foldlM_cons, List.foldlM_cons]
    exact (hstep a b c h).bind fun a' b' h' => ih h'

/-- Where the first one succeeds, so does the second. -/
theorem exists_of_left {a : α} (h : Alike R x y) (hx : x = .ok a) : ∃ b, y = .ok b ∧ R a b := by
  cases h with
  | ok hab =>
    cases hx
    exact ⟨_, rfl, hab⟩
  | error e => cases hx

/-- Where the second one succeeds, so does the first. -/
theorem exists_of_right {b : β} (h : Alike R x y) (hy : y = .ok b) : ∃ a, x = .ok a ∧ R a b := by
  cases h with
  | ok hab =>
    cases hy
    exact ⟨_, rfl, hab⟩
  | error e => cases hy

end Alike

end Bourse
