import Bourse.Machine.Exec
import Bourse.Proofs.Result
import Bourse.Proofs.Word
import Mathlib.Algebra.BigOperators.Group.List.Basic
import Mathlib.Algebra.Ring.Nat

/-!
# Folds in closed form

Words that are combined from left to right lead to one exact expression in the sum or the product
of all of them. Modulo `2 ^ 256`, and clamped to a word, each step may be narrowed on its own,
since what has been cut off does not come back: a remainder is as good as the number, and a
product that was clamped remains too great unless a zero follows. Checked steps succeed up to the
first one that is no word. For sums and differences that is the same as to check the end, because
they only grow and only fall.
-/

namespace Bourse

namespace Word

/-- The exact sum of words. -/
def sum (values : List Word) : Nat := (values.map toNat).sum

/-- The exact product of words. -/
def product (values : List Word) : Nat := (values.map toNat).prod

@[simp] theorem sum_nil : sum [] = 0 := rfl

@[simp] theorem sum_cons (value : Word) (values : List Word) :
    sum (value :: values) = value.toNat + sum values := List.sum_cons

@[simp] theorem product_nil : product [] = 1 := rfl

@[simp] theorem product_cons (value : Word) (values : List Word) :
    product (value :: values) = value.toNat * product values := List.prod_cons

/-- The exact sum does not depend on the order of the values. -/
theorem sum_perm {values others : List Word} (h : values.Perm others) : sum values = sum others :=
  (h.map toNat).sum_eq

theorem product_perm {values others : List Word} (h : values.Perm others) :
    product values = product others :=
  (h.map toNat).prod_eq

variable {narrow : Nat → Word} {f : Nat → Nat → Nat}

/-- Narrowing each step is narrowing the end, if a narrowed number is as good as the number for what
follows. -/
theorem foldl_narrow (h : ∀ n b, narrow (f (narrow n).toNat b) = narrow (f n b))
    (values : List Word) (n : Nat) :
    values.foldl (fun a b => narrow (f a.toNat b.toNat)) (narrow n) =
      narrow ((values.map toNat).foldl f n) := by
  induction values generalizing n with
  | nil => rfl
  | cons value values ih =>
    rw [List.foldl_cons, h, ih]
    rfl

/-- Adding number after number to the first one gives the exact sum of all. -/
theorem foldl_add (first : Word) (values : List Word) :
    (values.map toNat).foldl (· + ·) first.toNat = sum (first :: values) :=
  List.foldl_eq_apply_foldr

/-- Multiplying the first number by one after the other gives the exact product of all. -/
theorem foldl_mul (first : Word) (values : List Word) :
    (values.map toNat).foldl (· * ·) first.toNat = product (first :: values) :=
  List.foldl_eq_apply_foldr

/-- Wrapping a word again changes nothing. -/
theorem wrap_toNat (w : Word) : wrap w.toNat = w := ext (Nat.mod_eq_of_lt w.toNat_lt)

theorem clamp_toNat (w : Word) : clamp w.toNat = w := by
  have hlt := w.toNat_lt
  apply ext
  rw [toNat_clamp]
  omega

/-- Wrapping after each addition is the same as wrapping the exact sum. -/
theorem foldl_addWrap (first : Word) (values : List Word) :
    values.foldl addWrap first = wrap (sum (first :: values)) := by
  have hnarrow : ∀ n b, wrap ((wrap n).toNat + b) = wrap (n + b) := by
    intro n b
    apply ext
    simp only [toNat_wrap, Nat.mod_add_mod]
  have hfold := foldl_narrow hnarrow values first.toNat
  rwa [wrap_toNat, foldl_add] at hfold

/-- Wrapping after each multiplication is the same as wrapping the exact product. -/
theorem foldl_mulWrap (first : Word) (values : List Word) :
    values.foldl mulWrap first = wrap (product (first :: values)) := by
  have hnarrow : ∀ n b, wrap ((wrap n).toNat * b) = wrap (n * b) := by
    intro n b
    apply ext
    simp only [toNat_wrap, Nat.mod_mul_mod]
  have hfold := foldl_narrow hnarrow values first.toNat
  rwa [wrap_toNat, foldl_mul] at hfold

/-- Wrapping after each subtraction leaves the remainder of the exact difference. -/
theorem foldl_subWrap (first : Word) (values : List Word) :
    ((values.foldl subWrap first).toNat : Int) = (first.toNat - sum values) % 2 ^ 256 := by
  induction values generalizing first with
  | nil =>
    have hlt := first.toNat_lt
    simp only [List.foldl_nil, sum_nil]
    omega
  | cons value values ih =>
    have hvalue := value.toNat_lt
    have hstep : ((first.subWrap value).toNat : Int) = (first.toNat - value.toNat) % 2 ^ 256 := by
      rw [toNat_subWrap]
      omega
    rw [List.foldl_cons, ih, hstep, sum_cons, Int.emod_sub_emod]
    push_cast
    rw [Int.sub_sub]

/-- A sum that stops at the top after each addition is the exact one, or the top. -/
theorem foldl_addSat (first : Word) (values : List Word) :
    values.foldl addSat first = clamp (sum (first :: values)) := by
  have hnarrow : ∀ n b, clamp ((clamp n).toNat + b) = clamp (n + b) := by
    intro n b
    apply ext
    simp only [toNat_clamp]
    omega
  have hfold := foldl_narrow hnarrow values first.toNat
  rwa [clamp_toNat, foldl_add] at hfold

/-- A product that was clamped remains too great, or becomes zero as the exact one does. -/
theorem clamp_clamp_mul (n b : Nat) : clamp ((clamp n).toNat * b) = clamp (n * b) := by
  apply ext
  simp only [toNat_clamp]
  rcases Nat.eq_zero_or_pos b with rfl | hb
  · rfl
  by_cases hn : n ≤ 2 ^ 256 - 1
  · rw [Nat.min_eq_left hn]
  · have hless : 2 ^ 256 - 1 ≤ n := by omega
    have hexact : n ≤ n * b := Nat.le_mul_of_pos_right n hb
    have hclamped : 2 ^ 256 - 1 ≤ (2 ^ 256 - 1) * b := Nat.le_mul_of_pos_right _ hb
    rw [Nat.min_eq_right hless, Nat.min_eq_right hclamped,
      Nat.min_eq_right (Nat.le_trans hless hexact)]

/-- A product that stops at the top after each multiplication is the exact one, or the top. -/
theorem foldl_mulSat (first : Word) (values : List Word) :
    values.foldl mulSat first = clamp (product (first :: values)) := by
  have hfold := foldl_narrow clamp_clamp_mul values first.toNat
  rwa [clamp_toNat, foldl_mul] at hfold

/-- A difference that stops at zero after each subtraction is the exact one, or zero. -/
theorem foldl_subSat (first : Word) (values : List Word) :
    (values.foldl subSat first).toNat = first.toNat - sum values := by
  induction values generalizing first with
  | nil => rfl
  | cons value values ih => rw [List.foldl_cons, ih, toNat_subSat, sum_cons, Nat.sub_sub]

/-- Of two words one is picked that compares so with both. Then one of all words is picked that
compares so with each. -/
theorem foldl_pick {pick : Word → Word → Word} {R : Word → Word → Prop} (hrefl : ∀ a, R a a)
    (htrans : ∀ a b c, R a b → R b c → R a c) (hpick : ∀ a b, pick a b = a ∨ pick a b = b)
    (hleft : ∀ a b, R (pick a b) a) (hright : ∀ a b, R (pick a b) b) (first : Word)
    (values : List Word) :
    values.foldl pick first ∈ first :: values ∧
      ∀ v ∈ first :: values, R (values.foldl pick first) v := by
  induction values generalizing first with
  | nil =>
    refine ⟨List.mem_cons_self .., fun v hv => ?_⟩
    rw [List.mem_singleton.mp hv]
    exact hrefl first
  | cons value values ih =>
    obtain ⟨hmem, hall⟩ := ih (pick first value)
    rw [List.foldl_cons]
    have hpicked := hall _ (List.mem_cons_self ..)
    refine ⟨?_, ?_⟩
    · rcases List.mem_cons.mp hmem with heq | hlater
      · rw [heq]
        rcases hpick first value with h | h
        · rw [h]
          exact List.mem_cons_self ..
        · rw [h]
          exact List.mem_cons_of_mem _ (List.mem_cons_self ..)
      · exact List.mem_cons_of_mem _ (List.mem_cons_of_mem _ hlater)
    · intro v hv
      rcases List.mem_cons.mp hv with rfl | hv
      · exact htrans _ _ _ hpicked (hleft v value)
      rcases List.mem_cons.mp hv with rfl | hv
      · exact htrans _ _ _ hpicked (hright first v)
      · exact hall v (List.mem_cons_of_mem _ hv)

/-- The fold finds a value that no other one is below. -/
theorem foldl_min (first : Word) (values : List Word) :
    values.foldl min first ∈ first :: values ∧
      ∀ v ∈ first :: values, values.foldl min first ≤ v := by
  refine foldl_pick (R := fun a b => a ≤ b) (fun a => Nat.le_refl _) (fun a b c => Nat.le_trans) ?_
    min_le_left min_le_right first values
  intro a b
  rcases Nat.le_total a.toNat b.toNat with h | h
  · exact Or.inl (ext (by rw [toNat_min, Nat.min_eq_left h]))
  · exact Or.inr (ext (by rw [toNat_min, Nat.min_eq_right h]))

theorem foldl_max (first : Word) (values : List Word) :
    values.foldl max first ∈ first :: values ∧
      ∀ v ∈ first :: values, v ≤ values.foldl max first := by
  refine foldl_pick (R := fun a b => b ≤ a) (fun a => Nat.le_refl _)
    (fun a b c hab hbc => Nat.le_trans hbc hab) ?_ ?_ ?_ first values
  · intro a b
    rcases Nat.le_total a.toNat b.toNat with h | h
    · exact Or.inr (ext (by rw [toNat_max, Nat.max_eq_right h]))
    · exact Or.inl (ext (by rw [toNat_max, Nat.max_eq_left h]))
  · intro a b
    rw [le_iff, toNat_max]
    exact Nat.le_max_left _ _
  · intro a b
    rw [le_iff, toNat_max]
    exact Nat.le_max_right _ _

section

variable {first first' : Word} {rest rest' : List Word}

/-- The least value does not depend on the order. -/
theorem foldl_min_perm (h : (first' :: rest').Perm (first :: rest)) :
    rest'.foldl min first' = rest.foldl min first := by
  obtain ⟨hmem', hleast'⟩ := foldl_min first' rest'
  obtain ⟨hmem, hleast⟩ := foldl_min first rest
  exact ext (Nat.le_antisymm (hleast' _ (h.mem_iff.mpr hmem)) (hleast _ (h.mem_iff.mp hmem')))

theorem foldl_max_perm (h : (first' :: rest').Perm (first :: rest)) :
    rest'.foldl max first' = rest.foldl max first := by
  obtain ⟨hmem', hgreatest'⟩ := foldl_max first' rest'
  obtain ⟨hmem, hgreatest⟩ := foldl_max first rest
  exact ext (Nat.le_antisymm (hgreatest _ (h.mem_iff.mp hmem')) (hgreatest' _ (h.mem_iff.mpr hmem)))

end

end Word

namespace Arithmetic

/-- Steps that all succeed make a fold that succeeds. -/
theorem foldlM_ok (f : Word → Word → Word) (first : Word) (values : List Word) :
    values.foldlM (fun a b => (.ok (f a b) : Except ArithmeticError Word)) first =
      .ok (values.foldl f first) :=
  List.foldlM_pure

/-- The computation has the value `n` if `p` holds, and fails for `cause` otherwise. -/
structure Gives (x : Except ArithmeticError Word) (p : Prop) (n : Int) (cause : ArithmeticError) :
    Prop where
  value : p → ∃ w, x = .ok w ∧ (w.toNat : Int) = n
  failure : ¬ p → x = .error cause

namespace Gives

variable {x : Except ArithmeticError Word} {p q : Prop} {n k : Int} {cause : ArithmeticError}

/-- A word gives its own number when the condition holds. -/
theorem ok {w : Word} (hp : p) (hn : (w.toNat : Int) = n) : Gives (.ok w) p n cause :=
  ⟨fun _ => ⟨w, rfl, hn⟩, fun h => absurd hp h⟩

/-- The cause is given when the condition does not hold. -/
theorem error (hp : ¬ p) : Gives (.error cause) p n cause := ⟨fun h => absurd h hp, fun _ => rfl⟩

/-- The condition and the number may be told in another way. -/
theorem congr (h : Gives x p n cause) (hp : q ↔ p) (hn : k = n) : Gives x q k cause :=
  ⟨fun hq => hn ▸ h.value (hp.mp hq), fun hq => h.failure fun hp' => hq (hp.mpr hp')⟩

end Gives

/-- Fitting a number gives it when it is below the size of a word, and else overflows. -/
theorem gives_fit (n : Nat) : Gives (fit n) (n < 2 ^ 256) n .overflow := by
  cases h : fit n with
  | ok w =>
    have hw := fit_eq_ok_iff.mp h
    exact .ok (hw ▸ w.toNat_lt) (congrArg Nat.cast hw)
  | error cause =>
    obtain ⟨hlarge, rfl⟩ := fit_eq_error_iff.mp h
    exact .error (Nat.not_lt_of_le hlarge)

/-- A checked sum fits the exact sum: no partial sum is above it. -/
theorem foldlM_add (first : Word) (values : List Word) :
    values.foldlM add first = fit (Word.sum (first :: values)) := by
  induction values generalizing first with
  | nil => exact (fit_eq_ok_iff.mpr (Nat.add_zero _).symm).symm
  | cons value values ih =>
    rw [List.foldlM_cons]
    cases hadd : add first value with
    | ok w =>
      have hw := add_eq_ok_iff.mp hadd
      have hsum : Word.sum (first :: value :: values) = Word.sum (w :: values) := by
        simp only [Word.sum_cons, hw, Nat.add_assoc]
      rw [hsum]
      exact ih w
    | error cause =>
      obtain ⟨hlarge, rfl⟩ := fit_eq_error_iff.mp hadd
      refine (fit_eq_error_iff.mpr ⟨?_, rfl⟩).symm
      simp only [Word.sum_cons]
      omega

/-- A checked difference of many values underflows when their exact sum is above the first one. -/
theorem foldlM_sub (first : Word) (values : List Word) :
    Gives (values.foldlM sub first) (Word.sum values ≤ first.toNat) (first.toNat - Word.sum values)
      .underflow := by
  induction values generalizing first with
  | nil => exact .ok (Nat.zero_le _) (by simp)
  | cons value values ih =>
    rw [List.foldlM_cons, Word.sum_cons]
    cases hsub : sub first value with
    | ok w =>
      have hw := sub_eq_ok_iff.mp hsub
      exact (ih w).congr (by omega) (by omega)
    | error cause =>
      obtain ⟨hless, rfl⟩ := sub_eq_error_iff.mp hsub
      exact .error (by omega)

/-- A checked product overflows when the exact product of some first values does, also where a
later zero would bring the whole product down again. -/
theorem foldlM_mul (first : Word) (values : List Word) :
    Gives (values.foldlM mul first) (∀ k, Word.product ((first :: values).take k) < 2 ^ 256)
      (Word.product (first :: values)) .overflow := by
  have hempty : Word.product [] < 2 ^ 256 := by decide
  induction values generalizing first with
  | nil =>
    refine .ok ?_ (by simp)
    intro k
    cases k with
    | zero => exact hempty
    | succ k => simpa using first.toNat_lt
  | cons value values ih =>
    rw [List.foldlM_cons]
    cases hmul : mul first value with
    | ok w =>
      have hw := mul_eq_ok_iff.mp hmul
      have hproduct : ∀ rest, Word.product (w :: rest) = Word.product (first :: value :: rest) := by
        intro rest
        simp only [Word.product_cons, hw, Nat.mul_assoc]
      rw [← hproduct]
      -- Apart from the empty ones and from `first` itself, the prefixes have the same products.
      refine (ih w).congr ⟨fun h k => ?_, fun h k => ?_⟩ rfl
      · cases k with
        | zero => exact hempty
        | succ k =>
          rw [List.take_succ_cons, hproduct]
          exact h (k + 2)
      · rcases k with _ | _ | k
        · exact hempty
        · simpa using first.toNat_lt
        · rw [List.take_succ_cons, List.take_succ_cons, ← hproduct]
          exact h (k + 1)
    | error cause =>
      obtain ⟨hlarge, rfl⟩ := fit_eq_error_iff.mp hmul
      refine .error fun h => ?_
      have htwo := h 2
      simp only [List.take_succ_cons, List.take_zero, Word.product_cons, Word.product_nil,
        Nat.mul_one] at htwo
      omega

/-- Dividing by one value after the other divides by their exact product, unless one is zero. -/
theorem foldlM_div (first : Word) (values : List Word) :
    Gives (values.foldlM div first) (0 ∉ values) ((first.toNat / Word.product values : Nat) : Int)
      .divisionByZero := by
  induction values generalizing first with
  | nil => exact .ok List.not_mem_nil (by simp)
  | cons value values ih =>
    rw [List.foldlM_cons, div]
    split
    · next hzero => exact .error (by simp [hzero])
    · next hvalue =>
      have hrest : 0 ∉ value :: values ↔ 0 ∉ values := by simp [Ne.symm hvalue]
      rw [Word.product_cons, ← Nat.div_div_eq_div_mul]
      exact (ih (first / value)).congr hrest rfl

end Arithmetic

/-- Where the order of the values does not matter to the exact expression, it does not matter to the
fold. -/
theorem FoldOp.foldlM_perm {op : FoldOp} (hop : op ∈ [FoldOp.add, .addSat, .mulSat, .min, .max])
    (mode : ArithmeticMode) {first first' : Word} {rest rest' : List Word}
    (h : (first' :: rest').Perm (first :: rest)) :
    rest'.foldlM (op.apply mode) first' = rest.foldlM (op.apply mode) first := by
  have hsum := Word.sum_perm h
  have hproduct := Word.product_perm h
  have htotal : ∀ f : Word → Word → Word, rest'.foldl f first' = rest.foldl f first →
      rest'.foldlM (fun a b => (.ok (f a b) : Except ArithmeticError Word)) first' =
        rest.foldlM (fun a b => .ok (f a b)) first := by
    intro f hf
    rw [Arithmetic.foldlM_ok, Arithmetic.foldlM_ok, hf]
  simp only [List.mem_cons, List.not_mem_nil, or_false] at hop
  rcases hop with rfl | rfl | rfl | rfl | rfl
  · cases mode with
    | checked =>
      exact (Arithmetic.foldlM_add first' rest').trans
        (hsum ▸ (Arithmetic.foldlM_add first rest).symm)
    | wrapping => exact htotal Word.addWrap (by rw [Word.foldl_addWrap, Word.foldl_addWrap, hsum])
  · exact htotal Word.addSat (by rw [Word.foldl_addSat, Word.foldl_addSat, hsum])
  · exact htotal Word.mulSat (by rw [Word.foldl_mulSat, Word.foldl_mulSat, hproduct])
  · exact htotal Min.min (Word.foldl_min_perm h)
  · exact htotal Max.max (Word.foldl_max_perm h)

end Bourse
