import Bourse.Proofs.Arithmetic.Folds
import Bourse.Proofs.Machine.Running

/-!
# What a fold leaves on the stack

An instruction that combines the topmost values pops all of them, and then either pushes one word
or faults. So it is told by the fold of the popped values, and for sums, differences, products,
quotients, minima and maxima by one exact expression in these values.
-/

namespace Bourse

namespace Machine

variable {m : Machine} {below rest : List Word} {first : Word}

/-- The machine with the stack `below` and the result of a computation on top of it. -/
def resultOver (m : Machine) (below : List Word) :
    Except ArithmeticError Word → EStateM.Result Fault Machine Unit
  | .ok w => .ok () { m with stack := (below ++ [w]).toArray }
  | .error cause => .error (.arithmetic cause) { m with stack := below.toArray }

/-- Folding the topmost values replaces them by the result, if the stack is not too high to begin
with. -/
theorem foldMany_of_stack {f : Word → Word → Except ArithmeticError Word}
    (hstack : m.stack.toList = below ++ first :: rest) (hroom : m.height ≤ m.alloc) :
    foldMany f (rest.length + 1) m = m.resultOver below (rest.foldlM f first) := by
  have hpop := popMany_of_stack hstack
  rw [List.length_cons] at hpop
  have hlength := congrArg List.length hstack
  simp only [Array.length_toList, List.length_append, List.length_cons] at hlength
  have hfree : below.length < m.alloc := by
    rw [height] at hroom
    omega
  simp only [foldMany, Bind.bind, EStateM.bind, hpop]
  cases rest.foldlM f first with
  | error cause => rfl
  | ok w => exact push_of_room m w hfree

/-- The result pushes the word `n` over `below`. -/
def Pushes (m : Machine) (below : List Word) (result : EStateM.Result Fault Machine Unit)
    (n : Int) : Prop :=
  ∃ w : Word, (w.toNat : Int) = n ∧ result = .ok () { m with stack := (below ++ [w]).toArray }

/-- The result pushes the word `n` over `below` if `p` holds, and faults on `cause` otherwise. -/
def PushesIf (m : Machine) (below : List Word) (result : EStateM.Result Fault Machine Unit)
    (p : Prop) (n : Int) (cause : ArithmeticError) : Prop :=
  (p → m.Pushes below result n) ∧
    (¬ p → result = .error (.arithmetic cause) { m with stack := below.toArray })

/-- A fold that has a result pushes it. -/
theorem pushes_resultOver {x : Except ArithmeticError Word} {w : Word} {n : Int} (hx : x = .ok w)
    (hn : (w.toNat : Int) = n) : m.Pushes below (m.resultOver below x) n := by
  subst hx
  exact ⟨w, hn, rfl⟩

/-- A fold that has a result under a condition pushes it under that condition, and else fails. -/
theorem pushesIf_resultOver {x : Except ArithmeticError Word} {p : Prop} {n : Int}
    {cause : ArithmeticError} (h : Arithmetic.Gives x p n cause) :
    m.PushesIf below (m.resultOver below x) p n cause := by
  refine ⟨fun hp => ?_, fun hp => ?_⟩
  · obtain ⟨w, hx, hw⟩ := h.value hp
    exact pushes_resultOver hx hw
  · rw [h.failure hp]
    rfl

end Machine

namespace Instruction

open Machine

variable {m : Machine} {below rest : List Word} {first : Word} {count : UInt16}

/-- Combining the topmost values is folding them in the mode of the machine. -/
theorem exec_fold (env : Environment) (op : FoldOp)
    (hstack : m.stack.toList = below ++ first :: rest) (hcount : count.toNat = rest.length + 1)
    (hroom : m.height ≤ m.alloc) :
    (fold op count).exec env m =
      m.resultOver below (rest.foldlM (op.apply m.settings.mode) first) := by
  rw [← foldMany_of_stack hstack hroom, ← hcount]
  rfl

/-- Where the order of the values does not matter to the fold, it does not matter to the
instruction. -/
theorem exec_fold_perm (env : Environment) {op : FoldOp} {values : List Word}
    (hop : op ∈ [FoldOp.add, .addSat, .mulSat, .min, .max])
    (hstack : m.stack.toList = below ++ first :: rest) (hcount : count.toNat = rest.length + 1)
    (hroom : m.height ≤ m.alloc) (hperm : values.Perm (first :: rest)) :
    (fold op count).exec env { m with stack := (below ++ values).toArray } =
      (fold op count).exec env m := by
  obtain ⟨first', rest', rfl⟩ : ∃ first' rest', values = first' :: rest' :=
    List.exists_cons_of_ne_nil fun h => List.cons_ne_nil _ _ (h ▸ hperm).nil_eq.symm
  -- The other stack has the same height, so there is room for its result as well.
  have hlength := hperm.length_eq
  have hheight := congrArg List.length hstack
  simp only [Array.length_toList, List.length_append, List.length_cons] at hheight hlength
  have hroom' : (below ++ first' :: rest').toArray.size ≤ m.alloc := by
    rw [height] at hroom
    simp only [List.size_toArray, List.length_append, List.length_cons]
    omega
  have hcount' : count.toNat = rest'.length + 1 := by omega
  rw [exec_fold env op hstack hcount hroom, ← FoldOp.foldlM_perm hop m.settings.mode hperm]
  exact exec_fold env op rfl hcount' hroom'

/-- The topmost values are replaced by one word, which is an exact expression in them: the sum,
what is left of the deepest value, the product, or the quotient. Checked operations push it when
it is a word, and for a product when the products on the way are words too; wrapping ones push its
remainder, clamped ones what is nearest to it. Sums, clamped products, minima and maxima do not
depend on the order of the values. The stack is to be within its room, and no instruction takes it
out of that. -/
theorem fold_closed_forms (env : Environment) (hstack : m.stack.toList = below ++ first :: rest)
    (hcount : count.toNat = rest.length + 1) (hroom : m.height ≤ m.alloc) :
    (m.settings.mode = .checked →
      m.PushesIf below ((fold .add count).exec env m) (Word.sum (first :: rest) < 2 ^ 256)
        (Word.sum (first :: rest)) .overflow ∧
      m.PushesIf below ((fold .sub count).exec env m) (Word.sum rest ≤ first.toNat)
        (first.toNat - Word.sum rest) .underflow ∧
      m.PushesIf below ((fold .mul count).exec env m)
        (∀ k, Word.product ((first :: rest).take k) < 2 ^ 256) (Word.product (first :: rest))
        .overflow) ∧
    (m.settings.mode = .wrapping →
      m.Pushes below ((fold .add count).exec env m) (Word.sum (first :: rest) % 2 ^ 256) ∧
      m.Pushes below ((fold .sub count).exec env m) ((first.toNat - Word.sum rest) % 2 ^ 256) ∧
      m.Pushes below ((fold .mul count).exec env m) (Word.product (first :: rest) % 2 ^ 256)) ∧
    m.PushesIf below ((fold .div count).exec env m) (0 ∉ rest) (first.toNat / Word.product rest)
      .divisionByZero ∧
    m.Pushes below ((fold .addSat count).exec env m)
      (min (Word.sum (first :: rest)) (2 ^ 256 - 1)) ∧
    m.Pushes below ((fold .subSat count).exec env m) (max (first.toNat - Word.sum rest) 0) ∧
    m.Pushes below ((fold .mulSat count).exec env m)
      (min (Word.product (first :: rest)) (2 ^ 256 - 1)) ∧
    (∃ w ∈ first :: rest, (∀ v ∈ first :: rest, w ≤ v) ∧
      m.Pushes below ((fold .min count).exec env m) w.toNat) ∧
    (∃ w ∈ first :: rest, (∀ v ∈ first :: rest, v ≤ w) ∧
      m.Pushes below ((fold .max count).exec env m) w.toNat) ∧
    ∀ op ∈ [FoldOp.add, .addSat, .mulSat, .min, .max], ∀ values,
      values.Perm (first :: rest) →
      (fold op count).exec env { m with stack := (below ++ values).toArray } =
        (fold op count).exec env m := by
  have hexec := fun op => exec_fold env op hstack hcount hroom
  refine ⟨fun hmode => ⟨?_, ?_, ?_⟩, fun hmode => ⟨?_, ?_, ?_⟩, ?_, ?_, ?_, ?_, ?_, ?_, ?_⟩
  · rw [hexec, hmode]
    exact pushesIf_resultOver ((Arithmetic.foldlM_add first rest).symm ▸ Arithmetic.gives_fit _)
  · rw [hexec, hmode]
    exact pushesIf_resultOver (Arithmetic.foldlM_sub first rest)
  · rw [hexec, hmode]
    exact pushesIf_resultOver (Arithmetic.foldlM_mul first rest)
  · rw [hexec, hmode]
    refine pushes_resultOver (Arithmetic.foldlM_ok Word.addWrap first rest) ?_
    rw [Word.foldl_addWrap, Word.toNat_wrap]
    rfl
  · rw [hexec, hmode]
    exact pushes_resultOver (Arithmetic.foldlM_ok Word.subWrap first rest)
      (Word.foldl_subWrap first rest)
  · rw [hexec, hmode]
    refine pushes_resultOver (Arithmetic.foldlM_ok Word.mulWrap first rest) ?_
    rw [Word.foldl_mulWrap, Word.toNat_wrap]
    rfl
  · rw [hexec]
    exact pushesIf_resultOver (Arithmetic.foldlM_div first rest)
  · rw [hexec]
    refine pushes_resultOver (Arithmetic.foldlM_ok Word.addSat first rest) ?_
    rw [Word.foldl_addSat, Word.toNat_clamp]
    omega
  · rw [hexec]
    refine pushes_resultOver (Arithmetic.foldlM_ok Word.subSat first rest) ?_
    rw [Word.foldl_subSat]
    omega
  · rw [hexec]
    refine pushes_resultOver (Arithmetic.foldlM_ok Word.mulSat first rest) ?_
    rw [Word.foldl_mulSat, Word.toNat_clamp]
    omega
  · obtain ⟨hmem, hleast⟩ := Word.foldl_min first rest
    rw [hexec]
    exact ⟨_, hmem, hleast, pushes_resultOver (Arithmetic.foldlM_ok min first rest) rfl⟩
  · obtain ⟨hmem, hgreatest⟩ := Word.foldl_max first rest
    rw [hexec]
    exact ⟨_, hmem, hgreatest, pushes_resultOver (Arithmetic.foldlM_ok max first rest) rfl⟩
  · exact fun op hop values hperm => exec_fold_perm env hop hstack hcount hroom hperm

/-- A machine with a value that is doubled and then multiplied by zero. -/
def doubledMachine : Machine :=
  { Machine.start {} 4 .empty with stack := #[9, .wrap (2 ^ 255), 2, 0] }

/-- The product is zero, but twice the deepest value is no word on the way to it. Clamped, it is
zero. -/
theorem fold_closed_forms_doubled :
    doubledMachine.stack.toList = [9] ++ .wrap (2 ^ 255) :: [2, 0] ∧
    (3 : UInt16).toNat = [(2 : Word), 0].length + 1 ∧
    doubledMachine.height ≤ doubledMachine.alloc ∧
    doubledMachine.Pushes [9] ((fold .add 3).exec ⟨.empty, #[]⟩ doubledMachine) (2 ^ 255 + 2) ∧
    (fold .mul 3).exec ⟨.empty, #[]⟩ doubledMachine =
      .error (.arithmetic .overflow) { doubledMachine with stack := #[9] } ∧
    doubledMachine.Pushes [9] ((fold .mulSat 3).exec ⟨.empty, #[]⟩ doubledMachine) 0 := by
  have hstack : doubledMachine.stack.toList = [9] ++ .wrap (2 ^ 255) :: [2, 0] := rfl
  have hcount : (3 : UInt16).toNat = [(2 : Word), 0].length + 1 := rfl
  have hroom : doubledMachine.height ≤ doubledMachine.alloc := by decide
  obtain ⟨hchecked, _, _, _, _, hmulSat, _⟩ := fold_closed_forms ⟨.empty, #[]⟩ hstack hcount hroom
  obtain ⟨hadd, _, hmul⟩ := hchecked rfl
  exact ⟨hstack, hcount, hroom, hadd.1 (by decide),
    hmul.2 fun h => absurd (h 2) (by decide), hmulSat⟩

end Instruction

end Bourse
