import Bourse.Proofs.Code.Assembly
import Bourse.Proofs.Machine.Coupling
import Bourse.Proofs.Machine.Running
import Bourse.Proofs.Word

/-!
# Checked and wrapping arithmetic

A program is run twice, once with each reading of results that leave the range of words. As long
as no result does, both runs do the same. So the checked run either ends like the wrapping one, or
it ends earlier, at an instruction that adds, subtracts, multiplies or raises to a power.
-/

namespace Bourse

/-- The exact result is no word: it is too great or negative. -/
def ArithmeticError.LeavesRange (cause : ArithmeticError) : Prop :=
  cause = .overflow ∨ cause = .underflow

namespace Arithmetic

/-- A checked result where the wrapping one is `w`: the same, unless the exact one is no word. -/
inductive Checks {α : Type} (w : α) : Except ArithmeticError α → Prop
  | fits : Checks w (.ok w)
  | fails {cause : ArithmeticError} (h : cause.LeavesRange) : Checks w (.error cause)

/-- Where no part leaves the range, the checked computation comes to the wrapping one. -/
theorem Checks.bind {α β : Type} {w : α} {v : β} {x : Except ArithmeticError α}
    {f : α → Except ArithmeticError β} (hx : Checks w x) (hf : Checks v (f w)) :
    Checks v (x >>= f) := by
  cases hx with
  | fits => exact hf
  | fails h => exact .fails h

/-- A number that fits is the one that wrapping leaves. -/
theorem checks_fit (n : Nat) : Checks (Word.wrap n) (fit n) := by
  cases hfit : fit n with
  | error cause => exact .fails (Or.inl (fit_eq_error_iff.mp hfit).2)
  | ok w =>
    have hw := fit_eq_ok_iff.mp hfit
    have hwrap : Word.wrap n = w := by
      apply Word.ext
      rw [Word.toNat_wrap, ← hw, Nat.mod_eq_of_lt w.toNat_lt]
    rw [hwrap]
    exact .fits

/-- A difference that does not underflow is the one that wrapping leaves. -/
theorem checks_sub (a b : Word) : Checks (a.subWrap b) (sub a b) := by
  cases hsub : sub a b with
  | error cause => exact .fails (Or.inr (sub_eq_error_iff.mp hsub).2)
  | ok w =>
    have hw := sub_eq_ok_iff.mp hsub
    have hlt := w.toNat_lt
    have hwrap : a.subWrap b = w := by
      apply Word.ext
      rw [Word.toNat_subWrap]
      omega
    rw [hwrap]
    exact .fits

/-- Squaring and multiplying agree with each other step by step, until a product is no word. -/
theorem checks_raise (bits : Nat) (square acc : Word) (exponent : Nat) :
    Checks (Id.run (raise (fun a b => pure (a.mulWrap b)) bits square acc exponent))
      (raise mul bits square acc exponent) := by
  induction bits generalizing square acc exponent with
  | zero => exact .fits
  | succ bits ih =>
    have hmul : ∀ a b : Word, Checks (a.mulWrap b) (mul a b) := fun a b => checks_fit _
    have hrest : ∀ next : Word, Checks
        (Id.run (if bits = 0 then pure next else
          raise (fun a b => pure (a.mulWrap b)) bits (square.mulWrap square) next (exponent / 2)))
        (if bits = 0 then pure next else do
          raise mul bits (← mul square square) next (exponent / 2)) := by
      intro next
      split
      · exact .fits
      · exact (hmul square square).bind (ih _ _ _)
    rw [raise, raise]
    by_cases hodd : exponent % 2 = 1
    · rw [if_pos hodd, if_pos hodd]
      exact (hmul acc square).bind (hrest _)
    · rw [if_neg hodd, if_neg hodd]
      exact hrest acc

end Arithmetic

namespace FoldOp

open Arithmetic

variable {op : FoldOp}

/-- Combined in both modes, two values give the same, unless the exact result is no word. -/
theorem checks_apply (h : op.heedsMode = true) (a b : Word) :
    ∃ w, op.apply .wrapping a b = .ok w ∧ Checks w (op.apply .checked a b) := by
  cases op with
  | add => exact ⟨_, rfl, checks_fit _⟩
  | sub => exact ⟨_, rfl, checks_sub a b⟩
  | mul => exact ⟨_, rfl, checks_fit _⟩
  | exp => exact ⟨_, rfl, checks_raise _ _ _ _⟩
  | div | rem | min | max | addSat | subSat | mulSat => cases h

/-- So do any number of values, one combined after the other. -/
theorem checks_foldlM (h : op.heedsMode = true) (values : List Word) (first : Word) :
    ∃ w, values.foldlM (op.apply .wrapping) first = .ok w ∧
      Checks w (values.foldlM (op.apply .checked) first) := by
  induction values generalizing first with
  | nil => exact ⟨first, rfl, .fits⟩
  | cons value values ih =>
    obtain ⟨next, hwrapping, hchecks⟩ := checks_apply h first value
    obtain ⟨w, hrest, hchecksRest⟩ := ih next
    refine ⟨w, ?_, ?_⟩
    · rw [List.foldlM_cons, hwrapping]
      exact hrest
    · rw [List.foldlM_cons]
      exact hchecks.bind hchecksRest

end FoldOp

namespace Machine

/-- The second machine is the first one, but reads results that are no words modulo `2 ^ 256`. -/
def ModesApart (m n : Machine) : Prop :=
  m.settings.mode = .checked ∧ n = { m with settings := { m.settings with mode := .wrapping } }

/-- The mode makes no difference to the stack, the room or the scratch values. -/
theorem indistinct_modesApart : Indistinct ModesApart where
  stack := by rintro m _ ⟨_, rfl⟩; rfl
  alloc := by rintro m _ ⟨_, rfl⟩; rfl
  read := by rintro m _ ⟨_, rfl⟩ key; rfl
  setStack := by rintro m _ ⟨hmode, rfl⟩ stack; exact ⟨hmode, rfl⟩
  store := by rintro m _ ⟨hmode, rfl⟩ key value; exact ⟨hmode, rfl⟩

/-- Paying does not depend on the mode. -/
theorem coupled_pay_modesApart (cost : Nat) : Coupled ModesApart (pay cost) (pay cost) := by
  intro m n h
  have hcharge : ModesApart (m.charge cost) (n.charge cost) := by
    obtain ⟨hmode, rfl⟩ := h
    exact ⟨hmode, rfl⟩
  have hlimit : (m.charge cost).withinLimit = (n.charge cost).withinLimit := by
    obtain ⟨_, rfl⟩ := h
    rfl
  rw [pay, pay, hlimit]
  split
  · exact .ok () hcharge
  · exact .error _ _ _

/-- The result tells that the exact result of an operation is no word. -/
def FailsOnRange {α : Type} (r : EStateM.Result Fault Machine α) : Prop :=
  ∃ cause m, ArithmeticError.LeavesRange cause ∧ r = .error (.arithmetic cause) m

variable {m n : Machine}

/-- A fold that heeds the mode ends alike in both, or the checked one leaves the range. -/
theorem foldMany_modesApart {op : FoldOp} (hop : op.heedsMode = true) (count : Nat)
    (h : ModesApart m n) :
    EndAlike ModesApart (foldMany (op.apply .checked) count m)
        (foldMany (op.apply .wrapping) count n) ∨
      FailsOnRange (foldMany (op.apply .checked) count m) := by
  have hpop := coupled_popMany indistinct_modesApart count m n h
  simp only [foldMany, Bind.bind, EStateM.bind]
  generalize popMany count m = r at hpop
  generalize popMany count n = s at hpop
  cases hpop with
  | error cause m' n' => exact Or.inl (.error _ _ _)
  | @ok m' n' values h' =>
    cases values with
    | nil => exact Or.inl (.error _ _ _)
    | cons first rest =>
      obtain ⟨w, hwrapping, hchecks⟩ := FoldOp.checks_foldlM hop rest first
      simp only [hwrapping]
      generalize rest.foldlM (op.apply .checked) first = checked at hchecks
      cases hchecks with
      | fits => exact Or.inl (coupled_push indistinct_modesApart w m' n' h')
      | fails hcause => exact Or.inr ⟨_, m', hcause, rfl⟩

/-- An instruction ends alike in both modes, unless the exact result of an operation that heeds
the mode is no word. -/
theorem runInstruction_modesApart (env : Environment) (i : Instruction) (h : ModesApart m n) :
    EndAlike ModesApart (runInstruction env i m) (runInstruction env i n) ∨
      i.heedsMode = true ∧ FailsOnRange (runInstruction env i m) := by
  have hexec : EndAlike ModesApart (i.exec env m) (i.exec env n) ∨
      i.heedsMode = true ∧ FailsOnRange (i.exec env m) := by
    cases hheeds : i.heedsMode with
    | false =>
      refine Or.inl (i.coupled_exec indistinct_modesApart env ?_ m n h)
      intro htrue
      rw [hheeds] at htrue
      cases htrue
    | true =>
      cases i with
      | fold op count =>
        have hfold := foldMany_modesApart hheeds count.toNat h
        obtain ⟨hmode, rfl⟩ := h
        have hchecked : (Instruction.fold op count).exec env m =
            foldMany (op.apply .checked) count.toNat m := by
          rw [← hmode]
          rfl
        rw [hchecked]
        exact hfold.imp_right fun hfails => ⟨rfl, hfails⟩
      | _ => cases hheeds
  simp only [runInstruction, Bind.bind, EStateM.bind]
  rcases hexec with halike | ⟨hheeds, cause, m', hcause, hfails⟩
  · generalize i.exec env m = r at halike
    generalize i.exec env n = s at halike
    cases halike with
    | @ok m' n' _ h' => exact Or.inl (coupled_pay_modesApart i.complexity m' n' h')
    | error cause m' n' => exact Or.inl (.error _ _ _)
  · rw [hfails]
    exact Or.inr ⟨hheeds, cause, m', hcause, rfl⟩

/-- A unit ends alike in both modes, unless it holds an operation that heeds the mode and whose
exact result is no word. -/
theorem runUnit_modesApart (env : Environment) (u : CodeUnit) (h : ModesApart m n) :
    EndAlike ModesApart (runUnit env u m) (runUnit env u n) ∨
      ∃ i, u.content = .ok i ∧ i.heedsMode = true ∧ FailsOnRange (runUnit env u m) := by
  cases hcontent : u.content with
  | error cause =>
    simp only [runUnit, hcontent]
    exact Or.inl (.error _ _ _)
  | ok i =>
    simp only [runUnit, hcontent]
    exact (runInstruction_modesApart env i h).imp_right fun hfails => ⟨i, rfl, hfails⟩

/-- Runs in both modes end alike, unless the checked one has met an operation whose exact result
is no word. By then the wrapping one has not failed. -/
theorem runUnits_modesApart (env : Environment) {us : List CodeUnit}
    (hus : us.Pairwise fun u v => u.pos ≤ v.pos) (h : ModesApart m n) :
    EndAlike ModesApart (runUnits env us m) (runUnits env us n) ∨
      ∃ u i cause m', u ∈ us ∧ u.content = .ok i ∧ i.heedsMode = true ∧
        ArithmeticError.LeavesRange cause ∧
        runUnits env us m = .error (u.pos, .arithmetic cause) m' ∧
        ∀ pos fault n', runUnits env us n = .error (pos, fault) n' → u.pos ≤ pos := by
  induction us generalizing m n with
  | nil => exact Or.inl (.ok () h)
  | cons u us ih =>
    obtain ⟨hfirst, hrest⟩ := List.pairwise_cons.mp hus
    have hsplit : ∀ k, runUnits env (u :: us) k =
        (EStateM.bind ((runUnit env u).adaptExcept fun cause => (u.pos, cause)) fun _ =>
          runUnits env us) k := fun _ => rfl
    rcases runUnit_modesApart env u h with halike | ⟨i, hcontent, hheeds, cause, m', hcause, hfails⟩
    · simp only [hsplit, EStateM.bind, EStateM.adaptExcept]
      generalize runUnit env u m = r at halike
      generalize runUnit env u n = s at halike
      cases halike with
      | error fault m' n' => exact Or.inl (.error _ _ _)
      | ok _ h' =>
        refine (ih hrest h').imp_right ?_
        rintro ⟨v, i, cause, m'', hv, hfails⟩
        exact ⟨v, i, cause, m'', List.mem_cons_of_mem _ hv, hfails⟩
    · refine Or.inr ⟨u, i, cause, m', List.mem_cons_self .., hcontent, hheeds, hcause, ?_, ?_⟩
      · simp only [hsplit, EStateM.bind, EStateM.adaptExcept, hfails]
      · intro pos fault n' hwrapping
        obtain ⟨v, hv, rfl⟩ := exists_unit_of_runUnits_error hwrapping
        rcases List.mem_cons.mp hv with rfl | hv
        · exact Nat.le_refl _
        · exact hfirst v hv

end Machine

/-- What heeds the mode adds, subtracts, multiplies or raises to a power. -/
theorem FoldOp.heedsMode_iff {op : FoldOp} :
    op.heedsMode = true ↔ op = .add ∨ op = .sub ∨ op = .mul ∨ op = .exp := by
  cases op <;> simp [heedsMode]

/-- An instruction that heeds the mode combines values. -/
theorem Instruction.exists_fold_of_heedsMode {i : Instruction} (h : i.heedsMode = true) :
    ∃ op count, i = .fold op count ∧ op.heedsMode = true := by
  cases i with
  | fold op count => exact ⟨op, count, rfl, h⟩
  | _ => cases h

namespace Program

variable {p : Program} {entry : Entry} {code : Bytes} {heights : Heights}

/-- Both runs of a source that exists have the same result, or the checked one fails at an
instruction that heeds the mode and the wrapping one does not fail before it. -/
theorem eval_modesApart (hsource : p.source? entry.source.toNat = some (code, heights))
    (limit : Option Nat) (context : Context) (scratch : Scratch) :
    p.eval ⟨.checked, limit⟩ entry context scratch =
      p.eval ⟨.wrapping, limit⟩ entry context scratch ∨
      ∃ u i cause, u ∈ Code.units 0 code ∧
        u.content = .ok i ∧ i.heedsMode = true ∧ ArithmeticError.LeavesRange cause ∧
        p.eval ⟨.checked, limit⟩ entry context scratch =
          .error (.fault entry.source.toNat u.pos (.arithmetic cause)) ∧
        ∀ source pos fault, p.eval ⟨.wrapping, limit⟩ entry context scratch =
          .error (.fault source pos fault) → source = entry.source.toNat ∧ u.pos ≤ pos := by
  have hstart : Machine.ModesApart (.start ⟨.checked, limit⟩ heights.peak scratch)
      (.start ⟨.wrapping, limit⟩ heights.peak scratch) := ⟨rfl, rfl⟩
  have hordered := (Code.pairwise_units 0 code).1.imp (Nat.le_of_lt ·)
  have hruns := Machine.runUnits_modesApart ⟨context, p.constants⟩ hordered hstart
  simp only [eval, hsource]
  rcases hruns with halike | ⟨u, i, cause, m', hu, hcontent, hheeds, hcause, hchecked, hwrapping⟩
  · left
    generalize Machine.runUnits _ _ (Machine.start ⟨.checked, limit⟩ heights.peak scratch) =
      r at halike
    generalize Machine.runUnits _ _ (Machine.start ⟨.wrapping, limit⟩ heights.peak scratch) =
      s at halike
    cases halike with
    | error fault m n => rfl
    | @ok m n _ h =>
      obtain ⟨_, rfl⟩ := h
      rfl
  · right
    refine ⟨u, i, cause, hu, hcontent, hheeds, hcause, ?_, ?_⟩
    · rw [hchecked]
    · intro source pos fault hfails
      split at hfails
      · next pos' fault' n' hrun =>
        cases hfails
        exact ⟨rfl, hwrapping _ _ _ hrun⟩
      · cases hfails

/-- A program is run with the same limit in both modes. Either both runs end alike, or the checked
one fails because the exact result of a sum, difference, product or power is no word. So a checked
run that succeeds tells what the wrapping one does, and where the wrapping one fails the checked
one has failed there or before. -/
theorem checked_refines_wrapping (p : Program) (limit : Option Nat) (entry : Entry)
    (context : Context) (scratch : Scratch) :
    (p.eval ⟨.checked, limit⟩ entry context scratch =
      p.eval ⟨.wrapping, limit⟩ entry context scratch ∨
      ∃ code heights pos op count cause,
        p.source? entry.source.toNat = some (code, heights) ∧
        ⟨pos, .ok (.fold op count)⟩ ∈ Code.units 0 code ∧
        (op = .add ∨ op = .sub ∨ op = .mul ∨ op = .exp) ∧
        (cause = .overflow ∨ cause = .underflow) ∧
        p.eval ⟨.checked, limit⟩ entry context scratch =
          .error (.fault entry.source.toNat pos (.arithmetic cause))) ∧
    (∀ outcome, p.eval ⟨.checked, limit⟩ entry context scratch = .ok outcome →
      p.eval ⟨.wrapping, limit⟩ entry context scratch = .ok outcome) ∧
    ∀ source pos fault, p.eval ⟨.wrapping, limit⟩ entry context scratch =
        .error (.fault source pos fault) →
      ∃ pos' fault', p.eval ⟨.checked, limit⟩ entry context scratch =
        .error (.fault source pos' fault') ∧ pos' ≤ pos := by
  cases hsource : p.source? entry.source.toNat with
  | none =>
    have habsent : ∀ settings, p.eval settings entry context scratch =
        .error (.sourceAbsent entry.source.toNat) := by
      intro settings
      simp only [eval, hsource]
    simp only [habsent]
    exact ⟨Or.inl trivial, nofun, nofun⟩
  | some found =>
    obtain ⟨code, heights⟩ := found
    rcases eval_modesApart hsource limit context scratch with
      hsame | ⟨⟨pos, content⟩, i, cause, hu, rfl, hheeds, hcause, hchecked, hwrapping⟩
    · rw [hsame]
      exact ⟨Or.inl rfl, fun _ hok => hok, fun source pos fault h => ⟨pos, fault, h, Nat.le_refl _⟩⟩
    · obtain ⟨op, count, rfl, hop⟩ := Instruction.exists_fold_of_heedsMode hheeds
      refine ⟨Or.inr ⟨code, heights, pos, op, count, cause, rfl, hu, FoldOp.heedsMode_iff.mp hop,
        hcause, hchecked⟩, ?_, ?_⟩
      · intro outcome hok
        rw [hchecked] at hok
        cases hok
      · intro source pos' fault hfails
        obtain ⟨rfl, hle⟩ := hwrapping source pos' fault hfails
        exact ⟨pos, .arithmetic cause, hchecked, hle⟩

end Program

end Bourse
