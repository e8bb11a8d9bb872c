import Bourse.Proofs.Code.Assembly
import Bourse.Proofs.Machine.Composition
import Bourse.Proofs.Machine.Coupling
import Bourse.Proofs.Machine.Running
import Bourse.Proofs.Program.Soundness
import Mathlib.Algebra.Ring.Nat

/-!
# What a run costs

Instructions do not touch the cost of a run; only the payment after each of them does. So what a
run has cost is told by the code alone: it is the sum of what the executed instructions cost, and
the code of a source is too short for this sum to be cut off. A limit on the cost cuts a run off
after the first instruction with which the sum exceeds it, and changes nothing before.
-/

namespace Bourse

/-- What a unit of code costs. A unit that cannot be read is never paid for. -/
def CodeUnit.cost (u : CodeUnit) : Nat :=
  match u.content with
  | .ok i => i.complexity
  | .error _ => 0

/-- A unit costs what its instruction does. -/
theorem CodeUnit.cost_of_content {u : CodeUnit} {i : Instruction} (h : u.content = .ok i) :
    u.cost = i.complexity := by
  rw [cost, h]

/-- No instruction costs more than a number of 16 bits can count. -/
theorem Instruction.complexity_le (i : Instruction) : i.complexity ≤ 65535 := by
  cases i with
  | fold op count => cases op <;> simp [complexity]
  | hash count =>
    have hcount := count.toNat_lt
    rw [complexity]
    omega
  | tierSelect selection =>
    have hlength := selection.length.toNat_lt
    rw [complexity]
    omega
  | _ => simp [complexity]

theorem CodeUnit.cost_le (u : CodeUnit) : u.cost ≤ 65535 := by
  rw [cost]
  split
  · next i _ => exact i.complexity_le
  · exact Nat.zero_le _

namespace Code

/-- What units of code cost together. -/
def cost (us : List CodeUnit) : Nat := (us.map CodeUnit.cost).sum

@[simp] theorem cost_nil : cost [] = 0 := rfl

@[simp] theorem cost_cons (u : CodeUnit) (us : List CodeUnit) : cost (u :: us) = u.cost + cost us :=
  rfl

@[simp] theorem cost_append (us vs : List CodeUnit) : cost (us ++ vs) = cost us + cost vs := by
  simp [cost]

/-- Code costs no more than its length allows. -/
theorem cost_le (us : List CodeUnit) : cost us ≤ 65535 * us.length := by
  induction us with
  | nil => exact Nat.zero_le _
  | cons u us ih =>
    have hcost := u.cost_le
    rw [cost_cons, List.length_cons]
    omega

/-- Code has no more units than bytes. -/
theorem length_units_le (pos : Nat) (code : Bytes) : (units pos code).length ≤ code.length := by
  fun_induction units pos code with
  | case1 pos => exact Nat.le_refl _
  | case2 pos a b c d rest ih =>
    simp only [List.length_cons]
    omega
  | case3 code pos hne hshort =>
    exact List.length_pos_iff.mpr hne

/-- Code that fits a segment costs less than what is counted at most. -/
theorem cost_units_lt {code : Bytes} (h : code.length ≤ maxPosition) :
    cost (units 0 code) < Machine.maxSpent := by
  have hcost := cost_le (units 0 code)
  have hlength := length_units_le 0 code
  rw [maxPosition] at h
  rw [Machine.maxSpent, UInt64.size]
  omega

/-- Code costs what its instructions cost. -/
theorem cost_of_mapM {us : List CodeUnit} {instructions : List Instruction}
    (h : us.mapM CodeUnit.content = .ok instructions) :
    cost us = (instructions.map Instruction.complexity).sum := by
  induction us generalizing instructions with
  | nil =>
    cases h
    rfl
  | cons u us ih =>
    simp only [List.mapM_cons, bind_eq_ok_iff, pure_eq_ok_iff] at h
    obtain ⟨i, hi, rest, hrest, rfl⟩ := h
    rw [cost_cons, CodeUnit.cost_of_content hi, ih hrest, List.map_cons, List.sum_cons]

end Code

namespace Machine

/-- The access does not touch the cost. -/
def KeepsSpent {α : Type} (x : Access α) : Prop :=
  ∀ m a m', x m = .ok a m' → m'.spent = m.spent

/-- No access changes what has been spent. -/
theorem compositional_keepsSpent : Compositional KeepsSpent :=
  compositional_keeps (fun _ _ => rfl) fun _ _ => rfl

variable {env : Environment} {u : CodeUnit} {us : List CodeUnit} {m m' n : Machine} {limit : Nat}

/-- A unit that has been executed has been paid for. -/
theorem spent_of_runUnit (h : runUnit env u m = .ok () m') :
    m'.spent = min (m.spent + u.cost) maxSpent := by
  cases hcontent : u.content with
  | error cause =>
    simp only [runUnit, hcontent] at h
    cases h
  | ok i =>
    simp only [runUnit, hcontent, runInstruction, Bind.bind, EStateM.bind] at h
    split at h
    · next n hexec =>
      have hkept : n.spent = m.spent := compositional_keepsSpent.exec env i m () n hexec
      rw [pay] at h
      split at h <;> cases h
      rw [charge, CodeUnit.cost_of_content hcontent, hkept]
    · cases h

/-- A run that has come to its end has cost what all its units cost, unless that is too much to
count. -/
theorem spent_of_runUnits (hroom : m.spent + Code.cost us ≤ maxSpent)
    (h : runUnits env us m = .ok () m') : m'.spent = m.spent + Code.cost us := by
  induction us generalizing m with
  | nil =>
    cases h
    rfl
  | cons u us ih =>
    obtain ⟨n, hunit, hrest⟩ := runUnits_cons_eq_ok h
    have hspent := spent_of_runUnit hunit
    rw [Code.cost_cons] at hroom ⊢
    rw [ih (by omega) hrest]
    omega

/-- The second machine is the first one, which has no limit, but with this one. -/
def Capped (limit : Nat) (m n : Machine) : Prop :=
  m.settings.limit = none ∧ n = { m with settings := { m.settings with limit := some limit } }

/-- A limit makes no difference to the stack, the room or the scratch values. -/
theorem indistinct_capped (limit : Nat) : Indistinct (Capped limit) where
  stack := by rintro m _ ⟨_, rfl⟩; rfl
  alloc := by rintro m _ ⟨_, rfl⟩; rfl
  read := by rintro m _ ⟨_, rfl⟩ key; rfl
  setStack := by rintro m _ ⟨hlimit, rfl⟩ stack; exact ⟨hlimit, rfl⟩
  store := by rintro m _ ⟨hlimit, rfl⟩ key value; exact ⟨hlimit, rfl⟩

/-- A unit is executed without a limit and with one: both end alike, unless the cost that this
leaves exceeds the limit. -/
inductive Cut (limit : Nat) :
    EStateM.Result Fault Machine Unit → EStateM.Result Fault Machine Unit → Prop
  | fault (cause : Fault) (m n : Machine) : Cut limit (.error cause m) (.error cause n)
  | within {m n : Machine} (fits : m.spent ≤ limit) (h : Capped limit m n) :
      Cut limit (.ok () m) (.ok () n)
  | exceeded {m n : Machine} (exceeds : limit < m.spent) :
      Cut limit (.ok () m) (.error .complexityExceeded n)

/-- Where the limit admits the cost, paying is the same with and without it; else it is
exceeded. -/
theorem cut_pay (cost : Nat) (h : Capped limit m n) : Cut limit (pay cost m) (pay cost n) := by
  obtain ⟨hnone, rfl⟩ := h
  have hunlimited : pay cost m = .ok () (m.charge cost) := by
    rw [pay, withinLimit, charge, hnone]
    rfl
  have hwithin :
      ({ m with settings := { m.settings with limit := some limit } }.charge cost).withinLimit =
        decide ((m.charge cost).spent ≤ limit) := rfl
  rw [hunlimited]
  simp only [pay, hwithin, decide_eq_true_eq]
  split
  · next hfits => exact .within hfits ⟨hnone, rfl⟩
  · next hexceeds => exact .exceeded (Nat.lt_of_not_le hexceeds)

/-- The limit is looked at after the effect of the unit, and only if that is no fault. -/
theorem cut_runUnit (env : Environment) (u : CodeUnit) (h : Capped limit m n) :
    Cut limit (runUnit env u m) (runUnit env u n) := by
  cases hcontent : u.content with
  | error cause =>
    simp only [runUnit, hcontent]
    exact .fault _ m n
  | ok i =>
    have hmode : ∀ {m n}, Capped limit m n → m.settings.mode = n.settings.mode := by
      rintro m _ ⟨_, rfl⟩
      rfl
    have hexec := i.coupled_exec (indistinct_capped limit) env (fun _ => hmode) m n h
    simp only [runUnit, hcontent, runInstruction, Bind.bind, EStateM.bind]
    generalize i.exec env m = r at hexec
    generalize i.exec env n = s at hexec
    cases hexec with
    | ok _ h' => exact cut_pay i.complexity h'
    | error cause m' n' => exact .fault cause m' n'

/-- The units that a run has executed: all of them, or those before the position at which it has
failed. -/
def executed (us : List CodeUnit) : EStateM.Result (Nat × Fault) Machine Unit → List CodeUnit
  | .ok _ _ => us
  | .error (pos, _) _ => us.takeWhile fun u => u.pos < pos

/-- What is executed after the first unit is executed by the run as well. -/
theorem executed_cons (hus : ∀ v ∈ us, u.pos < v.pos) (hunit : runUnit env u m = .ok () m') :
    executed (u :: us) (runUnits env (u :: us) m) = u :: executed us (runUnits env us m') := by
  rw [runUnits_cons_of_ok hunit]
  cases hrun : runUnits env us m' with
  | ok _ m'' => rfl
  | error fault m'' =>
    obtain ⟨pos, cause⟩ := fault
    obtain ⟨v, hv, rfl⟩ := exists_unit_of_runUnits_error hrun
    simp only [executed, List.takeWhile_cons, hus v hv, decide_true, if_true]

/-- Nothing has been executed where the first unit fails. -/
theorem executed_cons_of_error {cause : Fault} (hunit : runUnit env u m = .error cause m') :
    executed (u :: us) (runUnits env (u :: us) m) = [] := by
  rw [runUnits_cons_of_error hunit]
  simp only [executed, List.takeWhile_cons, Nat.lt_irrefl, decide_false, Bool.false_eq_true,
    if_false]

end Machine

/-- The units are paid for one after the other; with this one, and with none before, they cost
more than is left. -/
def Code.ExceedsAt (left : Nat) (us : List CodeUnit) (u : CodeUnit) : Prop :=
  ∃ done rest, us = done ++ u :: rest ∧ cost done ≤ left ∧ left < cost (done ++ [u])

/-- After a unit that can be paid for, the limit is exceeded where what is left is. -/
theorem Code.ExceedsAt.cons {left : Nat} {us : List CodeUnit} {u v : CodeUnit}
    (hpaid : u.cost ≤ left) (h : ExceedsAt (left - u.cost) us v) : ExceedsAt left (u :: us) v := by
  obtain ⟨done, rest, rfl, hdone, hexceeds⟩ := h
  refine ⟨u :: done, rest, rfl, ?_, ?_⟩
  · rw [cost_cons]
    omega
  · rw [List.cons_append, cost_cons]
    omega

namespace Machine

variable {us : List CodeUnit} {m n : Machine} {limit left : Nat}

/-- A run with a limit, of which so much is left, ends like the one without if what that one
executes costs no more. Otherwise it fails after the first unit with which it does. -/
theorem runUnits_capped (env : Environment) (hus : us.Pairwise fun u v => u.pos < v.pos)
    (h : Capped limit m n) (hroom : m.spent + Code.cost us ≤ maxSpent)
    (hleft : m.spent + left = limit) :
    (Code.cost (executed us (runUnits env us m)) ≤ left →
      EndAlike (Capped limit) (runUnits env us m) (runUnits env us n)) ∧
    (left < Code.cost (executed us (runUnits env us m)) →
      ∃ u n', Code.ExceedsAt left (executed us (runUnits env us m)) u ∧
        runUnits env us n = .error (u.pos, .complexityExceeded) n') := by
  -- What is left shrinks by the cost of each unit, and the limit stays the same for both machines.
  induction us generalizing m n left with
  | nil => exact ⟨fun _ => .ok () h, fun hless => absurd hless (Nat.not_lt_zero left)⟩
  | cons u us ih =>
    obtain ⟨hfirst, hrest⟩ := List.pairwise_cons.mp hus
    rw [Code.cost_cons] at hroom
    have hcut := cut_runUnit env u h
    cases hm : runUnit env u m with
    | error cause m' =>
      cases hn : runUnit env u n with
      | ok _ n' =>
        rw [hm, hn] at hcut
        cases hcut
      | error cause' n' =>
        rw [hm, hn] at hcut
        cases hcut
        rw [executed_cons_of_error hm, runUnits_cons_of_error hm, runUnits_cons_of_error hn]
        exact ⟨fun _ => .error _ _ _, fun hless => absurd hless (Nat.not_lt_zero left)⟩
    | ok _ m' =>
      have hspent := spent_of_runUnit hm
      rw [executed_cons hfirst hm, Code.cost_cons]
      cases hn : runUnit env u n with
      | ok _ n' =>
        rw [hm, hn] at hcut
        cases hcut with
        | within fits h' =>
          have hleft' : m'.spent + (left - u.cost) = limit := by omega
          obtain ⟨hwithin, hbeyond⟩ := ih hrest h' (by omega) hleft'
          rw [runUnits_cons_of_ok hm, runUnits_cons_of_ok hn]
          refine ⟨fun hcost => hwithin (by omega), fun hless => ?_⟩
          obtain ⟨v, n'', hexceeds, hfails⟩ := hbeyond (by omega)
          exact ⟨v, n'', hexceeds.cons (by omega), hfails⟩
      | error cause n' =>
        rw [hm, hn] at hcut
        cases hcut with
        | exceeded exceeds =>
          -- Whatever the run without a limit goes on to do, the first unit alone is too much.
          have hcost : left < u.cost := by omega
          refine ⟨fun hle => absurd hle (by omega), fun _ => ⟨u, n', ?_, runUnits_cons_of_error hn⟩⟩
          exact ⟨[], _, rfl, Nat.zero_le left, by simpa using hcost⟩

end Machine

/-- Units that the walk accepts can be read. -/
theorem Heights.exists_mapM_content_of_foldlM {constants : Nat} {h h' : Heights}
    {us : List CodeUnit} (hwalk : us.foldlM (nextUnit constants) h = .ok h') :
    ∃ instructions, us.mapM CodeUnit.content = .ok instructions := by
  induction us generalizing h with
  | nil => exact ⟨[], rfl⟩
  | cons u us ih =>
    rw [List.foldlM_cons, bind_eq_ok_iff] at hwalk
    obtain ⟨next, hnext, hrest⟩ := hwalk
    obtain ⟨i, hcontent, _⟩ := nextUnit_eq_ok hnext
    obtain ⟨instructions, hinstructions⟩ := ih hrest
    refine ⟨i :: instructions, ?_⟩
    rw [List.mapM_cons, hcontent, hinstructions]
    rfl

namespace Program

variable {p : Program} {index : Nat} {code : Bytes} {heights : Heights}

/-- A source of a program has passed the check. -/
theorem check_of_source (h : p.source? index = some (code, heights)) :
    ∃ required, Code.check p.constants.size required code = .ok heights := by
  obtain ⟨required, hcheck⟩ := p.accepted
  simp only [source?, Option.bind_eq_bind, Option.bind_eq_some_iff, Option.pure_def,
    Option.some.injEq, Prod.mk.injEq] at h
  obtain ⟨code', hcode, heights', hheights, rfl, rfl⟩ := h
  obtain ⟨found, hfound, hsource⟩ := Deployment.check_eq_ok hcheck hcode
  rw [hheights] at hfound
  cases hfound
  exact ⟨_, hsource⟩

/-- A source of a program can be disassembled. -/
theorem exists_disassemble_of_source (h : p.source? index = some (code, heights)) :
    ∃ instructions, Code.disassemble code = .ok instructions := by
  obtain ⟨required, hcheck⟩ := check_of_source h
  obtain ⟨hwalk, _⟩ := Code.check_eq_ok hcheck
  exact Heights.exists_mapM_content_of_foldlM hwalk

/-- The cost of a source is far from what is counted at most. -/
theorem cost_lt_of_source (h : p.source? index = some (code, heights)) :
    Code.cost (Code.units 0 code) < Machine.maxSpent := by
  obtain ⟨required, hcheck⟩ := check_of_source h
  obtain ⟨hlength, _⟩ := Code.check_eq_ok_iff.mp hcheck
  exact Code.cost_units_lt hlength

/-- The units of a source that a run with this result has executed: all of them if it has
succeeded, and otherwise those before the one that has failed. -/
def executed (p : Program) (entry : Entry) (result : Except EvalError Outcome) : List CodeUnit :=
  match p.source? entry.source.toNat, result with
  | some (code, _), .ok _ => Code.units 0 code
  | some (code, _), .error (.fault _ pos _) => (Code.units 0 code).takeWhile fun u => u.pos < pos
  | _, _ => []

/-- The result of a source tells which of its units have been executed. -/
theorem executed_eval {entry : Entry}
    (hsource : p.source? entry.source.toNat = some (code, heights)) (settings : Settings)
    (context : Context) (scratch : Scratch) :
    p.executed entry (p.eval settings entry context scratch) =
      Machine.executed (Code.units 0 code)
        (Machine.runUnits ⟨context, p.constants⟩ (Code.units 0 code)
          (.start settings heights.peak scratch)) := by
  simp only [executed, eval, hsource]
  cases Machine.runUnits ⟨context, p.constants⟩ (Code.units 0 code)
      (.start settings heights.peak scratch) <;> rfl

/-- A run that succeeds has cost what the instructions of its source cost. -/
theorem complexity_of_eval {settings : Settings} {entry : Entry} {context : Context}
    {scratch : Scratch} {outcome : Outcome}
    (h : p.eval settings entry context scratch = .ok outcome) :
    ∃ code heights instructions, p.source? entry.source.toNat = some (code, heights) ∧
      Code.disassemble code = .ok instructions ∧
      outcome.complexity = (instructions.map Instruction.complexity).sum ∧
      outcome.complexity < Machine.maxSpent := by
  cases hsource : p.source? entry.source.toNat with
  | none =>
    simp only [eval, hsource] at h
    cases h
  | some found =>
    obtain ⟨code, heights⟩ := found
    obtain ⟨instructions, hinstructions⟩ := exists_disassemble_of_source hsource
    have hcost := cost_lt_of_source hsource
    simp only [eval, hsource] at h
    split at h
    · cases h
    · next m hrun =>
      cases h
      have hroom : (Machine.start settings heights.peak scratch).spent +
          Code.cost (Code.units 0 code) ≤ Machine.maxSpent := by
        simp only [Machine.start, Nat.zero_add]
        exact Nat.le_of_lt hcost
      have hspent := Machine.spent_of_runUnits hroom hrun
      simp only [Machine.start, Nat.zero_add] at hspent
      refine ⟨code, heights, instructions, rfl, hinstructions, ?_, ?_⟩
      · simp only [hspent]
        exact Code.cost_of_mapM hinstructions
      · simp only [hspent]
        exact hcost

/-- With a limit a run has the same result, or it fails at the first executed instruction with
which the cost exceeds the limit. -/
theorem eval_capped (mode : ArithmeticMode) (limit : Nat) (entry : Entry) (context : Context)
    (scratch : Scratch) :
    (Code.cost (p.executed entry (p.eval ⟨mode, none⟩ entry context scratch)) ≤ limit →
      p.eval ⟨mode, some limit⟩ entry context scratch = p.eval ⟨mode, none⟩ entry context scratch) ∧
    (limit < Code.cost (p.executed entry (p.eval ⟨mode, none⟩ entry context scratch)) →
      ∃ u, Code.ExceedsAt limit (p.executed entry (p.eval ⟨mode, none⟩ entry context scratch)) u ∧
        p.eval ⟨mode, some limit⟩ entry context scratch =
          .error (.fault entry.source.toNat u.pos .complexityExceeded)) := by
  cases hsource : p.source? entry.source.toNat with
  | none =>
    have habsent : ∀ settings, p.eval settings entry context scratch =
        .error (.sourceAbsent entry.source.toNat) := by
      intro settings
      simp only [eval, hsource]
    simp only [executed, hsource, habsent, Code.cost_nil, true_and, implies_true]
    exact fun hless => absurd hless (Nat.not_lt_zero limit)
  | some found =>
    obtain ⟨code, heights⟩ := found
    have hstart : Machine.Capped limit (.start ⟨mode, none⟩ heights.peak scratch)
        (.start ⟨mode, some limit⟩ heights.peak scratch) := ⟨rfl, rfl⟩
    have hroom : (Machine.start ⟨mode, none⟩ heights.peak scratch).spent +
        Code.cost (Code.units 0 code) ≤ Machine.maxSpent := by
      have hcost := cost_lt_of_source hsource
      simp only [Machine.start, Nat.zero_add]
      omega
    obtain ⟨hwithin, hbeyond⟩ := Machine.runUnits_capped ⟨context, p.constants⟩
      (Code.pairwise_units 0 code).1 hstart hroom (Nat.zero_add limit)
    rw [executed_eval hsource]
    refine ⟨fun hcost => ?_, fun hless => ?_⟩
    · have halike := hwithin hcost
      simp only [eval, hsource]
      generalize Machine.runUnits _ _ (Machine.start ⟨mode, none⟩ heights.peak scratch) =
        r at halike
      generalize Machine.runUnits _ _ (Machine.start ⟨mode, some limit⟩ heights.peak scratch) =
        s at halike
      cases halike with
      | error fault m n => rfl
      | @ok m n _ h =>
        obtain ⟨_, rfl⟩ := h
        rfl
    · obtain ⟨u, n, hexceeds, hfails⟩ := hbeyond hless
      refine ⟨u, hexceeds, ?_⟩
      simp only [eval, hsource, hfails]

/-- The cost of a run is told by its code: a run that succeeds has cost what the instructions of
the source cost together, which is never too much to be counted. A limit cuts a run cleanly: it
makes no difference to a run that has not executed more than it allows, and otherwise the run
fails at the first instruction with which the cost exceeds it, whatever would have come after. -/
theorem limit_cuts_cleanly (p : Program) (mode : ArithmeticMode) (entry : Entry) (context : Context)
    (scratch : Scratch) :
    (∀ limit outcome, p.eval ⟨mode, limit⟩ entry context scratch = .ok outcome →
      ∃ code heights instructions, p.source? entry.source.toNat = some (code, heights) ∧
        Code.disassemble code = .ok instructions ∧
        outcome.complexity = (instructions.map Instruction.complexity).sum ∧
        outcome.complexity < Machine.maxSpent) ∧
    ∀ limit : Nat,
      (Code.cost (p.executed entry (p.eval ⟨mode, none⟩ entry context scratch)) ≤ limit →
        p.eval ⟨mode, some limit⟩ entry context scratch =
          p.eval ⟨mode, none⟩ entry context scratch) ∧
      (limit < Code.cost (p.executed entry (p.eval ⟨mode, none⟩ entry context scratch)) →
        ∃ u, Code.ExceedsAt limit (p.executed entry (p.eval ⟨mode, none⟩ entry context scratch)) u ∧
          p.eval ⟨mode, some limit⟩ entry context scratch =
            .error (.fault entry.source.toNat u.pos .complexityExceeded)) :=
  ⟨fun _ _ h => complexity_of_eval h, fun limit => eval_capped mode limit entry context scratch⟩

end Program

end Bourse
