import Bourse.Proofs.Machine.Composition
import Bourse.Proofs.Machine.Coupling
import Bourse.Proofs.Machine.Running
import Bourse.Proofs.Result

/-!
# Scratch values across a run

A program reads scratch values one key at a time, so all it can tell of them is what the keys
read. Two runs from scratch values that read the same end alike, whichever keys are present. One
instruction writes, and what a run leaves is what it has started with, overwritten by its writes
in order: a key holds the last value written to it, and no key is lost.
-/

namespace Bourse

/-- A value and the key that it is stored under. -/
structure Write where
  key : Word
  value : Word
  deriving DecidableEq

namespace Scratch

/-- The scratch values after some writes, the earliest first. -/
def after (s : Scratch) (writes : List Write) : Scratch :=
  writes.foldl (fun s w => s.insert w.key w.value) s

/-- Writes can be made in two parts. -/
theorem after_append (s : Scratch) (writes others : List Write) :
    s.after (writes ++ others) = (s.after writes).after others :=
  List.foldl_append ..

variable {s : Scratch} {key value : Word} {writes before later : List Write}

/-- A key that is not written keeps its value, or its absence. -/
theorem get?_after_of_unwritten (h : ∀ w ∈ writes, w.key ≠ key) :
    (s.after writes).get? key = s.get? key := by
  induction writes generalizing s with
  | nil => rfl
  | cons w writes ih =>
    obtain ⟨hfirst, hrest⟩ := List.forall_mem_cons.mp h
    calc (after (s.insert w.key w.value) writes).get? key
        = (s.insert w.key w.value).get? key := ih hrest
      _ = s.get? key := SortedMap.get?_insert_of_ne s w.value hfirst.symm

/-- The last write to a key wins. -/
theorem get?_after_of_last (h : ∀ w ∈ later, w.key ≠ key) :
    (s.after (before ++ ⟨key, value⟩ :: later)).get? key = some value := by
  rw [after_append]
  calc (after ((s.after before).insert key value) later).get? key
      = ((s.after before).insert key value).get? key := get?_after_of_unwritten h
    _ = some value := SortedMap.get?_insert_self ..

/-- Writes make no key disappear. -/
theorem contains_after (h : s.contains key = true) : (s.after writes).contains key = true := by
  induction writes generalizing s with
  | nil => exact h
  | cons w writes ih => exact ih (SortedMap.contains_insert.mpr (Or.inr h))

/-- A write changes what is read under its key and nothing else. -/
theorem read_insert (s : Scratch) (k key value : Word) :
    read (s.insert k value) key = if key = k then value else s.read key := by
  by_cases h : key = k
  · subst h
    rw [if_pos rfl, read, SortedMap.get?_insert_self, Option.getD_some]
  · rw [if_neg h, read, SortedMap.get?_insert_of_ne s value h, read]

end Scratch

/-- What the instruction writes on this machine: the value on top of the stack, to the key below
it. -/
def Instruction.write? (i : Instruction) (m : Machine) : Option Write :=
  match i with
  | .set => do return ⟨← m.stack.pop.back?, ← m.stack.back?⟩
  | _ => none

/-- What the unit of code writes on this machine. -/
def CodeUnit.write? (u : CodeUnit) (m : Machine) : Option Write :=
  u.content.toOption.bind (·.write? m)

/-- What a run of units writes, the earliest first. -/
def Machine.writes (env : Environment) : List CodeUnit → Machine → List Write
  | [], _ => []
  | u :: us, m =>
    match runUnit env u m with
    | .ok _ m' => (u.write? m).toList ++ writes env us m'
    | .error _ _ => []

section

variable {env : Environment} {m m' : Machine}

/-- An instruction changes the scratch values by what it writes. -/
theorem Instruction.scratch_of_exec {i : Instruction} (h : i.exec env m = .ok () m') :
    m'.scratch = m.scratch.after (i.write? m).toList := by
  by_cases hset : i = .set
  · subst hset
    simp only [exec, Bind.bind, EStateM.bind, Machine.pop, Machine.store] at h
    cases hvalue : m.stack.back? with
    | none =>
      rw [hvalue] at h
      cases h
    | some value =>
      rw [hvalue] at h
      simp only at h
      cases hkey : m.stack.pop.back? with
      | none =>
        rw [hkey] at h
        cases h
      | some key =>
        rw [hkey] at h
        cases h
        rw [write?, hvalue, hkey]
        rfl
  · have hkeeps : Machine.Storeless (Machine.Keeps Machine.scratch) :=
      Machine.storeless_keeps fun _ _ => rfl
    have hkept : m'.scratch = m.scratch := hkeeps.exec env i hset m () m' h
    have hnone : i.write? m = none := by
      rw [write?.eq_def]
      split
      · exact absurd rfl hset
      · rfl
    rw [hkept, hnone]
    rfl

namespace Machine

variable {u : CodeUnit} {us : List CodeUnit}

/-- Paying for an instruction does not touch the scratch values. -/
theorem scratch_of_runUnit (h : runUnit env u m = .ok () m') :
    m'.scratch = m.scratch.after (u.write? m).toList := by
  cases hcontent : u.content with
  | error cause =>
    simp only [runUnit, hcontent] at h
    cases h
  | ok i =>
    simp only [runUnit, hcontent, runInstruction, Bind.bind, EStateM.bind] at h
    split at h
    · next n hexec =>
      have hscratch := i.scratch_of_exec hexec
      rw [pay] at h
      split at h <;> cases h
      rw [CodeUnit.write?, hcontent]
      exact hscratch
    · cases h

/-- A run leaves the scratch values that it has started with, overwritten by its writes. -/
theorem scratch_of_runUnits (h : runUnits env us m = .ok () m') :
    m'.scratch = m.scratch.after (writes env us m) := by
  induction us generalizing m with
  | nil =>
    cases h
    rfl
  | cons u us ih =>
    obtain ⟨n, hunit, hrest⟩ := runUnits_cons_eq_ok h
    rw [writes, hunit, Scratch.after_append, ← scratch_of_runUnit hunit]
    exact ih hrest

/-- A key that is stored twice. -/
example : writes ⟨.empty, #[7, 1, 2]⟩
    ([.read ⟨.constant, 0⟩, .read ⟨.constant, 1⟩, .set,
      .read ⟨.constant, 0⟩, .read ⟨.constant, 2⟩, .set].map fun i => ⟨0, .ok i⟩)
    (.start {} 2 .empty) = [⟨7, 1⟩, ⟨7, 2⟩] := by decide

end Machine

end

/-- The machines are the same but for their scratch values, and these read the same. -/
structure Machine.ReadAlike (m n : Machine) : Prop where
  stack : m.stack = n.stack
  alloc : m.alloc = n.alloc
  settings : m.settings = n.settings
  spent : m.spent = n.spent
  read : ∀ key, m.scratch.read key = n.scratch.read key

namespace Machine

/-- Scratch values that are read alike make no difference to the rest of a machine. -/
theorem indistinct_readAlike : Indistinct ReadAlike where
  stack h := h.stack
  alloc h := h.alloc
  read h := h.read
  setStack h _ := { h with stack := rfl }
  store h key value :=
    { h with read := fun other => by rw [Scratch.read_insert, Scratch.read_insert, h.read other] }

/-- Paying does not depend on scratch values. -/
theorem coupled_pay_readAlike (cost : Nat) : Coupled ReadAlike (pay cost) (pay cost) := by
  intro m n h
  have hcharge : ReadAlike (m.charge cost) (n.charge cost) :=
    { h with spent := by rw [charge, charge, h.spent] }
  have hlimit : (m.charge cost).withinLimit = (n.charge cost).withinLimit := by
    rw [withinLimit, withinLimit, hcharge.settings, hcharge.spent]
  rw [pay, pay, hlimit]
  split
  · exact .ok () hcharge
  · exact .error _ _ _

/-- Code that starts with scratch values that are read alike ends alike. -/
theorem coupled_runUnits_readAlike (env : Environment) (us : List CodeUnit) :
    Coupled ReadAlike (runUnits env us) (runUnits env us) :=
  coupled_runUnits indistinct_readAlike (fun h => congrArg Settings.mode h.settings)
    coupled_pay_readAlike env us

end Machine

/-- The outcomes have the same values and cost, and scratch values that read the same. -/
structure Outcome.ReadAlike (o o' : Outcome) : Prop where
  values : o.values = o'.values
  complexity : o.complexity = o'.complexity
  read : ∀ key, o.scratch.read key = o'.scratch.read key

namespace Program

variable {p : Program} {settings : Settings} {entry : Entry} {context : Context}
  {scratch scratch' : Scratch}

/-- What a run of a source writes, the earliest first. -/
def writes (p : Program) (settings : Settings) (entry : Entry) (context : Context)
    (scratch : Scratch) : List Write :=
  match p.source? entry.source.toNat with
  | none => []
  | some (code, heights) =>
    Machine.writes ⟨context, p.constants⟩ (Code.units 0 code)
      (.start settings heights.peak scratch)

/-- The scratch values of an outcome are those from before after the writes of the run. -/
theorem scratch_of_eval {outcome : Outcome}
    (h : p.eval settings entry context scratch = .ok outcome) :
    outcome.scratch = scratch.after (p.writes settings entry context scratch) := by
  cases hsource : p.source? entry.source.toNat with
  | none =>
    simp only [eval, hsource] at h
    cases h
  | some found =>
    obtain ⟨code, heights⟩ := found
    simp only [eval, hsource] at h
    split at h
    · cases h
    · next m hrun =>
      cases h
      rw [writes, hsource]
      exact Machine.scratch_of_runUnits hrun

/-- A source that starts with scratch values that are read alike ends alike. -/
theorem eval_readAlike (h : ∀ key, scratch.read key = scratch'.read key) (p : Program)
    (settings : Settings) (entry : Entry) (context : Context) :
    Alike Outcome.ReadAlike (p.eval settings entry context scratch)
      (p.eval settings entry context scratch') := by
  cases hsource : p.source? entry.source.toNat with
  | none =>
    simp only [eval, hsource]
    exact .error _
  | some found =>
    obtain ⟨code, heights⟩ := found
    have hstart : Machine.ReadAlike (.start settings heights.peak scratch)
        (.start settings heights.peak scratch') := ⟨rfl, rfl, rfl, rfl, h⟩
    have hruns := Machine.coupled_runUnits_readAlike ⟨context, p.constants⟩ (Code.units 0 code)
      _ _ hstart
    simp only [eval, hsource]
    generalize Machine.runUnits _ _ (Machine.start settings heights.peak scratch) = r at hruns
    generalize Machine.runUnits _ _ (Machine.start settings heights.peak scratch') = s at hruns
    cases hruns with
    | error fault m n => exact .error _
    | @ok m n _ halike =>
      refine .ok ⟨?_, halike.spent, halike.read⟩
      simp only [halike.stack]

/-- All that a program can tell of scratch values is what their keys read: from scratch values
that read the same, a source ends with the same values at the same cost and leaves scratch values
that read the same, or it fails in the same way at the same place. A run that succeeds leaves
under each key the last value that it has written there, or what was there before if it has
written none, and every key that was there is still there. -/
theorem scratch_seen_by_values (p : Program) (settings : Settings) (entry : Entry)
    (context : Context) :
    (∀ scratch scratch' : Scratch, (∀ key, scratch.read key = scratch'.read key) →
      Alike Outcome.ReadAlike (p.eval settings entry context scratch)
        (p.eval settings entry context scratch')) ∧
    ∀ scratch outcome, p.eval settings entry context scratch = .ok outcome →
      (∀ before key value later,
        p.writes settings entry context scratch = before ++ ⟨key, value⟩ :: later →
        (∀ w ∈ later, w.key ≠ key) → outcome.scratch.get? key = some value) ∧
      (∀ key, (∀ w ∈ p.writes settings entry context scratch, w.key ≠ key) →
        outcome.scratch.get? key = scratch.get? key) ∧
      ∀ key, scratch.contains key = true → outcome.scratch.contains key = true := by
  refine ⟨fun scratch scratch' h => eval_readAlike h p settings entry context, ?_⟩
  intro scratch outcome heval
  have hscratch := scratch_of_eval heval
  refine ⟨fun before key value later hwrites hlater => ?_, fun key hkey => ?_, fun key hkey => ?_⟩
  · rw [hscratch, hwrites]
    exact Scratch.get?_after_of_last hlater
  · rw [hscratch]
    exact Scratch.get?_after_of_unwritten hkey
  · rw [hscratch]
    exact Scratch.contains_after hkey

end Program

end Bourse
