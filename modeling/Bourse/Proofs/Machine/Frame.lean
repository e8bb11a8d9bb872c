import Mathlib.Data.List.Basic
import Bourse.Proofs.Instruction.Wide
import Bourse.Proofs.Machine.Running

/-!
# What an instruction leaves alone

An instruction is told by its static effect: it takes its inputs from the top of the stack and
leaves its outputs there. To see that nothing below is touched or looked at, the machine is
compared with a bare one that has nothing but the inputs. An access to the top of the stack does
the same on both, as long as the bare machine has enough values, and the static effect says that
it has. So the outputs are what the instruction leaves on the bare machine, whatever else there is
on the other one.
-/

namespace Bourse

namespace Machine

/-- The machine has the values of the smaller one on top of those of `below`, in the same mode. -/
structure Above (below : List Word) (s m : Machine) : Prop where
  stack : m.stack.toList = below ++ s.stack.toList
  mode : m.settings.mode = s.settings.mode

/-- Two results of an access: the same on values that both machines have, unless one of the
machines has too few values or too little room. -/
inductive EndAbove {α : Type} (below : List Word) :
    EStateM.Result Fault Machine α → EStateM.Result Fault Machine α → Prop
  | ok {s m : Machine} (a : α) (h : Above below s m) : EndAbove below (.ok a s) (.ok a m)
  | error (cause : Fault) (s m : Machine) : EndAbove below (.error cause s) (.error cause m)
  | short {cause : Fault} (h : cause.isStatic = true) (s : Machine)
      (r : EStateM.Result Fault Machine α) : EndAbove below (.error cause s) r
  | cramped {cause : Fault} (h : cause.isStatic = true) (r : EStateM.Result Fault Machine α)
      (m : Machine) : EndAbove below r (.error cause m)

/-- Values further down do not matter to the access. -/
def Lifts {α : Type} (x : Access α) : Prop :=
  ∀ below s m, Above below s m → EndAbove below (x s) (x m)

/-- Whatever is made of accesses to the top of the stack does not depend on values further down. -/
theorem topOnly_lifts : TopOnly Lifts where
  pure := by
    intro α a below s m h
    exact .ok a h
  throw := by
    intro α cause below s m _
    exact .error cause s m
  bind := by
    intro α β x f hx hf below s m h
    have hfirst := hx below s m h
    simp only [Bind.bind, EStateM.bind]
    generalize x s = r at hfirst
    generalize x m = t at hfirst
    cases hfirst with
    | ok a h' => exact hf a below _ _ h'
    | error cause s' m' => exact .error cause s' m'
    | short hstatic s' t => exact .short hstatic s' _
    | cramped hstatic r m' => exact .cramped hstatic _ m'
  push := by
    intro w below s m h
    rw [push, push]
    by_cases hsmall : s.stack.size < s.alloc
    · rw [if_pos hsmall]
      split
      · refine .ok () ⟨?_, h.mode⟩
        rw [Array.toList_push, Array.toList_push, h.stack, List.append_assoc]
      · exact .cramped rfl _ _
    · rw [if_neg hsmall]
      exact .short rfl _ _
  pop := by
    intro below s m h
    rcases List.eq_nil_or_concat s.stack.toList with hempty | ⟨rest, w, hrest⟩
    · have hsize : s.stack = #[] := Array.toList_eq_nil_iff.mp hempty
      rw [pop, hsize]
      exact .short rfl _ _
    · rw [List.concat_eq_append] at hrest
      have hstack : m.stack.toList = (below ++ rest) ++ [w] := by
        rw [h.stack, hrest, List.append_assoc]
      rw [pop_of_stack hrest, pop_of_stack hstack]
      exact .ok w ⟨rfl, h.mode⟩
  popMany := by
    intro count below s m h
    by_cases hcount : count ≤ s.stack.size
    · obtain ⟨rest, values, hrest, hlength⟩ : ∃ rest values : List Word,
          s.stack.toList = rest ++ values ∧ values.length = count := by
        refine ⟨s.stack.toList.take (s.stack.size - count),
          s.stack.toList.drop (s.stack.size - count), (List.take_append_drop ..).symm, ?_⟩
        rw [List.length_drop, Array.length_toList]
        omega
      have hstack : m.stack.toList = (below ++ rest) ++ values := by
        rw [h.stack, hrest, List.append_assoc]
      rw [← hlength, popMany_of_stack hrest, popMany_of_stack hstack]
      exact .ok values ⟨rfl, h.mode⟩
    · rw [popMany, if_neg hcount]
      exact .short rfl _ _
  mode := by
    intro below s m h
    rw [mode, mode, h.mode]
    exact .ok s.settings.mode h
  amount := by
    intro result below s m h
    cases result with
    | ok w => exact .ok w h
    | error cause => exact .error _ s m

/-- A machine that has nothing but some values and room for `alloc` of them. -/
def bare (mode : ArithmeticMode) (alloc : Nat) (values : List Word) : Machine :=
  { start { mode } alloc .empty with stack := values.toArray }

section

variable {x : Access Unit} {m m' s : Machine} {mode : ArithmeticMode} {alloc : Nat}
  {below inputs : List Word}

/-- A machine stands above one that has nothing but its inputs. -/
theorem above_bare (alloc : Nat) (hstack : m.stack.toList = below ++ inputs)
    (hmode : m.settings.mode = mode) : Above below (bare mode alloc inputs) m := ⟨hstack, hmode⟩

/-- What succeeds on a machine also succeeds on the bare one, if that has enough values, and
leaves the same values on top. -/
theorem Lifts.exists_bare (hx : Lifts x) (hleads : Leads alloc inputs.length alloc x fun _ => True)
    (hstack : m.stack.toList = below ++ inputs) (h : x m = .ok () m') :
    ∃ s, x (bare m.settings.mode alloc inputs) = .ok () s ∧ s.height = alloc ∧
      Above below s m' := by
  have hbare := hleads (bare m.settings.mode alloc inputs) rfl rfl
  have hend := hx below _ m (above_bare alloc hstack rfl)
  rw [h] at hend
  generalize x (bare m.settings.mode alloc inputs) = r at hbare hend
  cases hend with
  | ok a habove => exact ⟨_, rfl, hbare.2.1, habove⟩
  | short hstatic s r =>
    rw [hbare] at hstatic
    cases hstatic

/-- What succeeds on the bare machine leaves the same values on top of any other, if it succeeds
there. -/
theorem Lifts.above_of_bare (hx : Lifts x) (hbare : x (bare mode alloc inputs) = .ok () s)
    (hstack : m.stack.toList = below ++ inputs) (hmode : m.settings.mode = mode)
    (h : x m = .ok () m') : Above below s m' := by
  have hend := hx below _ m (above_bare alloc hstack hmode)
  rw [hbare, h] at hend
  cases hend with
  | ok a habove => exact habove

/-- It does succeed there if there is enough room. -/
theorem Lifts.exists_of_bare {n k : Nat} (hx : Lifts x)
    (hbare : x (bare mode alloc inputs) = .ok () s) (hleads : Leads m.alloc n k x fun _ => True)
    (hheight : m.height = n) (hstack : m.stack.toList = below ++ inputs)
    (hmode : m.settings.mode = mode) : ∃ m', x m = .ok () m' := by
  have hroom := hleads m rfl hheight
  have hend := hx below _ m (above_bare alloc hstack hmode)
  rw [hbare] at hend
  generalize x m = r at hroom hend
  cases hend with
  | ok a habove => exact ⟨_, rfl⟩
  | cramped hstatic r m' =>
    rw [hroom] at hstatic
    cases hstatic

end

/-- A push that succeeds adds the word and nothing else. -/
theorem push_eq_ok {m m' : Machine} {w : Word} (h : push w m = .ok () m') :
    m' = { m with stack := m.stack.push w } := by
  rw [push] at h
  split at h <;> cases h
  rfl

end Machine

namespace Instruction

open Machine

variable {m : Machine} {below : List Word} {key value : Word}

/-- The instruction takes a key and pushes what is kept under it. -/
theorem exec_get_of_stack (env : Environment) (hstack : m.stack.toList = below ++ [key]) :
    get.exec env m = push (m.scratch.read key) { m with stack := below.toArray } := by
  simp only [exec, Bind.bind, EStateM.bind, pop_of_stack hstack, load]

/-- The instruction takes a value and a key and keeps the one under the other. -/
theorem exec_set_of_stack (env : Environment) (hstack : m.stack.toList = below ++ [key, value]) :
    set.exec env m =
      .ok () { m with stack := below.toArray, scratch := m.scratch.insert key value } := by
  have hvalue : m.stack.toList = (below ++ [key]) ++ [value] := by
    rw [hstack, List.append_assoc, List.singleton_append]
  have hkey := pop_of_stack (m := { m with stack := (below ++ [key]).toArray }) rfl
  simp only [exec, Bind.bind, EStateM.bind, pop_of_stack hvalue, hkey, store]

end Instruction

namespace WideInstruction

open Machine Instruction

/-- Between the machines the instruction has replaced `inputs` on top of the stack by `outputs`
and has left the rest of the machine as it was, except that a stored value is now found under its
key. -/
structure Replaced (w : WideInstruction) (m m' : Machine) (below inputs outputs : List Word) :
    Prop where
  before : m.stack.toList = below ++ inputs
  after : m'.stack.toList = below ++ outputs
  length_inputs : inputs.length = w.inputs
  length_outputs : outputs.length = w.outputs
  alloc : m'.alloc = m.alloc
  settings : m'.settings = m.settings
  spent : m'.spent = m.spent
  scratch : w ≠ .coded .set → m'.scratch = m.scratch
  stored : w = .coded .set →
    ∃ key value, inputs = [key, value] ∧ m'.scratch = m.scratch.insert key value

/-- The other machine has the values `inputs` on top of those of `others`, is run in the same
mode, and has the same scratch value under the key that `get` pops. -/
structure Resembles (w : WideInstruction) (m n : Machine) (others inputs : List Word) : Prop where
  stack : n.stack.toList = others ++ inputs
  mode : n.settings.mode = m.settings.mode
  read : w = .coded .get → ∀ key ∈ inputs, n.scratch.read key = m.scratch.read key

/-- On every machine that resembles this one, the instruction pushes `outputs` as well if it
succeeds, and it does succeed if there is enough room for them. -/
def Determines (env : Environment) (w : WideInstruction) (m : Machine)
    (inputs outputs : List Word) : Prop :=
  ∀ n others, w.Resembles m n others inputs →
    (∀ n', w.exec env n = .ok () n' → n'.stack.toList = others ++ outputs) ∧
    (others.length + w.outputs ≤ n.alloc → ∃ n', w.exec env n = .ok () n')

section

variable {env : Environment} {w : WideInstruction} {m m' : Machine} {below inputs : List Word}

/-- An instruction that is confined to the top of the stack leaves there what it leaves on a bare
machine. -/
theorem exists_outputs_of_lifts (hlifts : Lifts (w.exec env)) (hread : w.readsStack = false)
    (hcheck : w.checkOperand m.height env.constants.size = .ok ())
    (hstack : m.stack.toList = below ++ inputs) (hlength : inputs.length = w.inputs)
    (h : w.exec env m = .ok () m') :
    ∃ outputs, m'.stack.toList = below ++ outputs ∧ outputs.length = w.outputs ∧
      w.Determines env m inputs outputs := by
  have hleads : ∀ rest alloc, rest + w.outputs ≤ alloc →
      Leads alloc (rest + w.inputs) (rest + w.outputs) (w.exec env) fun _ => True := fun rest _ =>
    w.leads_exec env ((checkOperand_height hread (rest + w.inputs) _ _).trans hcheck)
  have hbare := hleads 0 w.outputs (Nat.le_of_eq (Nat.zero_add _))
  rw [Nat.zero_add, Nat.zero_add, ← hlength] at hbare
  obtain ⟨s, hs, hheight, habove⟩ := hlifts.exists_bare hbare hstack h
  refine ⟨s.stack.toList, habove.stack, ?_, ?_⟩
  · rw [Array.length_toList]
    exact hheight
  · intro n others hn
    refine ⟨fun n' hn' => (hlifts.above_of_bare hs hn.stack hn.mode hn').stack, fun hroom => ?_⟩
    refine hlifts.exists_of_bare hs (hleads others.length n.alloc hroom) ?_ hn.stack hn.mode
    rw [height, ← Array.length_toList, hn.stack, List.length_append, hlength]

/-- A read within the stack leaves one value more, and what was there stays. -/
theorem exists_outputs_of_readsStack (hread : w.readsStack = true)
    (hstack : m.stack.toList = below ++ inputs) (hlength : inputs.length = w.inputs)
    (h : w.exec env m = .ok () m') :
    ∃ outputs, m'.stack.toList = below ++ outputs ∧ outputs.length = w.outputs := by
  obtain ⟨hinputs, houtputs, index, hexec⟩ := exists_read_of_readsStack hread
  rw [hinputs, List.length_eq_zero_iff] at hlength
  subst hlength
  simp only [hexec, Bind.bind, EStateM.bind] at h
  split at h
  · next value n hvalue =>
    have hsame : n = m := by
      rw [Machine.read] at hvalue
      split at hvalue <;> cases hvalue
      rfl
    refine ⟨[value], ?_, houtputs.symm⟩
    rw [push_eq_ok h, hsame, Array.toList_push, hstack, List.append_nil]
  · cases h

/-- Loading puts a scratch value in the place of its key, the same wherever this key is kept
alike. -/
theorem exists_outputs_of_get (hstack : m.stack.toList = below ++ inputs)
    (hlength : inputs.length = 1) (h : (coded .get).exec env m = .ok () m') :
    ∃ outputs, m'.stack.toList = below ++ outputs ∧ outputs.length = 1 ∧
      (coded .get).Determines env m inputs outputs := by
  obtain ⟨key, rfl⟩ := List.length_eq_one_iff.mp hlength
  have hexec : ∀ (n : Machine) others, n.stack.toList = others ++ [key] →
      (coded .get).exec env n = push (n.scratch.read key) { n with stack := others.toArray } :=
    fun n others hn => exec_get_of_stack env hn
  rw [hexec m below hstack] at h
  refine ⟨[m.scratch.read key], ?_, rfl, ?_⟩
  · rw [push_eq_ok h, Array.toList_push]
  · intro n others hn
    have hsame := hn.read rfl key (List.mem_singleton_self key)
    rw [hexec n others hn.stack, hsame]
    refine ⟨fun n' hn' => ?_, fun hroom => ⟨_, push_of_room n _ hroom⟩⟩
    rw [push_eq_ok hn', Array.toList_push]

/-- Storing a scratch value takes the key and the value from the stack. -/
theorem exists_outputs_of_set (hstack : m.stack.toList = below ++ inputs)
    (hlength : inputs.length = 2) (h : (coded .set).exec env m = .ok () m') :
    ∃ outputs, m'.stack.toList = below ++ outputs ∧ outputs.length = 0 ∧
      (coded .set).Determines env m inputs outputs := by
  obtain ⟨key, value, rfl⟩ := List.length_eq_two.mp hlength
  have hafter : ∀ (n n' : Machine) others, n.stack.toList = others ++ [key, value] →
      (coded .set).exec env n = .ok () n' → n'.stack.toList = others ++ [] := by
    intro n n' others hn hn'
    cases (exec_set_of_stack env hn).symm.trans hn'
    exact (List.append_nil others).symm
  refine ⟨[], hafter m m' below hstack h, rfl, ?_⟩
  intro n others hn
  exact ⟨fun n' => hafter n n' others hn.stack, fun _ => ⟨_, exec_set_of_stack env hn.stack⟩⟩

/-- What is stored is the topmost input, under the one below it. -/
theorem stored_of_set (hstack : m.stack.toList = below ++ inputs) (hlength : inputs.length = 2)
    (h : (coded .set).exec env m = .ok () m') :
    ∃ key value, inputs = [key, value] ∧ m'.scratch = m.scratch.insert key value := by
  obtain ⟨key, value, rfl⟩ := List.length_eq_two.mp hlength
  cases (exec_set_of_stack env hstack).symm.trans h
  exact ⟨key, value, rfl, rfl⟩

/-- An instruction that succeeds puts its outputs in the place of its inputs and leaves the stack
below as it is; if it does not read there, the outputs depend on the inputs only. -/
theorem exists_outputs (hcheck : w.checkOperand m.height env.constants.size = .ok ())
    (hstack : m.stack.toList = below ++ inputs) (hlength : inputs.length = w.inputs)
    (h : w.exec env m = .ok () m') :
    ∃ outputs, m'.stack.toList = below ++ outputs ∧ outputs.length = w.outputs ∧
      (w.readsStack = false → w.Determines env m inputs outputs) := by
  by_cases hread : w.readsStack = true
  · obtain ⟨outputs, hafter, houtputs⟩ := exists_outputs_of_readsStack hread hstack hlength h
    exact ⟨outputs, hafter, houtputs, fun hno => absurd hread (ne_true_of_eq_false hno)⟩
  · have hno := eq_false_of_ne_true hread
    obtain ⟨outputs, hafter, houtputs, hdetermines⟩ : ∃ outputs,
        m'.stack.toList = below ++ outputs ∧ outputs.length = w.outputs ∧
          w.Determines env m inputs outputs := by
      by_cases hget : w = .coded .get
      · subst hget
        exact exists_outputs_of_get hstack hlength h
      · by_cases hset : w = .coded .set
        · subst hset
          exact exists_outputs_of_set hstack hlength h
        · exact exists_outputs_of_lifts (topOnly_lifts.wideExec env w hno hget hset) hno hcheck
            hstack
            hlength h
    exact ⟨outputs, hafter, houtputs, fun _ => hdetermines⟩

/-- The parts of the machine that no instruction touches, and the one that a single instruction
does. -/
theorem kept_of_exec (h : w.exec env m = .ok () m') :
    m'.alloc = m.alloc ∧ m'.settings = m.settings ∧ m'.spent = m.spent ∧
      (w ≠ .coded .set → m'.scratch = m.scratch) := by
  have halloc : Compositional (Keeps Machine.alloc) :=
    compositional_keeps (fun _ _ => rfl) fun _ _ => rfl
  have hsettings : Compositional (Keeps Machine.settings) :=
    compositional_keeps (fun _ _ => rfl) fun _ _ => rfl
  have hspent : Compositional (Keeps Machine.spent) :=
    compositional_keeps (fun _ _ => rfl) fun _ _ => rfl
  have hscratch : Storeless (Keeps Machine.scratch) := storeless_keeps fun _ _ => rfl
  exact ⟨halloc.wideExec env w m () m' h, hsettings.wideExec env w m () m' h,
    hspent.wideExec env w m () m' h, fun hset => hscratch.wideExec env w hset m () m' h⟩

end

/-- An instruction whose operand is accepted and which has enough values on the stack, if it
succeeds, replaces as many values on top of the stack as its static effect says by as many others.
Nothing below them and no other part of the machine changes, but for the scratch value that is
stored. Unless it reads from the stack, what it pushes depends on the values it pops, the
constants, the context and the mode alone, and on the scratch value under the popped key where it
looks one up. -/
theorem exec_frame (env : Environment) (w : WideInstruction) {m m' : Machine}
    (hcheck : w.checkOperand m.height env.constants.size = .ok ()) (hheight : w.inputs ≤ m.height)
    (h : w.exec env m = .ok () m') :
    ∃ below inputs outputs, w.Replaced m m' below inputs outputs ∧
      (w.readsStack = false → w.Determines env m inputs outputs) := by
  obtain ⟨below, inputs, hstack, hlength⟩ : ∃ below inputs : List Word,
      m.stack.toList = below ++ inputs ∧ inputs.length = w.inputs := by
    refine ⟨m.stack.toList.take (m.height - w.inputs), m.stack.toList.drop (m.height - w.inputs),
      (List.take_append_drop ..).symm, ?_⟩
    rw [List.length_drop, Array.length_toList]
    exact Nat.sub_sub_self hheight
  obtain ⟨outputs, hafter, houtputs, hdetermines⟩ := exists_outputs hcheck hstack hlength h
  obtain ⟨halloc, hsettings, hspent, hscratch⟩ := kept_of_exec h
  refine ⟨below, inputs, outputs, ⟨hstack, hafter, hlength, houtputs, halloc, hsettings, hspent,
    hscratch, ?_⟩, hdetermines⟩
  rintro rfl
  exact stored_of_set hstack hlength h

/-- A machine with the key of a scratch value on top of its stack. -/
def keyMachine : Machine :=
  { Machine.start {} 4 (.insert .empty 5 7) with stack := #[9, 5] }

/-- Under the key five it finds seven, whatever else the machine has. -/
theorem exec_frame_keyMachine :
    (coded .get).checkOperand keyMachine.height 0 = .ok () ∧
    (coded .get).inputs ≤ keyMachine.height ∧
    (coded .get).exec ⟨.empty, #[]⟩ keyMachine = .ok () { keyMachine with stack := #[9, 7] } ∧
    ∃ below inputs outputs,
      (coded .get).Replaced keyMachine { keyMachine with stack := #[9, 7] } below inputs outputs ∧
      (coded .get).Determines ⟨.empty, #[]⟩ keyMachine inputs outputs := by
  have hcheck : (coded .get).checkOperand keyMachine.height 0 = .ok () := rfl
  have hheight : (coded .get).inputs ≤ keyMachine.height := by decide
  have hexec : (coded .get).exec ⟨.empty, #[]⟩ keyMachine =
      .ok () { keyMachine with stack := #[9, 7] } := rfl
  obtain ⟨below, inputs, outputs, hreplaced, hdetermines⟩ :=
    exec_frame ⟨.empty, #[]⟩ (.coded .get) hcheck hheight hexec
  exact ⟨hcheck, hheight, hexec, below, inputs, outputs, hreplaced, hdetermines rfl⟩

end WideInstruction

end Bourse
