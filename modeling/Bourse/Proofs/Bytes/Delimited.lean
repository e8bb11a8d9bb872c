import Bourse.Proofs.Word

/-!
# Bytes that show where they end

Fields are written one after the other, so a reader has to know from the bytes of a field where
the next one begins. A number of a fixed width shows that, and so does a list behind its length.
Fields that show where they end can be cut off from the left, one by one, and what is left
determines the rest.
-/

namespace Bourse.Bytes

variable {α : Type}

/-- Among the values with `P`, the written bytes tell the value and where they end, whatever
follows. -/
def Delimited (P : α → Prop) (write : α → Bytes) : Prop :=
  ∀ a b rest rest', P a → P b → write a ++ rest = write b ++ rest' → a = b ∧ rest = rest'

/-- A list behind its length. -/
def counted (width : Nat) (write : α → Bytes) (xs : List α) : Bytes :=
  bigEndian width xs.length ++ xs.flatMap write

namespace Delimited

variable {P : α → Prop} {write : α → Bytes}

/-- Bytes of a fixed number that tell the value also show where they end. -/
theorem of_length {width : Nat} (hlength : ∀ a, (write a).length = width)
    (hinj : ∀ a b, P a → P b → write a = write b → a = b) : Delimited P write := by
  intro a b rest rest' ha hb h
  obtain ⟨hwrite, hrest⟩ := List.append_inj h (by rw [hlength, hlength])
  exact ⟨hinj a b ha hb hwrite, hrest⟩

/-- Lists of one length are told by the bytes of their elements. -/
theorem flatMap_inj (h : Delimited P write) {xs ys : List α} {rest rest' : Bytes}
    (hlength : xs.length = ys.length) (hxs : ∀ x ∈ xs, P x) (hys : ∀ y ∈ ys, P y)
    (heq : xs.flatMap write ++ rest = ys.flatMap write ++ rest') : xs = ys ∧ rest = rest' := by
  induction xs generalizing ys with
  | nil =>
    cases ys with
    | nil => exact ⟨rfl, heq⟩
    | cons y ys => cases hlength
  | cons x xs ih =>
    cases ys with
    | nil => cases hlength
    | cons y ys =>
      rw [List.forall_mem_cons] at hxs hys
      rw [List.flatMap_cons, List.flatMap_cons, List.append_assoc, List.append_assoc] at heq
      obtain ⟨hhead, htail⟩ := h x y _ _ hxs.1 hys.1 heq
      obtain ⟨hxsys, hrest⟩ := ih (Nat.succ.inj hlength) hxs.2 hys.2 htail
      exact ⟨by rw [hhead, hxsys], hrest⟩

end Delimited

/-- Numbers that fit the width are told by their bytes. -/
theorem delimited_bigEndian (width : Nat) : Delimited (· < 256 ^ width) (bigEndian width) := by
  refine .of_length (length_bigEndian width) ?_
  intro m n hm hn h
  have hread := congrArg toNat h
  rwa [toNat_bigEndian, toNat_bigEndian, Nat.mod_eq_of_lt hm, Nat.mod_eq_of_lt hn] at hread

/-- A list behind its length shows where it ends, if the length fits its width and the elements show
where they end. -/
theorem Delimited.counted {P : α → Prop} {write : α → Bytes} (h : Delimited P write) (width : Nat) :
    Delimited (fun xs => xs.length < 256 ^ width ∧ ∀ x ∈ xs, P x) (counted width write) := by
  intro xs ys rest rest' hxs hys heq
  rw [Bytes.counted, Bytes.counted, List.append_assoc, List.append_assoc] at heq
  obtain ⟨hlength, hrest⟩ := delimited_bigEndian width _ _ _ _ hxs.1 hys.1 heq
  exact h.flatMap_inj hlength hxs.2 hys.2 hrest

/-- A byte is told by itself. -/
theorem delimited_singleton : Delimited (fun _ => True) fun b : UInt8 => [b] := by
  refine .of_length (fun _ => rfl) ?_
  intro a b _ _ h
  exact List.singleton_inj.mp h

/-- A byte string behind its length is the list of its bytes behind that. -/
theorem counted_singleton (width : Nat) (bytes : Bytes) :
    counted width (fun b => [b]) bytes = bigEndian width bytes.length ++ bytes := by
  rw [counted, List.flatMap_singleton']

end Bourse.Bytes

namespace Bourse.Word

/-- A word is told by its bytes. -/
theorem delimited_toBytes : Bytes.Delimited (fun _ => True) toBytes :=
  .of_length length_toBytes fun _ _ _ _ h => toBytes_inj.mp h

@[simp] theorem length_concatBytes (words : List Word) :
    (concatBytes words).length = 32 * words.length := by
  induction words with
  | nil => rfl
  | cons w words ih =>
    have hcons : concatBytes (w :: words) = w.toBytes ++ concatBytes words := List.flatMap_cons
    rw [hcons, List.length_append, length_toBytes, ih, List.length_cons]
    omega

/-- Words are told by their bytes, also without their number. -/
theorem concatBytes_inj {ws vs : List Word} : concatBytes ws = concatBytes vs ↔ ws = vs := by
  refine ⟨fun h => ?_, fun h => h ▸ rfl⟩
  have hlength := congrArg List.length h
  rw [length_concatBytes, length_concatBytes] at hlength
  have happend : ws.flatMap toBytes ++ [] = vs.flatMap toBytes ++ [] := by
    rw [List.append_nil, List.append_nil]
    exact h
  exact (delimited_toBytes.flatMap_inj (by omega) (fun _ _ => trivial) (fun _ _ => trivial)
    happend).1

end Bourse.Word
