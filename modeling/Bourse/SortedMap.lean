/-!
# Maps in key order

A finite map kept as a list of entries in strictly increasing order of a natural rank of their
keys. The order makes the representation canonical: two maps with the same value under every key
are equal.
-/

namespace Bourse

/-- Keys that an injective rank puts in order. -/
class Ranked (κ : Type) where
  /-- The place of a key in the order. -/
  rank : κ → Nat
  /-- Different keys have different ranks. -/
  rank_inj : ∀ {a b : κ}, rank a = rank b → a = b

open Ranked

/-- A finite map, its entries in key order. -/
structure SortedMap (κ β : Type) [Ranked κ] where
  /-- The entries, from the lowest key to the highest. -/
  entries : List (κ × β)
  /-- No key comes twice, and the keys are in order. -/
  sorted : entries.Pairwise fun a b => rank a.1 < rank b.1
  deriving DecidableEq

namespace SortedMap

variable {κ β : Type} [Ranked κ]

/-- The value of the first entry with the key. -/
def lookup (k : κ) : List (κ × β) → Option β
  | [] => none
  | e :: es => if rank k = rank e.1 then some e.2 else lookup k es

/-- Put an entry in its place, over the entry with its key if there is one. -/
def place (k : κ) (v : β) : List (κ × β) → List (κ × β)
  | [] => [(k, v)]
  | e :: es =>
    if rank k < rank e.1 then (k, v) :: e :: es
    else if rank k = rank e.1 then (k, v) :: es
    else e :: place k v es

/-- Placing an entry brings no other one in. -/
theorem mem_place {k : κ} {v : β} {e : κ × β} {es : List (κ × β)} (h : e ∈ place k v es) :
    e = (k, v) ∨ e ∈ es := by
  induction es with
  | nil => exact .inl (List.mem_singleton.mp h)
  | cons d es ih =>
    rw [place] at h
    split at h
    · exact (List.mem_cons.mp h).imp_right id
    · split at h
      · exact (List.mem_cons.mp h).imp_right (List.mem_cons_of_mem _)
      · rcases List.mem_cons.mp h with rfl | h
        · exact .inr (List.mem_cons_self ..)
        · exact (ih h).imp_right (List.mem_cons_of_mem _)

/-- Placing an entry keeps the entries sorted. -/
theorem sorted_place (k : κ) (v : β) {es : List (κ × β)}
    (h : es.Pairwise fun a b => rank a.1 < rank b.1) :
    (place k v es).Pairwise fun a b => rank a.1 < rank b.1 := by
  induction es with
  | nil => exact List.pairwise_singleton ..
  | cons d es ih =>
    obtain ⟨hd, hes⟩ := List.pairwise_cons.mp h
    rw [place]
    split
    · next hlt =>
      refine List.pairwise_cons.mpr ⟨fun e he => ?_, h⟩
      rcases List.mem_cons.mp he with rfl | he
      · exact hlt
      · exact Nat.lt_trans hlt (hd e he)
    · next hge =>
      split
      · next heq =>
        refine List.pairwise_cons.mpr ⟨fun e he => ?_, hes⟩
        rw [heq]
        exact hd e he
      · next hne =>
        refine List.pairwise_cons.mpr ⟨fun e he => ?_, ih hes⟩
        rcases mem_place he with rfl | he
        · have : rank d.1 ≠ rank k := fun h => hne h.symm
          simp only
          omega
        · exact hd e he

/-- A placed entry is found under its key, and every other one as before. -/
theorem lookup_place (k j : κ) (v : β) (es : List (κ × β)) :
    lookup j (place k v es) = if rank j = rank k then some v else lookup j es := by
  induction es with
  | nil => rfl
  | cons d es ih =>
    rw [place]
    split
    · rfl
    · split
      · next heq =>
        simp only [lookup, heq]
        split <;> rfl
      · next hne =>
        simp only [lookup, ih]
        split
        · next hj =>
          rw [if_neg (by omega)]
        · rfl

/-- A key that no entry has is not found. -/
theorem lookup_eq_none {k : κ} {es : List (κ × β)} (h : ∀ e ∈ es, rank k ≠ rank e.1) :
    lookup k es = none := by
  induction es with
  | nil => rfl
  | cons d es ih =>
    rw [lookup, if_neg (h d (List.mem_cons_self ..))]
    exact ih fun e he => h e (List.mem_cons_of_mem _ he)

/-- Without the entries of a key, that key is not found and every other one as before. -/
theorem lookup_filter (k j : κ) (es : List (κ × β)) :
    lookup j (es.filter fun e => rank e.1 ≠ rank k) =
      if rank j = rank k then none else lookup j es := by
  induction es with
  | nil => simp [lookup]
  | cons d es ih =>
    rw [List.filter_cons]
    by_cases hd : rank d.1 = rank k
    · rw [if_neg (by simp [hd]), ih, lookup, hd]
      split <;> rfl
    · rw [if_pos (by simp [hd]), lookup, ih, lookup]
      by_cases hj : rank j = rank d.1
      · rw [if_pos hj, if_pos hj, if_neg (by omega)]
      · rw [if_neg hj, if_neg hj]

/-- Entry lists in order with the same look-ups are equal. -/
theorem entries_ext {es ds : List (κ × β)} (hes : es.Pairwise fun a b => rank a.1 < rank b.1)
    (hds : ds.Pairwise fun a b => rank a.1 < rank b.1) (h : ∀ k, lookup k es = lookup k ds) :
    es = ds := by
  induction es generalizing ds with
  | nil =>
    cases ds with
    | nil => rfl
    | cons d ds => simpa [lookup] using h d.1
  | cons e es ih =>
    obtain ⟨he, hes⟩ := List.pairwise_cons.mp hes
    cases ds with
    | nil => simpa [lookup] using h e.1
    | cons d ds =>
      obtain ⟨hd, hds⟩ := List.pairwise_cons.mp hds
      have hr : rank e.1 = rank d.1 := by
        rcases Nat.lt_trichotomy (rank e.1) (rank d.1) with hlt | heq | hgt
        · have hn := h e.1
          rw [lookup, if_pos rfl, lookup_eq_none] at hn
          · cases hn
          · intro c hc
            rcases List.mem_cons.mp hc with rfl | hc
            · omega
            · have := hd c hc
              omega
        · exact heq
        · have hn := h d.1
          rw [lookup_eq_none, lookup, if_pos rfl] at hn
          · cases hn
          · intro c hc
            rcases List.mem_cons.mp hc with rfl | hc
            · omega
            · have := he c hc
              omega
      have hk : e.1 = d.1 := rank_inj hr
      have hv : e.2 = d.2 := by
        have := h e.1
        rw [lookup, if_pos rfl, lookup, if_pos hr] at this
        exact Option.some.inj this
      have htail : es = ds := by
        refine ih hes hds fun k => ?_
        by_cases hke : rank k = rank e.1
        · rw [lookup_eq_none, lookup_eq_none]
          · intro c hc
            have := hd c hc
            omega
          · intro c hc
            have := he c hc
            omega
        · have := h k
          rwa [lookup, if_neg hke, lookup, if_neg (hr ▸ hke)] at this
      rw [htail, Prod.ext hk hv]

/-- The map without entries. -/
def empty : SortedMap κ β := ⟨[], List.Pairwise.nil⟩

instance : Inhabited (SortedMap κ β) := ⟨empty⟩

/-- The value under a key. -/
def get? (m : SortedMap κ β) (k : κ) : Option β := lookup k m.entries

/-- Whether there is a value under the key. -/
def contains (m : SortedMap κ β) (k : κ) : Bool := (m.get? k).isSome

/-- Put a value under a key. -/
def insert (m : SortedMap κ β) (k : κ) (v : β) : SortedMap κ β :=
  ⟨place k v m.entries, sorted_place k v m.sorted⟩

/-- Remove the value under a key. -/
def erase (m : SortedMap κ β) (k : κ) : SortedMap κ β :=
  ⟨m.entries.filter fun e => rank e.1 ≠ rank k, m.sorted.filter _⟩

/-- The number of entries. -/
def size (m : SortedMap κ β) : Nat := m.entries.length

/-- Whether there is no entry. -/
def isEmpty (m : SortedMap κ β) : Bool := m.entries.isEmpty

/-- The map that holds the last value given for each key. -/
def ofList (entries : List (κ × β)) : SortedMap κ β :=
  entries.foldl (fun m e => m.insert e.1 e.2) empty

@[simp] theorem get?_empty (k : κ) : (empty : SortedMap κ β).get? k = none := rfl

/-- What is inserted is found under its key, and every other value as before. -/
theorem get?_insert (m : SortedMap κ β) (k j : κ) (v : β) :
    (m.insert k v).get? j = if rank j = rank k then some v else m.get? j :=
  lookup_place ..

/-- What is erased is not found, and every other value is as before. -/
theorem get?_erase (m : SortedMap κ β) (k j : κ) :
    (m.erase k).get? j = if rank j = rank k then none else m.get? j :=
  lookup_filter ..

@[simp] theorem get?_insert_self (m : SortedMap κ β) (k : κ) (v : β) :
    (m.insert k v).get? k = some v := by
  rw [get?_insert, if_pos rfl]

theorem get?_insert_of_ne (m : SortedMap κ β) {k j : κ} (v : β) (h : j ≠ k) :
    (m.insert k v).get? j = m.get? j := by
  rw [get?_insert, if_neg fun hr => h (rank_inj hr)]

/-- The keys are those from before and the one under which something was inserted. -/
theorem contains_insert {m : SortedMap κ β} {k j : κ} {v : β} :
    (m.insert k v).contains j = true ↔ j = k ∨ m.contains j = true := by
  rw [contains, contains, get?_insert]
  by_cases h : j = k
  · simp [h]
  · rw [if_neg fun hr => h (rank_inj hr)]
    simp [h]

/-- The keys are those from before without the erased one. -/
theorem contains_erase {m : SortedMap κ β} {k j : κ} :
    (m.erase k).contains j = true ↔ j ≠ k ∧ m.contains j = true := by
  rw [contains, contains, get?_erase]
  by_cases h : j = k
  · simp [h]
  · rw [if_neg fun hr => h (rank_inj hr)]
    simp [h]

/-- A map is determined by the values under its keys. -/
theorem ext {m n : SortedMap κ β} (h : ∀ k, m.get? k = n.get? k) : m = n := by
  obtain ⟨es, hes⟩ := m
  obtain ⟨ds, hds⟩ := n
  have : es = ds := entries_ext hes hds h
  subst this
  rfl

end SortedMap

end Bourse
