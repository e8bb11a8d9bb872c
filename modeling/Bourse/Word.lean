import Bourse.Bytes

/-!
# Words

A word is a natural number below `2 ^ 256`. Results are computed exactly and then narrowed in one
of three ways: refused when they do not fit, reduced modulo `2 ^ 256`, or clamped to the greatest
word. Every operation is described by what it does to the underlying natural numbers.
-/

namespace Bourse

/-- The number of words, `2 ^ 256`. -/
def Word.size : Nat := 0x10000000000000000000000000000000000000000000000000000000000000000

/-- An unsigned 256-bit number. -/
structure Word where
  /-- The number itself. -/
  toNat : Nat
  /-- A word has 256 bits. -/
  toNat_lt_size : toNat < Word.size
  deriving DecidableEq

namespace Word

theorem ext {a b : Word} (h : a.toNat = b.toNat) : a = b := by
  cases a; cases b; cases h; rfl

/-- Different words are different numbers. -/
theorem toNat_inj {a b : Word} : a.toNat = b.toNat ↔ a = b := ⟨ext, fun h => h ▸ rfl⟩

/-- The word with value `n`, if there is one. -/
def ofNat? (n : Nat) : Option Word := if h : n < size then some ⟨n, h⟩ else none

/-- The word with value `n` modulo `2 ^ 256`. -/
def wrap (n : Nat) : Word := ⟨n % size, Nat.mod_lt _ (by decide)⟩

/-- The greatest word. -/
def top : Word := ⟨size - 1, by decide⟩

/-- The word with value `n`, or the greatest word when `n` does not fit. -/
def clamp (n : Nat) : Word := if h : n < size then ⟨n, h⟩ else top

instance (n : Nat) : OfNat Word n := ⟨wrap n⟩

instance : Inhabited Word := ⟨0⟩

/-- The word of a number, if there is one, is the one with that number. -/
theorem ofNat?_eq_some_iff {n : Nat} {w : Word} : ofNat? n = some w ↔ w.toNat = n := by
  unfold ofNat?
  split
  · simp only [Option.some.injEq, ← toNat_inj]
    exact eq_comm
  · next h =>
    simp only [reduceCtorEq, false_iff]
    have := w.toNat_lt_size
    omega

@[simp] theorem toNat_zero : (0 : Word).toNat = 0 := rfl

@[simp] theorem toNat_one : (1 : Word).toNat = 1 := rfl

/-- A condition as a word: one when it holds, zero otherwise. -/
def ofBool (b : Bool) : Word := if b then 1 else 0

/-- The value, if it takes at most `bits` bits. -/
def fits? (bits : Nat) (w : Word) : Option Nat :=
  if w.toNat < 1 <<< bits then some w.toNat else none

instance : LE Word := ⟨fun a b => a.toNat ≤ b.toNat⟩
instance : LT Word := ⟨fun a b => a.toNat < b.toNat⟩
instance (a b : Word) : Decidable (a ≤ b) := inferInstanceAs (Decidable (a.toNat ≤ b.toNat))
instance (a b : Word) : Decidable (a < b) := inferInstanceAs (Decidable (a.toNat < b.toNat))
instance : Min Word := ⟨fun a b => if a ≤ b then a else b⟩
instance : Max Word := ⟨fun a b => if a ≤ b then b else a⟩

theorem le_iff {a b : Word} : a ≤ b ↔ a.toNat ≤ b.toNat := .rfl

theorem lt_iff {a b : Word} : a < b ↔ a.toNat < b.toNat := .rfl

@[simp] theorem toNat_min (a b : Word) : (min a b).toNat = min a.toNat b.toNat := by
  show (if a.toNat ≤ b.toNat then a else b).toNat = _
  split <;> omega

@[simp] theorem toNat_max (a b : Word) : (max a b).toNat = max a.toNat b.toNat := by
  show (if a.toNat ≤ b.toNat then b else a).toNat = _
  split <;> omega

theorem min_le_left (a b : Word) : min a b ≤ a := by
  rw [le_iff, toNat_min]
  exact Nat.min_le_left _ _

theorem min_le_right (a b : Word) : min a b ≤ b := by
  rw [le_iff, toNat_min]
  exact Nat.min_le_right _ _

/-- The difference, if it is not negative. -/
def sub? (a b : Word) : Option Word :=
  if b ≤ a then
    some ⟨a.toNat - b.toNat, Nat.lt_of_le_of_lt (Nat.sub_le ..) a.toNat_lt_size⟩
  else
    none

/-- The sum modulo `2 ^ 256`. -/
def addWrap (a b : Word) : Word := wrap (a.toNat + b.toNat)

/-- The difference modulo `2 ^ 256`. -/
def subWrap (a b : Word) : Word := wrap (size + a.toNat - b.toNat)

/-- The product modulo `2 ^ 256`. -/
def mulWrap (a b : Word) : Word := wrap (a.toNat * b.toNat)

/-- The sum, clamped. -/
def addSat (a b : Word) : Word := clamp (a.toNat + b.toNat)

/-- The difference, or zero when it would be negative. -/
def subSat (a b : Word) : Word :=
  ⟨a.toNat - b.toNat, Nat.lt_of_le_of_lt (Nat.sub_le ..) a.toNat_lt_size⟩

/-- The product, clamped. -/
def mulSat (a b : Word) : Word := clamp (a.toNat * b.toNat)

/-- Quotients are rounded down. -/
instance : Div Word :=
  ⟨fun a b => ⟨a.toNat / b.toNat, Nat.lt_of_le_of_lt (Nat.div_le_self ..) a.toNat_lt_size⟩⟩

instance : Mod Word :=
  ⟨fun a b => ⟨a.toNat % b.toNat, Nat.lt_of_le_of_lt (Nat.mod_le ..) a.toNat_lt_size⟩⟩

/-- A difference that exists is what has to be added back. -/
theorem sub?_eq_some_iff {a b c : Word} : a.sub? b = some c ↔ c.toNat + b.toNat = a.toNat := by
  unfold sub?
  split
  · next h =>
    rw [le_iff] at h
    simp only [Option.some.injEq, ← toNat_inj]
    omega
  · next h =>
    rw [le_iff] at h
    simp only [reduceCtorEq, false_iff]
    omega

/-- There is no difference when more is taken than there is. -/
theorem sub?_eq_none_iff {a b : Word} : a.sub? b = none ↔ a.toNat < b.toNat := by
  unfold sub?
  split <;> simp_all [le_iff]

@[simp] theorem toNat_div (a b : Word) : (a / b).toNat = a.toNat / b.toNat := rfl

@[simp] theorem toNat_mod (a b : Word) : (a % b).toNat = a.toNat % b.toNat := rfl

@[simp] theorem toNat_subSat (a b : Word) : (a.subSat b).toNat = a.toNat - b.toNat := rfl

/-- The 32 bytes of a word, most significant first. -/
def toBytes (w : Word) : Bytes := Bytes.bigEndian 32 w.toNat

/-- The concatenated bytes of a sequence of words. -/
def concatBytes (words : List Word) : Bytes := words.flatMap toBytes

/-- The 64 hexadecimal digits of a word. -/
def hex (w : Word) : String := Bytes.hexNumber 64 w.toNat

/-- The marked 64 hexadecimal digits of a word. -/
def text (w : Word) : String := "0x" ++ w.hex

@[simp] theorem length_toBytes (w : Word) : w.toBytes.length = 32 := Bytes.length_bigEndian ..

end Word

end Bourse
