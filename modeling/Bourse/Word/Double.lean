import Bourse.Word

/-!
# Double words

The product of two words takes up to 512 bits. A word becomes a double word by zeros written into
the upper half of its bytes, and a double word is a word again only if the upper half holds
nothing else.
-/

namespace Bourse

/-- An unsigned 512-bit number. -/
structure DoubleWord where
  /-- The number itself. -/
  toNat : Nat
  /-- A double word has twice as many bits as a word. -/
  toNat_lt_size : toNat < Word.size * Word.size
  deriving DecidableEq

/-- The word whose bytes are given, least significant first. -/
def Word.ofLittleEndian (bytes : Bytes) : Word := .wrap (Bytes.ofLittleEndian bytes)

namespace DoubleWord

/-- The double word whose bytes are given, least significant first. -/
def ofLittleEndian (bytes : Bytes) : DoubleWord :=
  ⟨Bytes.ofLittleEndian bytes % (Word.size * Word.size), Nat.mod_lt _ (by decide)⟩

/-- The 64 bytes of a double word, least significant first. -/
def littleEndian (d : DoubleWord) : Bytes := Bytes.littleEndian 64 d.toNat

/-- A word with an empty upper half. -/
def ofWord (w : Word) : DoubleWord :=
  ofLittleEndian (Bytes.littleEndian 32 w.toNat ++ List.replicate 32 0)

/-- The lower half, if the upper half is empty. -/
def toWord? (d : DoubleWord) : Option Word :=
  if (d.littleEndian.drop 32).any (· ≠ 0) then
    none
  else
    some (.ofLittleEndian (d.littleEndian.take 32))

/-- The product, if it is a double word. -/
def mul? (a b : DoubleWord) : Option DoubleWord :=
  if h : a.toNat * b.toNat < Word.size * Word.size then some ⟨a.toNat * b.toNat, h⟩ else none

/-- Quotients are rounded down. -/
instance : Div DoubleWord :=
  ⟨fun a b => ⟨a.toNat / b.toNat, Nat.lt_of_le_of_lt (Nat.div_le_self ..) a.toNat_lt_size⟩⟩

@[simp] theorem toNat_div (a b : DoubleWord) : (a / b).toNat = a.toNat / b.toNat := rfl

end DoubleWord

end Bourse
