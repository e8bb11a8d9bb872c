import Bourse.Word

/-!
# Addresses

An address names an account or a token by twenty bytes. As a word it is the number that those bytes
write; a word names the address in its low twenty bytes.
-/

namespace Bourse

/-- The number of addresses, `2 ^ 160`. -/
def Address.size : Nat := 0x10000000000000000000000000000000000000000

/-- The name of an account or of a token. -/
structure Address where
  /-- The number that the twenty bytes write. -/
  toNat : Nat
  /-- Twenty bytes have 160 bits. -/
  toNat_lt_size : toNat < Address.size
  deriving DecidableEq

namespace Address

theorem ext {a b : Address} (h : a.toNat = b.toNat) : a = b := by
  cases a; cases b; cases h; rfl

/-- The address in the low twenty bytes of a number. -/
def ofNat (n : Nat) : Address := ⟨n % size, Nat.mod_lt _ (by decide)⟩

/-- The address in the low twenty bytes of a word. -/
def ofWord (w : Word) : Address := ofNat w.toNat

/-- The address as a word. -/
def toWord (a : Address) : Word := ⟨a.toNat, Nat.lt_trans a.toNat_lt_size (by decide)⟩

/-- The twenty bytes of an address. -/
def toBytes (a : Address) : Bytes := Bytes.bigEndian 20 a.toNat

/-- The forty hexadecimal digits of an address. -/
def hex (a : Address) : String := Bytes.hexNumber 40 a.toNat

/-- The marked hexadecimal digits of an address. -/
def text (a : Address) : String := "0x" ++ a.hex

/-- The text of an address together with what it is. -/
def label (a : Address) : String := "Address(" ++ a.text ++ ")"

/-- The word of an address tells the address. -/
theorem ofWord_toWord (a : Address) : ofWord a.toWord = a :=
  ext (Nat.mod_eq_of_lt a.toNat_lt_size)

/-- Different addresses have different words. -/
theorem toWord_inj {a b : Address} : a.toWord = b.toWord ↔ a = b :=
  ⟨fun h => ext (congrArg Word.toNat h), fun h => h ▸ rfl⟩

@[simp] theorem length_toBytes (a : Address) : a.toBytes.length = 20 := Bytes.length_bigEndian ..

end Address

end Bourse
