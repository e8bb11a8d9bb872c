import Bourse.Program
import Bourse.Vault

/-!
# Orders

An order offers the tokens of some of its owner's vaults for tokens that go into others. Its
program computes the offer, and a second source of the program can refuse a trade. An order is
identified by the digest of its fields written one after the other, each list behind its length.
-/

namespace Bourse

/-- A vault of an order's owner, and the number of decimals of the amounts in it. -/
structure Leg where
  token : Address
  decimals : UInt8
  vault : Word
  deriving DecidableEq

namespace Leg

/-- The vault that a leg names. -/
def key (leg : Leg) (owner : Address) : VaultKey := ⟨owner, leg.token, leg.vault⟩

/-- The 53 bytes of a leg. -/
def preimage (leg : Leg) : Bytes := leg.token.toBytes ++ leg.decimals :: leg.vault.toBytes

/-- The bytes of a list of legs, behind their number. -/
def listPreimage (legs : List Leg) : Bytes := Bytes.bigEndian 4 legs.length ++ legs.flatMap preimage

end Leg

/-- The identifier of an order. -/
structure OrderHash where
  digest : Word
  deriving DecidableEq

namespace OrderHash

/-- An identifier as a word. -/
def toWord (hash : OrderHash) : Word := hash.digest

/-- The hexadecimal digits of an identifier. -/
def hex (hash : OrderHash) : String := hash.digest.hex

/-- The marked hexadecimal digits of an identifier. -/
def text (hash : OrderHash) : String := hash.digest.text

/-- The text of an identifier together with what it is. -/
def label (hash : OrderHash) : String := "OrderHash(" ++ hash.text ++ ")"

/-- An identifier of an order is known by its word. -/
theorem toWord_inj {a b : OrderHash} (h : a.toWord = b.toWord) : a = b := by
  cases a; cases b; cases h; rfl

end OrderHash

instance : Ranked OrderHash :=
  ⟨fun hash => hash.toWord.toNat, fun h => OrderHash.toWord_inj (Word.ext h)⟩

/-- An offer of tokens for tokens. -/
structure Order where
  /-- The account whose vaults are traded. -/
  owner : Address
  /-- Whether the second source of the program is run on every trade. -/
  approves : Bool
  /-- The program whose first source computes the offer. -/
  program : Program
  /-- The vaults that can receive. -/
  inputs : List Leg
  /-- The vaults that can send. -/
  outputs : List Leg
  /-- Bytes that mean nothing here. -/
  data : Bytes
  deriving DecidableEq

namespace Order

/-- What marks the bytes of an order. -/
def tag : Bytes := "urn:exprvm:order:v01".toUTF8.data.toList

/-- The bytes of an order: the tag, the owner, whether the order approves its trades, the program,
the legs, and the data behind its length. -/
def preimage (order : Order) : Bytes :=
  tag ++ order.owner.toBytes ++ [if order.approves then 1 else 0] ++ order.program.id.digest.toBytes
    ++ Leg.listPreimage order.inputs ++ Leg.listPreimage order.outputs
    ++ Bytes.bigEndian 4 order.data.length ++ order.data

/-- The identifier that the bytes of an order give it. -/
def hash (order : Order) : OrderHash := ⟨Sha256.digest order.preimage⟩

/-- A receiving vault, if there is one with the index. -/
def input? (order : Order) (index : Nat) : Option Leg := order.inputs[index]?

/-- A sending vault, if there is one with the index. -/
def output? (order : Order) (index : Nat) : Option Leg := order.outputs[index]?

end Order

end Bourse
