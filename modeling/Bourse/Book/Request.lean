import Bourse.Context
import Bourse.Order

/-!
# Requests

What an account can ask of the book.
-/

namespace Bourse

/-- A deposit into a vault of the account that asks, or a withdrawal from it. -/
structure Transfer where
  token : Address
  vault : Word
  amount : Word
  deriving DecidableEq

/-- The vault that a transfer is about. -/
def Transfer.key (t : Transfer) (owner : Address) : VaultKey := ⟨owner, t.token, t.vault⟩

/-- An order that is to be listed. -/
structure OrderRequest where
  inputs : List Leg
  outputs : List Leg
  deployment : Deployment
  data : Bytes

/-- Which legs of an order trade. -/
structure LegChoice where
  input : Nat
  output : Nat
  deriving DecidableEq

/-- An order that is to be taken. -/
structure Take where
  order : Order
  legs : LegChoice
  signed : List SignedRow
  deriving DecidableEq

/-- Orders that are to be taken one after the other. -/
structure TakeRequest where
  /-- The token that the taker sends and the orders receive. -/
  output : Address
  /-- The token that the taker receives and the orders send. -/
  input : Address
  /-- The least total that the taker accepts to receive. -/
  minimumInput : Word
  /-- The total at which the taker stops. -/
  maximumInput : Word
  /-- The greatest price that the taker accepts for a unit. -/
  maximumRatio : Word
  takes : List Take
  deriving DecidableEq

/-- How two orders are matched. -/
structure ClearTerms where
  /-- The legs of the first order. -/
  a : LegChoice
  /-- The legs of the second order. -/
  b : LegChoice
  /-- The vault of the matching account for what is left of the token that the first order sends. -/
  aBounty : Word
  /-- The vault of the matching account for what is left of the token that the second order
  sends. -/
  bBounty : Word
  deriving DecidableEq

/-- Two orders that are to be matched, and the rows signed for each of them. -/
structure ClearRequest where
  a : Order
  b : Order
  terms : ClearTerms
  aSigned : List SignedRow
  bSigned : List SignedRow
  deriving DecidableEq

end Bourse
