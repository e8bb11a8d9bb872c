import Bourse.Book.Offer
import Bourse.Book.Refusal
import Bourse.Book.Request
import Bourse.Vault.Overlay

/-!
# Quotes

The offer of an order at the moment of a trade, as the first source of its program computes it.
The program sees the order, its owner and the counterparty, an empty column, a column for each of
the two vaults, and what others have signed. For the rest of the trade the empty column shows the
offer.
-/

namespace Bourse

/-- What does not change while a book is in use. -/
structure Venue where
  /-- The account of the book. -/
  address : Address
  /-- How signatures are checked. -/
  verify : Verifier
  /-- How programs are run. -/
  settings : Settings

/-- The offer of an order, and what the settlement of a trade needs to know about it. -/
structure Quote extends Offer where
  /-- The vault that receives. -/
  inputVault : VaultKey
  /-- The vault that sends. -/
  outputVault : VaultKey
  /-- The context of the computation, with the offer in it. -/
  context : Context
  /-- The scratch values that the computation has left. -/
  scratch : Scratch
  deriving DecidableEq

/-- The legs of an order that are to trade. -/
def Order.legs (order : Order) (choice : LegChoice) : Except Refusal (Leg × Leg) :=
  match order.input? choice.input, order.output? choice.output with
  | some input, some output => .ok (input, output)
  | none, _ => .error (.inputAbsent choice.input)
  | some _, none => .error (.outputAbsent choice.output)

namespace Quote

/-- The column that shows the offer. -/
def offerColumn : Nat := 2

/-- The column of the vault that receives. -/
def inputColumn : Nat := 3

/-- The column of the vault that sends. -/
def outputColumn : Nat := 4

/-- The row in which a vault's column shows the amount that moves. -/
def amountRow : Nat := 4

/-- The column of a vault: its token, decimals, number and balance, and the amount that moves. -/
def vaultColumn (leg : Leg) (balance : Word) : List Word :=
  [leg.token.toWord, Word.wrap leg.decimals.toNat, leg.vault, balance, 0]

end Quote

namespace Venue

/-- The context in which the offer of an order is computed. -/
def offerContext (venue : Venue) (vaults : Overlay) (sender : Address) (order : Order)
    (input output : Leg) (counterparty : Address) (signed : List SignedRow) :
    Except ContextError Context :=
  Context.build venue.verify sender venue.address
    [[order.hash.toWord, order.owner.toWord, counterparty.toWord],
      [],
      Quote.vaultColumn input (vaults.balance (input.key order.owner)),
      Quote.vaultColumn output (vaults.balance (output.key order.owner))]
    signed

/-- Compute the offer of an order. -/
def quote (venue : Venue) (vaults : Overlay) (sender : Address) (order : Order) (legs : LegChoice)
    (counterparty : Address) (signed : List SignedRow) : Except Refusal Quote := do
  let (input, output) ← order.legs legs
  let context ← (venue.offerContext vaults sender order input output counterparty signed).mapError
    .context
  let outcome ← (order.program.eval venue.settings ⟨0, 2⟩ context .empty).mapError .eval
  match outcome.values with
  | [maxOutput, ratio] =>
    let available := vaults.balance (output.key order.owner)
    let offer ← (Offer.ofDecimals maxOutput ratio output.decimals input.decimals
      available).mapError .arithmetic
    return {
      toOffer := offer
      inputVault := input.key order.owner
      outputVault := output.key order.owner
      context := context.setColumn Quote.offerColumn [offer.maxOutput, offer.ratio]
        (Nat.le_of_ble_eq_true rfl)
      scratch := outcome.scratch }
  | values => throw (.noOffer order.hash values.length)

end Venue

end Bourse
