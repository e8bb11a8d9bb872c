import Bourse.Book.Event
import Bourse.Book.Quote

/-!
# Settlement

A trade moves the agreed amounts through the vaults of an order and is published in the order's
context. An order that approves its trades then runs the second source of its program in that
context, and its failure refuses the trade.
-/

namespace Bourse

/-- The changes of a request that is still under way. -/
structure Journal where
  /-- The changed balances. -/
  vaults : Overlay
  /-- What has happened, in order. -/
  events : List Event
  deriving DecidableEq

namespace Journal

/-- Note an event. -/
def note (j : Journal) (event : Event) : Journal := { j with events := j.events ++ [event] }

/-- Add to the balance of a vault, unless there is nothing to add. -/
def credit (j : Journal) (key : VaultKey) (amount : Word) : Except ArithmeticError Journal :=
  if amount = 0 then .ok j else do return { j with vaults := ← j.vaults.credit key amount }

/-- Take from the balance of a vault, unless there is nothing to take. -/
def debit (j : Journal) (key : VaultKey) (amount : Word) : Except ArithmeticError Journal :=
  if amount = 0 then .ok j else do return { j with vaults := ← j.vaults.debit key amount }

end Journal

/-- The context of a trade: the one of the offer, with the amounts that move. -/
def Quote.tradeContext (q : Quote) (input output : Word) : Context :=
  (q.context.setCell inputColumn amountRow input).setCell outputColumn amountRow output

/-- Let an order that approves its trades approve one. -/
def Venue.approve (venue : Venue) (order : Order) (q : Quote) (context : Context) :
    Except EvalError Unit := do
  if order.approves then
    discard <| order.program.eval venue.settings ⟨1, 0⟩ context q.scratch

/-- Settle a trade in which an order receives `input` and sends `output`. -/
def Venue.settle (venue : Venue) (sender : Address) (order : Order) (q : Quote)
    (input output : Word) (j : Journal) : Except Refusal Journal := do
  let j ← (j.credit q.inputVault input).mapError .arithmetic
  let j ← (j.debit q.outputVault output).mapError .arithmetic
  let context := q.tradeContext input output
  (venue.approve order q context).mapError .eval
  return j.note (.settled sender context)

end Bourse
