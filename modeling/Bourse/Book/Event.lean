import Bourse.Book.Offer
import Bourse.Book.Request

/-!
# Events

The entries of the log of a book. The log shows every change of the book, and the orders that a
taker named in vain.
-/

namespace Bourse

/-- What has happened. -/
inductive Event where
  /-- The program of a new order was deployed. -/
  | deployed (program : Program)
  /-- An order, whose program has this identifier, was listed under its hash. -/
  | listed (sender : Address) (program : ProgramId) (order : Order) (hash : OrderHash)
  /-- An order was taken off the list, on which it was looked for under its hash. -/
  | removed (sender : Address) (order : Order) (hash : OrderHash)
  /-- An amount was put into a vault. -/
  | deposited (sender : Address) (request : Transfer)
  /-- An amount, the requested one or less, was taken out of a vault. -/
  | withdrawn (sender : Address) (request : Transfer) (amount : Word)
  /-- The taker has received `input` from an order for `output`. -/
  | taken (sender : Address) (take : Take) (input output : Word)
  /-- An order that was to be taken was not listed. -/
  | notListed (sender owner : Address) (hash : OrderHash)
  /-- An order that was to be taken offered nothing. -/
  | nothingOffered (sender owner : Address) (hash : OrderHash)
  /-- An order that was to be taken asked for too much. -/
  | tooExpensive (sender owner : Address) (hash : OrderHash)
  /-- A trade of an order was settled in this context. -/
  | settled (sender : Address) (context : Context)
  /-- Two orders are being matched. -/
  | matching (sender : Address) (a b : Order) (terms : ClearTerms)
  /-- Two orders have been matched at these amounts. -/
  | cleared (sender : Address) (crossing : Crossing)
  deriving DecidableEq

/-- The name under which an event is published. -/
def Event.name : Event → String
  | .deployed _ => "Initialize"
  | .listed .. => "AddOrder"
  | .removed .. => "RemoveOrder"
  | .deposited .. => "Deposit"
  | .withdrawn .. => "Withdraw"
  | .taken .. => "TakeOrder"
  | .notListed .. => "OrderNotFound"
  | .nothingOffered .. => "OrderZeroAmount"
  | .tooExpensive .. => "OrderExceedsMaxRatio"
  | .settled .. => "Context"
  | .matching .. => "Clear"
  | .cleared .. => "AfterClear"

end Bourse
