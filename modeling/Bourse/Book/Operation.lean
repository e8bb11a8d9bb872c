import Bourse.Book.Clear
import Bourse.Book.Take

/-!
# Operations

The requests that a book accepts, as data, and what becomes of the book under a sequence of them. A
refused request leaves the book as it was.
-/

namespace Bourse

/-- A request together with the account that makes it. -/
inductive Operation where
  | addOrder (sender : Address) (request : OrderRequest)
  | removeOrder (sender : Address) (order : Order)
  | deposit (sender : Address) (request : Transfer)
  | withdraw (sender : Address) (request : Transfer)
  | takeOrders (sender : Address) (request : TakeRequest)
  | clear (sender : Address) (request : ClearRequest)
  /-- Take the events out of the log. -/
  | drain

/-- What is returned for a request. -/
inductive Receipt where
  /-- Nothing but that it was done. -/
  | done
  /-- The order that was listed. -/
  | order (order : Order)
  /-- The amount that was withdrawn. -/
  | amount (amount : Word)
  /-- What a taker has received and paid. -/
  | totals (received paid : Word)
  /-- The amounts at which two orders were matched. -/
  | crossing (crossing : Crossing)
  /-- The events that were in the log. -/
  | events (events : List Event)

namespace Book

/-- Do what is requested, or tell why not. -/
def perform (book : Book) (venue : Venue) : Operation → Except Refusal (Receipt × Book)
  | .addOrder sender request => do
    let (order, book) ← book.addOrder sender request
    return (.order order, book)
  | .removeOrder sender order => do return (.done, ← book.removeOrder sender order)
  | .deposit sender request => do return (.done, ← book.deposit sender request)
  | .withdraw sender request => do
    let (amount, book) ← book.withdraw sender request
    return (.amount amount, book)
  | .takeOrders sender request => do
    let ((received, paid), book) ← book.takeOrders venue sender request
    return (.totals received paid, book)
  | .clear sender request => do
    let (crossing, book) ← book.clear venue sender request
    return (.crossing crossing, book)
  | .drain => .ok (.events book.drain.1, book.drain.2)

/-- Do what is requested if it is not refused. -/
def step (venue : Venue) (book : Book) (op : Operation) : Except Refusal Receipt × Book :=
  match book.perform venue op with
  | .ok (receipt, book) => (.ok receipt, book)
  | .error cause => (.error cause, book)

/-- Answer requests one after the other. -/
def run (venue : Venue) (book : Book) : List Operation → List (Except Refusal Receipt) × Book
  | [] => ([], book)
  | op :: ops =>
    let (answer, book) := step venue book op
    let (answers, book) := run venue book ops
    (answer :: answers, book)

end Book

end Bourse
