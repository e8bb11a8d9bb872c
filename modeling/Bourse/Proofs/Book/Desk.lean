import Bourse.Book.Operation

/-!
# Requests made in place

At a desk the book is changed where it stands. A request is worked out step by step in a journal
that lies on the desk, and nothing is undone when it is refused: the desk stays as it is at that
moment, with whatever has been written on it. So a refused request leaves the book alone only if
everything that can be refused comes before the first change of the book.
-/

namespace Bourse

/-- A book in use, and the journal of the request that is being worked out. -/
structure Desk where
  book : Book
  journal : Journal

namespace Desk

/-- Work at a desk. -/
abbrev Work := EStateM Refusal Desk

/-- Go on with what a computation tells that does not write on the desk. -/
def consult {α : Type} : Except Refusal α → Work α
  | .ok a => pure a
  | .error cause => throw cause

/-- Start a journal over the book. -/
def start : Work Unit := modify fun desk => { desk with journal := desk.book.journal }

/-- Note an event in the journal. -/
def note (event : Event) : Work Unit :=
  modify fun desk => { desk with journal := desk.journal.note event }

/-- Change the journal. -/
def enter (change : Journal → Except ArithmeticError Journal) : Work Unit := fun desk =>
  match change desk.journal with
  | .ok j => .ok () { desk with journal := j }
  | .error cause => .error (.arithmetic cause) desk

/-- Make the changes of the journal in the book. -/
def commit : Work Unit := modify fun desk => { desk with book := desk.book.commit desk.journal }

/-- Change the list of orders in the book. -/
def relist (change : SortedMap OrderHash Unit → SortedMap OrderHash Unit) : Work Unit :=
  modify fun desk => { desk with book := { desk.book with live := change desk.book.live } }

/-- Append an event to the log in the book. -/
def append (event : Event) : Work Unit :=
  modify fun desk => { desk with book := { desk.book with log := desk.book.log ++ [event] } }

section

variable {α : Type}

@[simp] theorem get_bind (g : Desk → Work α) (desk : Desk) : (get >>= g) desk = g desk desk := rfl

/-- Work starts with an empty journal over the book. -/
@[simp] theorem start_bind (g : Unit → Work α) (desk : Desk) :
    (start >>= g) desk = g () ⟨desk.book, desk.book.journal⟩ := rfl

/-- Work that notes an event changes nothing but the events of the journal. -/
@[simp] theorem note_bind (event : Event) (g : Unit → Work α) (desk : Desk) :
    (note event >>= g) desk = g () ⟨desk.book, desk.journal.note event⟩ := rfl

/-- Work that lists or removes an order changes the book itself at once. -/
@[simp] theorem relist_bind (change : SortedMap OrderHash Unit → SortedMap OrderHash Unit)
    (g : Unit → Work α) (desk : Desk) :
    (relist change >>= g) desk =
      g () ⟨{ desk.book with live := change desk.book.live }, desk.journal⟩ := rfl

/-- Work that appends to the log changes the book itself at once. -/
@[simp] theorem append_bind (event : Event) (g : Unit → Work α) (desk : Desk) :
    (append event >>= g) desk =
      g () ⟨{ desk.book with log := desk.book.log ++ [event] }, desk.journal⟩ := rfl

end

/-- Put an amount into a vault of the sender. -/
def deposit (sender : Address) (request : Transfer) : Work Unit := do
  consult (require (request.amount ≠ 0) .zeroDeposit)
  start
  enter (·.credit (request.key sender) request.amount)
  note (.deposited sender request)
  commit

/-- Take an amount, or what there is of it, out of a vault of the sender. -/
def withdraw (sender : Address) (request : Transfer) : Work Word := do
  consult (require (request.amount ≠ 0) .zeroWithdrawal)
  let key := request.key sender
  start
  let amount := min request.amount ((← get).book.vaults.balance key)
  enter (·.debit key amount)
  note (.withdrawn sender request amount)
  commit
  return amount

/-- List an order of the sender. -/
def addOrder (sender : Address) (request : OrderRequest) : Work Order := do
  consult (require (request.inputs ≠ []) .noInputs)
  consult (require (request.outputs ≠ []) .noOutputs)
  consult (require (request.deployment.sources ≠ []) .noSources)
  let program ← consult ((Program.deploy request.deployment [2, 0]).mapError .rejected)
  let order : Order := {
    owner := sender
    approves := 1 < request.deployment.sources.length
    program
    inputs := request.inputs
    outputs := request.outputs
    data := request.data }
  let hash := order.hash
  relist (·.insert hash ())
  append (.deployed program)
  append (.listed sender order.program.id order hash)
  return order

/-- Take an order of the sender off the list. -/
def removeOrder (sender : Address) (order : Order) : Work Unit := do
  consult (require (sender = order.owner) (.notOwner sender order.owner))
  let hash := order.hash
  relist (·.erase hash)
  append (.removed sender order hash)

/-- Settle a trade. It is published before the order is asked to approve it. -/
def settle (venue : Venue) (sender : Address) (order : Order) (q : Quote) (input output : Word) :
    Work Unit := do
  enter (·.credit q.inputVault input)
  enter (·.debit q.outputVault output)
  let context := q.tradeContext input output
  note (.settled sender context)
  consult ((venue.approve order q context).mapError .eval)

/-- Receive as much as an order offers, or as the taker still wants. The result tells what remains
to be received and what has been paid. -/
def fill (venue : Venue) (sender : Address) (take : Take) (q : Quote) (remaining paid : Word) :
    Work (Word × Word) := do
  let input := min remaining q.maxOutput
  let output ← consult ((q.price input).mapError .arithmetic)
  let remaining ← consult ((Arithmetic.sub remaining input).mapError .arithmetic)
  let paid ← consult ((Arithmetic.add paid output).mapError .arithmetic)
  settle venue sender take.order q output input
  note (.taken sender take input output)
  return (remaining, paid)

/-- Take an order while something remains to be received. -/
def takeNext (venue : Venue) (sender : Address) (request : TakeRequest) (take : Take)
    (remaining paid : Word) : Work (Word × Word) := do
  let order := take.order
  if !(← get).book.isLive order.hash then
    note (.notListed sender order.owner order.hash)
    return (remaining, paid)
  else
    let (input, output) ← consult (order.legs take.legs)
    consult (require (input.token = request.output) (.tokenMismatch input.token request.output))
    consult (require (output.token = request.input) (.tokenMismatch output.token request.input))
    let q ← consult (venue.quote (← get).journal.vaults sender order take.legs sender take.signed)
    if request.maximumRatio < q.ratio then
      note (.tooExpensive sender order.owner order.hash)
      return (remaining, paid)
    else if q.maxOutput = 0 then
      note (.nothingOffered sender order.owner order.hash)
      return (remaining, paid)
    else
      fill venue sender take q remaining paid

/-- Take orders until nothing remains to be received. -/
def takeAll (venue : Venue) (sender : Address) (request : TakeRequest) :
    List Take → Word → Word → Work (Word × Word)
  | [], remaining, paid => return (remaining, paid)
  | take :: takes, remaining, paid => do
    if remaining = 0 then
      return (remaining, paid)
    else
      let (remaining, paid) ← takeNext venue sender request take remaining paid
      takeAll venue sender request takes remaining paid

/-- Take orders. -/
def takeOrders (venue : Venue) (sender : Address) (request : TakeRequest) : Work (Word × Word) := do
  start
  let (remaining, paid) ← takeAll venue sender request request.takes request.maximumInput 0
  let received ← consult ((Arithmetic.sub request.maximumInput remaining).mapError .arithmetic)
  consult (require (request.minimumInput ≤ received) (.belowMinimum request.minimumInput received))
  commit
  return (received, paid)

/-- Match two orders. -/
def clear (venue : Venue) (sender : Address) (request : ClearRequest) : Work Crossing := do
  let { a, b, terms, aSigned, bSigned } := request
  consult (require (a.owner ≠ b.owner) (.sameOwner a.owner))
  let (aInput, aOutput) ← consult (a.legs terms.a)
  let (bInput, bOutput) ← consult (b.legs terms.b)
  consult (Book.checkFacing aInput bOutput)
  consult (Book.checkFacing bInput aOutput)
  consult ((← get).book.checkLive a)
  consult ((← get).book.checkLive b)
  start
  note (.matching sender a b terms)
  let p ← consult (venue.quote (← get).journal.vaults sender a terms.a b.owner bSigned)
  let q ← consult (venue.quote (← get).journal.vaults sender b terms.b a.owner aSigned)
  let crossing ← consult ((Crossing.ofOffers p.toOffer q.toOffer).mapError .arithmetic)
  settle venue sender a p crossing.aInput crossing.aOutput
  settle venue sender b q crossing.bInput crossing.bOutput
  let aBounty ← consult ((Arithmetic.sub crossing.aOutput crossing.bInput).mapError .arithmetic)
  let bBounty ← consult ((Arithmetic.sub crossing.bOutput crossing.aInput).mapError .arithmetic)
  enter (·.credit ⟨sender, aOutput.token, terms.aBounty⟩ aBounty)
  enter (·.credit ⟨sender, bOutput.token, terms.bBounty⟩ bBounty)
  note (.cleared sender crossing)
  commit
  return crossing

/-- Take the events out of the log. -/
def drain : Work (List Event) := do
  let events := (← get).book.log
  modify fun desk => { desk with book := { desk.book with log := [] } }
  return events

/-- Do what is requested. -/
def perform (venue : Venue) : Operation → Work Receipt
  | .addOrder sender request => return .order (← addOrder sender request)
  | .removeOrder sender order => do
    removeOrder sender order
    return .done
  | .deposit sender request => do
    deposit sender request
    return .done
  | .withdraw sender request => return .amount (← withdraw sender request)
  | .takeOrders sender request => do
    let (received, paid) ← takeOrders venue sender request
    return .totals received paid
  | .clear sender request => return .crossing (← clear venue sender request)
  | .drain => return .events (← drain)

/-- Answer a request, and go on with the desk as the request has left it. -/
def step (venue : Venue) (desk : Desk) (op : Operation) : Except Refusal Receipt × Desk :=
  match perform venue op desk with
  | .ok receipt desk => (.ok receipt, desk)
  | .error cause desk => (.error cause, desk)

/-- Answer requests one after the other. -/
def run (venue : Venue) (desk : Desk) : List Operation → List (Except Refusal Receipt) × Desk
  | [] => ([], desk)
  | op :: ops =>
    let (answer, desk) := step venue desk op
    let (answers, desk) := run venue desk ops
    (answer :: answers, desk)

end Desk

end Bourse
