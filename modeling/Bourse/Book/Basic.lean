import Bourse.Book.Settlement

/-!
# The book

Vault balances, the orders that are listed, and the log. A request is worked out in a journal, and
only when nothing in it has been refused the journal becomes part of the book.
-/

namespace Bourse

/-- Balances, listed orders, and the log. -/
structure Book where
  vaults : Vaults
  /-- The listed orders. -/
  live : SortedMap OrderHash Unit
  /-- The events since the log was last taken out, oldest first. -/
  log : List Event
  deriving DecidableEq

namespace Book

/-- The book in which nothing has happened. -/
def empty : Book := ⟨.empty, .empty, []⟩

/-- Whether an order is listed. -/
def isLive (book : Book) (hash : OrderHash) : Bool := book.live.contains hash

/-- The journal in which nothing has happened. -/
def journal (book : Book) : Journal := ⟨.on book.vaults, []⟩

/-- Make the changes of a journal. -/
def commit (book : Book) (j : Journal) : Book :=
  { book with vaults := j.vaults.commit, log := book.log ++ j.events }

/-- Put an amount into a vault of the sender. -/
def deposit (book : Book) (sender : Address) (request : Transfer) : Except Refusal Book := do
  require (request.amount ≠ 0) .zeroDeposit
  let j ← (book.journal.credit (request.key sender) request.amount).mapError .arithmetic
  return book.commit (j.note (.deposited sender request))

/-- Take an amount, or what there is of it, out of a vault of the sender. The result tells how
much. -/
def withdraw (book : Book) (sender : Address) (request : Transfer) : Except Refusal (Word × Book) :=
  do
  require (request.amount ≠ 0) .zeroWithdrawal
  let key := request.key sender
  let amount := min request.amount (book.vaults.balance key)
  let j ← (book.journal.debit key amount).mapError .arithmetic
  return (amount, book.commit (j.note (.withdrawn sender request amount)))

/-- List an order of the sender. Its first source must leave an amount and a price, and it
approves its trades if there is a second source. -/
def addOrder (book : Book) (sender : Address) (request : OrderRequest) :
    Except Refusal (Order × Book) := do
  require (request.inputs ≠ []) .noInputs
  require (request.outputs ≠ []) .noOutputs
  require (request.deployment.sources ≠ []) .noSources
  let program ← (Program.deploy request.deployment [2, 0]).mapError .rejected
  let order : Order := {
    owner := sender
    approves := 1 < request.deployment.sources.length
    program
    inputs := request.inputs
    outputs := request.outputs
    data := request.data }
  let hash := order.hash
  return (order, { book with
    live := book.live.insert hash ()
    log := book.log ++ [.deployed program, .listed sender order.program.id order hash] })

/-- Take an order of the sender off the list. -/
def removeOrder (book : Book) (sender : Address) (order : Order) : Except Refusal Book := do
  require (sender = order.owner) (.notOwner sender order.owner)
  let hash := order.hash
  return { book with
    live := book.live.erase hash
    log := book.log ++ [.removed sender order hash] }

/-- Take the events out of the log. -/
def drain (book : Book) : List Event × Book := (book.log, { book with log := [] })

end Book

end Bourse
