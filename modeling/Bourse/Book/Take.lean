import Bourse.Book.Basic

/-!
# Taking orders

A taker names orders to receive tokens from, one after the other, until enough is received. An
order that is not listed, asks for too much or offers nothing is passed over and noted in the log;
any other fault refuses the whole request.
-/

namespace Bourse

/-- How far a taker has come. -/
structure Taking where
  journal : Journal
  /-- What is still to be received. -/
  remaining : Word
  /-- What has been sent. -/
  paid : Word
  deriving DecidableEq

namespace Book

/-- Receive as much as an order offers, or as the taker still wants. -/
def fill (venue : Venue) (sender : Address) (take : Take) (q : Quote) (t : Taking) :
    Except Refusal Taking := do
  let input := min t.remaining q.maxOutput
  let output ← (q.price input).mapError .arithmetic
  let remaining ← (Arithmetic.sub t.remaining input).mapError .arithmetic
  let paid ← (Arithmetic.add t.paid output).mapError .arithmetic
  let journal ← venue.settle sender take.order q output input t.journal
  return ⟨journal.note (.taken sender take input output), remaining, paid⟩

/-- Take a listed order whose legs trade the right tokens. -/
def takeLive (venue : Venue) (sender : Address) (maximumRatio : Word) (take : Take) (t : Taking) :
    Except Refusal Taking := do
  let order := take.order
  let q ← venue.quote t.journal.vaults sender order take.legs sender take.signed
  if maximumRatio < q.ratio then
    return { t with journal := t.journal.note (.tooExpensive sender order.owner order.hash) }
  else if q.maxOutput = 0 then
    return { t with journal := t.journal.note (.nothingOffered sender order.owner order.hash) }
  else
    fill venue sender take q t

/-- Take the next order. -/
def takeNext (book : Book) (venue : Venue) (sender : Address) (request : TakeRequest) (t : Taking)
    (take : Take) : Except Refusal Taking := do
  let order := take.order
  if t.remaining = 0 then
    return t
  else if !book.isLive order.hash then
    return { t with journal := t.journal.note (.notListed sender order.owner order.hash) }
  else
    let (input, output) ← order.legs take.legs
    require (input.token = request.output) (.tokenMismatch input.token request.output)
    require (output.token = request.input) (.tokenMismatch output.token request.input)
    takeLive venue sender request.maximumRatio take t

/-- Take orders. The result tells what the sender receives and what the sender pays. -/
def takeOrders (book : Book) (venue : Venue) (sender : Address) (request : TakeRequest) :
    Except Refusal ((Word × Word) × Book) := do
  let t ← request.takes.foldlM (book.takeNext venue sender request)
    ⟨book.journal, request.maximumInput, 0⟩
  let received ← (Arithmetic.sub request.maximumInput t.remaining).mapError .arithmetic
  require (request.minimumInput ≤ received) (.belowMinimum request.minimumInput received)
  return ((received, t.paid), book.commit t.journal)

end Book

end Bourse
