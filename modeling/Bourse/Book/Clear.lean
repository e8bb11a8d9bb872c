import Bourse.Book.Basic

/-!
# Matching orders

Any account can match two listed orders of different owners that trade the same two tokens in
opposite directions. What one order sends beyond what the other asks for is the bounty of the
account that has matched them.
-/

namespace Bourse.Book

/-- Refuse legs of which one receives another token than the other sends. -/
def checkFacing (input output : Leg) : Except Refusal Unit := do
  require (input.token = output.token) (.tokenMismatch input.token output.token)
  require (input.decimals = output.decimals) (.decimalsMismatch input.decimals output.decimals)

/-- Refuse an order that is not listed. -/
def checkLive (book : Book) (order : Order) : Except Refusal Unit :=
  require (book.isLive order.hash) (.notListed order.hash)

/-- Match two orders. Each is quoted with the other's owner as its counterparty and with the rows
that are given for the other. The result tells the amounts that have moved. -/
def clear (book : Book) (venue : Venue) (sender : Address) (request : ClearRequest) :
    Except Refusal (Crossing × Book) := do
  let { a, b, terms, aSigned, bSigned } := request
  require (a.owner ≠ b.owner) (.sameOwner a.owner)
  let (aInput, aOutput) ← a.legs terms.a
  let (bInput, bOutput) ← b.legs terms.b
  checkFacing aInput bOutput
  checkFacing bInput aOutput
  book.checkLive a
  book.checkLive b
  let j := book.journal.note (.matching sender a b terms)
  let p ← venue.quote j.vaults sender a terms.a b.owner bSigned
  let q ← venue.quote j.vaults sender b terms.b a.owner aSigned
  let crossing ← (Crossing.ofOffers p.toOffer q.toOffer).mapError .arithmetic
  let j ← venue.settle sender a p crossing.aInput crossing.aOutput j
  let j ← venue.settle sender b q crossing.bInput crossing.bOutput j
  let aBounty ← (Arithmetic.sub crossing.aOutput crossing.bInput).mapError .arithmetic
  let bBounty ← (Arithmetic.sub crossing.bOutput crossing.aInput).mapError .arithmetic
  let j ← (j.credit ⟨sender, aOutput.token, terms.aBounty⟩ aBounty).mapError .arithmetic
  let j ← (j.credit ⟨sender, bOutput.token, terms.bBounty⟩ bBounty).mapError .arithmetic
  return (crossing, book.commit (j.note (.cleared sender crossing)))

end Bourse.Book
