import Bourse.Book.Clear
import Bourse.Proofs.Book.Trade

/-!
# What a match of two orders does

Both orders trade at the amounts at which their offers cross, and what either sends beyond what
the other receives goes to a vault of the account that matches them. Nothing enters the book or
leaves it: in every token the postings of a match add up to zero, whichever of the vaults and
tokens coincide.
-/

namespace Bourse

/-- What is left over of the token that an order sends. -/
def Order.surplusPostings (order : Order) (legs : LegChoice) (sender : Address) (vault : Word)
    (surplus : Int) : List Posting :=
  match order.legs legs with
  | .ok (_, outputLeg) => [⟨⟨sender, outputLeg.token, vault⟩, surplus⟩]
  | .error _ => []

/-- A surplus is posted to a vault of the one who matches, in the token that the order sends. -/
theorem Order.surplusPostings_of_legs {order : Order} {legs : LegChoice} {inputLeg outputLeg : Leg}
    (h : order.legs legs = .ok (inputLeg, outputLeg)) (sender : Address) (vault : Word)
    (surplus : Int) :
    order.surplusPostings legs sender vault surplus =
      [⟨⟨sender, outputLeg.token, vault⟩, surplus⟩] := by
  rw [surplusPostings, h]

/-- What moves when an account matches two orders: both trades, and what is left of either token. -/
def ClearTerms.postings (terms : ClearTerms) (sender : Address) (a b : Order)
    (crossing : Crossing) : List Posting :=
  a.tradePostings terms.a crossing.aInput crossing.aOutput ++
    b.tradePostings terms.b crossing.bInput crossing.bOutput ++
    a.surplusPostings terms.a sender terms.aBounty
      (crossing.aOutput.toNat - crossing.bInput.toNat) ++
    b.surplusPostings terms.b sender terms.bBounty (crossing.bOutput.toNat - crossing.aInput.toNat)

/-- Pay into two vaults what either order sends beyond what the other receives. -/
def Journal.paySurplus (j : Journal) (aVault bVault : VaultKey) (crossing : Crossing) :
    Except ArithmeticError Journal := do
  let aSurplus ← Arithmetic.sub crossing.aOutput crossing.bInput
  let bSurplus ← Arithmetic.sub crossing.bOutput crossing.aInput
  let j ← j.credit aVault aSurplus
  j.credit bVault bSurplus

namespace Book

variable {book : Book} {venue : Venue} {sender : Address} {request : ClearRequest}

/-- Before the book looks for the two orders of a match, they are known to have different owners
and to trade the same tokens in opposite directions. -/
structure Opposed (request : ClearRequest) (aInput aOutput bInput bOutput : Leg) : Prop where
  owners : request.a.owner ≠ request.b.owner
  aLegs : request.a.legs request.terms.a = .ok (aInput, aOutput)
  bLegs : request.b.legs request.terms.b = .ok (bInput, bOutput)
  aFacing : checkFacing aInput bOutput = .ok ()
  bFacing : checkFacing bInput aOutput = .ok ()

/-- Two orders that can trade with each other: their legs, their quotes, and the amounts at which
they cross. -/
structure Matched (book : Book) (venue : Venue) (sender : Address) (request : ClearRequest)
    (aInput aOutput bInput bOutput : Leg) (p q : Quote) (crossing : Crossing) : Prop where
  owners : request.a.owner ≠ request.b.owner
  aLegs : request.a.legs request.terms.a = .ok (aInput, aOutput)
  bLegs : request.b.legs request.terms.b = .ok (bInput, bOutput)
  aFacing : aInput.token = bOutput.token ∧ aInput.decimals = bOutput.decimals
  bFacing : bInput.token = aOutput.token ∧ bInput.decimals = aOutput.decimals
  aLive : book.isLive request.a.hash = true
  bLive : book.isLive request.b.hash = true
  aQuote : venue.quote (.on book.vaults) sender request.a request.terms.a request.b.owner
    request.bSigned = .ok p
  bQuote : venue.quote (.on book.vaults) sender request.b request.terms.b request.a.owner
    request.aSigned = .ok q
  crosses : Crossing.ofOffers p.toOffer q.toOffer = .ok crossing

/-- A match that is not refused: the legs, the quotes and the crossing that it comes from, and the
journal that it ends with. -/
structure ClearStep (book : Book) (venue : Venue) (sender : Address) (request : ClearRequest)
    (aInput aOutput bInput bOutput : Leg) (p q : Quote) (crossing : Crossing) (journal : Journal) :
    Prop extends Matched book venue sender request aInput aOutput bInput bOutput p q crossing where
  aApproved : venue.approve request.a p (p.tradeContext crossing.aInput crossing.aOutput) = .ok ()
  bApproved : venue.approve request.b q (q.tradeContext crossing.bInput crossing.bOutput) = .ok ()
  aSurplus : crossing.bInput.toNat ≤ crossing.aOutput.toNat
  bSurplus : crossing.aInput.toNat ≤ crossing.bOutput.toNat
  events : journal.events =
    [.matching sender request.a request.b request.terms,
      .settled sender (p.tradeContext crossing.aInput crossing.aOutput),
      .settled sender (q.tradeContext crossing.bInput crossing.bOutput), .cleared sender crossing]
  posted : Posted book.vaults.balance journal.vaults.balance
    (request.terms.postings sender request.a request.b crossing)

/-- A leg faces another one of the same token with as many decimals. -/
theorem checkFacing_eq_ok_iff {input output : Leg} :
    checkFacing input output = .ok () ↔
      input.token = output.token ∧ input.decimals = output.decimals := by
  rw [checkFacing, bind_eq_ok_iff]
  constructor
  · rintro ⟨⟨⟩, htoken, hdecimals⟩
    exact ⟨require_eq_ok_iff.mp htoken, require_eq_ok_iff.mp hdecimals⟩
  · rintro ⟨htoken, hdecimals⟩
    exact ⟨(), require_eq_ok_iff.mpr htoken, require_eq_ok_iff.mpr hdecimals⟩

/-- Two orders that are matched face each other. -/
theorem Matched.opposed {aInput aOutput bInput bOutput : Leg} {p q : Quote} {crossing : Crossing}
    (h : Matched book venue sender request aInput aOutput bInput bOutput p q crossing) :
    Opposed request aInput aOutput bInput bOutput :=
  ⟨h.owners, h.aLegs, h.bLegs, checkFacing_eq_ok_iff.mpr h.aFacing,
    checkFacing_eq_ok_iff.mpr h.bFacing⟩

/-- The vaults of the two orders are different ones. -/
theorem Matched.vault_ne {aInput aOutput bInput bOutput : Leg} {p q : Quote} {crossing : Crossing}
    (h : Matched book venue sender request aInput aOutput bInput bOutput p q crossing) :
    ∀ v ∈ [p.inputVault, p.outputVault], ∀ w ∈ [q.inputVault, q.outputVault], v ≠ w := by
  obtain ⟨haIn, haOut⟩ := Venue.owner_of_quote h.aQuote
  obtain ⟨hbIn, hbOut⟩ := Venue.owner_of_quote h.bQuote
  intro v hv w hw heq
  have hvOwner : v.owner = request.a.owner := by
    rcases List.mem_pair.mp hv with rfl | rfl
    · exact haIn
    · exact haOut
  have hwOwner : w.owner = request.b.owner := by
    rcases List.mem_pair.mp hw with rfl | rfl
    · exact hbIn
    · exact hbOut
  exact h.owners (hvOwner.symm.trans ((congrArg VaultKey.owner heq).trans hwOwner))

/-- What is left to be done for two listed orders that face each other: both are quoted, both
trades are settled at the amounts at which the quotes cross, and the surplus is paid. -/
theorem Opposed.clear_eq {aInput aOutput bInput bOutput : Leg}
    (h : Opposed request aInput aOutput bInput bOutput) (haLive : book.isLive request.a.hash = true)
    (hbLive : book.isLive request.b.hash = true) :
    book.clear venue sender request = do
      let p ← venue.quote (.on book.vaults) sender request.a request.terms.a request.b.owner
        request.bSigned
      let q ← venue.quote (.on book.vaults) sender request.b request.terms.b request.a.owner
        request.aSigned
      let crossing ← (Crossing.ofOffers p.toOffer q.toOffer).mapError .arithmetic
      let j ← venue.settle sender request.a p crossing.aInput crossing.aOutput
        (book.journal.note (.matching sender request.a request.b request.terms))
      let j ← venue.settle sender request.b q crossing.bInput crossing.bOutput j
      let j ← (j.paySurplus ⟨sender, aOutput.token, request.terms.aBounty⟩
        ⟨sender, bOutput.token, request.terms.bBounty⟩ crossing).mapError .arithmetic
      return (crossing, book.commit (j.note (.cleared sender crossing))) := by
  obtain ⟨a, b, terms, aSigned, bSigned⟩ := request
  simp only [clear, require_eq_ok_iff.mpr h.owners, h.aLegs, h.bLegs, h.aFacing, h.bFacing,
    checkLive, require_eq_ok_iff.mpr haLive, require_eq_ok_iff.mpr hbLive, ok_bind,
    Journal.vaults_note, journal, Journal.paySurplus, mapError_bind, bind_assoc]

/-- For two orders that can trade with each other the quotes and the crossing are known. -/
theorem Matched.clear_eq {aInput aOutput bInput bOutput : Leg} {p q : Quote} {crossing : Crossing}
    (h : Matched book venue sender request aInput aOutput bInput bOutput p q crossing) :
    book.clear venue sender request = do
      let j ← venue.settle sender request.a p crossing.aInput crossing.aOutput
        (book.journal.note (.matching sender request.a request.b request.terms))
      let j ← venue.settle sender request.b q crossing.bInput crossing.bOutput j
      let j ← (j.paySurplus ⟨sender, aOutput.token, request.terms.aBounty⟩
        ⟨sender, bOutput.token, request.terms.bBounty⟩ crossing).mapError .arithmetic
      return (crossing, book.commit (j.note (.cleared sender crossing))) := by
  have hcrosses : (Crossing.ofOffers p.toOffer q.toOffer).mapError Refusal.arithmetic =
      .ok crossing :=
    mapError_eq_ok_iff.mpr h.crosses
  rw [h.opposed.clear_eq h.aLive h.bLive, h.aQuote, ok_bind, h.bQuote, ok_bind, hcrosses, ok_bind]

/-- The surplus of a checked difference is posted as that difference. -/
private theorem credit_surplus {x y surplus : Word} (h : surplus.toNat + y.toNat = x.toNat)
    (key : VaultKey) : Posting.credit key surplus = ⟨key, (x.toNat : Int) - y.toNat⟩ := by
  rw [Posting.credit]
  congr 1
  omega

/-- A match that succeeds has gone through all of its steps. -/
theorem clear_eq_ok {crossing : Crossing} {book' : Book}
    (h : book.clear venue sender request = .ok (crossing, book')) :
    ∃ aInput aOutput bInput bOutput p q journal,
      ClearStep book venue sender request aInput aOutput bInput bOutput p q crossing journal ∧
        book' = book.commit journal := by
  obtain ⟨a, b, terms, aSigned, bSigned⟩ := request
  simp only [clear, bind_eq_ok_iff, mapError_eq_ok_iff, pure_eq_ok_iff, Prod.mk.injEq] at h
  obtain ⟨⟨⟩, howners, ⟨aInput, aOutput⟩, haLegs, ⟨bInput, bOutput⟩, hbLegs, ⟨⟩, haFacing, ⟨⟩,
    hbFacing, ⟨⟩, haLive, ⟨⟩, hbLive, p, hp, q, hq, crossing, hcrosses, j₁, hsettle₁, j₂, hsettle₂,
    aBounty, haBounty, bBounty, hbBounty, j₃, hcredit₁, j₄, hcredit₂, rfl, rfl⟩ := h
  obtain ⟨hevents₁, _, happrove₁⟩ := Venue.settle_eq_ok hsettle₁
  obtain ⟨hevents₂, _, happrove₂⟩ := Venue.settle_eq_ok hsettle₂
  obtain ⟨hevents₃, hposted₃⟩ := Journal.credit_eq_ok hcredit₁
  obtain ⟨hevents₄, hposted₄⟩ := Journal.credit_eq_ok hcredit₂
  have hsurplus₁ := Arithmetic.sub_eq_ok_iff.mp haBounty
  have hsurplus₂ := Arithmetic.sub_eq_ok_iff.mp hbBounty
  have hposted := (((Venue.settle_posted hp hsettle₁).trans (Venue.settle_posted hq hsettle₂)).trans
    hposted₃).trans hposted₄
  refine ⟨aInput, aOutput, bInput, bOutput, p, q, _,
    { owners := require_eq_ok_iff.mp howners, aLegs := haLegs, bLegs := hbLegs
      aFacing := checkFacing_eq_ok_iff.mp haFacing, bFacing := checkFacing_eq_ok_iff.mp hbFacing
      aLive := require_eq_ok_iff.mp haLive, bLive := require_eq_ok_iff.mp hbLive
      aQuote := hp, bQuote := hq, crosses := hcrosses
      aApproved := happrove₁, bApproved := happrove₂
      aSurplus := by omega, bSurplus := by omega, events := ?_, posted := ?_ }, rfl⟩
  · simp [hevents₄, hevents₃, hevents₂, hevents₁, journal]
  · rw [ClearTerms.postings, Order.surplusPostings_of_legs haLegs,
      Order.surplusPostings_of_legs hbLegs, ← credit_surplus hsurplus₁, ← credit_surplus hsurplus₂]
    exact hposted

/-- A match moves tokens between vaults and no token in or out. -/
theorem ClearStep.netToken_postings {aInput aOutput bInput bOutput : Leg} {p q : Quote}
    {crossing : Crossing} {journal : Journal}
    (h : ClearStep book venue sender request aInput aOutput bInput bOutput p q crossing journal)
    (token : Address) :
    Posting.netToken (request.terms.postings sender request.a request.b crossing) token = 0 := by
  have ha := h.aFacing.1
  have hb := h.bFacing.1
  simp only [ClearTerms.postings, Order.tradePostings_of_legs h.aLegs,
    Order.tradePostings_of_legs h.bLegs, Order.surplusPostings_of_legs h.aLegs,
    Order.surplusPostings_of_legs h.bLegs, Posting.netToken_append, Posting.netToken_cons,
    Posting.netToken_nil, Posting.inToken, Posting.credit, Posting.debit, Leg.key, ha, hb]
  by_cases hsentA : aOutput.token = token <;> by_cases hsentB : bOutput.token = token <;>
    simp only [hsentA, hsentB, if_true, if_false] <;> omega

/-- A book that accepts every signature. -/
def parVenue : Venue := ⟨.ofNat 5, fun _ _ _ => true, {}⟩

/-- A program that offers five units at the price of one. -/
def parProgram : Program where
  sources := [[0, 0, 0, 1, 0, 0, 0, 3]]
  constants := #[5, 1000000000000000000]
  heights := [⟨2, 2⟩]
  id := Deployment.id ⟨[[0, 0, 0, 1, 0, 0, 0, 3]], #[5, 1000000000000000000]⟩
  accepted := ⟨[2, 0], rfl⟩
  id_eq := rfl

/-- A program that offers seven units at half the price, and approves a trade if something is
received. -/
def halfProgram : Program where
  sources := [[0, 0, 0, 1, 0, 0, 0, 3], [0, 1, 3, 4, 0, 3, 0, 1]]
  constants := #[7, 500000000000000000]
  heights := [⟨2, 2⟩, ⟨1, 0⟩]
  id := Deployment.id
    ⟨[[0, 0, 0, 1, 0, 0, 0, 3], [0, 1, 3, 4, 0, 3, 0, 1]], #[7, 500000000000000000]⟩
  accepted := ⟨[2, 0], rfl⟩
  id_eq := rfl

/-- An order that sends one token for another at the price of one. -/
def parOrder : Order where
  owner := .ofNat 1
  approves := false
  program := parProgram
  inputs := [⟨.ofNat 3, 18, 0⟩]
  outputs := [⟨.ofNat 4, 18, 0⟩]
  data := []

/-- An order of another account that sends the second token for the first at half the price. -/
def halfOrder : Order where
  owner := .ofNat 6
  approves := true
  program := halfProgram
  inputs := [⟨.ofNat 4, 18, 0⟩]
  outputs := [⟨.ofNat 3, 18, 0⟩]
  data := []

/-- The order at the price of one is listed with another order, over vaults that hold what the two
are to send. -/
def pairedBook (other : Order) : Book where
  vaults := (Vaults.set .empty ⟨.ofNat 1, .ofNat 4, 0⟩ 7).set ⟨.ofNat 6, .ofNat 3, 0⟩ 9
  live := (SortedMap.empty.insert parOrder.hash ()).insert other.hash ()
  log := []

/-- The order at the price of one and another order are to be matched. -/
def pairedRequest (other : Order) : ClearRequest where
  a := parOrder
  b := other
  terms := ⟨⟨0, 0⟩, ⟨0, 0⟩, 0, 0⟩
  aSigned := []
  bSigned := []

/-- Both orders are listed. -/
theorem isLive_pairedBook (other : Order) :
    (pairedBook other).isLive parOrder.hash = true ∧
      (pairedBook other).isLive other.hash = true := by
  unfold isLive pairedBook
  rw [SortedMap.contains_insert, SortedMap.contains_insert, SortedMap.contains_insert]
  exact ⟨.inr (.inl rfl), .inl rfl⟩

/-- An order of another account that asks for the token which the one at the price of one sends can
be matched with it, if it sends the other token. -/
theorem opposed_pairedRequest {other : Order} (howners : parOrder.owner ≠ other.owner)
    (hlegs : other.legs ⟨0, 0⟩ = .ok (⟨.ofNat 4, 18, 0⟩, ⟨.ofNat 3, 18, 0⟩)) :
    Opposed (pairedRequest other) ⟨.ofNat 3, 18, 0⟩ ⟨.ofNat 4, 18, 0⟩ ⟨.ofNat 4, 18, 0⟩
      ⟨.ofNat 3, 18, 0⟩ :=
  ⟨howners, rfl, hlegs, rfl, rfl⟩

/-- The two orders face each other. -/
def facingBook : Book := pairedBook halfOrder

/-- The two orders are to be matched. -/
def facingRequest : ClearRequest := pairedRequest halfOrder

/-- Both orders are listed. -/
theorem isLive_facingBook :
    facingBook.isLive parOrder.hash = true ∧ facingBook.isLive halfOrder.hash = true :=
  isLive_pairedBook halfOrder

/-- Each order asks for the token that the other one sends. -/
theorem opposed_facingRequest :
    Opposed facingRequest ⟨.ofNat 3, 18, 0⟩ ⟨.ofNat 4, 18, 0⟩ ⟨.ofNat 4, 18, 0⟩ ⟨.ofNat 3, 18, 0⟩ :=
  opposed_pairedRequest (by decide) rfl

/-- Their quotes are what their programs compute. -/
theorem quote_facingRequest : ∃ p q,
    parVenue.quote (.on facingBook.vaults) (.ofNat 2) parOrder ⟨0, 0⟩ halfOrder.owner [] = .ok p ∧
    parVenue.quote (.on facingBook.vaults) (.ofNat 2) halfOrder ⟨0, 0⟩ parOrder.owner [] = .ok q ∧
    p.toOffer = ⟨5, 1000000000000000000⟩ ∧ q.toOffer = ⟨7, 500000000000000000⟩ := by
  have hpar : (parVenue.quote (.on facingBook.vaults) (.ofNat 2) parOrder ⟨0, 0⟩ halfOrder.owner
      []).toOption.map Quote.toOffer = some ⟨5, 1000000000000000000⟩ := by
    decide +kernel
  have hhalf : (parVenue.quote (.on facingBook.vaults) (.ofNat 2) halfOrder ⟨0, 0⟩ parOrder.owner
      []).toOption.map Quote.toOffer = some ⟨7, 500000000000000000⟩ := by
    decide +kernel
  obtain ⟨p, hp, hpOffer⟩ := exists_of_toOption_map_eq_some hpar
  obtain ⟨q, hq, hqOffer⟩ := exists_of_toOption_map_eq_some hhalf
  exact ⟨p, q, hp, hq, hpOffer, hqOffer⟩

/-- The first order sends three units, of which the second asks for two; the second sends five, of
which the first asks for three. -/
theorem clear_facingRequest : ∃ after,
    facingBook.clear parVenue (.ofNat 2) facingRequest = .ok (⟨3, 5, 3, 2⟩, after) := by
  obtain ⟨haLive, hbLive⟩ := isLive_facingBook
  have hcrossing : (facingBook.clear parVenue (.ofNat 2) facingRequest).toOption.map Prod.fst =
      some ⟨3, 5, 3, 2⟩ := by
    rw [opposed_facingRequest.clear_eq haLive hbLive]
    decide +kernel
  obtain ⟨⟨crossing, after⟩, hclear, hfst⟩ := exists_of_toOption_map_eq_some hcrossing
  cases hfst
  exact ⟨after, hclear⟩

end Book

end Bourse
