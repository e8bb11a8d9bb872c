import Bourse.Proofs.Book.Mirror
import Bourse.Proofs.Book.Solvency

/-!
# Orders that cross

Two offers cross when neither asks for more than the other is willing to pay, that is, when the
product of their prices is at most one. Each amount of a crossing is rounded down on its own, and
still none of them is more than what the other order sends: a price and the inverse price, one
after the other, lead to no more than the amount that they start with, and what an offer asks for
grows with the amount.
-/

namespace Bourse

namespace Offer

/-- What the offer asks for an amount, whether it is a word or not. -/
def asked (offer : Offer) (amount : Nat) : Nat := amount * offer.ratio.toNat / 10 ^ 18

variable {offer : Offer} {amount paid : Word}

/-- The price of an amount is what is asked for it, if it fits. -/
theorem price_eq_fit (offer : Offer) (amount : Word) :
    offer.price amount = Arithmetic.fit (offer.asked amount.toNat) :=
  Decimal.mul_eq_fit amount offer.ratio

/-- There is a price when what is asked is a word. -/
theorem price_eq_ok_iff :
    offer.price amount = .ok paid ↔ paid.toNat = offer.asked amount.toNat := by
  rw [price_eq_fit, Arithmetic.fit_eq_ok_iff]

/-- There is a price when it is a word. -/
theorem exists_price_eq_ok_iff :
    (∃ paid, offer.price amount = .ok paid) ↔ offer.asked amount.toNat < 2 ^ 256 := by
  simp only [price_eq_ok_iff]
  constructor
  · rintro ⟨paid, hpaid⟩
    exact hpaid ▸ paid.toNat_lt
  · intro hlt
    exact ⟨⟨_, hlt⟩, rfl⟩

/-- More is asked for more. -/
theorem asked_mono (offer : Offer) {m n : Nat} (h : m ≤ n) : offer.asked m ≤ offer.asked n :=
  Nat.div_le_div_right (Nat.mul_le_mul_right _ h)

/-- What one offer asks for what the other asks for an amount is no more than the amount, if their
prices cross. -/
theorem asked_asked_le {a b : Offer} (h : a.ratio.toNat * b.ratio.toNat ≤ 10 ^ 36) (n : Nat) :
    b.asked (a.asked n) ≤ n := by
  have hfloor : a.asked n * 10 ^ 18 ≤ n * a.ratio.toNat := Nat.div_mul_le_self _ _
  have hexact : a.asked n * b.ratio.toNat * 10 ^ 18 ≤ 10 ^ 18 * n * 10 ^ 18 :=
    calc a.asked n * b.ratio.toNat * 10 ^ 18
        = a.asked n * 10 ^ 18 * b.ratio.toNat := Nat.mul_right_comm _ _ _
      _ ≤ n * a.ratio.toNat * b.ratio.toNat := Nat.mul_le_mul_right _ hfloor
      _ = n * (a.ratio.toNat * b.ratio.toNat) := Nat.mul_assoc _ _ _
      _ ≤ n * 10 ^ 36 := Nat.mul_le_mul_left _ h
      _ = 10 ^ 18 * n * 10 ^ 18 := by omega
  exact Nat.div_le_of_le_mul (Nat.le_of_mul_le_mul_right hexact (Nat.pow_pos (by decide)))

end Offer

namespace Crossing

variable {a b : Offer} {crossing : Crossing}

/-- Each order sends what it can and the other can pay for, and receives what it asks for that. -/
theorem ofOffers_eq_ok (h : ofOffers a b = .ok crossing) :
    a.asked a.maxOutput.toNat < 2 ^ 256 ∧ b.asked b.maxOutput.toNat < 2 ^ 256 ∧
    crossing.aOutput.toNat = min a.maxOutput.toNat (b.asked b.maxOutput.toNat) ∧
    crossing.bOutput.toNat = min b.maxOutput.toNat (a.asked a.maxOutput.toNat) ∧
    crossing.aInput.toNat = a.asked crossing.aOutput.toNat ∧
    crossing.bInput.toNat = b.asked crossing.bOutput.toNat := by
  simp only [ofOffers, bind_eq_ok_iff, pure_eq_ok_iff] at h
  obtain ⟨bPrice, hbPrice, aPrice, haPrice, aInput, haInput, bInput, hbInput, rfl⟩ := h
  have haAsked := Offer.price_eq_ok_iff.mp haPrice
  have hbAsked := Offer.price_eq_ok_iff.mp hbPrice
  refine ⟨haAsked ▸ aPrice.toNat_lt, hbAsked ▸ bPrice.toNat_lt, ?_, ?_,
    Offer.price_eq_ok_iff.mp haInput, Offer.price_eq_ok_iff.mp hbInput⟩
  · rw [Word.toNat_min, hbAsked]
  · rw [Word.toNat_min, haAsked]

/-- Offers have a crossing if the price of the most that they send is a word. What is received
then is no more than that. -/
theorem exists_ofOffers_eq_ok_iff :
    (∃ crossing, ofOffers a b = .ok crossing) ↔
      a.asked a.maxOutput.toNat < 2 ^ 256 ∧ b.asked b.maxOutput.toNat < 2 ^ 256 := by
  constructor
  · rintro ⟨crossing, h⟩
    obtain ⟨ha, hb, _⟩ := ofOffers_eq_ok h
    exact ⟨ha, hb⟩
  · rintro ⟨ha, hb⟩
    obtain ⟨aPrice, haPrice⟩ := Offer.exists_price_eq_ok_iff.mpr ha
    obtain ⟨bPrice, hbPrice⟩ := Offer.exists_price_eq_ok_iff.mpr hb
    have haLess := a.asked_mono (Word.min_le_left a.maxOutput bPrice)
    have hbLess := b.asked_mono (Word.min_le_left b.maxOutput aPrice)
    obtain ⟨aInput, haInput⟩ := Offer.exists_price_eq_ok_iff.mpr (Nat.lt_of_le_of_lt haLess ha)
    obtain ⟨bInput, hbInput⟩ := Offer.exists_price_eq_ok_iff.mpr (Nat.lt_of_le_of_lt hbLess hb)
    refine ⟨⟨min a.maxOutput bPrice, min b.maxOutput aPrice, aInput, bInput⟩, ?_⟩
    rw [ofOffers, hbPrice, ok_bind, haPrice, ok_bind, haInput, ok_bind, hbInput]
    rfl

/-- Offers have no crossing if a price is too great. -/
theorem ofOffers_eq_overflow_iff :
    ofOffers a b = .error .overflow ↔
      2 ^ 256 ≤ a.asked a.maxOutput.toNat ∨ 2 ^ 256 ≤ b.asked b.maxOutput.toNat := by
  have hexists := exists_ofOffers_eq_ok_iff (a := a) (b := b)
  cases h : ofOffers a b with
  | ok crossing =>
    obtain ⟨ha, hb, _⟩ := ofOffers_eq_ok h
    refine iff_of_false (by simp) ?_
    omega
  | error cause =>
    obtain rfl := ofOffers_failsOnly a b cause h
    refine iff_of_true rfl ?_
    by_contra hsmall
    obtain ⟨crossing, hcrossing⟩ := hexists.mpr (by omega)
    rw [h] at hcrossing
    cases hcrossing

/-- The second order does not receive more than the first one sends, if the prices cross. -/
theorem bInput_le_aOutput (h : ofOffers a b = .ok crossing)
    (hprices : a.ratio.toNat * b.ratio.toNat ≤ 10 ^ 36) : crossing.bInput ≤ crossing.aOutput := by
  obtain ⟨_, _, haOutput, hbOutput, _, hbInput⟩ := ofOffers_eq_ok h
  have hcapped : b.asked crossing.bOutput.toNat ≤ b.asked b.maxOutput.toNat :=
    b.asked_mono (by omega)
  have hback : b.asked crossing.bOutput.toNat ≤ a.maxOutput.toNat :=
    calc b.asked crossing.bOutput.toNat
        ≤ b.asked (a.asked a.maxOutput.toNat) := b.asked_mono (by omega)
      _ ≤ a.maxOutput.toNat := Offer.asked_asked_le hprices _
  rw [Word.le_iff, hbInput, haOutput]
  exact Nat.le_min.mpr ⟨hback, hcapped⟩

/-- Nor does the first order receive more than the second one sends. -/
theorem aInput_le_bOutput (h : ofOffers a b = .ok crossing)
    (hprices : a.ratio.toNat * b.ratio.toNat ≤ 10 ^ 36) : crossing.aInput ≤ crossing.bOutput :=
  bInput_le_aOutput (ofOffers_mirror h) (Nat.mul_comm _ _ ▸ hprices)

end Crossing

namespace Book

/-- A match of orders whose prices cross is not refused for a negative bounty. -/
theorem clear_ne_underflow {book : Book} {venue : Venue} {sender : Address} {request : ClearRequest}
    {p q : Quote}
    (haQuote : venue.quote (.on book.vaults) sender request.a request.terms.a request.b.owner
      request.bSigned = .ok p)
    (hbQuote : venue.quote (.on book.vaults) sender request.b request.terms.b request.a.owner
      request.aSigned = .ok q)
    (hprices : p.ratio.toNat * q.ratio.toNat ≤ 10 ^ 36) :
    book.clear venue sender request ≠ .error (.arithmetic .underflow) := by
  intro hclear
  obtain ⟨_, _, _, _, p', q', crossing, _, _, hmatched, _, _, hless⟩ :=
    clear_eq_underflow_iff.mp hclear
  obtain rfl : p = p' := Except.ok.inj (haQuote.symm.trans hmatched.aQuote)
  obtain rfl : q = q' := Except.ok.inj (hbQuote.symm.trans hmatched.bQuote)
  have haSurplus := Crossing.bInput_le_aOutput hmatched.crosses hprices
  have hbSurplus := Crossing.aInput_le_bOutput hmatched.crosses hprices
  rw [Word.le_iff] at haSurplus hbSurplus
  rw [Word.lt_iff, Word.lt_iff] at hless
  omega

end Book

/-- Two offers have a crossing unless the price of the most that one of them sends is too great,
and then that is what is told. Neither order sends more than it offers. If the prices cross,
neither receives more than the other sends, whatever is rounded and whichever offer is the smaller
one, so that no match of such orders is refused for a negative bounty. -/
theorem crossing_orders_clear :
    (∀ a b : Offer,
      ((∃ cause, Crossing.ofOffers a b = .error cause) ↔
        2 ^ 256 ≤ a.maxOutput.toNat * a.ratio.toNat / 10 ^ 18 ∨
          2 ^ 256 ≤ b.maxOutput.toNat * b.ratio.toNat / 10 ^ 18) ∧
      (∀ cause, Crossing.ofOffers a b = .error cause → cause = .overflow) ∧
      ∀ crossing, Crossing.ofOffers a b = .ok crossing →
        crossing.aOutput ≤ a.maxOutput ∧ crossing.bOutput ≤ b.maxOutput ∧
        (a.ratio.toNat * b.ratio.toNat ≤ 10 ^ 36 →
          crossing.bInput ≤ crossing.aOutput ∧ crossing.aInput ≤ crossing.bOutput)) ∧
    ∀ (book : Book) (venue : Venue) (sender : Address) (request : ClearRequest) (p q : Quote),
      venue.quote (.on book.vaults) sender request.a request.terms.a request.b.owner
        request.bSigned = .ok p →
      venue.quote (.on book.vaults) sender request.b request.terms.b request.a.owner
        request.aSigned = .ok q →
      p.ratio.toNat * q.ratio.toNat ≤ 10 ^ 36 →
      book.clear venue sender request ≠ .error (.arithmetic .underflow) := by
  refine ⟨fun a b => ⟨?_, Crossing.ofOffers_failsOnly a b, ?_⟩, ?_⟩
  · constructor
    · rintro ⟨cause, h⟩
      obtain rfl := Crossing.ofOffers_failsOnly a b cause h
      exact Crossing.ofOffers_eq_overflow_iff.mp h
    · intro hgreat
      exact ⟨.overflow, Crossing.ofOffers_eq_overflow_iff.mpr hgreat⟩
  · intro crossing h
    obtain ⟨ha, hb⟩ := Crossing.output_le_of_ofOffers h
    exact ⟨ha, hb, fun hprices =>
      ⟨Crossing.bInput_le_aOutput h hprices, Crossing.aInput_le_bOutput h hprices⟩⟩
  · intro book venue sender request p q haQuote hbQuote hprices
    exact Book.clear_ne_underflow haQuote hbQuote hprices

namespace Book

/-- The offers of two listed orders cross, all prices of theirs being rounded down or exact; an
offer of which the most costs too much crosses with nothing. -/
theorem crossing_orders_clear_facing :
    (∃ cause, Crossing.ofOffers ⟨Word.top, 2000000000000000000⟩ ⟨7, 500000000000000000⟩ =
      .error cause) ∧
    Crossing.ofOffers ⟨5, 1000000000000000000⟩ ⟨7, 500000000000000000⟩ = .ok ⟨3, 5, 3, 2⟩ ∧
    ((3 : Word) ≤ 5 ∧ (5 : Word) ≤ 7 ∧ (2 : Word) ≤ 3 ∧ (3 : Word) ≤ 5) ∧
    ∃ p q : Quote,
      parVenue.quote (.on facingBook.vaults) (.ofNat 2) parOrder ⟨0, 0⟩ halfOrder.owner [] = .ok p ∧
      parVenue.quote (.on facingBook.vaults) (.ofNat 2) halfOrder ⟨0, 0⟩ parOrder.owner [] = .ok q ∧
      p.ratio.toNat * q.ratio.toNat ≤ 10 ^ 36 ∧
      facingBook.clear parVenue (.ofNat 2) facingRequest ≠ .error (.arithmetic .underflow) := by
  obtain ⟨hoffers, hbook⟩ := crossing_orders_clear
  obtain ⟨p, q, hp, hq, hpOffer, hqOffer⟩ := quote_facingRequest
  have hcrossing : Crossing.ofOffers ⟨5, 1000000000000000000⟩ ⟨7, 500000000000000000⟩ =
      .ok ⟨3, 5, 3, 2⟩ := by
    rfl
  obtain ⟨_, _, hcrosses⟩ := hoffers ⟨5, 1000000000000000000⟩ ⟨7, 500000000000000000⟩
  obtain ⟨haMost, hbMost, hbounties⟩ := hcrosses _ hcrossing
  obtain ⟨haBounty, hbBounty⟩ := hbounties (by decide)
  have hprices : p.ratio.toNat * q.ratio.toNat ≤ 10 ^ 36 := by
    rw [hpOffer, hqOffer]
    decide
  refine ⟨(hoffers _ _).1.mpr (Or.inl (by decide)), hcrossing, ⟨haMost, hbMost, haBounty, hbBounty⟩,
    p, q, hp, hq, hprices, hbook facingBook parVenue (.ofNat 2) facingRequest p q hp hq hprices⟩

end Book

end Bourse
