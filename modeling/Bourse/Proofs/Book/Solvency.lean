import Bourse.Proofs.Book.Refusals
import Bourse.Proofs.Decimal.Division
import Bourse.Proofs.Decimal.Rescaling

/-!
# Solvency of settlements

A quote offers no more than the vault that sends holds, and until the trade is settled nothing is
taken from that vault. So no settlement takes what is not there, however many orders are taken and
whichever of their vaults coincide. What can go wrong with an amount is that it is too great for a
word; only a match of two orders can also fail because one sends less than the other has to
receive.
-/

namespace Bourse

namespace Arithmetic

/-- What does not fit overflows. -/
theorem fit_failsOnly (n : Nat) : FailsOnly (· = .overflow) (fit n) := by
  intro e h
  exact (fit_eq_error_iff.mp h).2

end Arithmetic

namespace Decimal

open Arithmetic

/-- A decimal product can only overflow. -/
theorem mul_failsOnly (a b : Word) : FailsOnly (· = .overflow) (mul a b) := by
  rw [mul_eq_fit]
  exact fit_failsOnly _

/-- Rescaling a ratio can only overflow. -/
theorem rescaleRatio_failsOnly (ratio : Word) (outputDecimals inputDecimals : Nat) :
    FailsOnly (· = .overflow) (rescaleRatio ratio outputDecimals inputDecimals) := by
  intro cause h
  rw [rescaleRatio_eq_scaleBy] at h
  exact (((moves_scaleBy ratio _).error_iff cause).mp h).1

end Decimal

/-- An offer can only overflow while it is brought to raw amounts. -/
theorem Offer.ofDecimals_failsOnly (maxOutput ratio : Word) (outputDecimals inputDecimals : UInt8)
    (available : Word) :
    FailsOnly (· = .overflow) (ofDecimals maxOutput ratio outputDecimals inputDecimals available) :=
  (Decimal.rescaleRatio_failsOnly _ _ _).bind fun _ _ => .ok _

/-- A price can only overflow. -/
theorem Offer.price_failsOnly (offer : Offer) (amount : Word) :
    FailsOnly (· = .overflow) (offer.price amount) :=
  Decimal.mul_failsOnly _ _

/-- The amounts of a match can only overflow. -/
theorem Crossing.ofOffers_failsOnly (a b : Offer) :
    FailsOnly (· = .overflow) (Crossing.ofOffers a b) := by
  refine (b.price_failsOnly _).bind fun _ _ => ?_
  refine (a.price_failsOnly _).bind fun _ _ => ?_
  refine (a.price_failsOnly _).bind fun _ _ => ?_
  refine (b.price_failsOnly _).bind fun _ _ => ?_
  exact .ok _

/-- No more is offered than there is. -/
theorem Offer.maxOutput_le_of_ofDecimals {maxOutput ratio available : Word}
    {outputDecimals inputDecimals : UInt8} {offer : Offer}
    (h : ofDecimals maxOutput ratio outputDecimals inputDecimals available = .ok offer) :
    offer.maxOutput ≤ available := by
  rw [ofDecimals, bind_eq_ok_iff] at h
  obtain ⟨_, _, hoffer⟩ := h
  rw [pure_eq_ok_iff] at hoffer
  subst hoffer
  exact Word.min_le_right _ _

/-- Neither order sends more than it offers. -/
theorem Crossing.output_le_of_ofOffers {a b : Offer} {crossing : Crossing}
    (h : Crossing.ofOffers a b = .ok crossing) :
    crossing.aOutput ≤ a.maxOutput ∧ crossing.bOutput ≤ b.maxOutput := by
  simp only [ofOffers, bind_eq_ok_iff, pure_eq_ok_iff] at h
  obtain ⟨x, _, y, _, _, _, _, _, rfl⟩ := h
  exact ⟨Word.min_le_left _ _, Word.min_le_left _ _⟩

/-- The refusal is not for an amount that would be negative, nor for a quotient by zero. -/
def Refusal.Solvent (cause : Refusal) : Prop :=
  cause ≠ .arithmetic .underflow ∧ cause ≠ .arithmetic .divisionByZero

/-- An amount that is too great is not one that would be negative. -/
theorem Refusal.solvent_overflow : Refusal.Solvent (.arithmetic .overflow) := by
  simp [Solvent]

/-- What fails only on amounts that are too great is refused for nothing else. -/
theorem FailsOnly.solvent {α : Type} {x : Except ArithmeticError α}
    (h : FailsOnly (· = .overflow) x) : FailsOnly Refusal.Solvent (x.mapError .arithmetic) := by
  apply FailsOnly.mapError
  intro e he
  rw [h e he]
  exact Refusal.solvent_overflow

/-- A refusal for what a request names is for no amount at all. -/
theorem Refusal.Plain.solvent {cause : Refusal} (h : cause.Plain) : cause.Solvent := by
  constructor
  · rintro rfl
    exact h
  · rintro rfl
    exact h

namespace Venue

variable {venue : Venue} {vaults : Overlay} {sender counterparty : Address} {order : Order}
  {choice : LegChoice} {signed : List SignedRow} {q : Quote}

/-- A quote takes nothing from a vault. -/
theorem quote_failsOnly :
    FailsOnly Refusal.Solvent (venue.quote vaults sender order choice counterparty signed) := by
  refine quote_failsOnly_of (fun _ => Refusal.Plain.solvent)
    (fun _ _ _ => by simp [Refusal.Solvent])
    (fun _ _ _ => Or.inr (by simp [Refusal.Solvent])) fun _ _ _ _ _ e he => ?_
  rw [Offer.ofDecimals_failsOnly _ _ _ _ _ e he]
  exact Refusal.solvent_overflow

/-- A quote offers no more than the vault that sends holds. -/
theorem maxOutput_le_of_quote
    (h : venue.quote vaults sender order choice counterparty signed = .ok q) :
    q.maxOutput ≤ vaults.balance q.outputVault := by
  obtain ⟨_, _, _, _, _, _, _, _, _, _, hoffer, _, hout, _⟩ := quote_eq_ok h
  rw [hout]
  exact Offer.maxOutput_le_of_ofDecimals hoffer

end Venue

namespace Journal

variable {j j' : Journal} {key : VaultKey} {amount : Word}

/-- A credit can only overflow. -/
theorem credit_failsOnly : FailsOnly (· = .overflow) (j.credit key amount) := by
  rw [credit]
  split
  · exact .ok j
  · exact ((Arithmetic.fit_failsOnly _).bind fun _ _ => .ok _).bind fun _ _ => .ok _

/-- What a vault holds can be taken from it. -/
theorem debit_failsOnly (h : amount ≤ j.vaults.balance key) (P : ArithmeticError → Prop) :
    FailsOnly P (j.debit key amount) := by
  obtain ⟨j', hdebit⟩ := exists_debit_iff.mpr h
  rw [hdebit]
  exact .ok j'

/-- A credit lowers no balance. -/
theorem balance_le_of_credit (h : j.credit key amount = .ok j') (other : VaultKey) :
    j.vaults.balance other ≤ j'.vaults.balance other := by
  rw [Word.le_iff, balance_of_credit h other]
  exact Nat.le_add_right _ _

end Journal

/-- When it comes to the debit of a trade, the vault that sends holds what is sent. -/
def Quote.Covers (q : Quote) (j : Journal) (input output : Word) : Prop :=
  ∀ credited, j.credit q.inputVault input = .ok credited →
    output ≤ credited.vaults.balance q.outputVault

/-- It is enough that the vault holds as much before the trade, also when the trade pays into it. -/
theorem Quote.covers_of_le {q : Quote} {j : Journal} {output : Word}
    (h : output ≤ j.vaults.balance q.outputVault) (input : Word) : q.Covers j input output := by
  intro credited hcredit
  exact Nat.le_trans h (Journal.balance_le_of_credit hcredit _)

/-- A settlement that the vaults cover does not run short. -/
theorem Venue.settle_failsOnly {venue : Venue} {sender : Address} {order : Order} {q : Quote}
    {input output : Word} {j : Journal} (h : q.Covers j input output) :
    FailsOnly Refusal.Solvent (venue.settle sender order q input output j) := by
  refine Journal.credit_failsOnly.solvent.bind fun credited hcredit => ?_
  have hcovered := h credited (mapError_eq_ok_iff.mp hcredit)
  refine (Journal.debit_failsOnly hcovered _).solvent.bind fun _ _ => ?_
  refine FailsOnly.bind (.mapError fun _ _ => by simp [Refusal.Solvent]) fun _ _ => ?_
  exact .ok _

namespace Book

variable {book : Book} {venue : Venue} {sender : Address}

/-- A deposit never runs short. -/
theorem deposit_failsOnly (request : Transfer) :
    FailsOnly Refusal.Solvent (book.deposit sender request) := by
  refine (require_failsOnly (by simp [Refusal.Solvent])).bind fun _ _ => ?_
  exact Journal.credit_failsOnly.solvent.bind fun _ _ => .ok _

/-- No more is withdrawn than the vault holds. -/
theorem withdraw_failsOnly (request : Transfer) :
    FailsOnly Refusal.Solvent (book.withdraw sender request) := by
  have hcovered : min request.amount (book.vaults.balance (request.key sender)) ≤
      book.journal.vaults.balance (request.key sender) := Word.min_le_right _ _
  refine (require_failsOnly (by simp [Refusal.Solvent])).bind fun _ _ => ?_
  exact (Journal.debit_failsOnly hcovered _).solvent.bind fun _ _ => .ok _

section

variable {request : TakeRequest} {take : Take} {t : Taking} {q : Quote}

/-- What a taker receives from an order is there, after whatever other orders have been filled
before. -/
theorem covers_fill {counterparty : Address}
    (h : venue.quote t.journal.vaults sender take.order take.legs counterparty take.signed = .ok q)
    (output : Word) : q.Covers t.journal output (min t.remaining q.maxOutput) := by
  have hoffer := Venue.maxOutput_le_of_quote h
  apply Quote.covers_of_le
  rw [Word.le_iff] at hoffer ⊢
  rw [Word.toNat_min]
  omega

/-- A quoted order sends no more than its vault holds, so its fill does not run short. -/
theorem fill_failsOnly
    (h : venue.quote t.journal.vaults sender take.order take.legs sender take.signed = .ok q) :
    FailsOnly Refusal.Solvent (fill venue sender take q t) := by
  have hinput := Word.min_le_left t.remaining q.maxOutput
  refine (q.price_failsOnly _).solvent.bind fun output _ => ?_
  refine (Arithmetic.sub_failsOnly hinput _).solvent.bind fun _ _ => ?_
  refine (Arithmetic.fit_failsOnly _).solvent.bind fun _ _ => ?_
  exact (Venue.settle_failsOnly (covers_fill h output)).bind fun _ _ => .ok _

/-- Taking orders never runs short. -/
theorem takeOrders_failsOnly : FailsOnly Refusal.Solvent (book.takeOrders venue sender request) :=
  takeOrders_failsOnly_of (fun _ => Refusal.Plain.solvent) fun _ _ _ _ _ _ _ _ =>
    takeLive_failsOnly_of Venue.quote_failsOnly fun _ hquote => fill_failsOnly hquote

end

section

variable {request : ClearRequest}

/-- Until the two orders of a match are known to trade with each other, no amount is negative. -/
theorem clear_failsOnly :
    FailsOnly (fun cause => cause.Solvent ∨ ∃ aInput aOutput bInput bOutput p q crossing,
      Matched book venue sender request aInput aOutput bInput bOutput p q crossing)
      (book.clear venue sender request) := by
  refine clear_failsOnly_of (fun _ hplain => Or.inl hplain.solvent)
    (fun _ _ _ _ _ _ _ e he => Or.inl (Venue.quote_failsOnly e he))
    (fun _ _ _ _ _ _ _ e he => Or.inl (Venue.quote_failsOnly e he)) ?_ ?_
  · intro a b e he
    rw [Crossing.ofOffers_failsOnly a b e he]
    exact Or.inl Refusal.solvent_overflow
  · intro aInput aOutput bInput bOutput p q crossing h e _
    exact Or.inr ⟨aInput, aOutput, bInput, bOutput, p, q, crossing, h⟩

variable {aInput aOutput bInput bOutput : Leg} {p q : Quote} {crossing : Crossing}

/-- What the first order sends is there. -/
theorem Matched.covers_first
    (h : Matched book venue sender request aInput aOutput bInput bOutput p q crossing) (e : Event) :
    p.Covers (book.journal.note e) crossing.aInput crossing.aOutput := by
  have hsent := (Crossing.output_le_of_ofOffers h.crosses).1
  have hoffer := Venue.maxOutput_le_of_quote h.aQuote
  exact Quote.covers_of_le (Nat.le_trans hsent hoffer) _

/-- What the second order sends is there: the trade of the first one has left it untouched, since
the two orders have different owners. -/
theorem Matched.covers_second
    (h : Matched book venue sender request aInput aOutput bInput bOutput p q crossing) {e : Event}
    {j : Journal} (hsettle : venue.settle sender request.a p crossing.aInput crossing.aOutput
      (book.journal.note e) = .ok j) : q.Covers j crossing.bInput crossing.bOutput := by
  have hsent := (Crossing.output_le_of_ofOffers h.crosses).2
  have hoffer := Venue.maxOutput_le_of_quote h.bQuote
  have huntouched : j.vaults.balance q.outputVault = book.vaults.balance q.outputVault :=
    Venue.balance_of_settle hsettle (h.vault_ne p.inputVault (by simp) q.outputVault (by simp))
      (h.vault_ne p.outputVault (by simp) q.outputVault (by simp))
  apply Quote.covers_of_le
  rw [huntouched]
  exact Nat.le_trans hsent hoffer

end

/-- Paying the surplus fails on a negative amount exactly when one order sends less than the other
has to receive. -/
theorem paySurplus_eq_underflow_iff {j : Journal} {aVault bVault : VaultKey} {crossing : Crossing} :
    j.paySurplus aVault bVault crossing = .error .underflow ↔
      crossing.aOutput < crossing.bInput ∨ crossing.bOutput < crossing.aInput := by
  rw [Journal.paySurplus, Word.lt_iff, Word.lt_iff]
  cases hfirst : Arithmetic.sub crossing.aOutput crossing.bInput with
  | error cause =>
    obtain ⟨hless, rfl⟩ := Arithmetic.sub_eq_error_iff.mp hfirst
    exact iff_of_true rfl (Or.inl hless)
  | ok aSurplus =>
    have hfirst' := Arithmetic.sub_eq_ok_iff.mp hfirst
    cases hsecond : Arithmetic.sub crossing.bOutput crossing.aInput with
    | error cause =>
      obtain ⟨hless, rfl⟩ := Arithmetic.sub_eq_error_iff.mp hsecond
      exact iff_of_true rfl (Or.inr hless)
    | ok bSurplus =>
      have hsecond' := Arithmetic.sub_eq_ok_iff.mp hsecond
      refine iff_of_false ?_ (by omega)
      intro h
      have hcredits : FailsOnly (· = .overflow)
          (j.credit aVault aSurplus >>= fun j => j.credit bVault bSurplus) :=
        Journal.credit_failsOnly.bind fun _ _ => Journal.credit_failsOnly
      cases hcredits _ h

/-- A match fails on a negative amount exactly when both trades can be settled and one order sends
less than the other has to receive. -/
theorem clear_eq_underflow_iff {request : ClearRequest} :
    book.clear venue sender request = .error (.arithmetic .underflow) ↔
      ∃ aInput aOutput bInput bOutput p q crossing j₁ j₂,
        Matched book venue sender request aInput aOutput bInput bOutput p q crossing ∧
        venue.settle sender request.a p crossing.aInput crossing.aOutput
          (book.journal.note (.matching sender request.a request.b request.terms)) = .ok j₁ ∧
        venue.settle sender request.b q crossing.bInput crossing.bOutput j₁ = .ok j₂ ∧
        (crossing.aOutput < crossing.bInput ∨ crossing.bOutput < crossing.aInput) := by
  constructor
  · intro hclear
    rcases clear_failsOnly _ hclear with
      hsolvent | ⟨aInput, aOutput, bInput, bOutput, p, q, crossing, h⟩
    · exact absurd rfl hsolvent.1
    refine ⟨aInput, aOutput, bInput, bOutput, p, q, crossing, ?_⟩
    rw [h.clear_eq] at hclear
    cases hfirst : venue.settle sender request.a p crossing.aInput crossing.aOutput
        (book.journal.note (.matching sender request.a request.b request.terms)) with
    | error cause =>
      rw [hfirst] at hclear
      cases hclear
      exact absurd rfl (Venue.settle_failsOnly (h.covers_first _) _ hfirst).1
    | ok j₁ =>
      rw [hfirst, ok_bind] at hclear
      cases hsecond : venue.settle sender request.b q crossing.bInput crossing.bOutput j₁ with
      | error cause =>
        rw [hsecond] at hclear
        cases hclear
        exact absurd rfl (Venue.settle_failsOnly (h.covers_second hfirst) _ hsecond).1
      | ok j₂ =>
        rw [hsecond, ok_bind] at hclear
        have hunderflow : j₂.paySurplus ⟨sender, aOutput.token, request.terms.aBounty⟩
            ⟨sender, bOutput.token, request.terms.bBounty⟩ crossing = .error .underflow := by
          cases hpay : j₂.paySurplus ⟨sender, aOutput.token, request.terms.aBounty⟩
              ⟨sender, bOutput.token, request.terms.bBounty⟩ crossing with
          | error cause =>
            rw [hpay] at hclear
            cases hclear
            rfl
          | ok j₃ =>
            rw [hpay] at hclear
            cases hclear
        exact ⟨j₁, j₂, h, rfl, hsecond, paySurplus_eq_underflow_iff.mp hunderflow⟩
  · rintro ⟨aInput, aOutput, bInput, bOutput, p, q, crossing, j₁, j₂, h, hfirst, hsecond, hless⟩
    rw [h.clear_eq, hfirst, ok_bind, hsecond, ok_bind, paySurplus_eq_underflow_iff.mpr hless]
    rfl

/-- No deposit, withdrawal or taker's request is refused for a negative amount or a division by
zero, and a match is refused for a negative amount only when one of the settled orders has sent
less than the other has received. Whatever orders have been filled before, the vault that sends
holds what it sends when it is taken from it. -/
theorem settlement_solvent (book : Book) (venue : Venue) (sender : Address) :
    (∀ request, book.deposit sender request ≠ .error (.arithmetic .underflow) ∧
      book.deposit sender request ≠ .error (.arithmetic .divisionByZero)) ∧
    (∀ request, book.withdraw sender request ≠ .error (.arithmetic .underflow) ∧
      book.withdraw sender request ≠ .error (.arithmetic .divisionByZero)) ∧
    (∀ request, book.takeOrders venue sender request ≠ .error (.arithmetic .underflow) ∧
      book.takeOrders venue sender request ≠ .error (.arithmetic .divisionByZero)) ∧
    (∀ (request : TakeRequest) done take rest t q output, request.takes = done ++ take :: rest →
      done.foldlM (book.takeNext venue sender request) ⟨book.journal, request.maximumInput, 0⟩ =
        .ok t →
      venue.quote t.journal.vaults sender take.order take.legs sender take.signed = .ok q →
      q.Covers t.journal output (min t.remaining q.maxOutput)) ∧
    (∀ request, book.clear venue sender request = .error (.arithmetic .underflow) ↔
      ∃ aInput aOutput bInput bOutput p q crossing j₁ j₂,
        Matched book venue sender request aInput aOutput bInput bOutput p q crossing ∧
        venue.settle sender request.a p crossing.aInput crossing.aOutput
          (book.journal.note (.matching sender request.a request.b request.terms)) = .ok j₁ ∧
        venue.settle sender request.b q crossing.bInput crossing.bOutput j₁ = .ok j₂ ∧
        (crossing.aOutput < crossing.bInput ∨ crossing.bOutput < crossing.aInput)) ∧
    ∀ request aInput aOutput bInput bOutput p q crossing,
      Matched book venue sender request aInput aOutput bInput bOutput p q crossing →
      p.Covers (book.journal.note (.matching sender request.a request.b request.terms))
        crossing.aInput crossing.aOutput ∧
      ∀ j₁, venue.settle sender request.a p crossing.aInput crossing.aOutput
          (book.journal.note (.matching sender request.a request.b request.terms)) = .ok j₁ →
        q.Covers j₁ crossing.bInput crossing.bOutput := by
  refine ⟨?_, ?_, ?_, ?_, fun _ => clear_eq_underflow_iff, ?_⟩
  · intro request
    have hfails : FailsOnly Refusal.Solvent (book.deposit sender request) :=
      deposit_failsOnly request
    exact ⟨fun h => (hfails _ h).1 rfl, fun h => (hfails _ h).2 rfl⟩
  · intro request
    have hfails : FailsOnly Refusal.Solvent (book.withdraw sender request) :=
      withdraw_failsOnly request
    exact ⟨fun h => (hfails _ h).1 rfl, fun h => (hfails _ h).2 rfl⟩
  · intro request
    have hfails : FailsOnly Refusal.Solvent (book.takeOrders venue sender request) :=
      takeOrders_failsOnly
    exact ⟨fun h => (hfails _ h).1 rfl, fun h => (hfails _ h).2 rfl⟩
  · intro request done take rest t q output _ _ hquote
    exact covers_fill hquote output
  · intro request aInput aOutput bInput bOutput p q crossing h
    exact ⟨h.covers_first _, fun j₁ => h.covers_second⟩

/-- The first order is to be taken twice. -/
def twiceTakes : TakeRequest where
  output := .ofNat 3
  input := .ofNat 4
  minimumInput := 1
  maximumInput := 100
  maximumRatio := 1000000000000000000
  takes := [⟨parOrder, ⟨0, 0⟩, []⟩, ⟨parOrder, ⟨0, 0⟩, []⟩]

/-- After the first fill the order offers what is left in its vault. -/
theorem quote_twiceTakes : ∃ t q,
    [⟨parOrder, ⟨0, 0⟩, []⟩].foldlM (facingBook.takeNext parVenue (.ofNat 2) twiceTakes)
      ⟨facingBook.journal, twiceTakes.maximumInput, 0⟩ = .ok t ∧
    parVenue.quote t.journal.vaults (.ofNat 2) parOrder ⟨0, 0⟩ (.ofNat 2) [] = .ok q ∧
    t.remaining = 95 ∧ q.maxOutput = 2 := by
  have hamounts : (do
      let t ← takeLive parVenue (.ofNat 2) twiceTakes.maximumRatio ⟨parOrder, ⟨0, 0⟩, []⟩
        ⟨facingBook.journal, twiceTakes.maximumInput, 0⟩
      let q ← parVenue.quote t.journal.vaults (.ofNat 2) parOrder ⟨0, 0⟩ (.ofNat 2) []
      return (t, q)).toOption.map (fun (x : Taking × Quote) => (x.1.remaining, x.2.maxOutput)) =
        some (95, 2) := by
    decide +kernel
  obtain ⟨⟨t, q⟩, hboth, hvalues⟩ := exists_of_toOption_map_eq_some hamounts
  simp only [bind_eq_ok_iff, pure_eq_ok_iff, Prod.mk.injEq] at hboth hvalues
  obtain ⟨_, htake, _, hquote, rfl, rfl⟩ := hboth
  obtain ⟨hremaining, hoffer⟩ := hvalues
  have hwanted : twiceTakes.maximumInput ≠ 0 := by decide
  have hlegs : parOrder.legs ⟨0, 0⟩ = .ok (⟨.ofNat 3, 18, 0⟩, ⟨.ofNat 4, 18, 0⟩) := rfl
  have hnext : facingBook.takeNext parVenue (.ofNat 2) twiceTakes
      ⟨facingBook.journal, twiceTakes.maximumInput, 0⟩ ⟨parOrder, ⟨0, 0⟩, []⟩ =
        takeLive parVenue (.ofNat 2) twiceTakes.maximumRatio ⟨parOrder, ⟨0, 0⟩, []⟩
          ⟨facingBook.journal, twiceTakes.maximumInput, 0⟩ :=
    takeNext_eq_takeLive hwanted isLive_facingBook.1 hlegs rfl rfl
  refine ⟨_, _, ?_, hquote, hremaining, hoffer⟩
  rw [List.foldlM_cons, hnext, htake]
  rfl

/-- The second fill of an order is covered by what the first one has left, and both trades of a
match are covered. -/
theorem settlement_solvent_facing :
    (∃ t q, [⟨parOrder, ⟨0, 0⟩, []⟩].foldlM (facingBook.takeNext parVenue (.ofNat 2) twiceTakes)
        ⟨facingBook.journal, twiceTakes.maximumInput, 0⟩ = .ok t ∧
      parVenue.quote t.journal.vaults (.ofNat 2) parOrder ⟨0, 0⟩ (.ofNat 2) [] = .ok q ∧
      t.remaining = 95 ∧ q.maxOutput = 2 ∧ q.Covers t.journal 2 (min t.remaining q.maxOutput)) ∧
    ∃ aInput aOutput bInput bOutput p q j,
      Matched facingBook parVenue (.ofNat 2) facingRequest aInput aOutput bInput bOutput p q
        ⟨3, 5, 3, 2⟩ ∧
      p.Covers (facingBook.journal.note (.matching (.ofNat 2) parOrder halfOrder
        facingRequest.terms)) 3 3 ∧
      parVenue.settle (.ofNat 2) parOrder p 3 3
        (facingBook.journal.note (.matching (.ofNat 2) parOrder halfOrder facingRequest.terms)) =
          .ok j ∧
      q.Covers j 2 5 := by
  obtain ⟨_, _, _, htaken, _, hmatched⟩ := settlement_solvent facingBook parVenue (.ofNat 2)
  refine ⟨?_, ?_⟩
  · obtain ⟨t, q, hfirst, hquote, hremaining, hoffer⟩ := quote_twiceTakes
    exact ⟨t, q, hfirst, hquote, hremaining, hoffer,
      htaken twiceTakes [_] _ [] t q 2 rfl hfirst hquote⟩
  · obtain ⟨after, hclear⟩ := clear_facingRequest
    obtain ⟨aInput, aOutput, bInput, bOutput, p, q, _, hstep, _⟩ := clear_eq_ok hclear
    have hpair := hstep.toMatched
    rw [hpair.clear_eq, bind_eq_ok_iff] at hclear
    obtain ⟨j, hsettle, _⟩ := hclear
    obtain ⟨hfirst, hsecond⟩ := hmatched _ _ _ _ _ _ _ _ hpair
    exact ⟨aInput, aOutput, bInput, bOutput, p, q, j, hpair, hfirst, hsettle, hsecond j hsettle⟩

end Book

end Bourse
