import Bourse.Proofs.Book.Clearing
import Bourse.Proofs.Book.Taking

/-!
# Where a refusal comes from

A request that takes or matches orders is refused for what it names, for an amount, or by the
program of an order. The first kind is told here once for all. What remains for a property of
refusals are the quotes of listed orders, the fills that follow them, and the settlement of two
orders that can trade with each other.
-/

namespace Bourse

/-- The refusal is for what a request names: neither an amount nor a program has failed. -/
def Refusal.Plain : Refusal → Prop
  | .arithmetic _ | .eval _ | .noOffer .. => False
  | _ => True

/-- A requirement fails with its own cause only. -/
theorem require_failsOnly {P : Refusal → Prop} {p : Prop} [Decidable p] {cause : Refusal}
    (h : P cause) : FailsOnly P (require p cause) := by
  rw [require]
  split
  · exact .ok ()
  · exact .error h

/-- Taking no more than there is does not fail. -/
theorem Arithmetic.sub_failsOnly {a b : Word} (h : b.toNat ≤ a.toNat) (P : ArithmeticError → Prop) :
    FailsOnly P (sub a b) := by
  intro e he
  have hless := (sub_eq_error_iff.mp he).1
  omega

section

variable {P : Refusal → Prop} (hplain : ∀ cause : Refusal, cause.Plain → P cause)

include hplain

/-- Legs that an order does not have are refused as such. -/
theorem Order.legs_failsOnly (order : Order) (choice : LegChoice) :
    FailsOnly P (order.legs choice) := by
  rw [legs]
  split
  · exact .ok _
  · exact .error (hplain _ trivial)
  · exact .error (hplain _ trivial)

/-- A quote fails for what it names, by the program, or on an amount of the offer. -/
theorem Venue.quote_failsOnly_of {venue : Venue} {vaults : Overlay} {sender counterparty : Address}
    {order : Order} {choice : LegChoice} {signed : List SignedRow}
    (hcomputed : ∀ context, FailsOnly (fun e => P (.eval e))
      (order.program.eval venue.settings ⟨0, 2⟩ context .empty))
    (hvalues : ∀ context outcome,
      order.program.eval venue.settings ⟨0, 2⟩ context .empty = .ok outcome →
      (∃ maxOutput ratio, outcome.values = [maxOutput, ratio]) ∨
        P (.noOffer order.hash outcome.values.length))
    (hoffer : ∀ maxOutput ratio outputDecimals inputDecimals available,
      FailsOnly (fun e => P (.arithmetic e))
        (Offer.ofDecimals maxOutput ratio outputDecimals inputDecimals available)) :
    FailsOnly P (venue.quote vaults sender order choice counterparty signed) := by
  refine (order.legs_failsOnly hplain choice).bind fun legs _ => ?_
  refine FailsOnly.bind (.mapError fun _ _ => hplain _ trivial) fun context _ => ?_
  refine FailsOnly.bind (.mapError (hcomputed context)) fun outcome houtcome => ?_
  split
  · exact FailsOnly.bind (.mapError (hoffer _ _ _ _ _)) fun _ _ => .ok _
  · next values hother =>
    rcases hvalues context outcome (mapError_eq_ok_iff.mp houtcome) with ⟨maxOutput, ratio, heq⟩ | h
    · exact absurd heq (hother maxOutput ratio)
    · exact .error h

namespace Book

variable {book : Book} {venue : Venue} {sender : Address}

section

variable {request : TakeRequest} {take : Take} {t : Taking}

omit hplain in
/-- A listed order that is taken fails with its quote or with its fill. -/
theorem takeLive_failsOnly_of {maximumRatio : Word}
    (hquote : FailsOnly P
      (venue.quote t.journal.vaults sender take.order take.legs sender take.signed))
    (hfill : ∀ q, venue.quote t.journal.vaults sender take.order take.legs sender take.signed =
      .ok q → FailsOnly P (fill venue sender take q t)) :
    FailsOnly P (takeLive venue sender maximumRatio take t) := by
  refine hquote.bind fun q hq => ?_
  split
  · exact .ok _
  split
  · exact .ok _
  · exact hfill q hq

/-- Among the orders to be taken, only listed ones can fail, and only while something is
wanted. -/
theorem takeNext_failsOnly_of
    (hlive : t.remaining ≠ 0 → book.isLive take.order.hash = true →
      FailsOnly P (takeLive venue sender request.maximumRatio take t)) :
    FailsOnly P (book.takeNext venue sender request t take) := by
  simp only [takeNext]
  split
  · exact .ok _
  next hremaining =>
  split
  · exact .ok _
  next hlisted =>
  refine (take.order.legs_failsOnly hplain _).bind fun legs _ => ?_
  refine (require_failsOnly (hplain _ (by trivial))).bind fun _ _ => ?_
  refine (require_failsOnly (hplain _ (by trivial))).bind fun _ _ => ?_
  exact hlive hremaining (by simpa using hlisted)

/-- A taker's request fails for what it names, or at a listed order that it has come to. -/
theorem takeOrders_failsOnly_of
    (hlive : ∀ done take rest t, request.takes = done ++ take :: rest →
      done.foldlM (book.takeNext venue sender request) ⟨book.journal, request.maximumInput, 0⟩ =
        .ok t →
      t.remaining ≠ 0 → book.isLive take.order.hash = true →
      FailsOnly P (takeLive venue sender request.maximumRatio take t)) :
    FailsOnly P (book.takeOrders venue sender request) := by
  refine (FailsOnly.foldlM_of_reached fun done take rest t htakes hdone => ?_).bind
    fun t hfold => ?_
  · exact takeNext_failsOnly_of hplain (hlive done take rest t htakes hdone)
  · have hremaining : t.remaining.toNat ≤ request.maximumInput.toNat :=
      (totals_of_foldlM_takeNext hfold).1
    refine FailsOnly.bind (.mapError (Arithmetic.sub_failsOnly hremaining _)) fun _ _ => ?_
    exact (require_failsOnly (hplain _ (by trivial))).bind fun _ _ => .ok _

end

section

variable {request : ClearRequest}

/-- Two legs that do not face each other are refused as such. -/
theorem checkFacing_failsOnly (input output : Leg) : FailsOnly P (checkFacing input output) :=
  (require_failsOnly (hplain _ (by trivial))).bind fun _ _ =>
    require_failsOnly (hplain _ (by trivial))

/-- A match fails for what it names, at the quote of a listed order, at the amounts at which the two
quotes cross, or after it has come to that. -/
theorem clear_failsOnly_of
    (haQuote : ∀ aInput aOutput bInput bOutput, Opposed request aInput aOutput bInput bOutput →
      book.isLive request.a.hash = true → book.isLive request.b.hash = true →
      FailsOnly P (venue.quote (.on book.vaults) sender request.a request.terms.a request.b.owner
        request.bSigned))
    (hbQuote : ∀ aInput aOutput bInput bOutput, Opposed request aInput aOutput bInput bOutput →
      book.isLive request.a.hash = true → book.isLive request.b.hash = true →
      FailsOnly P (venue.quote (.on book.vaults) sender request.b request.terms.b request.a.owner
        request.aSigned))
    (hcrosses : ∀ a b, FailsOnly (fun e => P (.arithmetic e)) (Crossing.ofOffers a b))
    (hmatched : ∀ aInput aOutput bInput bOutput p q crossing,
      Matched book venue sender request aInput aOutput bInput bOutput p q crossing →
      FailsOnly P (book.clear venue sender request)) :
    FailsOnly P (book.clear venue sender request) := by
  by_cases hmatches : ∃ aInput aOutput bInput bOutput p q crossing,
      Matched book venue sender request aInput aOutput bInput bOutput p q crossing
  · obtain ⟨aInput, aOutput, bInput, bOutput, p, q, crossing, h⟩ := hmatches
    exact hmatched _ _ _ _ _ _ _ h
  -- The steps up to the crossing cannot all succeed, so one of them is where the match fails.
  refine (require_failsOnly (hplain _ (by trivial))).bind fun _ howners => ?_
  refine (request.a.legs_failsOnly hplain _).bind ?_
  rintro ⟨aInput, aOutput⟩ haLegs
  refine (request.b.legs_failsOnly hplain _).bind ?_
  rintro ⟨bInput, bOutput⟩ hbLegs
  refine (checkFacing_failsOnly hplain _ _).bind fun _ haFacing => ?_
  refine (checkFacing_failsOnly hplain _ _).bind fun _ hbFacing => ?_
  refine (require_failsOnly (hplain _ (by trivial))).bind fun _ haLive => ?_
  refine (require_failsOnly (hplain _ (by trivial))).bind fun _ hbLive => ?_
  have hopposed : Opposed request aInput aOutput bInput bOutput :=
    ⟨require_eq_ok_iff.mp howners, haLegs, hbLegs, haFacing, hbFacing⟩
  have haLive := require_eq_ok_iff.mp haLive
  have hbLive := require_eq_ok_iff.mp hbLive
  refine (haQuote _ _ _ _ hopposed haLive hbLive).bind fun p hp => ?_
  refine (hbQuote _ _ _ _ hopposed haLive hbLive).bind fun q hq => ?_
  refine FailsOnly.bind (.mapError (hcrosses _ _)) fun crossing hcrossing => ?_
  refine absurd ⟨aInput, aOutput, bInput, bOutput, p, q, crossing, ?_⟩ hmatches
  exact ⟨hopposed.owners, haLegs, hbLegs, checkFacing_eq_ok_iff.mp haFacing,
    checkFacing_eq_ok_iff.mp hbFacing, haLive, hbLive, hp, hq, mapError_eq_ok_iff.mp hcrossing⟩

end

end Book

end

end Bourse
