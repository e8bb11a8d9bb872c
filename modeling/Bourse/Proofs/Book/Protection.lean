import Bourse.Proofs.Book.Authorization
import Bourse.Proofs.Book.Crossing

/-!
# What a taker is protected from

A taker receives no less and no more than was asked for, and pays at most the accepted price for
it. The price holds for each fill by itself, since what is paid for it is rounded down, and so it
holds for the totals. The log accounts for every order that was come to, in the order of the
request.
-/

namespace Bourse

namespace Offer

/-- Rounding down favours the one who pays. -/
theorem paid_le_of_price {offer : Offer} {amount paid : Word} (h : offer.price amount = .ok paid) :
    paid.toNat * 10 ^ 18 ≤ amount.toNat * offer.ratio.toNat := by
  rw [price_eq_ok_iff.mp h]
  exact Nat.div_mul_le_self _ _

end Offer

namespace Book

/-- What a taker's request adds to the log for an order that it comes to. -/
inductive Account (sender : Address) (maximumRatio : Word) (take : Take) : List Event → Prop
  | notListed :
      Account sender maximumRatio take [.notListed sender take.order.owner take.order.hash]
  | tooExpensive :
      Account sender maximumRatio take [.tooExpensive sender take.order.owner take.order.hash]
  | nothingOffered :
      Account sender maximumRatio take [.nothingOffered sender take.order.owner take.order.hash]
  /-- Something is received, at no more than the accepted price. -/
  | taken (context : Context) {input output : Word} (something : 0 < input.toNat)
      (price : output.toNat * 10 ^ 18 ≤ input.toNat * maximumRatio.toNat) :
      Account sender maximumRatio take
        [.settled sender context, .taken sender take input output]

/-- The events account for the orders one after the other, until nothing is wanted any more. -/
inductive Accounted (sender : Address) (maximumRatio : Word) : Nat → List Take → List Event → Prop
  | sated (takes : List Take) : Accounted sender maximumRatio 0 takes []
  | done (wanted : Nat) : Accounted sender maximumRatio wanted [] []
  | next {wanted left : Nat} {take : Take} {takes : List Take} {own events : List Event}
      (short : 0 < wanted) (account : Account sender maximumRatio take own)
      (rest : left + (own.map Event.received).sum = wanted)
      (others : Accounted sender maximumRatio left takes events) :
      Accounted sender maximumRatio wanted (take :: takes) (own ++ events)

section

variable {sender : Address} {maximumRatio : Word} {take : Take} {takes : List Take} {wanted : Nat}
  {own events : List Event}

/-- What an order brings is paid at no more than the limit. -/
theorem Account.price (h : Account sender maximumRatio take own) :
    (own.map Event.paid).sum * 10 ^ 18 ≤ (own.map Event.received).sum * maximumRatio.toNat := by
  cases h with
  | notListed | tooExpensive | nothingOffered => simp [Event.paid]
  | taken _ _ price => simpa [Event.paid, Event.received] using price

/-- The accepted price of each fill is the accepted price of all. -/
theorem Accounted.price (h : Accounted sender maximumRatio wanted takes events) :
    (events.map Event.paid).sum * 10 ^ 18 ≤
      (events.map Event.received).sum * maximumRatio.toNat := by
  induction h with
  | sated | done => simp
  | @next wanted left take takes own events short account rest others ih =>
    rw [List.map_append, List.map_append, List.sum_append, List.sum_append, Nat.add_mul,
      Nat.add_mul]
    exact Nat.add_le_add account.price ih

/-- A fill that is shown has brought something. -/
theorem Account.something {taker : Address} {filled : Take} {input output : Word}
    (h : Account sender maximumRatio take own) (hmem : .taken taker filled input output ∈ own) :
    0 < input.toNat := by
  cases h with
  | notListed | tooExpensive | nothingOffered => cases List.mem_singleton.mp hmem
  | taken _ something _ =>
    rcases List.mem_pair.mp hmem with h | h
    · cases h
    · cases h
      exact something

/-- Something is received from each order that is filled. -/
theorem Accounted.something {taker : Address} {filled : Take} {input output : Word}
    (h : Accounted sender maximumRatio wanted takes events)
    (hmem : .taken taker filled input output ∈ events) : 0 < input.toNat := by
  induction h with
  | sated | done => cases hmem
  | next short account rest others ih =>
    rcases List.mem_append.mp hmem with hmem | hmem
    · exact account.something hmem
    · exact ih hmem

end

section

variable {book : Book} {venue : Venue} {sender : Address} {request : TakeRequest} {take : Take}
  {t t' : Taking}

/-- While something is wanted, the log accounts for the next order. -/
theorem TakeStep.account (hwanted : t.remaining ≠ 0)
    (h : TakeStep book venue sender request take t t') :
    ∃ own, t'.journal.events = t.journal.events ++ own ∧
      Account sender request.maximumRatio take own := by
  cases h with
  | sated remaining => exact absurd remaining hwanted
  | notListed => exact ⟨_, rfl, .notListed⟩
  | tooExpensive => exact ⟨_, rfl, .tooExpensive⟩
  | nothingOffered => exact ⟨_, rfl, .nothingOffered⟩
  | @filled q inputLeg outputLeg output remaining paid journal nonzero live legs inputToken
      outputToken quote ratio offer price rest cost settle =>
    obtain ⟨hevents, _, _⟩ := Venue.settle_eq_ok settle
    have hwanted' : t.remaining.toNat ≠ 0 := fun h => nonzero (Word.ext h)
    have hoffer : q.maxOutput.toNat ≠ 0 := fun h => offer (Word.ext h)
    have hratio : q.ratio.toNat ≤ request.maximumRatio.toNat := Nat.le_of_not_lt ratio
    refine ⟨[.settled sender (q.tradeContext output (min t.remaining q.maxOutput)),
      .taken sender take (min t.remaining q.maxOutput) output], ?_, .taken _ ?_ ?_⟩
    · simp [hevents]
    · rw [Word.toNat_min]
      omega
    · exact (Offer.paid_le_of_price price).trans (Nat.mul_le_mul_left _ hratio)

/-- The log accounts for the orders that a taker goes through. -/
theorem accounted_of_foldlM {takes : List Take} (hmem : ∀ take ∈ takes, take ∈ request.takes)
    (h : takes.foldlM (book.takeNext venue sender request) t = .ok t') :
    ∃ events, Advance book sender request t t' events ∧
      Accounted sender request.maximumRatio t.remaining.toNat takes events := by
  induction takes generalizing t with
  | nil =>
    cases h
    exact ⟨[], Advance.refl _, .done _⟩
  | cons take takes ih =>
    by_cases hsated : t.remaining = 0
    · rw [foldlM_takeNext_sated hsated] at h
      cases h
      rw [hsated]
      exact ⟨[], Advance.refl _, .sated _⟩
    rw [List.foldlM_cons, bind_eq_ok_iff] at h
    obtain ⟨u, hnext, hrest⟩ := h
    rw [List.forall_mem_cons] at hmem
    have hstep := takeNext_eq_ok hnext
    obtain ⟨own, hadvance⟩ := hstep.advance hmem.1
    obtain ⟨own', hown, haccount⟩ := hstep.account hsated
    obtain rfl : own = own' := List.append_cancel_left (hadvance.events_eq.symm.trans hown)
    obtain ⟨events, hevents, hothers⟩ := ih hmem.2 hrest
    have hshort : t.remaining.toNat ≠ 0 := fun h => hsated (Word.ext h)
    exact ⟨own ++ events, hadvance.trans hevents,
      .next (Nat.pos_of_ne_zero hshort) haccount hadvance.remaining hothers⟩

/-- A taker receives an amount within the bounds of the request and pays at most the accepted
price for it; the log accounts for the orders of the request and for both amounts. -/
theorem takeOrders_protects {received paid : Word} {after : Book}
    (h : book.takeOrders venue sender request = .ok ((received, paid), after)) :
    request.minimumInput ≤ received ∧ received ≤ request.maximumInput ∧
    paid.toNat * 10 ^ 18 ≤ received.toNat * request.maximumRatio.toNat ∧
    ∃ events, after.log = book.log ++ events ∧
      (events.map Event.received).sum = received.toNat ∧
      (events.map Event.paid).sum = paid.toNat ∧
      (∀ taker take input output, .taken taker take input output ∈ events → 0 < input.toNat) ∧
      Accounted sender request.maximumRatio request.maximumInput.toNat request.takes events := by
  obtain ⟨t, events, hadvance, rfl, hreceived, hpaid, hminimum, hfold⟩ := takeOrders_eq_ok h
  obtain ⟨events', hadvance', haccounted⟩ := accounted_of_foldlM (fun _ => id) hfold
  obtain rfl : events = events' :=
    List.append_cancel_left (hadvance.events_eq.symm.trans hadvance'.events_eq)
  have hprice := haccounted.price
  rw [← hreceived, ← hpaid] at hprice
  have hmaximum := hadvance.remaining
  refine ⟨hminimum, ?_, hprice, events, ?_, hreceived.symm, hpaid.symm, ?_, haccounted⟩
  · rw [Word.le_iff]
    simp only at hmaximum
    omega
  · rw [commit, hadvance.events_eq]
    rfl
  · intro taker take input output hmem
    exact haccounted.something hmem

end

/-- The book in which an account has deposited what its order is to send, and has listed it. -/
def parBook : Book where
  vaults := Vaults.set .empty ⟨.ofNat 1, .ofNat 4, 0⟩ 7
  live := SortedMap.empty.insert parOrder.hash ()
  log := []

/-- Another account asks for up to a hundred units at no more than the price of one. -/
def parTakes : TakeRequest where
  output := .ofNat 3
  input := .ofNat 4
  minimumInput := 1
  maximumInput := 100
  maximumRatio := 1000000000000000000
  takes := [⟨parOrder, ⟨0, 0⟩, []⟩]

/-- The order is filled with all that it offers. -/
theorem takeOrders_parTakes : ∃ after,
    parBook.takeOrders parVenue (.ofNat 2) parTakes = .ok ((5, 5), after) := by
  have hlive : parBook.isLive parOrder.hash = true := SortedMap.contains_insert.mpr (Or.inl rfl)
  have hlegs : parOrder.legs ⟨0, 0⟩ = .ok (⟨.ofNat 3, 18, 0⟩, ⟨.ofNat 4, 18, 0⟩) := rfl
  have hfill : (takeLive parVenue (.ofNat 2) parTakes.maximumRatio ⟨parOrder, ⟨0, 0⟩, []⟩
      ⟨parBook.journal, parTakes.maximumInput, 0⟩).toOption.map (fun t => (t.remaining, t.paid)) =
        some (95, 5) := by
    decide +kernel
  have hnamed : parTakes.takes = [⟨parOrder, ⟨0, 0⟩, []⟩] := rfl
  have hreceived : (5 : Word).toNat + (95 : Word).toNat = parTakes.maximumInput.toNat := rfl
  obtain ⟨journal, _, htakes⟩ :=
    exists_takeOrders_of_takeLive hnamed (by decide) hlive hlegs rfl rfl
    hfill hreceived (by decide)
  exact ⟨_, htakes⟩

/-- The taker gets five units for five. -/
theorem takeOrders_protects_parBook : ∃ after,
    parBook.takeOrders parVenue (.ofNat 2) parTakes = .ok ((5, 5), after) ∧
    parTakes.minimumInput ≤ 5 ∧ 5 ≤ parTakes.maximumInput ∧
    (5 : Word).toNat * 10 ^ 18 ≤ (5 : Word).toNat * parTakes.maximumRatio.toNat ∧
    ∃ events, after.log = parBook.log ++ events ∧
      (events.map Event.received).sum = (5 : Word).toNat ∧
      (events.map Event.paid).sum = (5 : Word).toNat ∧
      (∀ taker take input output, .taken taker take input output ∈ events → 0 < input.toNat) ∧
      Accounted (.ofNat 2) parTakes.maximumRatio parTakes.maximumInput.toNat parTakes.takes
        events := by
  obtain ⟨after, htakes⟩ := takeOrders_parTakes
  exact ⟨after, htakes, takeOrders_protects htakes⟩

end Book

end Bourse
