import Bourse.Proofs.Book.Approval
import Bourse.Proofs.Book.Authorization
import Bourse.Proofs.Book.Crossing
import Bourse.Proofs.Decimal.Rescaling
import Mathlib.Tactic.Ring

/-!
# What rounding costs an order

The price that an order asks is rounded down twice on its way to a received amount: first when it
becomes a price between raw amounts, and then when it is multiplied by the amount sent. The second
rounding costs less than one raw unit. The first one costs a fraction of a raw unit for each unit
sent, so that it may well cost whole units, and it costs nothing where the price has no digits
beyond those that are kept.
-/

namespace Bourse

/-- A product with a quotient, divided once more, leaves out both remainders. -/
theorem mul_eq_two_quotients (x n d e : Nat) :
    x * n = x * (n / d) / e * (e * d) + (x * (n % d) + x * (n / d) % e * d) := by
  have hfirst : d * (n / d) + n % d = n := Nat.div_add_mod _ _
  have hsecond : e * (x * (n / d) / e) + x * (n / d) % e = x * (n / d) := Nat.div_add_mod _ _
  calc x * n
      = x * (d * (n / d) + n % d) := by rw [hfirst]
    _ = x * (n / d) * d + x * (n % d) := by ring
    _ = (e * (x * (n / d) / e) + x * (n / d) % e) * d + x * (n % d) := by rw [hsecond]
    _ = x * (n / d) / e * (e * d) + (x * (n % d) + x * (n / d) % e * d) := by ring

/-- What a price of eighteen decimals gives for the raw units sent, less the raw units received.
Each of these counts `10 ^ (18 + outputDecimals)`. -/
def roundingLoss (ratio sent received : Word) (outputDecimals inputDecimals : Nat) : Int :=
  sent.toNat * ratio.toNat * 10 ^ inputDecimals - received.toNat * 10 ^ (18 + outputDecimals)

/-- What the price loses as it becomes one between raw amounts, for the raw units sent. -/
def ratioLoss (ratio sent : Word) (outputDecimals inputDecimals : Nat) : Nat :=
  sent.toNat * (ratio.toNat * 10 ^ inputDecimals % 10 ^ outputDecimals)

section

variable {offer : Offer} {maxOutput ratio sent received available : Word}
  {outputDecimals inputDecimals : Nat}

/-- Nothing is lost of a price without digits beyond those that are kept. -/
theorem ratioLoss_eq_zero (h : 10 ^ outputDecimals ∣ ratio.toNat * 10 ^ inputDecimals)
    (sent : Word) : ratioLoss ratio sent outputDecimals inputDecimals = 0 := by
  rw [ratioLoss, Nat.mod_eq_zero_of_dvd h, Nat.mul_zero]

/-- What is lost of the price for all units sent, and what is lost of the amount, is all that is
lost. -/
theorem roundingLoss_eq
    (hratio : offer.ratio.toNat = ratio.toNat * 10 ^ inputDecimals / 10 ^ outputDecimals)
    (hprice : offer.price sent = .ok received) :
    roundingLoss ratio sent received outputDecimals inputDecimals =
      (ratioLoss ratio sent outputDecimals inputDecimals +
        sent.toNat * offer.ratio.toNat % 10 ^ 18 * 10 ^ outputDecimals : Nat) := by
  have hexact := mul_eq_two_quotients sent.toNat (ratio.toNat * 10 ^ inputDecimals)
    (10 ^ outputDecimals) (10 ^ 18)
  rw [← hratio, ← Offer.asked, ← Offer.price_eq_ok_iff.mp hprice, ← Nat.pow_add, ← ratioLoss,
    ← Nat.mul_assoc] at hexact
  have hinteger := congrArg (Nat.cast : Nat → Int) hexact
  rw [Nat.cast_add] at hinteger
  rw [roundingLoss, sub_eq_iff_eq_add, Int.add_comm]
  push_cast at hinteger ⊢
  exact hinteger

/-- Beyond what the price loses, less than a raw unit is lost. -/
theorem roundingLoss_bounds
    (hratio : offer.ratio.toNat = ratio.toNat * 10 ^ inputDecimals / 10 ^ outputDecimals)
    (hprice : offer.price sent = .ok received) :
    ratioLoss ratio sent outputDecimals inputDecimals ≤
        roundingLoss ratio sent received outputDecimals inputDecimals ∧
      roundingLoss ratio sent received outputDecimals inputDecimals <
        ratioLoss ratio sent outputDecimals inputDecimals + 10 ^ (18 + outputDecimals) := by
  have hlast : sent.toNat * offer.ratio.toNat % 10 ^ 18 * 10 ^ outputDecimals <
      10 ^ (18 + outputDecimals) := by
    rw [Nat.pow_add]
    exact Nat.mul_lt_mul_of_pos_right (Nat.mod_lt _ (Nat.pow_pos (by decide)))
      (Nat.pow_pos (by decide))
  rw [roundingLoss_eq hratio hprice]
  constructor
  · exact Int.ofNat_le.mpr (Nat.le_add_right _ _)
  · exact_mod_cast Nat.add_lt_add_left hlast _

end

/-- The price of an offer is the one computed, as a price between raw amounts. -/
theorem Offer.toNat_ratio_of_ofDecimals {offer : Offer} {maxOutput ratio available : Word}
    {outputDecimals inputDecimals : UInt8}
    (h : ofDecimals maxOutput ratio outputDecimals inputDecimals available = .ok offer) :
    offer.ratio.toNat = ratio.toNat * 10 ^ inputDecimals.toNat / 10 ^ outputDecimals.toNat := by
  rw [ofDecimals, bind_eq_ok_iff] at h
  obtain ⟨rescaled, hrescaled, hoffer⟩ := h
  rw [pure_eq_ok_iff] at hoffer
  rw [← hoffer]
  exact Decimal.toNat_of_rescaleRatio hrescaled

namespace Book

section

variable {book : Book} {venue : Venue} {sender account : Address} {request : TakeRequest}
  {take : Take} {t t' : Taking} {before earlier : List Event} {context : Context}
  {sent received paid got : Word}

/-- After these events, the program of an order that is taken computes this price, in eighteen
decimals, between the tokens of its legs. -/
inductive AskedPrice (book : Book) (venue : Venue) (sender : Address) (earlier : List Event)
    (take : Take) (input output : Leg) (ratio : Word) : Prop
  | intro {balance : VaultKey → Word} {asked : Context} {outcome : Outcome} {maxOutput : Word}
      (legs : take.order.legs take.legs = .ok (input, output))
      (balances : Posted book.vaults.balance balance (earlier.flatMap Event.postings))
      (asked_eq : Context.ofColumns
        ((take.trade sender).columns venue balance input output [] 0 0) = .ok asked)
      (computation : take.order.program.eval venue.settings ⟨0, 2⟩ asked .empty = .ok outcome)
      (values : outcome.values = [maxOutput, ratio]) :
      AskedPrice book venue sender earlier take input output ratio

/-- A fill receives the price that the order asks, rounded down twice. -/
inductive RoundedFill (book : Book) (venue : Venue) (sender : Address) (earlier : List Event)
    (take : Take) (sent received : Word) : Prop
  | intro {input output : Leg} {ratio : Word} {offer : Offer}
      (asked : AskedPrice book venue sender earlier take input output ratio)
      (ratio_eq : offer.ratio.toNat =
        ratio.toNat * 10 ^ input.decimals.toNat / 10 ^ output.decimals.toNat)
      (price : offer.price sent = .ok received) :
      RoundedFill book venue sender earlier take sent received

/-- An approved fill is priced by the ratio that its program has asked for. -/
theorem ApprovedFill.rounded
    (h : ApprovedFill book venue sender request earlier take context sent received) :
    RoundedFill book venue sender (earlier ++ [.settled sender context]) take sent received := by
  obtain @⟨balance, remaining, offer, scratch, mem, balances, rest, sent_eq, price, published,
    approved⟩ := h
  obtain ⟨legs, accepted, asked_eq, computation, values, offer_eq, context_eq⟩ := published
  -- The event of the settlement moves nothing by itself.
  have hbalances : Posted book.vaults.balance balance
      ((earlier ++ [Event.settled sender context]).flatMap Event.postings) := by
    simpa [Event.postings] using balances
  exact .intro ⟨legs, hbalances, asked_eq, computation, values⟩
    (Offer.toNat_ratio_of_ofDecimals offer_eq) price

/-- All fills of a taker's request are rounded so. -/
theorem takeOrders_roundedFills {after : Book}
    (h : book.takeOrders venue sender request = .ok ((received, paid), after)) :
    ∃ events, after.log = book.log ++ events ∧
      Posted book.vaults.balance after.vaults.balance (events.flatMap Event.postings) ∧
      ∀ before account take sent got later,
        events = before ++ .taken account take sent got :: later →
        RoundedFill book venue sender before take sent got := by
  obtain ⟨t, events, hadvance, rfl, _, _, _, hfold⟩ := takeOrders_eq_ok h
  obtain ⟨_, hfills⟩ := fillsApproved_of_foldlM hfold
  obtain ⟨_, hlog, hposted⟩ := extends_commit hadvance.events_eq hadvance.posted
  have hevents : t.journal.events = events := hadvance.events_eq
  rw [hevents] at hfills
  refine ⟨events, hlog, hposted, ?_⟩
  intro before account take sent got later hsplit
  obtain ⟨_, earlier, context, rfl, hfill⟩ := hfills _ _ _ _ _ _ hsplit
  exact hfill.rounded

/-- What an order receives is what it asks for the raw units that it sends, rounded down. What is
lost of the price, when it becomes one between raw amounts, is lost for each unit sent; beyond
that less than one raw unit is lost. If the price has no digits beyond those that are kept,
nothing else is lost. -/
theorem takeOrders_rounding {after : Book}
    (h : book.takeOrders venue sender request = .ok ((received, paid), after)) :
    ∃ events, after.log = book.log ++ events ∧
      Posted book.vaults.balance after.vaults.balance (events.flatMap Event.postings) ∧
      ∀ before account take sent got later,
        events = before ++ .taken account take sent got :: later →
        ∃ input output ratio, AskedPrice book venue sender before take input output ratio ∧
          (Event.taken account take sent got).postings =
            [.credit (input.key take.order.owner) got, .debit (output.key take.order.owner) sent] ∧
          ratioLoss ratio sent output.decimals.toNat input.decimals.toNat ≤
            roundingLoss ratio sent got output.decimals.toNat input.decimals.toNat ∧
          roundingLoss ratio sent got output.decimals.toNat input.decimals.toNat <
            ratioLoss ratio sent output.decimals.toNat input.decimals.toNat +
              10 ^ (18 + output.decimals.toNat) ∧
          (10 ^ output.decimals.toNat ∣ ratio.toNat * 10 ^ input.decimals.toNat →
            0 ≤ roundingLoss ratio sent got output.decimals.toNat input.decimals.toNat ∧
            roundingLoss ratio sent got output.decimals.toNat input.decimals.toNat <
              10 ^ (18 + output.decimals.toNat)) := by
  obtain ⟨events, hlog, hposted, hfills⟩ := takeOrders_roundedFills h
  refine ⟨events, hlog, hposted, ?_⟩
  intro before account take sent got later hsplit
  obtain @⟨input, output, ratio, offer, hasked, hratio, hprice⟩ := hfills _ _ _ _ _ _ hsplit
  obtain ⟨hleast, hless⟩ := roundingLoss_bounds hratio hprice
  refine ⟨input, output, ratio, hasked, ?_, hleast, hless, ?_⟩
  · obtain ⟨legs, _⟩ := hasked
    exact Order.tradePostings_of_legs legs _ _
  · intro hdivides
    rw [ratioLoss_eq_zero hdivides] at hleast hless
    simpa using And.intro hleast hless

/-- If less remains, the order has been filled, and its event tells what was sent for what. -/
theorem TakeStep.taken_of_remaining_ne (h : TakeStep book venue sender request take t t')
    (hless : t'.remaining ≠ t.remaining) :
    ∃ before sent got, t'.journal.events = before ++ [.taken sender take sent got] ∧
      t'.remaining.toNat + sent.toNat = t.remaining.toNat ∧
      t'.paid.toNat = t.paid.toNat + got.toNat := by
  cases h with
  | sated | notListed | tooExpensive | nothingOffered => exact absurd rfl hless
  | @filled q inputLeg outputLeg output remaining paid journal nonzero live legs inputToken
      outputToken quote ratio offer price rest cost settle =>
    exact ⟨journal.events, _, output, rfl, rest, cost⟩

end

/-- A program that offers ten units at a price of one and half a millionth. -/
def fineProgram : Program where
  sources := [[0, 0, 0, 1, 0, 0, 0, 3]]
  constants := #[10000000000000000000, 1000000500000000000]
  heights := [⟨2, 2⟩]
  id := Deployment.id ⟨[[0, 0, 0, 1, 0, 0, 0, 3]], #[10000000000000000000, 1000000500000000000]⟩
  accepted := ⟨[2, 0], rfl⟩
  id_eq := rfl

/-- The program computes its two constants, whatever the context. -/
theorem values_of_eval_fineProgram {context : Context} {outcome : Outcome}
    (h : fineProgram.eval parVenue.settings ⟨0, 2⟩ context .empty = .ok outcome) :
    outcome.values = [10000000000000000000, 1000000500000000000] := by
  have heval : fineProgram.eval parVenue.settings ⟨0, 2⟩ context .empty =
      .ok ⟨[10000000000000000000, 1000000500000000000], .empty, 2⟩ := rfl
  rw [heval] at h
  cases h
  rfl

/-- An order that sends a token of eighteen decimals for one of six. -/
def fineOrder : Order where
  owner := .ofNat 1
  approves := false
  program := fineProgram
  inputs := [⟨.ofNat 3, 6, 0⟩]
  outputs := [⟨.ofNat 4, 18, 0⟩]
  data := []

/-- The order is listed, and two units are there for it to send. -/
def fineBook : Book where
  vaults := Vaults.set .empty ⟨.ofNat 1, .ofNat 4, 0⟩ 2000000000000000000
  live := SortedMap.empty.insert fineOrder.hash ()
  log := []

/-- The order is taken at its only legs. -/
def fineTake : Take := ⟨fineOrder, ⟨0, 0⟩, []⟩

/-- Another account asks for two units. -/
def fineTakes : TakeRequest where
  output := .ofNat 3
  input := .ofNat 4
  minimumInput := 0
  maximumInput := 2000000000000000000
  maximumRatio := 1000000
  takes := [fineTake]

/-- The request is granted, and the fill is the last event of it. -/
theorem takeOrders_fineTakes : ∃ after before,
    fineBook.takeOrders parVenue (.ofNat 2) fineTakes =
      .ok ((2000000000000000000, 2000000), after) ∧
    after.log = fineBook.log ++
      (before ++ [.taken (.ofNat 2) fineTake 2000000000000000000 2000000]) := by
  have hlive : fineBook.isLive fineTake.order.hash = true :=
    SortedMap.contains_insert.mpr (Or.inl rfl)
  have hlegs : fineTake.order.legs fineTake.legs = .ok (⟨.ofNat 3, 6, 0⟩, ⟨.ofNat 4, 18, 0⟩) := rfl
  have hfill : (takeLive parVenue (.ofNat 2) fineTakes.maximumRatio fineTake
      ⟨fineBook.journal, fineTakes.maximumInput, 0⟩).toOption.map (fun t => (t.remaining, t.paid)) =
        some (0, 2000000) := by
    decide +kernel
  have hnamed : fineTakes.takes = [fineTake] := rfl
  have hreceived : (2000000000000000000 : Word).toNat + (0 : Word).toNat =
      fineTakes.maximumInput.toNat := rfl
  obtain ⟨journal, hnext, htakes⟩ :=
    exists_takeOrders_of_takeLive hnamed (by decide) hlive hlegs rfl rfl
    hfill hreceived (by decide)
  obtain ⟨before, sent, got, hevents, hsent, hgot⟩ :=
    (takeNext_eq_ok hnext).taken_of_remaining_ne (show (0 : Word) ≠ 2000000000000000000 by decide)
  obtain rfl : sent = 2000000000000000000 := Word.ext (by simpa [fineTakes] using hsent)
  obtain rfl : got = 2000000 := Word.ext (by simpa using hgot.symm)
  refine ⟨_, before, htakes, ?_⟩
  rw [← hevents]
  rfl

/-- So the fill is rounded down twice. -/
theorem takeOrders_rounding_fineTakes : ∃ after,
    fineBook.takeOrders parVenue (.ofNat 2) fineTakes =
      .ok ((2000000000000000000, 2000000), after) ∧
    ∃ events, after.log = fineBook.log ++ events ∧
      Posted fineBook.vaults.balance after.vaults.balance (events.flatMap Event.postings) ∧
      ∀ before account take sent got later,
        events = before ++ .taken account take sent got :: later →
        ∃ input output ratio,
          AskedPrice fineBook parVenue (.ofNat 2) before take input output ratio ∧
          (Event.taken account take sent got).postings =
            [.credit (input.key take.order.owner) got, .debit (output.key take.order.owner) sent] ∧
          ratioLoss ratio sent output.decimals.toNat input.decimals.toNat ≤
            roundingLoss ratio sent got output.decimals.toNat input.decimals.toNat ∧
          roundingLoss ratio sent got output.decimals.toNat input.decimals.toNat <
            ratioLoss ratio sent output.decimals.toNat input.decimals.toNat +
              10 ^ (18 + output.decimals.toNat) ∧
          (10 ^ output.decimals.toNat ∣ ratio.toNat * 10 ^ input.decimals.toNat →
            0 ≤ roundingLoss ratio sent got output.decimals.toNat input.decimals.toNat ∧
            roundingLoss ratio sent got output.decimals.toNat input.decimals.toNat <
              10 ^ (18 + output.decimals.toNat)) := by
  obtain ⟨after, _, htakes, _⟩ := takeOrders_fineTakes
  exact ⟨after, htakes, takeOrders_rounding htakes⟩

/-- One unit is due at half a millionth for each of two units, and is lost. -/
theorem fineTake_loses_unit : ∃ after before,
    fineBook.takeOrders parVenue (.ofNat 2) fineTakes =
      .ok ((2000000000000000000, 2000000), after) ∧
    after.log =
      fineBook.log ++ (before ++ [.taken (.ofNat 2) fineTake 2000000000000000000 2000000]) ∧
    AskedPrice fineBook parVenue (.ofNat 2) before fineTake ⟨.ofNat 3, 6, 0⟩ ⟨.ofNat 4, 18, 0⟩
      1000000500000000000 ∧
    ¬ roundingLoss 1000000500000000000 2000000000000000000 2000000 18 6 < 10 ^ (18 + 18) := by
  obtain ⟨after, before, htakes, hlog⟩ := takeOrders_fineTakes
  refine ⟨after, before, htakes, hlog, ?_, by decide +kernel⟩
  obtain ⟨events, hevents, _, hfills⟩ := takeOrders_roundedFills htakes
  obtain rfl := List.append_cancel_left (hevents.symm.trans hlog)
  obtain ⟨hasked, _, _⟩ := hfills _ _ _ _ _ _ rfl
  obtain ⟨legs, balances, asked_eq, computation, values⟩ := hasked
  have hlegs : fineTake.order.legs fineTake.legs = .ok (⟨.ofNat 3, 6, 0⟩, ⟨.ofNat 4, 18, 0⟩) := rfl
  obtain ⟨rfl, rfl⟩ := Prod.mk.inj (Except.ok.inj (legs.symm.trans hlegs))
  obtain ⟨_, hratio⟩ := List.cons.inj (values.symm.trans (values_of_eval_fineProgram computation))
  obtain rfl := List.singleton_inj.mp hratio
  exact ⟨legs, balances, asked_eq, computation, values⟩

end Book

end Bourse
