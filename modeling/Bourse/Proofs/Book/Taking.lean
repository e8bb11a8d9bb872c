import Bourse.Book.Take
import Bourse.Proofs.Book.Trade

/-!
# What a taker's request does

One order of the request either leaves everything but the log as it was, or is filled. A fill
posts the trade of the order at its chosen legs, and its event tells the order, the legs and both
amounts. So the events that a request adds to the log tell all postings and both totals of the
request.
-/

namespace Bourse

namespace Event

/-- What an event moves that tells a movement by itself. The two events of a match of orders tell
theirs only together. -/
def postings : Event → List Posting
  | .deposited sender request => [.credit (request.key sender) request.amount]
  | .withdrawn sender request amount => [.debit (request.key sender) amount]
  | .taken _ take input output => take.order.tradePostings take.legs output input
  | _ => []

/-- What a taker has received. -/
def received : Event → Nat
  | .taken _ _ input _ => input.toNat
  | _ => 0

/-- What a taker has paid. -/
def paid : Event → Nat
  | .taken _ _ _ output => output.toNat
  | _ => 0

/-- The events that a taker's request adds to the log. -/
inductive OfTaking (book : Book) (sender : Address) (request : TakeRequest) : Event → Prop
  | notListed (owner : Address) (hash : OrderHash) :
      OfTaking book sender request (.notListed sender owner hash)
  | tooExpensive (owner : Address) (hash : OrderHash) :
      OfTaking book sender request (.tooExpensive sender owner hash)
  | nothingOffered (owner : Address) (hash : OrderHash) :
      OfTaking book sender request (.nothingOffered sender owner hash)
  | settled (context : Context) : OfTaking book sender request (.settled sender context)
  /-- A filled order is one of the request, is listed, and trades the tokens of the request. -/
  | taken {take : Take} {inputLeg outputLeg : Leg} (input output : Word)
      (mem : take ∈ request.takes) (live : book.isLive take.order.hash = true)
      (legs : take.order.legs take.legs = .ok (inputLeg, outputLeg))
      (inputToken : inputLeg.token = request.output)
      (outputToken : outputLeg.token = request.input) :
      OfTaking book sender request (.taken sender take input output)

end Event

/-- Note an event on the way. -/
def Taking.note (t : Taking) (event : Event) : Taking := { t with journal := t.journal.note event }

@[simp] theorem Taking.journal_note (t : Taking) (event : Event) :
    (t.note event).journal = t.journal.note event := rfl

@[simp] theorem Taking.remaining_note (t : Taking) (event : Event) :
    (t.note event).remaining = t.remaining := rfl

@[simp] theorem Taking.paid_note (t : Taking) (event : Event) : (t.note event).paid = t.paid := rfl

namespace Book

variable {book : Book} {venue : Venue} {sender : Address} {request : TakeRequest} {take : Take}
  {t t' : Taking}

/-- What becomes of a taker's progress at one order. -/
inductive TakeStep (book : Book) (venue : Venue) (sender : Address) (request : TakeRequest)
    (take : Take) (t : Taking) : Taking → Prop
  | sated (remaining : t.remaining = 0) : TakeStep book venue sender request take t t
  | notListed (remaining : t.remaining ≠ 0) (live : book.isLive take.order.hash = false) :
      TakeStep book venue sender request take t
        (t.note (.notListed sender take.order.owner take.order.hash))
  | tooExpensive {q : Quote} (remaining : t.remaining ≠ 0)
      (live : book.isLive take.order.hash = true)
      (quote : venue.quote t.journal.vaults sender take.order take.legs sender take.signed = .ok q)
      (ratio : request.maximumRatio < q.ratio) :
      TakeStep book venue sender request take t
        (t.note (.tooExpensive sender take.order.owner take.order.hash))
  | nothingOffered {q : Quote} (remaining : t.remaining ≠ 0)
      (live : book.isLive take.order.hash = true)
      (quote : venue.quote t.journal.vaults sender take.order take.legs sender take.signed = .ok q)
      (ratio : ¬ request.maximumRatio < q.ratio) (offer : q.maxOutput = 0) :
      TakeStep book venue sender request take t
        (t.note (.nothingOffered sender take.order.owner take.order.hash))
  | filled {q : Quote} {inputLeg outputLeg : Leg} {output remaining paid : Word} {journal : Journal}
      (nonzero : t.remaining ≠ 0) (live : book.isLive take.order.hash = true)
      (legs : take.order.legs take.legs = .ok (inputLeg, outputLeg))
      (inputToken : inputLeg.token = request.output) (outputToken : outputLeg.token = request.input)
      (quote : venue.quote t.journal.vaults sender take.order take.legs sender take.signed = .ok q)
      (ratio : ¬ request.maximumRatio < q.ratio) (offer : q.maxOutput ≠ 0)
      (price : q.price (min t.remaining q.maxOutput) = .ok output)
      (rest : remaining.toNat + (min t.remaining q.maxOutput).toNat = t.remaining.toNat)
      (cost : paid.toNat = t.paid.toNat + output.toNat)
      (settle : venue.settle sender take.order q output (min t.remaining q.maxOutput) t.journal =
        .ok journal) :
      TakeStep book venue sender request take t
        ⟨journal.note (.taken sender take (min t.remaining q.maxOutput) output), remaining, paid⟩

/-- A listed order of the right tokens is taken while something is wanted. -/
theorem takeNext_eq_takeLive {input output : Leg} (hremaining : t.remaining ≠ 0)
    (hlive : book.isLive take.order.hash = true)
    (hlegs : take.order.legs take.legs = .ok (input, output))
    (hinput : input.token = request.output) (houtput : output.token = request.input) :
    book.takeNext venue sender request t take =
      takeLive venue sender request.maximumRatio take t := by
  simp only [takeNext, if_neg hremaining, hlive, hlegs, ok_bind, require_eq_ok_iff.mpr hinput,
    require_eq_ok_iff.mpr houtput]
  rfl

/-- Every answer of the loop over the orders is one of these five. -/
theorem takeNext_eq_ok (h : book.takeNext venue sender request t take = .ok t') :
    TakeStep book venue sender request take t t' := by
  simp only [takeNext] at h
  split at h
  · next hzero =>
    cases h
    exact .sated hzero
  next hremaining =>
  split at h
  · next hdead =>
    cases h
    exact .notListed hremaining (by simpa using hdead)
  next hnot =>
  have hlive : book.isLive take.order.hash = true := by simpa using hnot
  simp only [bind_eq_ok_iff] at h
  obtain ⟨⟨inputLeg, outputLeg⟩, hlegs, ⟨⟩, hin, ⟨⟩, hout, h⟩ := h
  have hinput := require_eq_ok_iff.mp hin
  have houtput := require_eq_ok_iff.mp hout
  simp only [takeLive, bind_eq_ok_iff] at h
  obtain ⟨q, hquote, h⟩ := h
  split at h
  · next hratio =>
    cases h
    exact .tooExpensive hremaining hlive hquote hratio
  next hratio =>
  split at h
  · next hnothing =>
    cases h
    exact .nothingOffered hremaining hlive hquote hratio hnothing
  next hoffer =>
  simp only [fill, bind_eq_ok_iff, mapError_eq_ok_iff, pure_eq_ok_iff] at h
  obtain ⟨output, hprice, remaining, hrest, paid, hpaid, journal, hsettle, rfl⟩ := h
  exact .filled hremaining hlive hlegs hinput houtput hquote hratio hoffer hprice
    (Arithmetic.sub_eq_ok_iff.mp hrest) (Arithmetic.add_eq_ok_iff.mp hpaid) hsettle

/-- From `t` the taker has come to `t'`, with these events. -/
structure Advance (book : Book) (sender : Address) (request : TakeRequest) (t t' : Taking)
    (events : List Event) : Prop where
  events_eq : t'.journal.events = t.journal.events ++ events
  /-- The postings are those of the events. -/
  posted : Posted t.journal.vaults.balance t'.journal.vaults.balance (events.flatMap Event.postings)
  /-- What is received no longer remains. -/
  remaining : t'.remaining.toNat + (events.map Event.received).sum = t.remaining.toNat
  paid : t'.paid.toNat = t.paid.toNat + (events.map Event.paid).sum
  ofTaking : ∀ e ∈ events, e.OfTaking book sender request

/-- Nothing has happened in no step. -/
theorem Advance.refl (t : Taking) : Advance book sender request t t [] := by
  refine ⟨?_, Posted.refl _, ?_, ?_, ?_⟩
  · rw [List.append_nil]
  · rfl
  · rfl
  · intro e he
    cases he

/-- Steps that follow each other add up. -/
theorem Advance.trans {a b c : Taking} {es fs : List Event}
    (hab : Advance book sender request a b es) (hbc : Advance book sender request b c fs) :
    Advance book sender request a c (es ++ fs) := by
  refine ⟨?_, ?_, ?_, ?_, ?_⟩
  · rw [hbc.events_eq, hab.events_eq, List.append_assoc]
  · rw [List.flatMap_append]
    exact hab.posted.trans hbc.posted
  · rw [List.map_append, List.sum_append, ← hab.remaining, ← hbc.remaining]
    omega
  · rw [List.map_append, List.sum_append, hbc.paid, hab.paid, Nat.add_assoc]
  · intro e he
    rcases List.mem_append.mp he with he | he
    · exact hab.ofTaking e he
    · exact hbc.ofTaking e he

/-- An order that is passed over only adds an event that moves nothing. -/
private theorem advance_note {e : Event} (hof : e.OfTaking book sender request)
    (hpostings : e.postings = []) (hreceived : e.received = 0) (hpaid : e.paid = 0) :
    Advance book sender request t (t.note e) [e] := by
  refine ⟨rfl, ?_, ?_, ?_, ?_⟩
  · rw [List.flatMap_singleton, hpostings]
    exact Posted.refl _
  · simp [hreceived]
  · simp [hpaid]
  · intro e' he'
    rwa [List.mem_singleton.mp he']

/-- Each order advances the taker. -/
theorem TakeStep.advance (hmem : take ∈ request.takes)
    (h : TakeStep book venue sender request take t t') :
    ∃ events, Advance book sender request t t' events := by
  cases h with
  | sated => exact ⟨[], Advance.refl t⟩
  | notListed => exact ⟨_, advance_note (.notListed _ _) rfl rfl rfl⟩
  | tooExpensive => exact ⟨_, advance_note (.tooExpensive _ _) rfl rfl rfl⟩
  | nothingOffered => exact ⟨_, advance_note (.nothingOffered _ _) rfl rfl rfl⟩
  | @filled q inputLeg outputLeg output remaining paid journal nonzero live legs inputToken
      outputToken quote ratio offer price rest cost settle =>
    obtain ⟨hevents, _, _⟩ := Venue.settle_eq_ok settle
    have hposted := Venue.settle_posted quote settle
    refine ⟨[.settled sender (q.tradeContext output (min t.remaining q.maxOutput)),
      .taken sender take (min t.remaining q.maxOutput) output], ?_, ?_, ?_, ?_, ?_⟩
    · simp [hevents]
    · simpa [Event.postings] using hposted
    · simpa [Event.received] using rest
    · simpa [Event.paid] using cost
    · intro e he
      rcases List.mem_pair.mp he with rfl | rfl
      · exact .settled _
      · exact .taken _ _ hmem live legs inputToken outputToken

/-- The orders that have been gone through have advanced the taker. -/
theorem foldlM_takeNext_advance {takes : List Take} (hmem : ∀ take ∈ takes, take ∈ request.takes)
    (h : takes.foldlM (book.takeNext venue sender request) t = .ok t') :
    ∃ events, Advance book sender request t t' events := by
  refine foldlM_eq_ok_induction (P := fun b => ∃ events, Advance book sender request t b events)
    h ⟨[], Advance.refl _⟩ ?_
  rintro b take c htake ⟨es, hes⟩ hnext
  obtain ⟨fs, hfs⟩ := (takeNext_eq_ok hnext).advance (hmem take htake)
  exact ⟨es ++ fs, hes.trans hfs⟩

/-- As the taker goes on, no more remains and no less is paid. -/
theorem totals_of_foldlM_takeNext {takes : List Take}
    (h : takes.foldlM (book.takeNext venue sender request) t = .ok t') :
    t'.remaining.toNat ≤ t.remaining.toNat ∧ t.paid.toNat ≤ t'.paid.toNat := by
  -- Which orders the request itself names plays no part in how one of them is taken.
  have hnamed : takes.foldlM (book.takeNext venue sender { request with takes }) t = .ok t' := h
  obtain ⟨_, hadvance⟩ := foldlM_takeNext_advance (fun _ => id) hnamed
  have hremaining := hadvance.remaining
  have hpaid := hadvance.paid
  omega

/-- Nothing more is taken when nothing is wanted any more. -/
theorem foldlM_takeNext_sated (hsated : t.remaining = 0) (takes : List Take) :
    takes.foldlM (book.takeNext venue sender request) t = .ok t := by
  induction takes with
  | nil => rfl
  | cons take takes ih =>
    have hnext : book.takeNext venue sender request t take = .ok t := by
      rw [takeNext, if_pos hsated]
      rfl
    rw [List.foldlM_cons, hnext]
    exact ih

/-- What a taker's request does: its events tell the movements and both totals. -/
theorem takeOrders_eq_ok {received paid : Word} {book' : Book}
    (h : book.takeOrders venue sender request = .ok ((received, paid), book')) :
    ∃ t events, Advance book sender request ⟨book.journal, request.maximumInput, 0⟩ t events ∧
      book' = book.commit t.journal ∧ received.toNat = (events.map Event.received).sum ∧
      paid.toNat = (events.map Event.paid).sum ∧ request.minimumInput ≤ received ∧
      request.takes.foldlM (book.takeNext venue sender request)
        ⟨book.journal, request.maximumInput, 0⟩ = .ok t := by
  simp only [takeOrders, bind_eq_ok_iff, mapError_eq_ok_iff, pure_eq_ok_iff, Prod.mk.injEq] at h
  obtain ⟨t, hfold, total, hsub, ⟨⟩, hmin, ⟨rfl, rfl⟩, rfl⟩ := h
  obtain ⟨events, hevents⟩ := foldlM_takeNext_advance (fun _ => id) hfold
  refine ⟨t, events, hevents, rfl, ?_, ?_, require_eq_ok_iff.mp hmin, hfold⟩
  · have hrest := Arithmetic.sub_eq_ok_iff.mp hsub
    have hremaining := hevents.remaining
    simp only at hremaining
    omega
  · simpa using hevents.paid

/-- The orders of a request are gone through, and enough is received. -/
theorem takeOrders_of_foldlM {journal : Journal} {remaining received paid : Word}
    (h : request.takes.foldlM (book.takeNext venue sender request)
      ⟨book.journal, request.maximumInput, 0⟩ = .ok ⟨journal, remaining, paid⟩)
    (hreceived : received.toNat + remaining.toNat = request.maximumInput.toNat)
    (hminimum : request.minimumInput ≤ received) :
    book.takeOrders venue sender request = .ok ((received, paid), book.commit journal) := by
  have hsub : Arithmetic.sub request.maximumInput remaining = .ok received :=
    Arithmetic.sub_eq_ok_iff.mpr hreceived
  simp only [takeOrders, h, ok_bind, hsub, ok_mapError, require_eq_ok_iff.mpr hminimum]
  rfl

/-- A request for one listed order of the right tokens is granted when this order fills it. -/
theorem exists_takeOrders_of_takeLive {input output : Leg} {remaining received paid : Word}
    (htakes : request.takes = [take]) (hwanted : request.maximumInput ≠ 0)
    (hlive : book.isLive take.order.hash = true)
    (hlegs : take.order.legs take.legs = .ok (input, output))
    (hinput : input.token = request.output) (houtput : output.token = request.input)
    (hfill : (takeLive venue sender request.maximumRatio take
      ⟨book.journal, request.maximumInput, 0⟩).toOption.map (fun t => (t.remaining, t.paid)) =
        some (remaining, paid))
    (hreceived : received.toNat + remaining.toNat = request.maximumInput.toNat)
    (hminimum : request.minimumInput ≤ received) :
    ∃ journal, book.takeNext venue sender request ⟨book.journal, request.maximumInput, 0⟩ take =
        .ok ⟨journal, remaining, paid⟩ ∧
      book.takeOrders venue sender request = .ok ((received, paid), book.commit journal) := by
  obtain ⟨⟨journal, rest, cost⟩, htake, hamounts⟩ := exists_of_toOption_map_eq_some hfill
  obtain ⟨rfl, rfl⟩ : rest = remaining ∧ cost = paid := Prod.mk.inj hamounts
  have hnext : book.takeNext venue sender request ⟨book.journal, request.maximumInput, 0⟩ take =
      .ok ⟨journal, rest, cost⟩ := by
    rw [takeNext_eq_takeLive hwanted hlive hlegs hinput houtput, htake]
  have hfold : request.takes.foldlM (book.takeNext venue sender request)
      ⟨book.journal, request.maximumInput, 0⟩ = .ok ⟨journal, rest, cost⟩ := by
    rw [htakes, List.foldlM_cons, hnext]
    rfl
  exact ⟨journal, hnext, takeOrders_of_foldlM hfold hreceived hminimum⟩

end Book

end Bourse
