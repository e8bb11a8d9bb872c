import Bourse.Proofs.Book.Performed
import Bourse.Proofs.Book.Solvency
import Bourse.Proofs.Context.Building

/-!
# Approval of trades

The program of an order computes its offer in one context and approves the trade in another one,
which is the context that the log shows. The two are told here column by column, from the order
and the balances when the offer is computed. Both are the same but for the column of the offer,
which is empty while it is computed, and the two cells that show what moves. A trade that is not
approved refuses the whole request.
-/

namespace Bourse

namespace Context

/-- Setting a cell changes its column only. -/
theorem columns_setCell {c : Context} {column : Nat} {words : List Word}
    (h : c.columns[column]? = some words) (row : Nat) (w : Word) :
    (c.setCell column row w).columns = c.columns.set column (words.set row w) := by
  unfold setCell
  split
  · next hnone =>
    rw [column?, h] at hnone
    cases hnone
  · next found hfound =>
    rw [column?, h] at hfound
    cases hfound
    rfl

end Context

/-- An order that is to trade: on whose call, at which of its legs, with whom, and with which rows
signed by others. -/
structure Trade where
  sender : Address
  order : Order
  choice : LegChoice
  counterparty : Address
  signed : List SignedRow

namespace Trade

/-- The columns that the program of the order sees: who calls which book; the order, its owner and
the counterparty; the offer; for either vault the token, its decimals, the number, the balance and
the amount that moves; and what others have signed. -/
def columns (venue : Venue) (balance : VaultKey → Word) (trade : Trade) (input output : Leg)
    (offer : List Word) (received sent : Word) : List (List Word) :=
  [trade.sender.toWord, venue.address.toWord] ::
    [trade.order.hash.toWord, trade.order.owner.toWord, trade.counterparty.toWord] ::
    offer ::
    [input.token.toWord, Word.wrap input.decimals.toNat, input.vault,
      balance (input.key trade.order.owner), received] ::
    [output.token.toWord, Word.wrap output.decimals.toNat, output.vault,
      balance (output.key trade.order.owner), sent] ::
    Context.signedColumns trade.signed

/-- Over these balances the first source of the program computes the offer and leaves `scratch`.
The context of the trade is the one of the computation, with the offer and the amounts that move
in it. -/
inductive Published (venue : Venue) (balance : VaultKey → Word) (trade : Trade) (offer : Offer)
    (received sent : Word) : Context → Scratch → Prop
  | intro {input output : Leg} {asked context : Context} {outcome : Outcome}
      {maxOutput ratio : Word} (legs : trade.order.legs trade.choice = .ok (input, output))
      (accepted : ∀ row ∈ trade.signed, row.accepted venue.verify = true)
      (asked_eq : Context.ofColumns (trade.columns venue balance input output [] 0 0) = .ok asked)
      (computation : trade.order.program.eval venue.settings ⟨0, 2⟩ asked .empty = .ok outcome)
      (values : outcome.values = [maxOutput, ratio])
      (offer_eq : Offer.ofDecimals maxOutput ratio output.decimals input.decimals
        (balance (output.key trade.order.owner)) = .ok offer)
      (context_eq : Context.ofColumns
        (trade.columns venue balance input output [offer.maxOutput, offer.ratio] received sent) =
          .ok context) :
      Published venue balance trade offer received sent context outcome.scratch

/-- The order does not approve its trades, or the second source of its program succeeds. -/
def Approved (venue : Venue) (trade : Trade) (context : Context) (scratch : Scratch) : Prop :=
  trade.order.approves = true →
    ∃ outcome, trade.order.program.eval venue.settings ⟨1, 0⟩ context scratch = .ok outcome

/-- The order approves its trades, and the second source of its program fails. -/
def Disapproved (venue : Venue) (trade : Trade) (context : Context) (scratch : Scratch)
    (cause : EvalError) : Prop :=
  trade.order.approves = true ∧
    trade.order.program.eval venue.settings ⟨1, 0⟩ context scratch = .error cause

variable {venue : Venue} {vaults : Overlay} {trade : Trade} {offer : Offer} {received sent : Word}
  {context : Context} {scratch : Scratch}

/-- The context of a quote, with the amounts that move in it, has the columns of the trade. -/
theorem columns_tradeContext {q : Quote} {balance : VaultKey → Word} {input output : Leg}
    {asked : Context} (hasked : asked.columns = trade.columns venue balance input output [] 0 0)
    (hcontext : q.context.columns = asked.columns.set Quote.offerColumn [q.maxOutput, q.ratio]) :
    (q.tradeContext received sent).columns =
      trade.columns venue balance input output [q.maxOutput, q.ratio] received sent := by
  have hquoted : q.context.columns =
      trade.columns venue balance input output [q.maxOutput, q.ratio] 0 0 := by
    rw [hcontext, hasked]
    rfl
  have hreceived : (q.context.setCell Quote.inputColumn Quote.amountRow received).columns =
      trade.columns venue balance input output [q.maxOutput, q.ratio] received 0 := by
    rw [Context.columns_setCell (by rw [hquoted]; rfl), hquoted]
    rfl
  rw [Quote.tradeContext, Context.columns_setCell (by rw [hreceived]; rfl), hreceived]
  rfl

/-- The offer is computed in the columns of the trade without an offer and without amounts. -/
theorem offerContext_eq_ok_iff {input output : Leg} {asked : Context} :
    venue.offerContext vaults trade.sender trade.order input output trade.counterparty
        trade.signed = .ok asked ↔
      (∀ row ∈ trade.signed, row.accepted venue.verify = true) ∧
      Context.ofColumns (trade.columns venue vaults.balance input output [] 0 0) = .ok asked :=
  Context.build_eq_ok_iff

/-- What is published of a trade is what its quote tells. -/
theorem published_iff :
    trade.Published venue vaults.balance offer received sent context scratch ↔
      ∃ q, venue.quote vaults trade.sender trade.order trade.choice trade.counterparty
          trade.signed = .ok q ∧
        q.toOffer = offer ∧ q.tradeContext received sent = context ∧ q.scratch = scratch := by
  constructor
  · rintro ⟨hlegs, haccepted, hasked, heval, hvalues, hoffer, hcontext⟩
    next input output asked outcome maxOutput ratio =>
    have hbuilt := offerContext_eq_ok_iff.mpr ⟨haccepted, hasked⟩
    refine ⟨⟨offer, input.key trade.order.owner, output.key trade.order.owner,
      asked.setColumn Quote.offerColumn [offer.maxOutput, offer.ratio] (Nat.le_of_ble_eq_true rfl),
      outcome.scratch⟩, ?_, rfl, ?_, rfl⟩
    · simp only [Venue.quote, hlegs, hbuilt, heval, hvalues, hoffer, ok_bind, ok_mapError]
      rfl
    · apply Context.eq_of_columns_eq
      rw [Context.ofColumns_eq_ok_iff.mp hcontext]
      exact columns_tradeContext (Context.ofColumns_eq_ok_iff.mp hasked) rfl
  · rintro ⟨q, hquote, rfl, rfl, rfl⟩
    obtain ⟨input, output, asked, outcome, maxOutput, ratio, hlegs, hasked, heval, hvalues, hoffer,
      _, _, hcontext, hscratch⟩ := Venue.quote_eq_ok hquote
    obtain ⟨haccepted, hcolumns⟩ := offerContext_eq_ok_iff.mp hasked
    rw [hscratch]
    refine .intro hlegs haccepted hcolumns heval hvalues hoffer ?_
    rw [Context.ofColumns_eq_ok_iff]
    apply columns_tradeContext (Context.ofColumns_eq_ok_iff.mp hcolumns)
    rw [hcontext]
    rfl

/-- Every quote publishes the trade it is made for. -/
theorem published_of_quote {q : Quote}
    (h : venue.quote vaults trade.sender trade.order trade.choice trade.counterparty trade.signed =
      .ok q) :
    trade.Published venue vaults.balance q.toOffer received sent (q.tradeContext received sent)
      q.scratch :=
  published_iff.mpr ⟨q, h, rfl, rfl, rfl⟩

/-- A settlement goes on when the trade is approved. -/
theorem approve_eq_ok_iff {q : Quote} :
    venue.approve trade.order q context = .ok () ↔ trade.Approved venue context q.scratch := by
  rw [Venue.approve, Approved]
  cases happroves : trade.order.approves with
  | false => exact iff_of_true rfl (by simp)
  | true =>
    simp only [if_true, forall_const, discard, Functor.discard]
    cases trade.order.program.eval venue.settings ⟨1, 0⟩ context q.scratch with
    | error cause => exact iff_of_false (by rintro ⟨⟩) (by rintro ⟨_, ⟨⟩⟩)
    | ok outcome => exact iff_of_true rfl ⟨outcome, rfl⟩

/-- A settlement fails when the trade is disapproved. -/
theorem Disapproved.approve_eq {q : Quote} {cause : EvalError}
    (h : trade.Disapproved venue context q.scratch cause) :
    venue.approve trade.order q context = .error cause := by
  obtain ⟨happroves, heval⟩ := h
  rw [Venue.approve, if_pos happroves, heval]
  rfl

end Trade

/-- The request is refused because a program has disapproved of a trade, or because an amount has
been too great before it came to that. -/
def RefusedFor {α : Type} (cause : EvalError) (x : Except Refusal α) : Prop :=
  x = .error (.eval cause) ∨ x = .error (.arithmetic .overflow)

namespace RefusedFor

variable {α β : Type} {cause : EvalError}

/-- What comes after a refusal does not matter. -/
theorem bind {x : Except Refusal α} (h : RefusedFor cause x) (f : α → Except Refusal β) :
    RefusedFor cause (x >>= f) := by
  rcases h with h | h
  · rw [h]
    exact Or.inl rfl
  · rw [h]
    exact Or.inr rfl

/-- What comes before a refusal may fail on an amount. -/
theorem after {x : Except Refusal α} {f : α → Except Refusal β}
    (hx : FailsOnly (· = .arithmetic .overflow) x) (hf : ∀ a, x = .ok a → RefusedFor cause (f a)) :
    RefusedFor cause (x >>= f) := by
  cases h : x with
  | error e =>
    rw [hx e h]
    exact Or.inr rfl
  | ok a => exact hf a h

/-- An amount before a refusal may be too great. -/
theorem after_amount {x : Except ArithmeticError α} {f : α → Except Refusal β}
    (hx : FailsOnly (· = .overflow) x) (hf : ∀ a, x = .ok a → RefusedFor cause (f a)) :
    RefusedFor cause (x.mapError .arithmetic >>= f) := by
  refine after (.mapError fun e he => ?_) fun a ha => hf a (mapError_eq_ok_iff.mp ha)
  rw [hx e he]

end RefusedFor

/-- A trade that is disapproved is not settled. -/
theorem Venue.settle_refusedFor {venue : Venue} {sender : Address} {order : Order} {q : Quote}
    {received sent : Word} {j : Journal} {cause : EvalError} (hcovers : q.Covers j received sent)
    (happrove : venue.approve order q (q.tradeContext received sent) = .error cause) :
    RefusedFor cause (venue.settle sender order q received sent j) := by
  refine .after_amount Journal.credit_failsOnly fun credited hcredit => ?_
  refine .after_amount (Journal.debit_failsOnly (hcovers credited hcredit) _) fun debited _ => ?_
  simp only [happrove]
  exact Or.inl rfl

/-- A trade that is approved fails only on an amount that is too great. -/
theorem Venue.settle_overflowOnly {venue : Venue} {sender : Address} {order : Order} {q : Quote}
    {received sent : Word} {j : Journal} (hcovers : q.Covers j received sent)
    (happrove : venue.approve order q (q.tradeContext received sent) = .ok ()) :
    FailsOnly (· = .arithmetic .overflow) (venue.settle sender order q received sent j) := by
  have hoverflow : ∀ {α : Type} {x : Except ArithmeticError α}, FailsOnly (· = .overflow) x →
      FailsOnly (· = .arithmetic .overflow) (x.mapError Refusal.arithmetic) :=
    fun h => .mapError fun e he => congrArg Refusal.arithmetic (h e he)
  refine (hoverflow Journal.credit_failsOnly).bind fun credited hcredit => ?_
  have hcovered := hcovers credited (mapError_eq_ok_iff.mp hcredit)
  refine (hoverflow (Journal.debit_failsOnly hcovered _)).bind fun debited _ => ?_
  simp only [happrove]
  exact .ok _

/-- An order that is taken trades with the taker. -/
def Take.trade (take : Take) (sender : Address) : Trade :=
  ⟨sender, take.order, take.legs, sender, take.signed⟩

namespace Book

section

variable {book : Book} {venue : Venue} {sender : Address} {request : TakeRequest} {take : Take}
  {t t' : Taking} {earlier events : List Event} {context : Context} {scratch : Scratch}
  {offer : Offer} {received sent : Word}

/-- After the events before it, the fill is what the order offers over the balances that they
leave, at most what they leave to be received. It was published in the context and approved. -/
inductive ApprovedFill (book : Book) (venue : Venue) (sender : Address) (request : TakeRequest)
    (earlier : List Event) (take : Take) (context : Context) (sent received : Word) : Prop
  | intro {balance : VaultKey → Word} {remaining : Word} {offer : Offer} {scratch : Scratch}
      (mem : take ∈ request.takes)
      (balances : Posted book.vaults.balance balance (earlier.flatMap Event.postings))
      (rest : remaining.toNat + (earlier.map Event.received).sum = request.maximumInput.toNat)
      (sent_eq : sent = min remaining offer.maxOutput) (price : offer.price sent = .ok received)
      (published :
        (take.trade sender).Published venue balance offer received sent context scratch)
      (approved : (take.trade sender).Approved venue context scratch) :
      ApprovedFill book venue sender request earlier take context sent received

/-- Right before each fill that the events tell comes the context in which it was approved. -/
def FillsApproved (book : Book) (venue : Venue) (sender : Address) (request : TakeRequest)
    (events : List Event) : Prop :=
  ∀ before account take sent received later,
    events = before ++ .taken account take sent received :: later →
      account = sender ∧ ∃ earlier context, before = earlier ++ [.settled sender context] ∧
        ApprovedFill book venue sender request earlier take context sent received

/-- The next event is no fill, or an approved one. -/
theorem FillsApproved.concat {e : Event} (h : FillsApproved book venue sender request events)
    (hnext : ∀ account take sent received, e = .taken account take sent received →
      account = sender ∧ ∃ earlier context, events = earlier ++ [.settled sender context] ∧
        ApprovedFill book venue sender request earlier take context sent received) :
    FillsApproved book venue sender request (events ++ [e]) := by
  intro before account take sent received later hsplit
  rcases List.eq_nil_or_concat later with rfl | ⟨later, last, rfl⟩
  · obtain ⟨rfl, hlast⟩ := List.append_inj' hsplit rfl
    exact hnext _ _ _ _ (List.singleton_inj.mp hlast)
  · rw [List.concat_eq_append, ← List.cons_append, ← List.append_assoc] at hsplit
    obtain ⟨hevents, _⟩ := List.append_inj' hsplit rfl
    exact h _ _ _ _ _ _ hevents

/-- What a taker has come to, starting from nothing: the events tell how far. -/
abbrev Reached (book : Book) (sender : Address) (request : TakeRequest) (t : Taking) : Prop :=
  Advance book sender request ⟨book.journal, request.maximumInput, 0⟩ t t.journal.events

/-- Each order adds no fill but an approved one. -/
theorem TakeStep.fillsApproved (hmem : take ∈ request.takes)
    (hstep : TakeStep book venue sender request take t t')
    (hreached : Reached book sender request t)
    (h : FillsApproved book venue sender request t.journal.events) :
    FillsApproved book venue sender request t'.journal.events := by
  cases hstep with
  | sated => exact h
  | notListed | tooExpensive | nothingOffered => exact h.concat (by rintro _ _ _ _ ⟨⟩)
  | @filled q inputLeg outputLeg output remaining paid journal nonzero live legs inputToken
      outputToken quote ratio offer price rest cost settle =>
    obtain ⟨hevents, _, happroved⟩ := Venue.settle_eq_ok settle
    rw [Journal.events_note, hevents]
    refine (h.concat (by rintro _ _ _ _ ⟨⟩)).concat ?_
    rintro _ _ _ _ ⟨⟩
    refine ⟨rfl, _, _, rfl, ?_⟩
    exact .intro hmem hreached.posted hreached.remaining rfl price
      (Trade.published_of_quote quote) (Trade.approve_eq_ok_iff.mp happroved)

/-- The events of a request tell no fill but approved ones. -/
theorem fillsApproved_of_foldlM
    (h : request.takes.foldlM (book.takeNext venue sender request)
      ⟨book.journal, request.maximumInput, 0⟩ = .ok t) :
    Reached book sender request t ∧ FillsApproved book venue sender request t.journal.events := by
  refine foldlM_eq_ok_induction (P := fun t => Reached book sender request t ∧
    FillsApproved book venue sender request t.journal.events) h ⟨Advance.refl _, ?_⟩ ?_
  · intro before account take sent received later hsplit
    cases before <;> cases hsplit
  · rintro b take c hmem ⟨hreached, hfills⟩ hnext
    have hstep := takeNext_eq_ok hnext
    obtain ⟨fs, hadvance⟩ := hstep.advance hmem
    refine ⟨?_, hstep.fillsApproved hmem hreached hfills⟩
    rw [Reached, hadvance.events_eq]
    exact hreached.trans hadvance

/-- The order is the next one that is to be filled, and offers this. -/
structure Due (book : Book) (request : TakeRequest) (take : Take) (t : Taking) (offer : Offer)
    (received sent : Word) : Prop where
  remaining : t.remaining ≠ 0
  live : book.isLive take.order.hash = true
  tokens : ∀ input output, take.order.legs take.legs = .ok (input, output) →
    input.token = request.output ∧ output.token = request.input
  ratio : ¬ request.maximumRatio < offer.ratio
  offers : offer.maxOutput ≠ 0
  sent_eq : sent = min t.remaining offer.maxOutput
  price : offer.price sent = .ok received

/-- An order that is to be filled but disapproves of it refuses the request. -/
theorem takeNext_refusedFor {cause : EvalError} (hdue : Due book request take t offer received sent)
    (hpublished : (take.trade sender).Published venue t.journal.vaults.balance offer received sent
      context scratch)
    (hdisapproved : (take.trade sender).Disapproved venue context scratch cause) :
    RefusedFor cause (book.takeNext venue sender request t take) := by
  obtain ⟨q, hquote, rfl, rfl, rfl⟩ := Trade.published_iff.mp hpublished
  obtain ⟨input, output, _, _, _, _, hlegs, _⟩ := Venue.quote_eq_ok hquote
  obtain ⟨hinput, houtput⟩ := hdue.tokens input output hlegs
  obtain rfl := hdue.sent_eq
  have hfill : RefusedFor cause (fill venue sender take q t) := by
    have hless := Word.min_le_left t.remaining q.maxOutput
    refine .after_amount (q.price_failsOnly _) fun output houtput => ?_
    rw [hdue.price] at houtput
    cases houtput
    refine .after_amount (Arithmetic.sub_failsOnly hless _) fun _ _ => ?_
    refine .after_amount (Arithmetic.fit_failsOnly _) fun _ _ => ?_
    exact (Venue.settle_refusedFor (covers_fill hquote received) hdisapproved.approve_eq).bind _
  have hnext : book.takeNext venue sender request t take = fill venue sender take q t := by
    have hquoted : venue.quote t.journal.vaults sender take.order take.legs sender take.signed =
        .ok q :=
      hquote
    rw [takeNext_eq_takeLive hdue.remaining hdue.live hlegs hinput houtput]
    simp only [takeLive, hquoted, ok_bind, if_neg hdue.ratio, if_neg hdue.offers]
  rw [hnext]
  exact hfill

/-- A taker's request is refused with the first of its orders that is. -/
theorem takeOrders_refusedFor {cause : EvalError} {done rest : List Take}
    (htakes : request.takes = done ++ take :: rest)
    (hdone : done.foldlM (book.takeNext venue sender request)
      ⟨book.journal, request.maximumInput, 0⟩ = .ok t)
    (h : RefusedFor cause (book.takeNext venue sender request t take)) :
    RefusedFor cause (book.takeOrders venue sender request) := by
  have hfold : RefusedFor cause (request.takes.foldlM (book.takeNext venue sender request)
      ⟨book.journal, request.maximumInput, 0⟩) := by
    rw [htakes, foldlM_append_cons_of_ok hdone]
    exact h.bind _
  exact hfold.bind _

end

end Book

/-- The first of two matched orders trades with the owner of the second. -/
def ClearRequest.first (request : ClearRequest) (sender : Address) : Trade :=
  ⟨sender, request.a, request.terms.a, request.b.owner, request.bSigned⟩

/-- The second of two matched orders trades with the owner of the first. -/
def ClearRequest.second (request : ClearRequest) (sender : Address) : Trade :=
  ⟨sender, request.b, request.terms.b, request.a.owner, request.aSigned⟩

namespace Book

section

variable {book : Book} {venue : Venue} {sender : Address} {request : ClearRequest}
  {aInput aOutput bInput bOutput : Leg} {p q : Quote} {crossing : Crossing} {cause : EvalError}

/-- Before anything happens a journal holds the balances of the book. -/
theorem balance_journal (book : Book) : book.journal.vaults.balance = book.vaults.balance := by
  unfold journal
  exact funext fun key => Overlay.balance_on book.vaults key

/-- Both orders of a match are quoted over the balances before it. -/
theorem Matched.published
    (h : Matched book venue sender request aInput aOutput bInput bOutput p q crossing) :
    (request.first sender).Published venue book.vaults.balance p.toOffer crossing.aInput
      crossing.aOutput (p.tradeContext crossing.aInput crossing.aOutput) p.scratch ∧
    (request.second sender).Published venue book.vaults.balance q.toOffer crossing.bInput
      crossing.bOutput (q.tradeContext crossing.bInput crossing.bOutput) q.scratch := by
  rw [← balance_journal]
  exact ⟨Trade.published_of_quote h.aQuote, Trade.published_of_quote h.bQuote⟩

/-- A match that the first order disapproves of is refused. -/
theorem Matched.clear_refusedFor_first
    (h : Matched book venue sender request aInput aOutput bInput bOutput p q crossing)
    (hfirst : (request.first sender).Disapproved venue
      (p.tradeContext crossing.aInput crossing.aOutput) p.scratch cause) :
    RefusedFor cause (book.clear venue sender request) := by
  rw [h.clear_eq]
  exact (Venue.settle_refusedFor (h.covers_first _) hfirst.approve_eq).bind _

/-- A match that only the second order disapproves of is refused as well. -/
theorem Matched.clear_refusedFor_second
    (h : Matched book venue sender request aInput aOutput bInput bOutput p q crossing)
    (hfirst : (request.first sender).Approved venue
      (p.tradeContext crossing.aInput crossing.aOutput) p.scratch)
    (hsecond : (request.second sender).Disapproved venue
      (q.tradeContext crossing.bInput crossing.bOutput) q.scratch cause) :
    RefusedFor cause (book.clear venue sender request) := by
  rw [h.clear_eq]
  have happrove := Trade.approve_eq_ok_iff.mpr hfirst
  refine .after (Venue.settle_overflowOnly (h.covers_first _) happrove) fun j hsettled => ?_
  exact (Venue.settle_refusedFor (h.covers_second hsettled) hsecond.approve_eq).bind _

end

/-- Every fill of a taker's request and both trades of a match are published in the context in
which the offer was computed, with the offer and the amounts that move in it, and are approved in
that context with the scratch values that the computation has left. Whenever the program of an
order disapproves of such a trade, the whole request is refused. -/
theorem fills_approved (book : Book) (venue : Venue) (sender : Address) :
    (∀ request received paid after,
      book.takeOrders venue sender request = .ok ((received, paid), after) →
      ∃ events, after.log = book.log ++ events ∧
        Posted book.vaults.balance after.vaults.balance (events.flatMap Event.postings) ∧
        received.toNat = (events.map Event.received).sum ∧
        FillsApproved book venue sender request events) ∧
    (∀ (request : TakeRequest) done take rest t offer received sent context scratch cause,
      request.takes = done ++ take :: rest →
      done.foldlM (book.takeNext venue sender request) ⟨book.journal, request.maximumInput, 0⟩ =
        .ok t →
      Due book request take t offer received sent →
      (take.trade sender).Published venue t.journal.vaults.balance offer received sent context
        scratch →
      (take.trade sender).Disapproved venue context scratch cause →
      RefusedFor cause (book.takeOrders venue sender request)) ∧
    (∀ request crossing after, book.clear venue sender request = .ok (crossing, after) →
      ∃ aInput aOutput bInput bOutput p q,
        Matched book venue sender request aInput aOutput bInput bOutput p q crossing ∧
        after.log = book.log ++ [.matching sender request.a request.b request.terms,
          .settled sender (p.tradeContext crossing.aInput crossing.aOutput),
          .settled sender (q.tradeContext crossing.bInput crossing.bOutput),
          .cleared sender crossing] ∧
        Posted book.vaults.balance after.vaults.balance
          (request.terms.postings sender request.a request.b crossing) ∧
        (request.first sender).Approved venue
          (p.tradeContext crossing.aInput crossing.aOutput) p.scratch ∧
        (request.second sender).Approved venue
          (q.tradeContext crossing.bInput crossing.bOutput) q.scratch) ∧
    ∀ request aInput aOutput bInput bOutput p q crossing,
      Matched book venue sender request aInput aOutput bInput bOutput p q crossing →
      ((request.first sender).Published venue book.vaults.balance p.toOffer crossing.aInput
          crossing.aOutput (p.tradeContext crossing.aInput crossing.aOutput) p.scratch ∧
        (request.second sender).Published venue book.vaults.balance q.toOffer crossing.bInput
          crossing.bOutput (q.tradeContext crossing.bInput crossing.bOutput) q.scratch) ∧
      (∀ cause, (request.first sender).Disapproved venue
          (p.tradeContext crossing.aInput crossing.aOutput) p.scratch cause →
        RefusedFor cause (book.clear venue sender request)) ∧
      ∀ cause, (request.first sender).Approved venue
          (p.tradeContext crossing.aInput crossing.aOutput) p.scratch →
        (request.second sender).Disapproved venue
          (q.tradeContext crossing.bInput crossing.bOutput) q.scratch cause →
        RefusedFor cause (book.clear venue sender request) := by
  refine ⟨?_, ?_, ?_, ?_⟩
  · intro request received paid after htake
    obtain ⟨t, events, hadvance, rfl, htotal, _, _, hfold⟩ := takeOrders_eq_ok htake
    obtain ⟨_, hfills⟩ := fillsApproved_of_foldlM hfold
    obtain ⟨_, hlog, hposted⟩ := extends_commit hadvance.events_eq hadvance.posted
    have hevents : t.journal.events = events := hadvance.events_eq
    exact ⟨events, hlog, hposted, htotal, hevents ▸ hfills⟩
  · intro request done take rest t offer received sent context scratch cause htakes hdone hdue
      hpublished hdisapproved
    exact takeOrders_refusedFor htakes hdone (takeNext_refusedFor hdue hpublished hdisapproved)
  · intro request crossing after hclear
    obtain ⟨aInput, aOutput, bInput, bOutput, p, q, journal, hstep, rfl⟩ := clear_eq_ok hclear
    obtain ⟨_, hlog, hposted⟩ := extends_commit hstep.events hstep.posted
    exact ⟨aInput, aOutput, bInput, bOutput, p, q, hstep.toMatched, hlog, hposted,
      Trade.approve_eq_ok_iff.mp hstep.aApproved, Trade.approve_eq_ok_iff.mp hstep.bApproved⟩
  · intro request aInput aOutput bInput bOutput p q crossing hmatched
    exact ⟨hmatched.published, fun _ => hmatched.clear_refusedFor_first,
      fun _ => hmatched.clear_refusedFor_second⟩

/-- The second order is taken at its only legs. -/
def halfTake : Take := ⟨halfOrder, ⟨0, 0⟩, []⟩

/-- No more than so much is to be received from the second order. -/
def halfTakes (most : Word) : TakeRequest where
  output := .ofNat 4
  input := .ofNat 3
  minimumInput := 0
  maximumInput := most
  maximumRatio := 1000000000000000000
  takes := [halfTake]

/-- All that the order offers is bought for three units, seven halves being rounded down. -/
theorem takeOrders_halfTakes : ∃ after,
    facingBook.takeOrders parVenue (.ofNat 2) (halfTakes 100) = .ok ((7, 3), after) := by
  have hnamed : (halfTakes 100).takes = [halfTake] := rfl
  have hlegs : halfTake.order.legs halfTake.legs = .ok (⟨.ofNat 4, 18, 0⟩, ⟨.ofNat 3, 18, 0⟩) := rfl
  have hfill : (takeLive parVenue (.ofNat 2) (halfTakes 100).maximumRatio halfTake
      ⟨facingBook.journal, (halfTakes 100).maximumInput, 0⟩).toOption.map
        (fun t => (t.remaining, t.paid)) = some (93, 3) := by
    decide +kernel
  have hreceived : (7 : Word).toNat + (93 : Word).toNat = (halfTakes 100).maximumInput.toNat := rfl
  obtain ⟨journal, _, htakes⟩ :=
    exists_takeOrders_of_takeLive hnamed (by decide) isLive_facingBook.2
    hlegs rfl rfl hfill hreceived (by decide)
  exact ⟨_, htakes⟩

/-- Half a unit is rounded down to nothing, and for nothing the order does not approve of a
trade. -/
theorem disapproved_halfTakes : ∃ q : Quote,
    parVenue.quote facingBook.journal.vaults (.ofNat 2) halfOrder ⟨0, 0⟩ (.ofNat 2) [] = .ok q ∧
    q.toOffer = ⟨7, 500000000000000000⟩ ∧
    halfProgram.eval parVenue.settings ⟨1, 0⟩ (q.tradeContext 0 1) q.scratch =
      .error (.fault 1 4 (.ensureFailed 0)) := by
  have hquote : (parVenue.quote facingBook.journal.vaults (.ofNat 2) halfOrder ⟨0, 0⟩ (.ofNat 2)
      []).toOption.map (fun q => (q.toOffer,
        match halfProgram.eval parVenue.settings ⟨1, 0⟩ (q.tradeContext 0 1) q.scratch with
        | .ok _ => none
        | .error cause => some cause)) =
      some (⟨7, 500000000000000000⟩, some (.fault 1 4 (.ensureFailed 0))) := by
    decide +kernel
  obtain ⟨q, hq, hvalues⟩ := exists_of_toOption_map_eq_some hquote
  obtain ⟨hoffer, hcause⟩ := Prod.mk.inj hvalues
  refine ⟨q, hq, hoffer, ?_⟩
  split at hcause
  · cases hcause
  · next cause heval => rw [heval, Option.some.inj hcause]

/-- The second order approves of a trade in which it receives three units and of a match in which it
receives two; one in which it receives nothing is refused. -/
theorem fills_approved_facing :
    (∃ after events,
      facingBook.takeOrders parVenue (.ofNat 2) (halfTakes 100) = .ok ((7, 3), after) ∧
      after.log = facingBook.log ++ events ∧
      Posted facingBook.vaults.balance after.vaults.balance (events.flatMap Event.postings) ∧
      (7 : Word).toNat = (events.map Event.received).sum ∧
      FillsApproved facingBook parVenue (.ofNat 2) (halfTakes 100) events) ∧
    (∃ q : Quote, Due facingBook (halfTakes 1) halfTake ⟨facingBook.journal, 1, 0⟩ q.toOffer 0 1 ∧
      (halfTake.trade (.ofNat 2)).Published parVenue facingBook.vaults.balance q.toOffer 0 1
        (q.tradeContext 0 1) q.scratch ∧
      (halfTake.trade (.ofNat 2)).Disapproved parVenue (q.tradeContext 0 1) q.scratch
        (.fault 1 4 (.ensureFailed 0)) ∧
      RefusedFor (.fault 1 4 (.ensureFailed 0))
        (facingBook.takeOrders parVenue (.ofNat 2) (halfTakes 1))) ∧
    ∃ after aInput aOutput bInput bOutput p q,
      facingBook.clear parVenue (.ofNat 2) facingRequest = .ok (⟨3, 5, 3, 2⟩, after) ∧
      Matched facingBook parVenue (.ofNat 2) facingRequest aInput aOutput bInput bOutput p q
        ⟨3, 5, 3, 2⟩ ∧
      after.log = facingBook.log ++ [.matching (.ofNat 2) parOrder halfOrder facingRequest.terms,
        .settled (.ofNat 2) (p.tradeContext 3 3), .settled (.ofNat 2) (q.tradeContext 2 5),
        .cleared (.ofNat 2) ⟨3, 5, 3, 2⟩] ∧
      (facingRequest.second (.ofNat 2)).Published parVenue facingBook.vaults.balance q.toOffer 2 5
        (q.tradeContext 2 5) q.scratch ∧
      (facingRequest.second (.ofNat 2)).Approved parVenue (q.tradeContext 2 5) q.scratch := by
  obtain ⟨htaken, hdisapproved, hcleared, hmatched⟩ := fills_approved facingBook parVenue (.ofNat 2)
  refine ⟨?_, ?_, ?_⟩
  · obtain ⟨after, htake⟩ := takeOrders_halfTakes
    obtain ⟨events, hlog, hposted, htotal, hfills⟩ := htaken _ _ _ _ htake
    exact ⟨after, events, htake, hlog, hposted, htotal, hfills⟩
  · obtain ⟨q, hquote, hoffer, heval⟩ := disapproved_halfTakes
    have hdue : Due facingBook (halfTakes 1) halfTake ⟨facingBook.journal, 1, 0⟩ q.toOffer 0 1 := by
      rw [hoffer]
      refine ⟨by decide, isLive_facingBook.2, ?_, by decide, by decide, by decide, rfl⟩
      rintro _ _ ⟨⟩
      exact ⟨rfl, rfl⟩
    have hpublished : (halfTake.trade (.ofNat 2)).Published parVenue
        facingBook.journal.vaults.balance q.toOffer 0 1 (q.tradeContext 0 1) q.scratch :=
      Trade.published_of_quote hquote
    have hdisapproval : (halfTake.trade (.ofNat 2)).Disapproved parVenue (q.tradeContext 0 1)
        q.scratch (.fault 1 4 (.ensureFailed 0)) :=
      ⟨rfl, heval⟩
    have hrefused := hdisapproved (halfTakes 1) [] halfTake [] ⟨facingBook.journal, 1, 0⟩ q.toOffer
      0 1 _ _ _ rfl rfl hdue hpublished hdisapproval
    rw [balance_journal] at hpublished
    exact ⟨q, hdue, hpublished, hdisapproval, hrefused⟩
  · obtain ⟨after, hclear⟩ := clear_facingRequest
    obtain ⟨aInput, aOutput, bInput, bOutput, p, q, hpair, hlog, _, _, happroved⟩ :=
      hcleared _ _ _ hclear
    obtain ⟨⟨_, hpublished⟩, _⟩ := hmatched _ _ _ _ _ _ _ _ hpair
    exact ⟨after, aInput, aOutput, bInput, bOutput, p, q, hclear, hpair, hlog, hpublished,
      happroved⟩

end Book

end Bourse
