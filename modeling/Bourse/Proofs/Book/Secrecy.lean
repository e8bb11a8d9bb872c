import Bourse.Proofs.Book.Approval
import Bourse.Proofs.Book.Authorization
import Bourse.Proofs.Book.Refusals
import Bourse.Proofs.Program.Columns

/-!
# Offers that are computed in the dark

While the program of an order computes the offer, the column that will show the offer is there but
has no cells. A program that looks at it, wherever in its code, faults at the latest there, so the
order cannot be quoted and every request that comes to its quote is refused. No run of a book has
such an order in its log as one that has traded.
-/

namespace Bourse

/-- The program looks at the column of the offer while it computes the offer. -/
def Order.Peeks (order : Order) : Prop := Quote.offerColumn ∈ order.program.columns 0

/-- There is nothing to be seen of the offer while it is computed. -/
theorem Trade.cell?_offerColumn {venue : Venue} {balance : VaultKey → Word} {trade : Trade}
    {input output : Leg} {received sent : Word} {asked : Context}
    (h : asked.columns = trade.columns venue balance input output [] received sent) (row : Nat) :
    asked.cell? Quote.offerColumn row = none := by
  rw [Context.cell?, Context.column?, h]
  rfl

/-- Putting something else in a column does not touch the others. -/
theorem Context.column?_setColumn_of_ne {c : Context} {index other : Nat} (h : index ≠ other)
    {column : List Word} (hrows : column.length ≤ maxRows) :
    (c.setColumn index column hrows).column? other = c.column? other :=
  List.getElem?_set_ne h

/-- An order that does not peek computes the same whatever the column of the offer shows. -/
theorem Order.eval_setColumn {order : Order} (h : ¬ order.Peeks) {shown : List Word}
    (hrows : shown.length ≤ Context.maxRows) (settings : Settings) (asked : Context) :
    order.program.eval settings ⟨0, 2⟩ (asked.setColumn Quote.offerColumn shown hrows) .empty =
      order.program.eval settings ⟨0, 2⟩ asked .empty := by
  apply Program.eval_congr
  intro column hmem
  have hother : Quote.offerColumn ≠ column := by
    rintro rfl
    exact h hmem
  exact Context.column?_setColumn_of_ne hother hrows

namespace Trade

variable {venue : Venue} {vaults : Overlay} {q : Quote}

/-- An order that is quoted does not peek. -/
theorem not_peeks_of_quote (trade : Trade)
    (h : venue.quote vaults trade.sender trade.order trade.choice trade.counterparty trade.signed =
      .ok q) :
    ¬ trade.order.Peeks := by
  intro hpeeks
  obtain ⟨input, output, asked, _, _, _, _, hasked, heval, _⟩ := Venue.quote_eq_ok h
  obtain ⟨_, hcolumns⟩ := offerContext_eq_ok_iff.mp hasked
  obtain ⟨row, w, hcell⟩ := Program.exists_cell_of_eval heval hpeeks
  have hnone := cell?_offerColumn (Context.ofColumns_eq_ok_iff.mp hcolumns) row
  rw [hnone] at hcell
  cases hcell

/-- An order that peeks is never quoted. -/
theorem quote_of_peeks (trade : Trade) (venue : Venue) (vaults : Overlay) (h : trade.order.Peeks) :
    ∃ cause, venue.quote vaults trade.sender trade.order trade.choice trade.counterparty
      trade.signed = .error cause := by
  cases hquote : venue.quote vaults trade.sender trade.order trade.choice trade.counterparty
      trade.signed with
  | error cause => exact ⟨cause, rfl⟩
  | ok q => exact absurd h (trade.not_peeks_of_quote hquote)

/-- The offer of the quote comes from the columns of the trade without an offer, and whatever the
column of the offer had shown would have made no difference. -/
inductive ComputedInTheDark (venue : Venue) (balance : VaultKey → Word) (trade : Trade)
    (q : Quote) : Prop
  | intro {input output : Leg} {asked : Context} {outcome : Outcome} {maxOutput ratio : Word}
      (legs : trade.order.legs trade.choice = .ok (input, output))
      (columns_eq : asked.columns = trade.columns venue balance input output [] 0 0)
      (computation : trade.order.program.eval venue.settings ⟨0, 2⟩ asked .empty = .ok outcome)
      (values : outcome.values = [maxOutput, ratio])
      (offer_eq : Offer.ofDecimals maxOutput ratio output.decimals input.decimals
        (balance (output.key trade.order.owner)) = .ok q.toOffer)
      (scratch_eq : q.scratch = outcome.scratch)
      (unseen : ∀ shown (hrows : shown.length ≤ Context.maxRows),
        trade.order.program.eval venue.settings ⟨0, 2⟩
          (asked.setColumn Quote.offerColumn shown hrows) .empty = .ok outcome) :
      ComputedInTheDark venue balance trade q

/-- Every offer that is quoted is computed in the dark. -/
theorem quote_in_the_dark (trade : Trade)
    (h : venue.quote vaults trade.sender trade.order trade.choice trade.counterparty trade.signed =
      .ok q) :
    trade.ComputedInTheDark venue vaults.balance q := by
  obtain ⟨input, output, asked, outcome, maxOutput, ratio, hlegs, hasked, heval, hvalues, hoffer, _,
    _, _, hscratch⟩ := Venue.quote_eq_ok h
  obtain ⟨_, hcolumns⟩ := offerContext_eq_ok_iff.mp hasked
  refine .intro hlegs (Context.ofColumns_eq_ok_iff.mp hcolumns) heval hvalues hoffer hscratch ?_
  intro shown hrows
  rw [Order.eval_setColumn (trade.not_peeks_of_quote h)]
  exact heval

end Trade

namespace Book

/-- The request comes to the point where the order of the trade is quoted over these balances: a
taker has come to a listed order of the right tokens and still wants something, or the two orders
of a match are listed and face each other. -/
inductive ComesTo (book : Book) (venue : Venue) : Operation → Trade → Overlay → Prop
  | taken {sender : Address} {request : TakeRequest} {done rest : List Take} {take : Take}
      {t : Taking} {input output : Leg} (takes : request.takes = done ++ take :: rest)
      (before : done.foldlM (book.takeNext venue sender request)
        ⟨book.journal, request.maximumInput, 0⟩ = .ok t)
      (remaining : t.remaining ≠ 0) (live : book.isLive take.order.hash = true)
      (legs : take.order.legs take.legs = .ok (input, output))
      (inputToken : input.token = request.output) (outputToken : output.token = request.input) :
      ComesTo book venue (.takeOrders sender request) (take.trade sender) t.journal.vaults
  | first {sender : Address} {request : ClearRequest} {aInput aOutput bInput bOutput : Leg}
      (opposed : Opposed request aInput aOutput bInput bOutput)
      (aLive : book.isLive request.a.hash = true) (bLive : book.isLive request.b.hash = true) :
      ComesTo book venue (.clear sender request) (request.first sender) (.on book.vaults)
  /-- The second order is quoted when the first one has been. -/
  | second {sender : Address} {request : ClearRequest} {aInput aOutput bInput bOutput : Leg}
      {p : Quote} (opposed : Opposed request aInput aOutput bInput bOutput)
      (aLive : book.isLive request.a.hash = true) (bLive : book.isLive request.b.hash = true)
      (aQuote : venue.quote (.on book.vaults) sender request.a request.terms.a request.b.owner
        request.bSigned = .ok p) :
      ComesTo book venue (.clear sender request) (request.second sender) (.on book.vaults)

section

variable {book : Book} {venue : Venue} {sender : Address} {cause : Refusal}

/-- A taker who comes to an order without a quote is refused for the quote. -/
theorem takeNext_of_quote_error {request : TakeRequest} {take : Take} {t : Taking}
    {input output : Leg} (hremaining : t.remaining ≠ 0) (hlive : book.isLive take.order.hash = true)
    (hlegs : take.order.legs take.legs = .ok (input, output))
    (hinput : input.token = request.output) (houtput : output.token = request.input)
    (hquote : venue.quote t.journal.vaults sender take.order take.legs sender take.signed =
      .error cause) :
    book.takeNext venue sender request t take = .error cause := by
  rw [takeNext_eq_takeLive hremaining hlive hlegs hinput houtput, takeLive, hquote]
  rfl

/-- A taker's request fails with the first of its orders that does. -/
theorem takeOrders_of_takeNext_error {request : TakeRequest} {done rest : List Take} {take : Take}
    {t : Taking} (htakes : request.takes = done ++ take :: rest)
    (hdone : done.foldlM (book.takeNext venue sender request)
      ⟨book.journal, request.maximumInput, 0⟩ = .ok t)
    (hnext : book.takeNext venue sender request t take = .error cause) :
    book.takeOrders venue sender request = .error cause := by
  rw [takeOrders, htakes, foldlM_append_cons_of_ok hdone, hnext]
  rfl

/-- The two orders of a match are quoted one after the other. -/
theorem Opposed.clear_of_quote_error {request : ClearRequest} {aInput aOutput bInput bOutput : Leg}
    (hopposed : Opposed request aInput aOutput bInput bOutput)
    (haLive : book.isLive request.a.hash = true) (hbLive : book.isLive request.b.hash = true)
    (hquotes : (venue.quote (.on book.vaults) sender request.a request.terms.a request.b.owner
        request.bSigned >>= fun _ => venue.quote (.on book.vaults) sender request.b request.terms.b
        request.a.owner request.aSigned) = .error cause) :
    book.clear venue sender request = .error cause := by
  rw [hopposed.clear_eq haLive hbLive]
  cases haQuote : venue.quote (.on book.vaults) sender request.a request.terms.a request.b.owner
      request.bSigned with
  | error e =>
    rw [haQuote] at hquotes
    cases hquotes
    rfl
  | ok p =>
    rw [haQuote, ok_bind] at hquotes
    rw [ok_bind, hquotes]
    rfl

/-- A request that comes to a quote that fails is refused with the same failure. -/
theorem ComesTo.perform_eq {op : Operation} {trade : Trade} {vaults : Overlay}
    (h : ComesTo book venue op trade vaults)
    (hquote : venue.quote vaults trade.sender trade.order trade.choice trade.counterparty
      trade.signed = .error cause) :
    book.perform venue op = .error cause := by
  cases h with
  | taken takes before remaining live legs inputToken outputToken =>
    have hnext := takeNext_of_quote_error remaining live legs inputToken outputToken hquote
    rw [perform, takeOrders_of_takeNext_error takes before hnext]
    rfl
  | first opposed aLive bLive =>
    rw [perform, opposed.clear_of_quote_error aLive bLive]
    · rfl
    · exact congrArg (· >>= _) hquote
  | second opposed aLive bLive aQuote =>
    rw [perform, opposed.clear_of_quote_error aLive bLive]
    · rfl
    · rw [aQuote]
      exact hquote

end

end Book

/-- The event shows no order as traded that peeks. -/
def Event.Blind (e : Event) : Prop := ∀ order ∈ e.traded, ¬ order.Peeks

/-- An event that shows no trade shows none of an order that peeks. -/
theorem Event.blind_of_traded_eq_nil {e : Event} (h : e.traded = []) : e.Blind := by
  intro order hmem
  rw [h] at hmem
  cases hmem

/-- Events stay without such trades when one more without them follows. -/
theorem Event.blind_concat {events : List Event} {e : Event} (hevents : ∀ e ∈ events, e.Blind)
    (he : e.Blind) : ∀ e' ∈ events ++ [e], e'.Blind :=
  List.forall_mem_append.mpr ⟨hevents, List.forall_mem_singleton.mpr he⟩

namespace Book

section

variable {book after : Book} {venue : Venue} {sender : Address} {op : Operation} {receipt : Receipt}
  {events : List Event}

/-- An order that is filled has been quoted. -/
theorem TakeStep.blind {request : TakeRequest} {take : Take} {t t' : Taking}
    (h : TakeStep book venue sender request take t t') (hblind : ∀ e ∈ t.journal.events, e.Blind) :
    ∀ e ∈ t'.journal.events, e.Blind := by
  cases h with
  | sated => exact hblind
  | notListed | tooExpensive | nothingOffered =>
    exact Event.blind_concat hblind (Event.blind_of_traded_eq_nil rfl)
  | filled _ _ _ _ _ quote _ _ _ _ _ settle =>
    obtain ⟨hevents, _, _⟩ := Venue.settle_eq_ok settle
    rw [Journal.events_note, hevents]
    refine Event.blind_concat (Event.blind_concat hblind (Event.blind_of_traded_eq_nil rfl)) ?_
    intro order hmem
    rw [List.mem_singleton.mp hmem]
    exact (take.trade sender).not_peeks_of_quote quote

/-- Both orders of a match have been quoted. -/
theorem ClearStep.blind {request : ClearRequest} {aInput aOutput bInput bOutput : Leg} {p q : Quote}
    {crossing : Crossing} {journal : Journal}
    (h : ClearStep book venue sender request aInput aOutput bInput bOutput p q crossing journal) :
    ∀ e ∈ journal.events, e.Blind := by
  have hmatching : (Event.matching sender request.a request.b request.terms).Blind := by
    intro order hmem
    rcases List.mem_pair.mp hmem with rfl | rfl
    · exact (request.first sender).not_peeks_of_quote h.aQuote
    · exact (request.second sender).not_peeks_of_quote h.bQuote
  rw [h.events]
  simp only [List.forall_mem_cons, hmatching, true_and]
  exact ⟨Event.blind_of_traded_eq_nil rfl, Event.blind_of_traded_eq_nil rfl,
    Event.blind_of_traded_eq_nil rfl, fun _ hmem => nomatch hmem⟩

/-- A performed request trades no order that peeks. -/
theorem Performed.blind (h : Performed venue book op receipt after events)
    (hperform : book.perform venue op = .ok (receipt, after)) : ∀ e ∈ events, e.Blind := by
  cases h with
  | addOrder _ _ events_eq =>
    rw [events_eq]
    exact Event.blind_concat (List.forall_mem_singleton.mpr (Event.blind_of_traded_eq_nil rfl))
      (Event.blind_of_traded_eq_nil rfl)
  | removeOrder | deposit | withdraw =>
    exact List.forall_mem_singleton.mpr (Event.blind_of_traded_eq_nil rfl)
  | @takeOrders sender request received paid after events extend =>
    simp only [perform, bind_eq_ok_iff, pure_eq_ok_iff, Prod.mk.injEq] at hperform
    obtain ⟨⟨_, _⟩, htake, _, rfl⟩ := hperform
    obtain ⟨t, _, _, rfl, _, _, _, hfold⟩ := takeOrders_eq_ok htake
    have hevents : t.journal.events = events := List.append_cancel_left extend.log
    rw [← hevents]
    refine foldlM_eq_ok_induction (P := fun t => ∀ e ∈ t.journal.events, e.Blind) hfold
      (List.forall_mem_nil _) ?_
    intro t take t' _ hblind hnext
    exact (takeNext_eq_ok hnext).blind hblind
  | clear step => exact step.blind
  | drain => exact List.forall_mem_nil _

/-- No answer of a book, and nothing in its log, shows an order as traded that peeks. -/
theorem chronicle_blind (venue : Venue) (ops : List Operation) :
    ∀ e ∈ chronicle (history venue empty ops) (run venue empty ops).2, e.Blind := by
  refine run_step_induction (P := fun past book => ∀ e ∈ chronicle past book, e.Blind)
    (fun _ hmem => nomatch hmem) (fun past book op ih => ?_) ops
  rcases step_cases venue book op with ⟨receipt, after, events, hstep, hperformed⟩ | ⟨cause, hstep⟩
  · rw [hstep, hperformed.chronicle_eq]
    exact List.forall_mem_append.mpr ⟨ih, hperformed.blind (step_eq_ok_iff.mp hstep)⟩
  · rw [hstep, chronicle_refused]
    exact ih

end

/-- A request that comes to the quote of an order that looks for its offer while it is computed is
refused and changes nothing, and no run of a book shows such an order as traded. An order that is
quoted has computed its offer from columns that tell neither its own offer nor one of the
counterparty, and whatever its own column might have shown would have made no difference. -/
theorem offers_computed_in_the_dark (venue : Venue) :
    (∀ book op trade vaults, ComesTo book venue op trade vaults → trade.order.Peeks →
      ∃ cause,
        venue.quote vaults trade.sender trade.order trade.choice trade.counterparty trade.signed =
          .error cause ∧
        step venue book op = (.error cause, book)) ∧
    (∀ ops, ∀ e ∈ chronicle (history venue empty ops) (run venue empty ops).2, ∀ order ∈ e.traded,
      ¬ order.Peeks) ∧
    ∀ (vaults : Overlay) (trade : Trade) q,
      venue.quote vaults trade.sender trade.order trade.choice trade.counterparty trade.signed =
        .ok q →
      trade.ComputedInTheDark venue vaults.balance q := by
  refine ⟨?_, ?_, ?_⟩
  · intro book op trade vaults hcomes hpeeks
    obtain ⟨cause, hquote⟩ := trade.quote_of_peeks venue vaults hpeeks
    have hperform := hcomes.perform_eq hquote
    refine ⟨cause, hquote, ?_⟩
    rw [step, hperform]
  · exact fun ops => chronicle_blind venue ops
  · exact fun vaults trade q hquote => trade.quote_in_the_dark hquote

/-- A program that looks for the offer it is to compute. -/
def peekProgram : Program where
  sources := [[0, 1, 2, 0, 0, 0, 0, 1]]
  constants := #[7, 500000000000000000]
  heights := [⟨2, 2⟩]
  id := Deployment.id ⟨[[0, 1, 2, 0, 0, 0, 0, 1]], #[7, 500000000000000000]⟩
  accepted := ⟨[2, 0], rfl⟩
  id_eq := rfl

/-- An order with this program that faces the one at the price of one. -/
def peekOrder : Order where
  owner := .ofNat 6
  approves := false
  program := peekProgram
  inputs := [⟨.ofNat 4, 18, 0⟩]
  outputs := [⟨.ofNat 3, 18, 0⟩]
  data := []

/-- The order that peeks faces the one at the price of one. -/
def peekBook : Book := pairedBook peekOrder

/-- The two orders are to be matched. -/
def peekRequest : ClearRequest := pairedRequest peekOrder

/-- The match comes to the order that peeks once the other one has been quoted. -/
theorem comesTo_peekOrder : ∃ p,
    parVenue.quote (.on peekBook.vaults) (.ofNat 2) parOrder ⟨0, 0⟩ peekOrder.owner [] = .ok p ∧
    ComesTo peekBook parVenue (.clear (.ofNat 2) peekRequest) (peekRequest.second (.ofNat 2))
      (.on peekBook.vaults) := by
  have hopposed : Opposed peekRequest ⟨.ofNat 3, 18, 0⟩ ⟨.ofNat 4, 18, 0⟩ ⟨.ofNat 4, 18, 0⟩
      ⟨.ofNat 3, 18, 0⟩ :=
    opposed_pairedRequest (by decide) rfl
  obtain ⟨haLive, hbLive⟩ := isLive_pairedBook peekOrder
  have hoffer : (parVenue.quote (.on peekBook.vaults) (.ofNat 2) parOrder ⟨0, 0⟩ peekOrder.owner
      []).toOption.map Quote.toOffer = some ⟨5, 1000000000000000000⟩ := by
    decide +kernel
  obtain ⟨p, hquote, _⟩ := exists_of_toOption_map_eq_some hoffer
  exact ⟨p, hquote, .second hopposed haLive hbLive hquote⟩

/-- The match is refused for the order that peeks, although the other one computes its offer in
the dark; where that one is taken the log shows it as traded. -/
theorem offers_computed_in_the_dark_peeking :
    peekOrder.Peeks ∧
    (∃ cause,
      ComesTo peekBook parVenue (.clear (.ofNat 2) peekRequest) (peekRequest.second (.ofNat 2))
        (.on peekBook.vaults) ∧
      parVenue.quote (.on peekBook.vaults) (.ofNat 2) peekOrder ⟨0, 0⟩ parOrder.owner [] =
        .error cause ∧
      step parVenue peekBook (.clear (.ofNat 2) peekRequest) = (.error cause, peekBook)) ∧
    (∃ p,
      parVenue.quote (.on peekBook.vaults) (.ofNat 2) parOrder ⟨0, 0⟩ peekOrder.owner [] = .ok p ∧
      (peekRequest.first (.ofNat 2)).ComputedInTheDark parVenue (Overlay.on peekBook.vaults).balance
        p) ∧
    ∃ e ∈ chronicle (history parVenue empty (parPast ++ [parTake]))
        (run parVenue empty (parPast ++ [parTake])).2,
      parOrder ∈ e.traded ∧ ¬ parOrder.Peeks := by
  obtain ⟨hrefused, hblind, hdark⟩ := offers_computed_in_the_dark parVenue
  obtain ⟨p, hquote, hcomes⟩ := comesTo_peekOrder
  have hpeeks : peekOrder.Peeks := by
    unfold Order.Peeks
    decide
  obtain ⟨_, htraded, _⟩ := run_parTake
  obtain ⟨e, he, hshown⟩ := List.mem_flatMap.mp (htraded ▸ List.mem_singleton_self parOrder)
  obtain ⟨cause, hcause, hstep⟩ := hrefused _ _ _ _ hcomes hpeeks
  refine ⟨hpeeks, ⟨cause, hcomes, hcause, hstep⟩, ⟨p, hquote, ?_⟩, e, he, hshown, ?_⟩
  · exact hdark (.on peekBook.vaults) (peekRequest.first (.ofNat 2)) p hquote
  · exact hblind (parPast ++ [parTake]) e he parOrder hshown

end Book

end Bourse
