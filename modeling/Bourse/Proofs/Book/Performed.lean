import Bourse.Book.Operation
import Bourse.Proofs.Book.Clearing
import Bourse.Proofs.Book.Taking

/-!
# What an operation does

A refused request leaves the book as it was. One that is performed does one of seven things, each
told with the events that it adds to the log and the postings that it makes. What holds in the
empty book and is kept by each answered request holds after every sequence of requests. The
chronicle of a sequence of requests is its log together with what was taken out of the log on the
way.
-/

namespace Bourse

/-- The order that a request of an account lists. -/
def OrderRequest.order (request : OrderRequest) (sender : Address) (program : Program) : Order where
  owner := sender
  approves := 1 < request.deployment.sources.length
  program := program
  inputs := request.inputs
  outputs := request.outputs
  data := request.data

namespace Book

/-- The book `after` is `before` with these events in its log and these postings in its vaults. -/
structure Extends (before after : Book) (events : List Event) (ps : List Posting) : Prop where
  live : after.live = before.live
  log : after.log = before.log ++ events
  posted : Posted before.vaults.balance after.vaults.balance ps

/-- A committed journal extends the book by what is in it. -/
theorem extends_commit {book : Book} {j : Journal} {events : List Event} {ps : List Posting}
    (hevents : j.events = events) (hposted : Posted book.vaults.balance j.vaults.balance ps) :
    Extends book (book.commit j) events ps := by
  refine ⟨rfl, ?_, ?_⟩
  · rw [← hevents]
    rfl
  · intro key
    rw [← hposted key, commit, Overlay.balance_commit]

/-- What a performed request does: what is returned for it, the book that it leaves, and the
events that it adds to the log. -/
inductive Performed (venue : Venue) (book : Book) :
    Operation → Receipt → Book → List Event → Prop
  | addOrder {sender : Address} {request : OrderRequest} {program : Program} {order : Order}
      {events : List Event} (deploy : Program.deploy request.deployment [2, 0] = .ok program)
      (order_eq : order = request.order sender program)
      (events_eq : events = [.deployed program, .listed sender program.id order order.hash]) :
      Performed venue book (.addOrder sender request) (.order order)
        { book with live := book.live.insert order.hash (), log := book.log ++ events } events
  | removeOrder {sender : Address} {order : Order} (owner : sender = order.owner) :
      Performed venue book (.removeOrder sender order) .done
        { book with
          live := book.live.erase order.hash
          log := book.log ++ [.removed sender order order.hash] }
        [.removed sender order order.hash]
  | deposit {sender : Address} {request : Transfer} {after : Book}
      (extend : Extends book after [.deposited sender request]
        [.credit (request.key sender) request.amount]) :
      Performed venue book (.deposit sender request) .done after [.deposited sender request]
  | withdraw {sender : Address} {request : Transfer} {amount : Word} {after : Book}
      (capped : amount = min request.amount (book.vaults.balance (request.key sender)))
      (extend : Extends book after [.withdrawn sender request amount]
        [.debit (request.key sender) amount]) :
      Performed venue book (.withdraw sender request) (.amount amount) after
        [.withdrawn sender request amount]
  | takeOrders {sender : Address} {request : TakeRequest} {received paid : Word} {after : Book}
      {events : List Event} (extend : Extends book after events (events.flatMap Event.postings))
      (total : received.toNat = (events.map Event.received).sum)
      (cost : paid.toNat = (events.map Event.paid).sum)
      (ofTaking : ∀ e ∈ events, e.OfTaking book sender request) :
      Performed venue book (.takeOrders sender request) (.totals received paid) after events
  | clear {sender : Address} {request : ClearRequest} {aInput aOutput bInput bOutput : Leg}
      {p q : Quote} {crossing : Crossing} {journal : Journal} {after : Book}
      (step : ClearStep book venue sender request aInput aOutput bInput bOutput p q crossing
        journal)
      (extend : Extends book after journal.events
        (request.terms.postings sender request.a request.b crossing)) :
      Performed venue book (.clear sender request) (.crossing crossing) after journal.events
  | drain : Performed venue book .drain (.events book.log) { book with log := [] } []

/-- A listed order has a program with a source, which has passed the check. -/
theorem addOrder_eq_ok {book after : Book} {sender : Address} {request : OrderRequest}
    {order : Order} (h : book.addOrder sender request = .ok (order, after)) :
    ∃ program, request.deployment.sources ≠ [] ∧
      Program.deploy request.deployment [2, 0] = .ok program ∧
        order = request.order sender program ∧
      after = { book with
        live := book.live.insert order.hash ()
        log := book.log ++
          [.deployed program, .listed sender program.id order order.hash] } := by
  simp only [addOrder, bind_eq_ok_iff, mapError_eq_ok_iff, pure_eq_ok_iff, Prod.mk.injEq] at h
  obtain ⟨_, _, _, _, ⟨⟩, hsources, program, hdeploy, rfl, rfl⟩ := h
  exact ⟨program, require_eq_ok_iff.mp hsources, hdeploy, rfl, rfl⟩

/-- A request that is not refused does one of these things. -/
theorem perform_eq_ok {venue : Venue} {book after : Book} {op : Operation} {receipt : Receipt}
    (h : book.perform venue op = .ok (receipt, after)) :
    ∃ events, Performed venue book op receipt after events := by
  cases op with
  | addOrder sender request =>
    simp only [perform, bind_eq_ok_iff, pure_eq_ok_iff, Prod.mk.injEq] at h
    obtain ⟨⟨order, _⟩, hadd, rfl, rfl⟩ := h
    obtain ⟨program, _, hdeploy, horder, rfl⟩ := addOrder_eq_ok hadd
    exact ⟨_, .addOrder hdeploy horder rfl⟩
  | removeOrder sender order =>
    simp only [perform, Book.removeOrder, bind_eq_ok_iff, pure_eq_ok_iff, Prod.mk.injEq] at h
    obtain ⟨_, ⟨⟨⟩, howner, rfl⟩, rfl, rfl⟩ := h
    exact ⟨_, .removeOrder (require_eq_ok_iff.mp howner)⟩
  | deposit sender request =>
    simp only [perform, Book.deposit, bind_eq_ok_iff, mapError_eq_ok_iff, pure_eq_ok_iff,
      Prod.mk.injEq] at h
    obtain ⟨_, ⟨⟨⟩, _, j, hcredit, rfl⟩, rfl, rfl⟩ := h
    obtain ⟨hevents, hposted⟩ := Journal.credit_eq_ok hcredit
    exact ⟨_, .deposit (extends_commit (by simp [hevents, journal]) hposted)⟩
  | withdraw sender request =>
    simp only [perform, Book.withdraw, bind_eq_ok_iff, mapError_eq_ok_iff, pure_eq_ok_iff,
      Prod.mk.injEq] at h
    obtain ⟨_, ⟨⟨⟩, _, j, hdebit, rfl⟩, rfl, rfl⟩ := h
    obtain ⟨hevents, hposted⟩ := Journal.debit_eq_ok hdebit
    exact ⟨_, .withdraw rfl (extends_commit (by simp [hevents, journal]) hposted)⟩
  | takeOrders sender request =>
    simp only [perform, bind_eq_ok_iff, pure_eq_ok_iff, Prod.mk.injEq] at h
    obtain ⟨⟨⟨received, paid⟩, _⟩, htake, rfl, rfl⟩ := h
    obtain ⟨t, events, hadvance, rfl, hreceived, hpaid, _⟩ := takeOrders_eq_ok htake
    exact ⟨events, .takeOrders (extends_commit hadvance.events_eq hadvance.posted) hreceived hpaid
      hadvance.ofTaking⟩
  | clear sender request =>
    simp only [perform, bind_eq_ok_iff, pure_eq_ok_iff, Prod.mk.injEq] at h
    obtain ⟨⟨crossing, _⟩, hclear, rfl, rfl⟩ := h
    obtain ⟨_, _, _, _, _, _, _, hstep, rfl⟩ := clear_eq_ok hclear
    exact ⟨_, .clear hstep (extends_commit rfl hstep.posted)⟩
  | drain =>
    cases h
    exact ⟨_, .drain⟩

/-- A request is answered with a receipt exactly when it is performed. -/
theorem step_eq_ok_iff {venue : Venue} {book after : Book} {op : Operation} {receipt : Receipt} :
    step venue book op = (.ok receipt, after) ↔ book.perform venue op = .ok (receipt, after) := by
  rw [step]
  split
  · next h => simp [h]
  · next h => simp [h]

/-- A request is performed, or refused without a change of the book. -/
theorem step_cases (venue : Venue) (book : Book) (op : Operation) :
    (∃ receipt after events, step venue book op = (.ok receipt, after) ∧
      Performed venue book op receipt after events) ∨
    ∃ cause, step venue book op = (.error cause, book) := by
  cases h : book.perform venue op with
  | error cause =>
    refine Or.inr ⟨cause, ?_⟩
    rw [step, h]
  | ok result =>
    obtain ⟨receipt, after⟩ := result
    obtain ⟨events, hperformed⟩ := perform_eq_ok h
    exact Or.inl ⟨receipt, after, events, step_eq_ok_iff.mpr h, hperformed⟩

/-- A request together with what was answered. -/
abbrev Answered := Operation × Except Refusal Receipt

/-- Requests together with what is answered when they are made one after the other. -/
def history (venue : Venue) (book : Book) (ops : List Operation) : List Answered :=
  ops.zip (run venue book ops).1

theorem history_cons (venue : Venue) (book : Book) (op : Operation) (ops : List Operation) :
    history venue book (op :: ops) =
      (op, (step venue book op).1) :: history venue (step venue book op).2 ops := rfl

/-- A run goes on from the book that the first request leaves. -/
theorem run_cons_snd (venue : Venue) (book : Book) (op : Operation) (ops : List Operation) :
    (run venue book (op :: ops)).2 = (run venue (step venue book op).2 ops).2 := rfl

/-- One more request is answered by the book that the ones before have left. -/
theorem history_concat (venue : Venue) (book : Book) (ops : List Operation) (op : Operation) :
    history venue book (ops ++ [op]) =
      history venue book ops ++ [(op, (step venue (run venue book ops).2 op).1)] := by
  induction ops generalizing book with
  | nil => rfl
  | cons first ops ih =>
    rw [List.cons_append, history_cons, ih, history_cons, run_cons_snd, List.cons_append]

/-- The last request of a run is performed on the book that the others leave. -/
theorem run_concat_snd (venue : Venue) (book : Book) (ops : List Operation) (op : Operation) :
    (run venue book (ops ++ [op])).2 = (step venue (run venue book ops).2 op).2 := by
  induction ops generalizing book with
  | nil => rfl
  | cons first ops ih => rw [List.cons_append, run_cons_snd, ih, run_cons_snd]

/-- What holds in the empty book and is kept by each answer holds after every sequence of
requests. -/
theorem run_step_induction {venue : Venue} {P : List Answered → Book → Prop} (hempty : P [] empty)
    (hstep : ∀ past book op, P past book →
      P (past ++ [(op, (step venue book op).1)]) (step venue book op).2)
    (ops : List Operation) : P (history venue empty ops) (run venue empty ops).2 := by
  induction ops using List.reverseRecOn with
  | nil => exact hempty
  | append_singleton ops op ih =>
    rw [history_concat, run_concat_snd]
    exact hstep _ _ op ih

/-- What holds in the empty book, is kept by what is performed and is kept by a refusal holds
after every sequence of requests. -/
theorem run_induction {venue : Venue} {P : List Answered → Book → Prop} (hempty : P [] empty)
    (hperformed : ∀ past book op receipt after events, P past book →
      Performed venue book op receipt after events → P (past ++ [(op, .ok receipt)]) after)
    (hrefused : ∀ past book op cause, P past book → P (past ++ [(op, .error cause)]) book)
    (ops : List Operation) : P (history venue empty ops) (run venue empty ops).2 := by
  refine run_step_induction hempty (fun past book op ih => ?_) ops
  rcases step_cases venue book op with ⟨receipt, after, events, hstep, hafter⟩ | ⟨cause, hstep⟩
  · rw [hstep]
    exact hperformed _ _ op receipt after events ih hafter
  · rw [hstep]
    exact hrefused _ _ op cause ih

/-- The events that an answer has taken out of the log. -/
def drained : Answered → List Event
  | (_, .ok (.events events)) => events
  | _ => []

/-- All events of answered requests in order, those taken out of the log before those still in
it. -/
def chronicle (past : List Answered) (book : Book) : List Event := past.flatMap drained ++ book.log

@[simp] theorem drained_error (op : Operation) (cause : Refusal) :
    drained (op, .error cause) = [] :=
  rfl

/-- What a request takes out of the log it has found there. -/
theorem Performed.drained_append {venue : Venue} {book after : Book} {op : Operation}
    {receipt : Receipt} {events : List Event} (h : Performed venue book op receipt after events) :
    drained (op, .ok receipt) ++ after.log = book.log ++ events := by
  cases h with
  | addOrder | removeOrder => rfl
  | deposit extend => exact extend.log
  | withdraw _ extend => exact extend.log
  | takeOrders extend => exact extend.log
  | clear _ extend => exact extend.log
  | drain => rfl

/-- A performed request adds its events to those before. -/
theorem Performed.chronicle_eq {venue : Venue} {book after : Book} {op : Operation}
    {receipt : Receipt} {events : List Event} (h : Performed venue book op receipt after events)
    (past : List Answered) :
    chronicle (past ++ [(op, .ok receipt)]) after = chronicle past book ++ events := by
  rw [chronicle, chronicle, List.flatMap_append, List.flatMap_singleton, List.append_assoc,
    List.append_assoc, h.drained_append]

/-- A refused request adds no event. -/
theorem chronicle_refused (past : List Answered) (book : Book) (op : Operation) (cause : Refusal) :
    chronicle (past ++ [(op, .error cause)]) book = chronicle past book := by
  rw [chronicle, chronicle, List.flatMap_append, List.flatMap_singleton, drained_error,
    List.append_nil]

end Book

end Bourse
