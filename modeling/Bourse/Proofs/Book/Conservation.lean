import Bourse.Proofs.Book.Performed

/-!
# Conservation of tokens

Tokens come into the vaults with deposits and with what takers pay, and they leave with
withdrawals and with what takers receive. Every other request, in particular every match, only
moves tokens between vaults. The sums are natural numbers, so no amount is lost or made by a word
that wraps around.
-/

namespace Bourse

/-- What a taker pays comes into the vaults, and what the taker receives leaves them. -/
theorem Event.OfTaking.netToken_postings {book : Book} {sender : Address} {request : TakeRequest}
    {e : Event} (h : e.OfTaking book sender request) (token : Address) :
    Posting.netToken e.postings token =
      (if request.output = token then (e.paid : Int) else 0) -
        (if request.input = token then (e.received : Int) else 0) := by
  cases h with
  | notListed owner hash => simp [postings, paid, received]
  | tooExpensive owner hash => simp [postings, paid, received]
  | nothingOffered owner hash => simp [postings, paid, received]
  | settled context => simp [postings, paid, received]
  | @taken take inputLeg outputLeg input output mem live legs inputToken outputToken =>
    have hpostings := Order.tradePostings_of_legs legs output input
    simp only [postings, paid, received, hpostings, Posting.netToken_cons, Posting.netToken_nil,
      Posting.inToken, Posting.credit, Posting.debit, Leg.key, inputToken, outputToken]
    by_cases hout : request.output = token <;> by_cases hin : request.input = token <;>
      simp only [hout, hin, if_true, if_false] <;> omega

/-- The totals of the events account for all their postings. -/
theorem Event.netToken_flatMap_postings {book : Book} {sender : Address} {request : TakeRequest}
    {events : List Event} (h : ∀ e ∈ events, e.OfTaking book sender request) (token : Address) :
    Posting.netToken (events.flatMap Event.postings) token =
      (if request.output = token then ((events.map Event.paid).sum : Int) else 0) -
        (if request.input = token then ((events.map Event.received).sum : Int) else 0) := by
  induction events with
  | nil => simp
  | cons e events ih =>
    have he := (h e (List.mem_cons_self ..)).netToken_postings token
    have hrest := ih fun d hd => h d (List.mem_cons_of_mem _ hd)
    rw [List.flatMap_cons, Posting.netToken_append, he, hrest]
    simp only [List.map_cons, List.sum_cons, Nat.cast_add]
    split <;> split <;> omega

namespace Book

/-- How much of a token an answered request brings into the vaults: what is deposited, and what a
taker pays. -/
def inflow (token : Address) : Answered → Nat
  | (.deposit _ request, .ok _) => if request.token = token then request.amount.toNat else 0
  | (.takeOrders _ request, .ok (.totals _ paid)) =>
    if request.output = token then paid.toNat else 0
  | _ => 0

/-- How much of a token an answered request takes out of the vaults: what a withdrawal returns,
and what a taker receives. -/
def outflow (token : Address) : Answered → Nat
  | (.withdraw _ request, .ok (.amount amount)) =>
    if request.token = token then amount.toNat else 0
  | (.takeOrders _ request, .ok (.totals received _)) =>
    if request.input = token then received.toNat else 0
  | _ => 0

/-- What one request does to the sum over the vaults of a token. -/
theorem Performed.total {venue : Venue} {book after : Book} {op : Operation} {receipt : Receipt}
    {events : List Event} (h : Performed venue book op receipt after events) (token : Address) :
    after.vaults.total token + outflow token (op, .ok receipt) =
      book.vaults.total token + inflow token (op, .ok receipt) := by
  cases h with
  | addOrder deploy order_eq events_eq => rfl
  | removeOrder owner => rfl
  | drain => rfl
  | @deposit sender request after extend =>
    have htotal := extend.posted.total token
    simp only [Posting.netToken_cons, Posting.netToken_nil, Posting.inToken, Posting.credit,
      Transfer.key] at htotal
    simp only [inflow, outflow]
    by_cases htoken : request.token = token
    · simp only [htoken, if_true] at htotal ⊢
      omega
    · simp only [htoken, if_false] at htotal ⊢
      omega
  | @withdraw sender request amount after capped extend =>
    have htotal := extend.posted.total token
    simp only [Posting.netToken_cons, Posting.netToken_nil, Posting.inToken, Posting.debit,
      Transfer.key] at htotal
    simp only [inflow, outflow]
    by_cases htoken : request.token = token
    · simp only [htoken, if_true] at htotal ⊢
      omega
    · simp only [htoken, if_false] at htotal ⊢
      omega
  | @takeOrders sender request received paid after _ extend total cost ofTaking =>
    have htotal := extend.posted.total token
    rw [Event.netToken_flatMap_postings ofTaking, ← total, ← cost] at htotal
    simp only [inflow, outflow]
    by_cases hout : request.output = token <;> by_cases hin : request.input = token <;>
      simp only [hout, hin, if_true, if_false] at htotal ⊢ <;> omega
  | @clear sender request aInput aOutput bInput bOutput p q crossing journal after step extend =>
    have htotal := extend.posted.total token
    rw [step.netToken_postings token] at htotal
    simp only [inflow, outflow]
    omega

/-- Nothing comes in or goes out with a refused request. -/
theorem flow_refused (token : Address) (op : Operation) (cause : Refusal) :
    inflow token (op, .error cause) = 0 ∧ outflow token (op, .error cause) = 0 := by
  cases op <;> exact ⟨rfl, rfl⟩

/-- After every sequence of requests the vaults of a token hold, together, what has come in and
has not gone out. A match leaves this sum as it is, in every book. -/
theorem total_run (venue : Venue) (ops : List Operation) (token : Address) :
    (run venue empty ops).2.vaults.total token +
        ((history venue empty ops).map (outflow token)).sum =
      ((history venue empty ops).map (inflow token)).sum ∧
    ∀ (book : Book) (sender : Address) (request : ClearRequest),
      (step venue book (.clear sender request)).2.vaults.total token = book.vaults.total token := by
  constructor
  · refine run_induction (P := fun past book =>
      book.vaults.total token + (past.map (outflow token)).sum = (past.map (inflow token)).sum)
      rfl ?_ ?_ ops
    · intro past book op receipt after events ih hperformed
      have htotal := hperformed.total token
      simp only [List.map_append, List.map_cons, List.map_nil, List.sum_append, List.sum_cons,
        List.sum_nil]
      omega
    · intro past book op cause ih
      obtain ⟨hin, hout⟩ := flow_refused token op cause
      simp only [List.map_append, List.map_cons, List.map_nil, List.sum_append, List.sum_cons,
        List.sum_nil]
      omega
  · intro book sender request
    rcases step_cases venue book (.clear sender request) with
      ⟨receipt, after, events, hstep, hperformed⟩ | ⟨cause, hstep⟩
    · have htotal := hperformed.total token
      rw [hstep]
      simp only [inflow, outflow] at htotal
      omega
    · rw [hstep]

end Book

end Bourse
