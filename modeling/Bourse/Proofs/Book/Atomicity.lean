import Bourse.Proofs.Book.Desk
import Bourse.Proofs.Book.Performed

/-!
# Refused requests change nothing

A request that is made in place writes in its journal only, until nothing of it can be refused any
more. So wherever it is refused, the book on the desk is as it was, and requests made in place are
answered like those whose refusal undoes everything. The book after any requests is therefore the
book after those that were not refused, and its log grows at the end until it is taken out.
-/

namespace Bourse

/-- The work in place goes like the computation: where that has a value the desk is related to it,
and where it fails the work fails likewise and has left the book as it was. -/
inductive InPlace {α β : Type} (book : Book) (R : α → β → Desk → Prop) :
    Except Refusal α → EStateM.Result Refusal Desk β → Prop
  | ok {a : α} {b : β} {desk : Desk} (h : R a b desk) : InPlace book R (.ok a) (.ok b desk)
  | error {desk : Desk} (cause : Refusal) (untouched : desk.book = book) :
      InPlace book R (.error cause) (.error cause desk)

namespace InPlace

variable {α β γ δ : Type} {book : Book} {R : α → β → Desk → Prop} {S : γ → δ → Desk → Prop}
  {desk : Desk} {j : Journal}

/-- Work that agrees with a computation can be followed by work that agrees with what comes
next. -/
theorem bind {x : Except Refusal α} {w : Desk.Work β} {f : α → Except Refusal γ}
    {g : β → Desk.Work δ} (hx : InPlace book R x (w desk))
    (hf : ∀ a b desk', R a b desk' → InPlace book S (f a) (g b desk')) :
    InPlace book S (x >>= f) ((w >>= g) desk) := by
  simp only [Bind.bind, EStateM.bind]
  generalize w desk = r at hx
  cases hx with
  | ok h => exact hf _ _ _ h
  | error cause untouched => exact .error cause untouched

/-- A computation that both make. -/
theorem consult_bind {x : Except Refusal α} {f : α → Except Refusal γ} {g : α → Desk.Work δ}
    (hf : ∀ a, InPlace book S (f a) (g a ⟨book, j⟩)) :
    InPlace book S (x >>= f) ((Desk.consult x >>= g) ⟨book, j⟩) := by
  cases x with
  | ok a => exact hf a
  | error cause => exact .error cause rfl

end InPlace

namespace Desk

variable {book : Book} {j : Journal}

/-- Nothing but the journal has been written. -/
def Wrote (book : Book) (j : Journal) (_ : Unit) (desk : Desk) : Prop := desk = ⟨book, j⟩

section

variable {γ δ : Type} {S : γ → δ → Desk → Prop} {f : Journal → Except Refusal γ} {g : Unit → Work δ}

/-- Making a change to the journal of the desk agrees with making it to the journal at hand. -/
theorem enter_bind {change : Journal → Except ArithmeticError Journal}
    {x : Except ArithmeticError Journal} (hchange : change j = x)
    (hf : ∀ j', InPlace book S (f j') (g () ⟨book, j'⟩)) :
    InPlace book S (x.mapError .arithmetic >>= f) ((enter change >>= g) ⟨book, j⟩) := by
  simp only [Bind.bind, EStateM.bind, enter, hchange]
  cases x with
  | ok j' => exact hf j'
  | error cause => exact .error _ rfl

/-- A credit at the desk agrees with one in the journal at hand. -/
theorem credit_bind {key : VaultKey} {amount : Word}
    (hf : ∀ j', InPlace book S (f j') (g () ⟨book, j'⟩)) :
    InPlace book S ((j.credit key amount).mapError .arithmetic >>= f)
      ((enter (·.credit key amount) >>= g) ⟨book, j⟩) :=
  enter_bind rfl hf

theorem debit_bind {key : VaultKey} {amount : Word}
    (hf : ∀ j', InPlace book S (f j') (g () ⟨book, j'⟩)) :
    InPlace book S ((j.debit key amount).mapError .arithmetic >>= f)
      ((enter (·.debit key amount) >>= g) ⟨book, j⟩) :=
  enter_bind rfl hf

end

/-- A settlement at the desk writes the journal that the settlement gives. -/
theorem settle_inPlace (book : Book) (j : Journal) (venue : Venue) (sender : Address)
    (order : Order) (q : Quote) (input output : Word) :
    InPlace book (Wrote book) (venue.settle sender order q input output j)
      (settle venue sender order q input output ⟨book, j⟩) := by
  rw [settle, Venue.settle]
  refine credit_bind fun j₁ => ?_
  refine debit_bind fun j₂ => ?_
  -- The trade is published before it is approved, which shows only in a journal that is dropped.
  simp only [note_bind]
  cases venue.approve order q (q.tradeContext input output) with
  | ok _ => exact .ok rfl
  | error cause => exact .error _ rfl

/-- The totals of a taker are carried along, and the rest of the progress is in the journal. -/
def Carries (book : Book) (t : Taking) (totals : Word × Word) (desk : Desk) : Prop :=
  totals = (t.remaining, t.paid) ∧ desk = ⟨book, t.journal⟩

/-- A fill at the desk carries the amounts and the journal of the fill. -/
theorem fill_inPlace (book : Book) (venue : Venue) (sender : Address) (take : Take) (q : Quote)
    (t : Taking) :
    InPlace book (Carries book) (Book.fill venue sender take q t)
      (fill venue sender take q t.remaining t.paid ⟨book, t.journal⟩) := by
  rw [fill, Book.fill]
  refine InPlace.consult_bind fun output => ?_
  refine InPlace.consult_bind fun remaining => ?_
  refine InPlace.consult_bind fun paid => ?_
  refine (settle_inPlace book t.journal venue sender take.order q output _).bind ?_
  rintro j _ _ rfl
  exact .ok ⟨rfl, rfl⟩

/-- Taking an order at the desk carries on as taking it does. -/
theorem takeNext_inPlace (book : Book) (venue : Venue) (sender : Address) (request : TakeRequest)
    (take : Take) {t : Taking} (hwanted : t.remaining ≠ 0) :
    InPlace book (Carries book) (book.takeNext venue sender request t take)
      (takeNext venue sender request take t.remaining t.paid ⟨book, t.journal⟩) := by
  simp only [takeNext, Book.takeNext, if_neg hwanted, get_bind]
  split
  · exact .ok ⟨rfl, rfl⟩
  refine InPlace.consult_bind fun legs => ?_
  refine InPlace.consult_bind fun _ => ?_
  refine InPlace.consult_bind fun _ => ?_
  simp only [get_bind, Book.takeLive]
  refine InPlace.consult_bind fun q => ?_
  split
  · exact .ok ⟨rfl, rfl⟩
  split
  · exact .ok ⟨rfl, rfl⟩
  · exact fill_inPlace book venue sender take q t

/-- Taking one order after the other at the desk carries on as the fold does, also where the desk
stops because nothing is wanted any more. -/
theorem takeAll_inPlace (book : Book) (venue : Venue) (sender : Address) (request : TakeRequest)
    (takes : List Take) (t : Taking) :
    InPlace book (Carries book) (takes.foldlM (book.takeNext venue sender request) t)
      (takeAll venue sender request takes t.remaining t.paid ⟨book, t.journal⟩) := by
  induction takes generalizing t with
  | nil => exact .ok ⟨rfl, rfl⟩
  | cons take takes ih =>
    rw [takeAll]
    split
    · next hsated =>
      -- The loop is left here, and the fold goes on without a change.
      rw [Book.foldlM_takeNext_sated hsated]
      exact .ok ⟨rfl, rfl⟩
    · next hwanted =>
      rw [List.foldlM_cons]
      refine (takeNext_inPlace book venue sender request take hwanted).bind ?_
      rintro u _ _ ⟨rfl, rfl⟩
      exact ih u

/-- The request has been answered, and its changes have been made in the book. -/
def Settled {α : Type} (result : α × Book) (answer : α) (desk : Desk) : Prop :=
  answer = result.1 ∧ desk.book = result.2

/-- A deposit at the desk leaves the book that the deposit gives. -/
theorem deposit_inPlace (sender : Address) (request : Transfer) (desk : Desk) :
    InPlace desk.book (fun after _ desk' => desk'.book = after) (desk.book.deposit sender request)
      (deposit sender request desk) := by
  rw [deposit, Book.deposit]
  refine InPlace.consult_bind fun _ => ?_
  rw [start_bind]
  refine credit_bind fun j => ?_
  exact .ok rfl

/-- A withdrawal at the desk comes to the same as the withdrawal. -/
theorem withdraw_inPlace (sender : Address) (request : Transfer) (desk : Desk) :
    InPlace desk.book Settled (desk.book.withdraw sender request)
      (withdraw sender request desk) := by
  rw [withdraw, Book.withdraw]
  refine InPlace.consult_bind fun _ => ?_
  simp only [start_bind, get_bind]
  refine debit_bind fun j => ?_
  exact .ok ⟨rfl, rfl⟩

/-- Listing an order at the desk comes to the same as listing it. -/
theorem addOrder_inPlace (sender : Address) (request : OrderRequest) (desk : Desk) :
    InPlace desk.book Settled (desk.book.addOrder sender request)
      (addOrder sender request desk) := by
  rw [addOrder, Book.addOrder]
  refine InPlace.consult_bind fun _ => ?_
  refine InPlace.consult_bind fun _ => ?_
  refine InPlace.consult_bind fun _ => ?_
  refine InPlace.consult_bind fun program => ?_
  simp only [relist_bind, append_bind, List.append_assoc]
  exact .ok ⟨rfl, rfl⟩

/-- Removing an order at the desk leaves the book that the removal gives. -/
theorem removeOrder_inPlace (sender : Address) (order : Order) (desk : Desk) :
    InPlace desk.book (fun after _ desk' => desk'.book = after) (desk.book.removeOrder sender order)
      (removeOrder sender order desk) := by
  rw [removeOrder, Book.removeOrder]
  refine InPlace.consult_bind fun _ => ?_
  exact .ok rfl

/-- Taking orders at the desk comes to the same as taking them. -/
theorem takeOrders_inPlace (venue : Venue) (sender : Address) (request : TakeRequest)
    (desk : Desk) :
    InPlace desk.book Settled (desk.book.takeOrders venue sender request)
      (takeOrders venue sender request desk) := by
  rw [takeOrders, Book.takeOrders, start_bind]
  refine (takeAll_inPlace desk.book venue sender request request.takes
    ⟨desk.book.journal, request.maximumInput, 0⟩).bind ?_
  rintro t _ _ ⟨rfl, rfl⟩
  refine InPlace.consult_bind fun received => ?_
  refine InPlace.consult_bind fun _ => ?_
  exact .ok ⟨rfl, rfl⟩

/-- A match at the desk comes to the same as the match. -/
theorem clear_inPlace (venue : Venue) (sender : Address) (request : ClearRequest) (desk : Desk) :
    InPlace desk.book Settled (desk.book.clear venue sender request)
      (clear venue sender request desk) := by
  rw [clear, Book.clear]
  refine InPlace.consult_bind fun _ => ?_
  refine InPlace.consult_bind fun aLegs => ?_
  refine InPlace.consult_bind fun bLegs => ?_
  refine InPlace.consult_bind fun _ => ?_
  refine InPlace.consult_bind fun _ => ?_
  refine InPlace.consult_bind fun _ => ?_
  refine InPlace.consult_bind fun _ => ?_
  simp only [start_bind, note_bind, get_bind]
  refine InPlace.consult_bind fun p => ?_
  simp only [get_bind]
  refine InPlace.consult_bind fun q => ?_
  refine InPlace.consult_bind fun crossing => ?_
  refine (settle_inPlace desk.book _ venue sender request.a p _ _).bind ?_
  rintro j₁ _ _ rfl
  refine (settle_inPlace desk.book j₁ venue sender request.b q _ _).bind ?_
  rintro j₂ _ _ rfl
  refine InPlace.consult_bind fun aBounty => ?_
  refine InPlace.consult_bind fun bBounty => ?_
  refine credit_bind fun j₃ => ?_
  refine credit_bind fun j₄ => ?_
  exact .ok ⟨rfl, rfl⟩

/-- Every request does in place what it does to a book. -/
theorem perform_inPlace (venue : Venue) (op : Operation) (desk : Desk) :
    InPlace desk.book Settled (desk.book.perform venue op) (perform venue op desk) := by
  cases op with
  | addOrder sender request =>
    refine (addOrder_inPlace sender request desk).bind ?_
    rintro ⟨order, after⟩ _ _ ⟨rfl, hafter⟩
    exact .ok ⟨rfl, hafter⟩
  | removeOrder sender order =>
    refine (removeOrder_inPlace sender order desk).bind ?_
    rintro after _ desk' hafter
    exact .ok ⟨rfl, hafter⟩
  | deposit sender request =>
    refine (deposit_inPlace sender request desk).bind ?_
    rintro after _ desk' hafter
    exact .ok ⟨rfl, hafter⟩
  | withdraw sender request =>
    refine (withdraw_inPlace sender request desk).bind ?_
    rintro ⟨amount, after⟩ _ _ ⟨rfl, hafter⟩
    exact .ok ⟨rfl, hafter⟩
  | takeOrders sender request =>
    refine (takeOrders_inPlace venue sender request desk).bind ?_
    rintro ⟨totals, after⟩ _ _ ⟨rfl, hafter⟩
    exact .ok ⟨rfl, hafter⟩
  | clear sender request =>
    refine (clear_inPlace venue sender request desk).bind ?_
    rintro ⟨crossing, after⟩ _ _ ⟨rfl, hafter⟩
    exact .ok ⟨rfl, hafter⟩
  | drain => exact .ok ⟨rfl, rfl⟩

/-- Wherever a request is refused, the book on the desk is the one before it. -/
theorem book_of_perform_eq_error {venue : Venue} {op : Operation} {desk refused : Desk}
    {cause : Refusal} (h : perform venue op desk = .error cause refused) :
    refused.book = desk.book := by
  have hplace := perform_inPlace venue op desk
  rw [h] at hplace
  generalize desk.book.perform venue op = x at hplace
  cases hplace with
  | error _ untouched => exact untouched

/-- A request made in place is answered as the book answers it, and leaves the same book. -/
theorem step_eq (venue : Venue) (desk : Desk) (op : Operation) :
    (desk.step venue op).1 = (Book.step venue desk.book op).1 ∧
      (desk.step venue op).2.book = (Book.step venue desk.book op).2 := by
  have h := perform_inPlace venue op desk
  rw [step, Book.step]
  generalize desk.book.perform venue op = x at h
  generalize perform venue op desk = r at h
  cases h with
  | ok settled =>
    obtain ⟨rfl, hafter⟩ := settled
    exact ⟨rfl, hafter⟩
  | error cause untouched => exact ⟨rfl, untouched⟩

/-- So are requests one after the other. -/
theorem run_eq (venue : Venue) (desk : Desk) (ops : List Operation) :
    (desk.run venue ops).1 = (Book.run venue desk.book ops).1 ∧
      (desk.run venue ops).2.book = (Book.run venue desk.book ops).2 := by
  induction ops generalizing desk with
  | nil => exact ⟨rfl, rfl⟩
  | cons op ops ih =>
    obtain ⟨hanswer, hbook⟩ := step_eq venue desk op
    obtain ⟨hanswers, hafter⟩ := ih (desk.step venue op).2
    rw [hbook] at hanswers hafter
    simp only [run, Book.run]
    exact ⟨by rw [hanswer, hanswers], hafter⟩

end Desk

namespace Book

/-- The requests that were not refused. -/
def granted (past : List Answered) : List Operation :=
  (past.filter fun answered => answered.2.isOk).map Prod.fst

/-- Without the refused requests the others are answered as before, and leave the same book. -/
theorem run_granted (venue : Venue) (book : Book) (ops : List Operation) :
    run venue book (granted (history venue book ops)) =
      ((run venue book ops).1.filter Except.isOk, (run venue book ops).2) := by
  induction ops generalizing book with
  | nil => rfl
  | cons op ops ih =>
    rw [history_cons]
    rcases step_cases venue book op with ⟨receipt, after, _, hstep, _⟩ | ⟨cause, hstep⟩
    · have hgranted : granted ((op, .ok receipt) :: history venue after ops) =
          op :: granted (history venue after ops) := rfl
      rw [hstep, hgranted]
      simp only [run, hstep, ih after]
      rfl
    · have hgranted : granted ((op, .error cause) :: history venue book ops) =
          granted (history venue book ops) := rfl
      rw [hstep, hgranted, ih book]
      simp only [run, hstep]
      rfl

/-- What is not a drain only appends to the log. -/
theorem log_prefix_step (venue : Venue) (book : Book) {op : Operation} (hop : op ≠ .drain) :
    book.log <+: (step venue book op).2.log := by
  rcases step_cases venue book op with ⟨receipt, after, events, hstep, hperformed⟩ | ⟨cause, hstep⟩
  · rw [hstep]
    have hlog := hperformed.drained_append
    cases hperformed with
    | drain => exact absurd rfl hop
    | addOrder | removeOrder | deposit | withdraw | takeOrders | clear => exact ⟨_, hlog.symm⟩
  · rw [hstep]

end Book

namespace Desk

/-- Requests made in place are answered as the book answers them and leave the same book. That is
the book which those of them leave that were not refused. Wherever one is refused, the book on the
desk is the one before it; and what is not a drain only appends to the log. -/
theorem run_atomic (venue : Venue) (desk : Desk) (ops : List Operation) :
    ((desk.run venue ops).1 = (Book.run venue desk.book ops).1 ∧
      (desk.run venue ops).2.book = (Book.run venue desk.book ops).2) ∧
    ((desk.run venue (Book.granted (ops.zip (desk.run venue ops).1))).1 =
        (desk.run venue ops).1.filter Except.isOk ∧
      (desk.run venue (Book.granted (ops.zip (desk.run venue ops).1))).2.book =
        (desk.run venue ops).2.book) ∧
    ∀ past op, past ++ [op] <+: ops →
      (∀ cause refused, perform venue op (desk.run venue past).2 = .error cause refused →
        refused.book = (desk.run venue past).2.book) ∧
      (op ≠ .drain →
        (desk.run venue past).2.book.log <+: (desk.run venue (past ++ [op])).2.book.log) := by
  obtain ⟨hanswers, hbook⟩ := run_eq venue desk ops
  refine ⟨⟨hanswers, hbook⟩, ?_, ?_⟩
  · obtain ⟨hanswers', hbook'⟩ := run_eq venue desk (Book.granted (ops.zip (desk.run venue ops).1))
    have hgranted := Book.run_granted venue desk.book ops
    rw [hanswers', hbook', hanswers, hbook, ← Book.history, hgranted]
    exact ⟨rfl, rfl⟩
  · intro past op _
    refine ⟨fun cause refused hrefused => book_of_perform_eq_error hrefused, ?_⟩
    intro hop
    rw [(run_eq venue desk past).2, (run_eq venue desk (past ++ [op])).2, Book.run_concat_snd]
    exact Book.log_prefix_step venue _ hop

end Desk

end Bourse
