import Bourse.Proofs.Book.Performed

/-!
# Who can take from a vault

A balance becomes smaller only when the owner of the vault withdraws from it, or when an order of
the owner is filled that sends from it. Whoever takes or matches orders presents them whole, and
the book compares no more than their identifiers with the listed ones. So the argument goes from a
listed identifier to the request of the owner that has listed it, and from there, as long as no
two orders have one identifier, to the order that was presented.
-/

namespace Bourse

/-- The choice of legs makes the order send from the vault, which is one of its owner. -/
def Order.SendsFrom (order : Order) (choice : LegChoice) (key : VaultKey) : Prop :=
  order.owner = key.owner ∧ ∃ leg, order.output? choice.output = some leg ∧
    leg.token = key.token ∧ leg.vault = key.vault

/-- The orders that an event shows. -/
def Event.orders : Event → List Order
  | .listed _ _ order _ => [order]
  | .removed _ order _ => [order]
  | .taken _ take _ _ => [take.order]
  | .matching _ a b _ => [a, b]
  | _ => []

/-- The orders that an event shows as traded. -/
def Event.traded : Event → List Order
  | .taken _ take _ _ => [take.order]
  | .matching _ a b _ => [a, b]
  | _ => []

/-- What a trade takes is sent by the order. -/
theorem Order.sendsFrom_of_tradePostings {order : Order} {choice : LegChoice} {input output : Word}
    {p : Posting} (hp : p ∈ order.tradePostings choice input output) (hneg : p.amount < 0) :
    order.SendsFrom choice p.key := by
  cases hlegs : order.legs choice with
  | error cause =>
    rw [tradePostings, hlegs] at hp
    cases hp
  | ok legs =>
    obtain ⟨inputLeg, outputLeg⟩ := legs
    obtain ⟨_, hout⟩ := legs_eq_ok_iff.mp hlegs
    rw [tradePostings_of_legs hlegs] at hp
    rcases List.mem_pair.mp hp with rfl | rfl
    · simp only [Posting.credit] at hneg
      omega
    · exact ⟨rfl, outputLeg, hout, rfl, rfl⟩

/-- What is left over comes into a vault. -/
theorem Order.surplusPostings_nonneg {order : Order} {choice : LegChoice} {sender : Address}
    {vault : Word} {surplus : Int} {p : Posting}
    (hp : p ∈ order.surplusPostings choice sender vault surplus) (hsurplus : 0 ≤ surplus) :
    0 ≤ p.amount := by
  cases hlegs : order.legs choice with
  | error cause =>
    rw [surplusPostings, hlegs] at hp
    cases hp
  | ok legs =>
    obtain ⟨inputLeg, outputLeg⟩ := legs
    rw [surplusPostings_of_legs hlegs, List.mem_singleton] at hp
    rw [hp]
    exact hsurplus

/-- What a match takes is sent by one of the two orders. -/
theorem Book.ClearStep.sendsFrom {book : Book} {venue : Venue} {sender : Address}
    {request : ClearRequest} {aInput aOutput bInput bOutput : Leg} {p q : Quote}
    {crossing : Crossing} {journal : Journal}
    (h : ClearStep book venue sender request aInput aOutput bInput bOutput p q crossing journal)
    {posting : Posting}
    (hmem : posting ∈ request.terms.postings sender request.a request.b crossing)
    (hneg : posting.amount < 0) :
    request.a.SendsFrom request.terms.a posting.key ∨
      request.b.SendsFrom request.terms.b posting.key := by
  have ha := h.aSurplus
  have hb := h.bSurplus
  simp only [ClearTerms.postings, List.mem_append] at hmem
  rcases hmem with ((htrade | htrade) | hsurplus) | hsurplus
  · exact Or.inl (Order.sendsFrom_of_tradePostings htrade hneg)
  · exact Or.inr (Order.sendsFrom_of_tradePostings htrade hneg)
  · have hnonneg := Order.surplusPostings_nonneg hsurplus (by omega)
    omega
  · have hnonneg := Order.surplusPostings_nonneg hsurplus (by omega)
    omega

/-- What the events of a taker take is sent by an order that was filled, and that was listed. -/
theorem Event.OfTaking.sendsFrom {book : Book} {sender : Address} {request : TakeRequest}
    {e : Event} (h : e.OfTaking book sender request) {p : Posting} (hp : p ∈ e.postings)
    (hneg : p.amount < 0) :
    ∃ take input output, e = .taken sender take input output ∧ take ∈ request.takes ∧
      book.isLive take.order.hash = true ∧ take.order.SendsFrom take.legs p.key := by
  cases h with
  | notListed | tooExpensive | nothingOffered | settled => cases hp
  | taken input output mem live legs inputToken outputToken =>
    exact ⟨_, input, output, rfl, mem, live, Order.sendsFrom_of_tradePostings hp hneg⟩

namespace Book

/-- The owner has listed the order, and it was not taken off the list since. -/
def Standing (past : List Answered) (order : Order) : Prop :=
  ∃ before request since,
    past = before ++ (.addOrder order.owner request, .ok (.order order)) :: since ∧
      ∀ sender receipt, (.removeOrder sender order, .ok receipt) ∉ since

/-- An order that was just listed by its owner stands. -/
theorem standing_concat_addOrder (past : List Answered) (request : OrderRequest) (order : Order) :
    Standing (past ++ [(.addOrder order.owner request, .ok (.order order))]) order := by
  refine ⟨past, request, [], rfl, ?_⟩
  intro sender receipt hmem
  cases hmem

/-- An order stands until it is taken off the list. -/
theorem Standing.concat {past : List Answered} {order : Order} {answered : Answered}
    (h : Standing past order)
    (hkept : ∀ sender receipt, (.removeOrder sender order, .ok receipt) ≠ answered) :
    Standing (past ++ [answered]) order := by
  obtain ⟨before, request, since, rfl, hsince⟩ := h
  refine ⟨before, request, since ++ [answered], ?_, ?_⟩
  · rw [List.append_assoc, List.cons_append]
  · intro sender receipt hmem
    rcases List.mem_append.mp hmem with hmem | hmem
    · exact hsince sender receipt hmem
    · exact hkept sender receipt (List.mem_singleton.mp hmem)

/-- Every listed identifier is the one of an order that stands, and that the log shows. -/
def ListedStand (past : List Answered) (book : Book) : Prop :=
  ∀ hash, book.isLive hash = true → ∃ order, order.hash = hash ∧ Standing past order ∧
    order ∈ (chronicle past book).flatMap Event.orders

/-- A request that leaves the list as it is, and takes off no order, keeps what is listed
standing. -/
theorem ListedStand.concat {past : List Answered} {before after : Book} {answered : Answered}
    {events : List Event} (h : ListedStand past before) (hlive : after.live = before.live)
    (hkept : ∀ sender order receipt, (.removeOrder sender order, .ok receipt) ≠ answered)
    (hchronicle : chronicle (past ++ [answered]) after = chronicle past before ++ events) :
    ListedStand (past ++ [answered]) after := by
  intro hash hhash
  rw [isLive, hlive] at hhash
  obtain ⟨order, horder, hstanding, hshown⟩ := h hash hhash
  refine ⟨order, horder, hstanding.concat fun sender receipt => hkept sender order receipt, ?_⟩
  rw [hchronicle, List.flatMap_append]
  exact List.mem_append_left _ hshown

/-- Every request keeps what is listed standing. -/
theorem ListedStand.performed {venue : Venue} {past : List Answered} {book after : Book}
    {op : Operation} {receipt : Receipt} {events : List Event} (h : ListedStand past book)
    (hperformed : Performed venue book op receipt after events) :
    ListedStand (past ++ [(op, .ok receipt)]) after := by
  have hchronicle := hperformed.chronicle_eq past
  cases hperformed with
  | @addOrder sender request program order _ deploy order_eq events_eq =>
    have howner : sender = order.owner := by rw [order_eq, OrderRequest.order]
    intro hash hhash
    rw [hchronicle, List.flatMap_append]
    rcases SortedMap.contains_insert.mp hhash with rfl | hold
    · subst howner events_eq
      refine ⟨order, rfl, standing_concat_addOrder past request order, ?_⟩
      exact List.mem_append_right _ (List.mem_singleton.mpr rfl)
    · obtain ⟨other, hother, hstanding, hshown⟩ := h hash hold
      refine ⟨other, hother, hstanding.concat ?_, List.mem_append_left _ hshown⟩
      rintro sender' receipt' ⟨⟩
  | @removeOrder sender order owner =>
    intro hash hhash
    obtain ⟨hne, hold⟩ := SortedMap.contains_erase.mp hhash
    obtain ⟨other, hother, hstanding, hshown⟩ := h hash hold
    refine ⟨other, hother, hstanding.concat ?_, ?_⟩
    · -- An order with another identifier is another order.
      rintro sender' receipt' ⟨⟩
      exact hne hother.symm
    · rw [hchronicle, List.flatMap_append]
      exact List.mem_append_left _ hshown
  | deposit extend => exact h.concat extend.live (by rintro _ _ _ ⟨⟩) hchronicle
  | withdraw capped extend => exact h.concat extend.live (by rintro _ _ _ ⟨⟩) hchronicle
  | takeOrders extend total cost ofTaking =>
    exact h.concat extend.live (by rintro _ _ _ ⟨⟩) hchronicle
  | clear step extend => exact h.concat extend.live (by rintro _ _ _ ⟨⟩) hchronicle
  | drain => exact h.concat rfl (by rintro _ _ _ ⟨⟩) hchronicle

/-- After every sequence of requests what is listed stands. -/
theorem listedStand_run (venue : Venue) (ops : List Operation) :
    ListedStand (history venue empty ops) (run venue empty ops).2 := by
  refine run_induction ?_ ?_ ?_ ops
  · intro hash hhash
    cases hhash
  · intro past book op receipt after events ih hperformed
    exact ih.performed hperformed
  · intro past book op cause ih
    refine ih.concat rfl ?_ ((chronicle_refused past book op cause).trans (List.append_nil _).symm)
    rintro _ _ _ ⟨⟩

/-- No two orders that these events show have one identifier. -/
def Unmistakable (events : List Event) : Prop :=
  ∀ a ∈ events.flatMap Event.orders, ∀ b ∈ events.flatMap Event.orders, a.hash = b.hash → a = b

/-- A request takes from a vault with the consent of its owner: the owner withdraws, or an order
of the owner stands and is filled with legs that send from the vault. -/
inductive Consented (past : List Answered) (key : VaultKey) :
    Operation → Receipt → List Event → Prop
  | withdraw {request : Transfer} {amount : Word} {events : List Event}
      (token : request.token = key.token) (vault : request.vault = key.vault) :
      Consented past key (.withdraw key.owner request) (.amount amount) events
  | taken {sender : Address} {request : TakeRequest} {take : Take}
      {input output received paid : Word} {events : List Event} (mem : take ∈ request.takes)
      (filled : .taken sender take input output ∈ events)
      (sends : take.order.SendsFrom take.legs key) (standing : Standing past take.order) :
      Consented past key (.takeOrders sender request) (.totals received paid) events
  | matched {sender : Address} {request : ClearRequest} {order : Order} {choice : LegChoice}
      {crossing : Crossing} {events : List Event}
      (mem : (order, choice) ∈ [(request.a, request.terms.a), (request.b, request.terms.b)])
      (sends : order.SendsFrom choice key) (standing : Standing past order) :
      Consented past key (.clear sender request) (.crossing crossing) events

/-- An order that is presented with the identifier of a listed one stands, if it cannot be
mistaken. -/
theorem ListedStand.standing {past : List Answered} {book : Book} {order : Order}
    {events : List Event} (h : ListedStand past book) (hlive : book.isLive order.hash = true)
    (hdistinct : Unmistakable (chronicle past book ++ events))
    (hshown : order ∈ events.flatMap Event.orders) : Standing past order := by
  obtain ⟨listed, hhash, hstanding, hlisted⟩ := h order.hash hlive
  rw [Unmistakable, List.flatMap_append] at hdistinct
  have hsame : listed = order :=
    hdistinct listed (List.mem_append_left _ hlisted) order (List.mem_append_right _ hshown) hhash
  exact hsame ▸ hstanding

/-- What is performed lowers a balance with consent only. -/
theorem Performed.consented {venue : Venue} {past : List Answered} {book after : Book}
    {op : Operation} {receipt : Receipt} {events : List Event} {key : VaultKey}
    (h : Performed venue book op receipt after events) (hlisted : ListedStand past book)
    (hdistinct : Unmistakable (chronicle past book ++ events))
    (hless : after.vaults.balance key < book.vaults.balance key) :
    Consented past key op receipt events := by
  cases h with
  | addOrder | removeOrder | drain => exact absurd hless (Nat.lt_irrefl _)
  | deposit extend =>
    obtain ⟨p, hp, _, hneg⟩ := extend.posted.exists_debit hless
    rw [List.mem_singleton.mp hp, Posting.credit] at hneg
    simp only at hneg
    omega
  | withdraw capped extend =>
    obtain ⟨p, hp, hkey, _⟩ := extend.posted.exists_debit hless
    rw [List.mem_singleton.mp hp] at hkey
    subst hkey
    exact .withdraw rfl rfl
  | takeOrders extend total cost ofTaking =>
    obtain ⟨p, hp, rfl, hneg⟩ := extend.posted.exists_debit hless
    obtain ⟨e, he, hp⟩ := List.mem_flatMap.mp hp
    obtain ⟨take, input, output, rfl, hmem, hlive, hsends⟩ := (ofTaking e he).sendsFrom hp hneg
    have hshown : take.order ∈ events.flatMap Event.orders :=
      List.mem_flatMap.mpr ⟨_, he, List.mem_singleton.mpr rfl⟩
    exact .taken hmem he hsends (hlisted.standing hlive hdistinct hshown)
  | @clear sender request aInput aOutput bInput bOutput p q crossing journal after step extend =>
    obtain ⟨p, hp, rfl, hneg⟩ := extend.posted.exists_debit hless
    have hshown : ∀ order ∈ [request.a, request.b],
        order ∈ journal.events.flatMap Event.orders := by
      intro order horder
      rw [step.events]
      exact List.mem_append_left _ horder
    rcases step.sendsFrom hp hneg with hsends | hsends
    · have hstanding := hlisted.standing step.aLive hdistinct (hshown request.a (by simp))
      exact .matched (by simp) hsends hstanding
    · have hstanding := hlisted.standing step.bLive hdistinct (hshown request.b (by simp))
      exact .matched (by simp) hsends hstanding

/-- After every sequence of requests, the next one lowers a balance with the consent of the owner
of the vault only. -/
theorem consented_of_balance_lt (venue : Venue) (past : List Operation) (op : Operation)
    (key : VaultKey)
    (hdistinct : Unmistakable (chronicle (history venue empty (past ++ [op]))
      (run venue empty (past ++ [op])).2))
    (hless : (run venue empty (past ++ [op])).2.vaults.balance key <
      (run venue empty past).2.vaults.balance key) :
    ∃ receipt events, (step venue (run venue empty past).2 op).1 = .ok receipt ∧
      (step venue (run venue empty past).2 op).2.log = (run venue empty past).2.log ++ events ∧
      Consented (history venue empty past) key op receipt events := by
  rw [history_concat, run_concat_snd] at hdistinct
  rw [run_concat_snd] at hless
  rcases step_cases venue (run venue empty past).2 op with
    ⟨receipt, after, events, hstep, hperformed⟩ | ⟨cause, hstep⟩
  · rw [hstep] at hdistinct hless ⊢
    rw [hperformed.chronicle_eq] at hdistinct
    have hconsented := hperformed.consented (listedStand_run venue past) hdistinct hless
    refine ⟨receipt, events, rfl, ?_, hconsented⟩
    have hlog := hperformed.drained_append
    cases hconsented <;> exact hlog
  · rw [hstep] at hless
    exact absurd hless (Nat.lt_irrefl _)

/-- The request that lists the order at the price of one. -/
def parRequest : OrderRequest where
  inputs := [⟨.ofNat 3, 18, 0⟩]
  outputs := [⟨.ofNat 4, 18, 0⟩]
  deployment := parProgram.toDeployment
  data := []

/-- The account deposits what its order is to send, and lists it. -/
def parPast : List Operation :=
  [.deposit (.ofNat 1) ⟨.ofNat 4, 0, 7⟩, .addOrder (.ofNat 1) parRequest]

/-- Another account takes the order. -/
def parTake : Operation :=
  .takeOrders (.ofNat 2) ⟨.ofNat 3, .ofNat 4, 0, 100, 1000000000000000000, [⟨parOrder, ⟨0, 0⟩, []⟩]⟩

/-- The order is shown when it is listed and when it is taken, and is traded once. -/
theorem run_parTake :
    (chronicle (history parVenue empty (parPast ++ [parTake]))
      (run parVenue empty (parPast ++ [parTake])).2).flatMap Event.orders = [parOrder, parOrder] ∧
    (chronicle (history parVenue empty (parPast ++ [parTake]))
      (run parVenue empty (parPast ++ [parTake])).2).flatMap Event.traded = [parOrder] ∧
    (run parVenue empty (parPast ++ [parTake])).2.vaults.balance ⟨.ofNat 1, .ofNat 4, 0⟩ <
      (run parVenue empty parPast).2.vaults.balance ⟨.ofNat 1, .ofNat 4, 0⟩ := by
  decide +kernel

/-- The order is the only one that is shown, and taking it lowers the balance from which it
sends. -/
theorem consented_parTake :
    Unmistakable (chronicle (history parVenue empty (parPast ++ [parTake]))
      (run parVenue empty (parPast ++ [parTake])).2) ∧
    (run parVenue empty (parPast ++ [parTake])).2.vaults.balance ⟨.ofNat 1, .ofNat 4, 0⟩ <
      (run parVenue empty parPast).2.vaults.balance ⟨.ofNat 1, .ofNat 4, 0⟩ ∧
    ∃ receipt events, (step parVenue (run parVenue empty parPast).2 parTake).1 = .ok receipt ∧
      (step parVenue (run parVenue empty parPast).2 parTake).2.log =
        (run parVenue empty parPast).2.log ++ events ∧
      Consented (history parVenue empty parPast) ⟨.ofNat 1, .ofNat 4, 0⟩ parTake receipt
        events := by
  obtain ⟨horders, _, hless⟩ := run_parTake
  have hdistinct : Unmistakable (chronicle (history parVenue empty (parPast ++ [parTake]))
      (run parVenue empty (parPast ++ [parTake])).2) := by
    intro a ha b hb _
    rw [horders, List.mem_pair, or_self] at ha hb
    rw [ha, hb]
  exact ⟨hdistinct, hless, consented_of_balance_lt parVenue parPast parTake _ hdistinct hless⟩

end Book

end Bourse
