import Mathlib.Data.Set.Function
import Bourse.Proofs.Book.Authorization
import Bourse.Proofs.Book.Refusals
import Bourse.Proofs.Order.Preimage

/-!
# What is known of a listed order

Only requests that list an order put an identifier on the list, and they check the program of the
order first. Whoever takes or matches orders presents them whole, so their programs are others
than the checked ones unless the identifiers tell them apart. If no two byte strings that are
digested have one digest, an order that is presented under a listed identifier has the program of
the listed one. Then its runs end as the check has promised, and it is never refused for what the
check rules out.
-/

namespace Bourse

/-- The failure is a fault that depends on values. -/
def EvalError.Dynamic : EvalError → Prop
  | .sourceAbsent _ => False
  | .fault _ _ cause => cause.isStatic = false

/-- The refusal is not for something that the check of a program rules out: a missing source, a
fault of the stack, of the constants or of the code, or an offer that is not one amount and one
price. -/
def Refusal.Sound : Refusal → Prop
  | .noOffer .. => False
  | .eval cause => cause.Dynamic
  | _ => True

/-- A refusal for what a request names has nothing to do with programs. -/
theorem Refusal.Plain.sound {cause : Refusal} (h : cause.Plain) : cause.Sound := by
  cases cause <;> trivial

/-- A source of a deployed program is one that the walk has gone through. -/
theorem Program.source_of_deploy {d : Deployment} {required : List Nat} {p : Program}
    (hdeploy : deploy d required = .ok p) {index : Nat} (hindex : index < d.sources.length) :
    ∃ code heights, p.source? index = some (code, heights) ∧
      Heights.walk p.constants.size code = .ok heights ∧
        required[index]?.getD 0 ≤ heights.last := by
  obtain ⟨rfl, hcheck⟩ := deploy_eq_ok hdeploy
  have hcode := List.getElem?_eq_getElem hindex
  obtain ⟨heights, hheights, hchecked⟩ := Deployment.check_eq_ok hcheck hcode
  obtain ⟨hwalk, hrequired⟩ := Code.check_eq_ok hchecked
  refine ⟨p.sources[index], heights, ?_, hwalk, hrequired⟩
  simp [source?, hcode, hheights]

/-- A run of a source that the walk has gone through fails on values only. -/
theorem Program.eval_failsOnly {p : Program} {entry : Entry} {code : Bytes} {heights : Heights}
    (hsource : p.source? entry.source.toNat = some (code, heights))
    (hwalk : Heights.walk p.constants.size code = .ok heights) (settings : Settings)
    (context : Context) (scratch : Scratch) :
    FailsOnly EvalError.Dynamic (p.eval settings entry context scratch) := by
  rcases eval_cases settings context scratch hsource hwalk with
    ⟨pos, cause, hfault, heval⟩ | ⟨m, _, _, heval⟩
  · rw [heval]
    exact .error hfault
  · rw [heval]
    exact .ok _

namespace Order

/-- The check has passed the first source with at least two values left, and a second one if the
order approves its trades. -/
structure Runnable (order : Order) : Prop where
  offers : ∃ code heights, order.program.source? 0 = some (code, heights) ∧
    Heights.walk order.program.constants.size code = .ok heights ∧ 2 ≤ heights.last
  approval : order.approves = true →
    ∃ code heights, order.program.source? 1 = some (code, heights) ∧
      Heights.walk order.program.constants.size code = .ok heights

namespace Runnable

variable {order : Order}

/-- Whether an order can be run depends on its program and on whether it approves its trades. -/
theorem congr {other : Order} (h : order.Runnable) (hprogram : order.program = other.program)
    (happroves : order.approves = other.approves) : other.Runnable := by
  obtain ⟨hoffers, happroval⟩ := h
  rw [hprogram] at hoffers happroval
  rw [happroves] at happroval
  exact ⟨hoffers, happroval⟩

/-- The computation of the offer fails on values only, or ends with two values. -/
theorem eval_offer (h : order.Runnable) (settings : Settings) (context : Context)
    (scratch : Scratch) :
    (∃ pos fault, fault.isStatic = false ∧
      order.program.eval settings ⟨0, 2⟩ context scratch = .error (.fault 0 pos fault)) ∨
    ∃ outcome maxOutput ratio, order.program.eval settings ⟨0, 2⟩ context scratch = .ok outcome ∧
      outcome.values = [maxOutput, ratio] := by
  obtain ⟨code, heights, hsource, hwalk, hlast⟩ := h.offers
  have hentry : order.program.source? (⟨0, 2⟩ : Entry).source.toNat = some (code, heights) :=
    hsource
  rcases Program.eval_cases settings context scratch hentry hwalk with
    ⟨pos, cause, hfault, heval⟩ | ⟨m, _, hheight, heval⟩
  · exact Or.inl ⟨pos, cause, hfault, heval⟩
  · have hlength : (m.stack.extract (m.stack.size - 2)).toList.length = 2 := by
      have hsize : m.stack.size = heights.last := hheight
      rw [Array.length_toList, Array.size_extract]
      omega
    obtain ⟨maxOutput, ratio, hvalues⟩ := List.length_eq_two.mp hlength
    exact Or.inr ⟨_, maxOutput, ratio, heval, hvalues⟩

/-- So does the approval of a trade. -/
theorem approve_failsOnly (h : order.Runnable) (venue : Venue) (q : Quote) (context : Context) :
    FailsOnly EvalError.Dynamic (venue.approve order q context) := by
  rw [Venue.approve]
  split
  · next happroves =>
    obtain ⟨code, heights, hsource, hwalk⟩ := h.approval happroves
    have hentry : order.program.source? (⟨1, 0⟩ : Entry).source.toNat = some (code, heights) :=
      hsource
    have heval := Program.eval_failsOnly hentry hwalk venue.settings context q.scratch
    exact heval.bind fun _ _ => .ok ()
  · exact .ok ()

variable {venue : Venue} {sender counterparty : Address}

/-- The quote of an order that can be run fails soundly only. -/
theorem quote_failsOnly (h : order.Runnable) (vaults : Overlay) (choice : LegChoice)
    (signed : List SignedRow) :
    FailsOnly Refusal.Sound (venue.quote vaults sender order choice counterparty signed) := by
  refine Venue.quote_failsOnly_of (fun _ => Refusal.Plain.sound) ?_ ?_ fun _ _ _ _ _ _ _ => trivial
  · intro context e he
    rcases h.eval_offer venue.settings context .empty with ⟨pos, fault, hfault, heval⟩
      | ⟨_, _, _, heval, _⟩
    · rw [heval] at he
      cases he
      exact hfault
    · rw [heval] at he
      cases he
  · intro context outcome houtcome
    rcases h.eval_offer venue.settings context .empty with ⟨_, _, _, heval⟩
      | ⟨_, maxOutput, ratio, heval, hvalues⟩
    · rw [heval] at houtcome
      cases houtcome
    · rw [heval] at houtcome
      cases houtcome
      exact Or.inl ⟨maxOutput, ratio, hvalues⟩

/-- The settlement of an order that can be run fails soundly only. -/
theorem settle_failsOnly (h : order.Runnable) (q : Quote) (received sent : Word) (j : Journal) :
    FailsOnly Refusal.Sound (venue.settle sender order q received sent j) := by
  refine FailsOnly.bind (.mapError fun _ _ => trivial) fun _ _ => ?_
  refine FailsOnly.bind (.mapError fun _ _ => trivial) fun _ _ => ?_
  refine FailsOnly.bind (.mapError (h.approve_failsOnly venue q _)) fun _ _ => ?_
  exact .ok _

end Runnable

end Order

namespace Book

variable {venue : Venue} {book : Book} {sender : Address}

/-- The request makes the book compute the identifier of the order. -/
inductive Identifies (venue : Venue) (book : Book) : Operation → Order → Prop
  | listed {sender : Address} {request : OrderRequest} {order : Order} {after : Book}
      (list : book.addOrder sender request = .ok (order, after)) :
      Identifies venue book (.addOrder sender request) order
  | removed (order : Order) : Identifies venue book (.removeOrder order.owner order) order
  /-- A taker comes to an order as long as something remains to be received. -/
  | taken {sender : Address} {request : TakeRequest} {done rest : List Take} {take : Take}
      {t : Taking} (takes : request.takes = done ++ take :: rest)
      (reached : done.foldlM (book.takeNext venue sender request)
        ⟨book.journal, request.maximumInput, 0⟩ = .ok t)
      (remaining : t.remaining ≠ 0) :
      Identifies venue book (.takeOrders sender request) take.order
  | first {sender : Address} {request : ClearRequest} {aInput aOutput bInput bOutput : Leg}
      (opposed : Opposed request aInput aOutput bInput bOutput) :
      Identifies venue book (.clear sender request) request.a
  /-- The second order of a match is looked for when the first one is listed. -/
  | second {sender : Address} {request : ClearRequest} {aInput aOutput bInput bOutput : Leg}
      (opposed : Opposed request aInput aOutput bInput bOutput)
      (live : book.isLive request.a.hash = true) :
      Identifies venue book (.clear sender request) request.b

/-- One of the requests makes the book compute the identifier of the order. -/
def Identified (venue : Venue) (ops : List Operation) (order : Order) : Prop :=
  ∃ before op after, ops = before ++ op :: after ∧
    Identifies venue (run venue empty before).2 op order

/-- What is digested for these requests: the bytes of each order and of its program. -/
def digested (venue : Venue) (ops : List Operation) : Set Bytes :=
  {bytes | ∃ order, Identified venue ops order ∧
    (bytes = order.preimage ∨ bytes = order.program.preimage)}

/-- What is identified by an earlier request stays so. -/
theorem Identified.concat {ops : List Operation} {order : Order} (h : Identified venue ops order)
    (op : Operation) : Identified venue (ops ++ [op]) order := by
  obtain ⟨before, first, after, rfl, hidentifies⟩ := h
  refine ⟨before, first, after ++ [op], ?_, hidentifies⟩
  rw [List.append_assoc, List.cons_append]

/-- What the last request identifies has been identified in the run. -/
theorem identified_last {ops : List Operation} {op : Operation} {order : Order}
    (h : Identifies venue (run venue empty ops).2 op order) :
    Identified venue (ops ++ [op]) order :=
  ⟨ops, op, [], rfl, h⟩

/-- The order that a request lists can be run. -/
theorem runnable_of_addOrder {request : OrderRequest} {order : Order} {after : Book}
    (h : book.addOrder sender request = .ok (order, after)) : order.Runnable := by
  obtain ⟨program, hsources, hdeploy, rfl, _⟩ := addOrder_eq_ok h
  refine ⟨?_, ?_⟩
  · have hfirst := List.length_pos_iff.mpr hsources
    exact Program.source_of_deploy hdeploy hfirst
  · intro happroves
    obtain ⟨code, heights, hsource, hwalk, _⟩ :=
      Program.source_of_deploy hdeploy (of_decide_eq_true happroves)
    exact ⟨code, heights, hsource, hwalk⟩

/-- A step that answers with an order has listed it. -/
theorem addOrder_of_step {request : OrderRequest} {order : Order} {after : Book}
    (h : step venue book (.addOrder sender request) = (.ok (.order order), after)) :
    book.addOrder sender request = .ok (order, after) := by
  rw [step, perform] at h
  cases hadd : book.addOrder sender request with
  | error cause =>
    rw [hadd] at h
    cases h
  | ok result =>
    rw [hadd] at h
    cases h
    rfl

/-- An identifier on the list was there before, or is the one of the order that was just listed. -/
theorem isLive_step {op : Operation} {hash : OrderHash}
    (h : (step venue book op).2.isLive hash = true) :
    book.isLive hash = true ∨ ∃ sender request order after, op = .addOrder sender request ∧
      book.addOrder sender request = .ok (order, after) ∧ order.hash = hash := by
  rcases step_cases venue book op with ⟨receipt, after, events, hstep, hperformed⟩ | ⟨cause, hstep⟩
  · rw [hstep] at h
    cases hperformed with
    | addOrder =>
      rcases SortedMap.contains_insert.mp h with rfl | hold
      · exact Or.inr ⟨_, _, _, _, rfl, addOrder_of_step hstep, rfl⟩
      · exact Or.inl hold
    | removeOrder => exact Or.inl (SortedMap.contains_erase.mp h).2
    | deposit extend | withdraw _ extend | takeOrders extend | clear _ extend =>
      rw [isLive, extend.live] at h
      exact Or.inl h
    | drain => exact Or.inl h
  · rw [hstep] at h
    exact Or.inl h

/-- Every listed identifier is the one of an order that was listed and can be run. -/
theorem exists_runnable_of_isLive {ops : List Operation} {hash : OrderHash}
    (h : (run venue empty ops).2.isLive hash = true) :
    ∃ order, Identified venue ops order ∧ order.Runnable ∧ order.hash = hash := by
  induction ops using List.reverseRecOn with
  | nil => cases h
  | append_singleton ops op ih =>
    rw [run_concat_snd] at h
    rcases isLive_step h with hold | ⟨sender, request, order, after, rfl, hadd, hhash⟩
    · obtain ⟨order, hidentified, hrunnable, hhash⟩ := ih hold
      exact ⟨order, hidentified.concat op, hrunnable, hhash⟩
    · exact ⟨order, identified_last (.listed hadd), runnable_of_addOrder hadd, hhash⟩

/-- Orders with one identifier have one program, if nothing else that is digested has its digest. -/
theorem program_eq_of_hash_eq {ops : List Operation}
    (hfree : Set.InjOn Sha256.digest (digested venue ops)) {a b : Order}
    (ha : Identified venue ops a) (hb : Identified venue ops b) (h : a.hash = b.hash) :
    a.program = b.program ∧ a.approves = b.approves := by
  have hpreimage : a.preimage = b.preimage :=
    hfree ⟨a, ha, Or.inl rfl⟩ ⟨b, hb, Or.inl rfl⟩ (congrArg OrderHash.digest h)
  obtain ⟨_, happroves, hid, _⟩ := Order.fixed_of_preimage_eq hpreimage
  have hdigest : Sha256.digest a.program.preimage = Sha256.digest b.program.preimage := by
    rw [a.program.id_eq, b.program.id_eq] at hid
    exact congrArg ProgramId.digest hid
  have hprogram := hfree ⟨a, ha, Or.inr rfl⟩ ⟨b, hb, Or.inr rfl⟩ hdigest
  exact ⟨Program.preimage_inj hprogram, happroves⟩

/-- An order that is presented under a listed identifier can be run. -/
theorem Identified.runnable {past : List Operation} {op : Operation} {order : Order}
    (h : Identified venue (past ++ [op]) order)
    (hfree : Set.InjOn Sha256.digest (digested venue (past ++ [op])))
    (hlive : (run venue empty past).2.isLive order.hash = true) : order.Runnable := by
  obtain ⟨listed, hlisted, hrunnable, hhash⟩ := exists_runnable_of_isLive hlive
  obtain ⟨hprogram, happroves⟩ := program_eq_of_hash_eq hfree (hlisted.concat op) h hhash
  exact hrunnable.congr hprogram happroves

/-- Taking orders fails soundly if those among them that are listed can be run. -/
theorem takeOrders_sound {request : TakeRequest}
    (hrunnable : ∀ order, Identifies venue book (.takeOrders sender request) order →
      book.isLive order.hash = true → order.Runnable) :
    FailsOnly Refusal.Sound (book.takeOrders venue sender request) := by
  refine takeOrders_failsOnly_of (fun _ => Refusal.Plain.sound) ?_
  intro done take rest t htakes hreached hremaining hlive
  have htaken := hrunnable _ (.taken htakes hreached hremaining) hlive
  refine takeLive_failsOnly_of (htaken.quote_failsOnly _ _ _) fun q _ => ?_
  refine FailsOnly.bind (.mapError fun _ _ => trivial) fun _ _ => ?_
  refine FailsOnly.bind (.mapError fun _ _ => trivial) fun _ _ => ?_
  refine FailsOnly.bind (.mapError fun _ _ => trivial) fun _ _ => ?_
  exact (htaken.settle_failsOnly _ _ _ _).bind fun _ _ => .ok _

/-- A match fails soundly if its orders can be run once they are listed. -/
theorem clear_sound {request : ClearRequest}
    (hrunnable : ∀ order, Identifies venue book (.clear sender request) order →
      book.isLive order.hash = true → order.Runnable) :
    FailsOnly Refusal.Sound (book.clear venue sender request) := by
  refine clear_failsOnly_of (fun _ => Refusal.Plain.sound) ?_ ?_ (fun _ _ _ _ => trivial) ?_
  · intro aInput aOutput bInput bOutput hopposed haLive _
    exact (hrunnable _ (.first hopposed) haLive).quote_failsOnly _ _ _
  · intro aInput aOutput bInput bOutput hopposed haLive hbLive
    exact (hrunnable _ (.second hopposed haLive) hbLive).quote_failsOnly _ _ _
  · intro aInput aOutput bInput bOutput p q crossing h
    have ha := hrunnable _ (.first h.opposed) h.aLive
    have hb := hrunnable _ (.second h.opposed h.aLive) h.bLive
    rw [h.clear_eq]
    refine (ha.settle_failsOnly _ _ _ _).bind fun _ _ => ?_
    refine (hb.settle_failsOnly _ _ _ _).bind fun _ _ => ?_
    exact FailsOnly.bind (.mapError fun _ _ => trivial) fun _ _ => .ok _

/-- Listing an order is refused for the legs or for the check of its program, which is sound. -/
theorem addOrder_sound (request : OrderRequest) :
    FailsOnly Refusal.Sound (book.addOrder sender request) := by
  refine (require_failsOnly (by trivial)).bind fun _ _ => ?_
  refine (require_failsOnly (by trivial)).bind fun _ _ => ?_
  refine (require_failsOnly (by trivial)).bind fun _ _ => ?_
  exact FailsOnly.bind (.mapError fun _ _ => trivial) fun _ _ => .ok _

theorem deposit_sound (request : Transfer) :
    FailsOnly Refusal.Sound (book.deposit sender request) := by
  refine (require_failsOnly (by trivial)).bind fun _ _ => ?_
  exact FailsOnly.bind (.mapError fun _ _ => trivial) fun _ _ => .ok _

theorem withdraw_sound (request : Transfer) :
    FailsOnly Refusal.Sound (book.withdraw sender request) := by
  refine (require_failsOnly (by trivial)).bind fun _ _ => ?_
  exact FailsOnly.bind (.mapError fun _ _ => trivial) fun _ _ => .ok _

/-- No request is refused for what the check rules out, if the orders that it comes to can be run
when they are listed. -/
theorem step_sound {op : Operation}
    (hrunnable : ∀ order, Identifies venue book op order → book.isLive order.hash = true →
      order.Runnable) : FailsOnly Refusal.Sound (step venue book op).1 := by
  have hperform : FailsOnly Refusal.Sound (book.perform venue op) := by
    cases op with
    | addOrder sender request => exact (addOrder_sound request).bind fun _ _ => .ok _
    | removeOrder sender order =>
      exact ((require_failsOnly (by trivial)).bind fun _ _ => .ok _).bind fun _ _ => .ok _
    | deposit sender request => exact (deposit_sound request).bind fun _ _ => .ok _
    | withdraw sender request => exact (withdraw_sound request).bind fun _ _ => .ok _
    | takeOrders sender request => exact (takeOrders_sound hrunnable).bind fun _ _ => .ok _
    | clear sender request => exact (clear_sound hrunnable).bind fun _ _ => .ok _
    | drain => exact .ok _
  rw [step]
  cases h : book.perform venue op with
  | error cause => exact .error (hperform cause h)
  | ok result => exact .ok _

/-- After every sequence of requests and for every next one: if no two byte strings that have been
digested have one digest, the request is not refused for what the check of a program rules out,
and the program of an order that is presented under a listed identifier fails on values only or
computes an amount and a price. -/
theorem live_orders_sound (venue : Venue) (past : List Operation) (op : Operation)
    (hfree : Set.InjOn Sha256.digest (digested venue (past ++ [op]))) :
    FailsOnly Refusal.Sound (step venue (run venue empty past).2 op).1 ∧
    ∀ order, Identified venue (past ++ [op]) order →
      (run venue empty past).2.isLive order.hash = true → ∀ context,
        (∃ pos fault, fault.isStatic = false ∧
          order.program.eval venue.settings ⟨0, 2⟩ context .empty = .error (.fault 0 pos fault)) ∨
        ∃ outcome maxOutput ratio,
          order.program.eval venue.settings ⟨0, 2⟩ context .empty = .ok outcome ∧
          outcome.values = [maxOutput, ratio] := by
  refine ⟨step_sound ?_, ?_⟩
  · intro order hidentifies hlive
    exact (identified_last hidentifies).runnable hfree hlive
  · intro order hidentified hlive context
    exact (hidentified.runnable hfree hlive).eval_offer venue.settings context .empty

/-- In a run in which one order is listed and taken, no other order is identified. -/
private theorem identified_parTake {order : Order}
    (h : Identified parVenue (parPast ++ [parTake]) order) : order = parOrder := by
  obtain ⟨before, op, after, hsplit, hidentifies⟩ := h
  have hmem : op ∈ parPast ++ [parTake] := by
    rw [hsplit]
    exact List.mem_append_right _ List.mem_cons_self
  simp only [parPast, parTake, List.cons_append, List.nil_append, List.mem_cons, List.not_mem_nil,
    or_false] at hmem
  rcases hmem with rfl | rfl | rfl
  · cases hidentifies
  · cases hidentifies with
    | listed hadd =>
      obtain ⟨program, _, hdeploy, rfl, _⟩ := addOrder_eq_ok hadd
      have hpar : Program.deploy parRequest.deployment [2, 0] = .ok parProgram := rfl
      rw [hpar] at hdeploy
      cases hdeploy
      rfl
  · cases hidentifies with
    | @taken _ _ done rest take t takes reached remaining =>
      have htake : take ∈ done ++ take :: rest := List.mem_append_right _ List.mem_cons_self
      rw [← takes] at htake
      rw [List.mem_singleton.mp htake]

/-- The order and its program have different identifiers. -/
private theorem digest_parOrder_ne :
    Sha256.digest parOrder.preimage ≠ Sha256.digest parOrder.program.preimage := by
  decide +kernel

/-- The identifiers of an order and of its program differ, so taking the order is sound. -/
theorem live_orders_sound_parTake :
    Set.InjOn Sha256.digest (digested parVenue (parPast ++ [parTake])) ∧
    FailsOnly Refusal.Sound (step parVenue (run parVenue empty parPast).2 parTake).1 ∧
    ∀ order, Identified parVenue (parPast ++ [parTake]) order →
      (run parVenue empty parPast).2.isLive order.hash = true → ∀ context,
        (∃ pos fault, fault.isStatic = false ∧
          order.program.eval parVenue.settings ⟨0, 2⟩ context .empty =
            .error (.fault 0 pos fault)) ∨
        ∃ outcome maxOutput ratio,
          order.program.eval parVenue.settings ⟨0, 2⟩ context .empty = .ok outcome ∧
          outcome.values = [maxOutput, ratio] := by
  have hfree : Set.InjOn Sha256.digest (digested parVenue (parPast ++ [parTake])) := by
    rintro x ⟨a, ha, hx⟩ y ⟨b, hb, hy⟩ hxy
    rw [identified_parTake ha] at hx
    rw [identified_parTake hb] at hy
    rcases hx with rfl | rfl <;> rcases hy with rfl | rfl
    · rfl
    · exact absurd hxy digest_parOrder_ne
    · exact absurd hxy.symm digest_parOrder_ne
    · rfl
  exact ⟨hfree, live_orders_sound parVenue parPast parTake hfree⟩

end Book

end Bourse
