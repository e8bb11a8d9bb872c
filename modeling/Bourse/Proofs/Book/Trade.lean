import Bourse.Book.Settlement
import Bourse.Proofs.Vault.Posting
import Bourse.Proofs.Word

/-!
# What a trade moves

A quote fixes the two vaults of a trade, and the settlement posts to these two vaults and to no
others. So the order and the choice of its legs are enough to tell the postings of a trade.
-/

namespace Bourse

/-- What moves when an order receives `input` and sends `output`. An order without the legs cannot
trade, so nothing moves. -/
def Order.tradePostings (order : Order) (legs : LegChoice) (input output : Word) : List Posting :=
  match order.legs legs with
  | .ok (inputLeg, outputLeg) =>
    [.credit (inputLeg.key order.owner) input, .debit (outputLeg.key order.owner) output]
  | .error _ => []

/-- A trade credits the input vault of the owner and debits the output vault. -/
theorem Order.tradePostings_of_legs {order : Order} {legs : LegChoice} {inputLeg outputLeg : Leg}
    (h : order.legs legs = .ok (inputLeg, outputLeg)) (input output : Word) :
    order.tradePostings legs input output =
      [.credit (inputLeg.key order.owner) input, .debit (outputLeg.key order.owner) output] := by
  rw [tradePostings, h]

/-- The legs of a trade are the chosen ones of the order. -/
theorem Order.legs_eq_ok_iff {order : Order} {choice : LegChoice} {input output : Leg} :
    order.legs choice = .ok (input, output) ↔
      order.input? choice.input = some input ∧ order.output? choice.output = some output := by
  rw [legs]
  cases hin : order.input? choice.input with
  | none => simp
  | some i =>
    cases hout : order.output? choice.output with
    | none => simp
    | some o => simp

namespace Venue

/-- A quote is the result of the first source of the program of the order, in the context of the
call and over the balances of the two vaults. -/
theorem quote_eq_ok {venue : Venue} {vaults : Overlay} {sender : Address} {order : Order}
    {choice : LegChoice} {counterparty : Address} {signed : List SignedRow} {q : Quote}
    (h : venue.quote vaults sender order choice counterparty signed = .ok q) :
    ∃ input output context outcome maxOutput ratio,
      order.legs choice = .ok (input, output) ∧
      venue.offerContext vaults sender order input output counterparty signed = .ok context ∧
      order.program.eval venue.settings ⟨0, 2⟩ context .empty = .ok outcome ∧
      outcome.values = [maxOutput, ratio] ∧
      Offer.ofDecimals maxOutput ratio output.decimals input.decimals
        (vaults.balance (output.key order.owner)) = .ok q.toOffer ∧
      q.inputVault = input.key order.owner ∧ q.outputVault = output.key order.owner ∧
      q.context = context.setColumn Quote.offerColumn [q.maxOutput, q.ratio]
        (Nat.le_of_ble_eq_true rfl) ∧
      q.scratch = outcome.scratch := by
  simp only [quote, bind_eq_ok_iff, mapError_eq_ok_iff] at h
  obtain ⟨⟨input, output⟩, hlegs, context, hcontext, outcome, heval, hrest⟩ := h
  split at hrest
  · next maxOutput ratio hvalues =>
    simp only [bind_eq_ok_iff, mapError_eq_ok_iff, pure_eq_ok_iff] at hrest
    obtain ⟨offer, hoffer, rfl⟩ := hrest
    exact ⟨input, output, context, outcome, maxOutput, ratio, hlegs, hcontext, heval, hvalues,
      hoffer, rfl, rfl, rfl, rfl⟩
  · cases hrest

end Venue

namespace Journal

@[simp] theorem vaults_note (j : Journal) (event : Event) : (j.note event).vaults = j.vaults := rfl

@[simp] theorem events_note (j : Journal) (event : Event) :
    (j.note event).events = j.events ++ [event] := rfl

/-- A credit that succeeds posts the amount and notes nothing. -/
theorem credit_eq_ok {j j' : Journal} {key : VaultKey} {amount : Word}
    (h : j.credit key amount = .ok j') :
    j'.events = j.events ∧
      Posted j.vaults.balance j'.vaults.balance [Posting.credit key amount] := by
  rw [credit] at h
  split at h
  · next hzero =>
    cases h
    refine ⟨rfl, ?_⟩
    intro other
    simp [hzero, Posting.credit, Posting.inVault]
  · rw [bind_eq_ok_iff] at h
    obtain ⟨vaults, hvaults, hj⟩ := h
    rw [pure_eq_ok_iff] at hj
    subst hj
    exact ⟨rfl, Overlay.credit_posted hvaults⟩

/-- A debit that succeeds posts the amount and notes nothing. -/
theorem debit_eq_ok {j j' : Journal} {key : VaultKey} {amount : Word}
    (h : j.debit key amount = .ok j') :
    j'.events = j.events ∧
      Posted j.vaults.balance j'.vaults.balance [Posting.debit key amount] := by
  rw [debit] at h
  split at h
  · next hzero =>
    cases h
    refine ⟨rfl, ?_⟩
    intro other
    simp [hzero, Posting.debit, Posting.inVault]
  · rw [bind_eq_ok_iff] at h
    obtain ⟨vaults, hvaults, hj⟩ := h
    rw [pure_eq_ok_iff] at hj
    subst hj
    exact ⟨rfl, Overlay.debit_posted hvaults⟩

/-- What a credit leaves in a vault. -/
theorem balance_of_credit {j j' : Journal} {key : VaultKey} {amount : Word}
    (h : j.credit key amount = .ok j') (other : VaultKey) :
    (j'.vaults.balance other).toNat =
      (j.vaults.balance other).toNat + if key = other then amount.toNat else 0 := by
  have hposted := (credit_eq_ok h).2 other
  simp only [Posting.net_cons, Posting.net_nil, Posting.inVault, Posting.credit] at hposted
  by_cases hkey : key = other
  · simp only [hkey, if_true] at hposted ⊢
    omega
  · simp only [hkey, if_false] at hposted ⊢
    omega

/-- There is room for a credit when the sum fits a word. -/
theorem exists_credit_iff {j : Journal} {key : VaultKey} {amount : Word} :
    (∃ j', j.credit key amount = .ok j') ↔
      (j.vaults.balance key).toNat + amount.toNat < 2 ^ 256 := by
  have hbalance := (j.vaults.balance key).toNat_lt
  rw [credit]
  split
  · next hzero =>
    refine iff_of_true ⟨j, rfl⟩ ?_
    rw [hzero, Word.toNat_zero]
    omega
  · constructor
    · rintro ⟨j', h⟩
      simp only [Overlay.credit, bind_eq_ok_iff] at h
      obtain ⟨_, ⟨sum, hsum, _⟩, _⟩ := h
      have hlt := sum.toNat_lt
      rw [Arithmetic.add_eq_ok_iff.mp hsum] at hlt
      exact hlt
    · intro hlt
      have hsum : Arithmetic.add (j.vaults.balance key) amount = .ok ⟨_, hlt⟩ :=
        Arithmetic.add_eq_ok_iff.mpr rfl
      rw [Overlay.credit, hsum]
      exact ⟨_, rfl⟩

/-- A vault can be debited by what it holds. -/
theorem exists_debit_iff {j : Journal} {key : VaultKey} {amount : Word} :
    (∃ j', j.debit key amount = .ok j') ↔ amount.toNat ≤ (j.vaults.balance key).toNat := by
  rw [debit]
  split
  · next hzero =>
    refine iff_of_true ⟨j, rfl⟩ ?_
    rw [hzero, Word.toNat_zero]
    omega
  · constructor
    · rintro ⟨j', h⟩
      simp only [Overlay.debit, bind_eq_ok_iff] at h
      obtain ⟨_, ⟨rest, hrest, _⟩, _⟩ := h
      have hsum := Arithmetic.sub_eq_ok_iff.mp hrest
      omega
    · intro hle
      cases hrest : Arithmetic.sub (j.vaults.balance key) amount with
      | error cause =>
        have hless := (Arithmetic.sub_eq_error_iff.mp hrest).1
        omega
      | ok rest =>
        rw [Overlay.debit, hrest]
        exact ⟨_, rfl⟩

end Journal

namespace Venue

/-- A settled trade posts to the vaults of its quote, is published in its context, and is
approved. -/
theorem settle_eq_ok {venue : Venue} {sender : Address} {order : Order} {q : Quote}
    {input output : Word} {j j' : Journal}
    (h : venue.settle sender order q input output j = .ok j') :
    j'.events = j.events ++ [.settled sender (q.tradeContext input output)] ∧
      Posted j.vaults.balance j'.vaults.balance
        [.credit q.inputVault input, .debit q.outputVault output] ∧
      venue.approve order q (q.tradeContext input output) = .ok () := by
  simp only [settle, bind_eq_ok_iff, mapError_eq_ok_iff, pure_eq_ok_iff] at h
  obtain ⟨credited, hcredit, debited, hdebit, ⟨⟩, happrove, rfl⟩ := h
  obtain ⟨hevents₁, hposted₁⟩ := Journal.credit_eq_ok hcredit
  obtain ⟨hevents₂, hposted₂⟩ := Journal.debit_eq_ok hdebit
  refine ⟨?_, hposted₁.trans hposted₂, happrove⟩
  rw [Journal.events_note, hevents₂, hevents₁]

/-- The vaults of a trade are those of the owner of the order. -/
theorem owner_of_quote {venue : Venue} {vaults : Overlay} {sender counterparty : Address}
    {order : Order} {choice : LegChoice} {signed : List SignedRow} {q : Quote}
    (h : venue.quote vaults sender order choice counterparty signed = .ok q) :
    q.inputVault.owner = order.owner ∧ q.outputVault.owner = order.owner := by
  obtain ⟨_, _, _, _, _, _, _, _, _, _, _, hin, hout, _⟩ := quote_eq_ok h
  rw [hin, hout]
  exact ⟨rfl, rfl⟩

/-- A settled trade leaves all vaults but its own two as they were. -/
theorem balance_of_settle {venue : Venue} {sender : Address} {order : Order} {q : Quote}
    {input output : Word} {j j' : Journal} (h : venue.settle sender order q input output j = .ok j')
    {key : VaultKey} (hin : q.inputVault ≠ key) (hout : q.outputVault ≠ key) :
    j'.vaults.balance key = j.vaults.balance key := by
  obtain ⟨_, hposted, _⟩ := settle_eq_ok h
  have hkey := hposted key
  simp only [Posting.net_cons, Posting.net_nil, Posting.inVault, Posting.credit, Posting.debit, hin,
    hout, if_false] at hkey
  apply Word.ext
  omega

/-- The settlement of a quoted trade posts what the order and its chosen legs tell. -/
theorem settle_posted {venue : Venue} {vaults : Overlay} {sender counterparty : Address}
    {order : Order} {choice : LegChoice} {signed : List SignedRow} {q : Quote} {input output : Word}
    {j j' : Journal} (hquote : venue.quote vaults sender order choice counterparty signed = .ok q)
    (hsettle : venue.settle sender order q input output j = .ok j') :
    Posted j.vaults.balance j'.vaults.balance (order.tradePostings choice input output) := by
  obtain ⟨inputLeg, outputLeg, _, _, _, _, hlegs, _, _, _, _, hin, hout, _⟩ := quote_eq_ok hquote
  obtain ⟨_, hposted, _⟩ := settle_eq_ok hsettle
  rwa [Order.tradePostings_of_legs hlegs, ← hin, ← hout]

end Venue

end Bourse
