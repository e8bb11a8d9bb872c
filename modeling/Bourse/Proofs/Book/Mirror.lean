import Bourse.Proofs.Book.Clearing

/-!
# A match does not depend on which order is named first

Named the other way round, with the legs, the bounty vaults and the signed rows exchanged, two
orders are matched at the same amounts and leave the same balances. The two runs settle the trades
and pay the surplus in different orders. The trades cannot disturb each other, since they belong
to different owners; and of several payments into the same vault the last one fits exactly when
their sum does.
-/

namespace Bourse

/-- The amounts as they are told of the two orders the other way round. -/
def Crossing.mirror (c : Crossing) : Crossing := ⟨c.bOutput, c.aOutput, c.bInput, c.aInput⟩

/-- The legs and the bounty vaults of the two orders, exchanged. -/
def ClearTerms.mirror (terms : ClearTerms) : ClearTerms :=
  ⟨terms.b, terms.a, terms.bBounty, terms.aBounty⟩

/-- The same match with the second order named first. -/
def ClearRequest.mirror (request : ClearRequest) : ClearRequest where
  a := request.b
  b := request.a
  terms := request.terms.mirror
  aSigned := request.bSigned
  bSigned := request.aSigned

@[simp] theorem Crossing.mirror_mirror (c : Crossing) : c.mirror.mirror = c := rfl

@[simp] theorem ClearRequest.mirror_mirror (request : ClearRequest) :
    request.mirror.mirror = request :=
  rfl

/-- Two offers cross at the same amounts the other way round. -/
theorem Crossing.ofOffers_mirror {a b : Offer} {crossing : Crossing}
    (h : Crossing.ofOffers a b = .ok crossing) : Crossing.ofOffers b a = .ok crossing.mirror := by
  simp only [ofOffers, bind_eq_ok_iff, pure_eq_ok_iff] at h ⊢
  obtain ⟨x, hx, y, hy, aInput, haInput, bInput, hbInput, rfl⟩ := h
  exact ⟨y, hy, x, hx, bInput, hbInput, aInput, haInput, rfl⟩

namespace Journal

/-- The surplus can be paid in either order, into one vault or two. -/
theorem paySurplus_mirror {j j' k : Journal} {aVault bVault : VaultKey} {crossing : Crossing}
    (h : j.paySurplus aVault bVault crossing = .ok k)
    (hsame : ∀ key, j'.vaults.balance key = j.vaults.balance key) :
    ∃ k', j'.paySurplus bVault aVault crossing.mirror = .ok k' := by
  simp only [paySurplus, bind_eq_ok_iff] at h
  obtain ⟨aSurplus, haSurplus, bSurplus, hbSurplus, j₁, hfirst, hsecond⟩ := h
  have hroom₁ := exists_credit_iff.mp ⟨j₁, hfirst⟩
  have hroom₂ := exists_credit_iff.mp ⟨k, hsecond⟩
  have hafter := balance_of_credit hfirst
  rw [hafter bVault] at hroom₂
  obtain ⟨k₁, hk₁⟩ : ∃ k₁, j'.credit bVault bSurplus = .ok k₁ := by
    rw [exists_credit_iff, hsame]
    omega
  obtain ⟨k₂, hk₂⟩ : ∃ k₂, k₁.credit aVault aSurplus = .ok k₂ := by
    rw [exists_credit_iff, balance_of_credit hk₁, hsame]
    by_cases hkey : aVault = bVault
    · subst hkey
      simp only [if_true] at hroom₂ ⊢
      omega
    · rw [if_neg (Ne.symm hkey)]
      omega
  refine ⟨k₂, ?_⟩
  simp only [paySurplus, Crossing.mirror, bind_eq_ok_iff]
  exact ⟨bSurplus, hbSurplus, aSurplus, haSurplus, k₁, hk₁, hk₂⟩

end Journal

namespace Venue

variable {venue : Venue} {sender : Address} {order : Order} {q : Quote} {input output : Word}

/-- A trade that can be settled can be settled wherever its two vaults hold the same. -/
theorem exists_settle_of_balance_eq {j j' k : Journal}
    (h : venue.settle sender order q input output j = .ok k)
    (hin : j'.vaults.balance q.inputVault = j.vaults.balance q.inputVault)
    (hout : j'.vaults.balance q.outputVault = j.vaults.balance q.outputVault) :
    ∃ k', venue.settle sender order q input output j' = .ok k' := by
  simp only [settle, bind_eq_ok_iff, mapError_eq_ok_iff] at h ⊢
  obtain ⟨credited, hcredit, debited, hdebit, ⟨⟩, happrove, _⟩ := h
  obtain ⟨credited', hcredit'⟩ : ∃ k', j'.credit q.inputVault input = .ok k' := by
    have hroom := Journal.exists_credit_iff.mp ⟨credited, hcredit⟩
    rwa [Journal.exists_credit_iff, hin]
  obtain ⟨debited', hdebit'⟩ : ∃ k', credited'.debit q.outputVault output = .ok k' := by
    have hheld := Journal.exists_debit_iff.mp ⟨debited, hdebit⟩
    rw [Journal.balance_of_credit hcredit] at hheld
    rwa [Journal.exists_debit_iff, Journal.balance_of_credit hcredit', hout]
  exact ⟨_, credited', hcredit', debited', hdebit', (), happrove, rfl⟩

/-- Two trades with different vaults can be settled in either order, and leave the same balances. -/
theorem settle_swap {a b : Order} {p q : Quote} {aInput aOutput bInput bOutput : Word}
    {j j₁ j₂ j' : Journal}
    (hfirst : venue.settle sender a p aInput aOutput j = .ok j₁)
    (hsecond : venue.settle sender b q bInput bOutput j₁ = .ok j₂)
    (hsame : ∀ key, j'.vaults.balance key = j.vaults.balance key)
    (hdisjoint : ∀ v ∈ [p.inputVault, p.outputVault], ∀ w ∈ [q.inputVault, q.outputVault], v ≠ w) :
    ∃ k₁ k₂, venue.settle sender b q bInput bOutput j' = .ok k₁ ∧
      venue.settle sender a p aInput aOutput k₁ = .ok k₂ ∧
      ∀ key, k₂.vaults.balance key = j₂.vaults.balance key := by
  have huntouched : ∀ w ∈ [q.inputVault, q.outputVault],
      j'.vaults.balance w = j₁.vaults.balance w := by
    intro w hw
    have hfree := balance_of_settle hfirst (hdisjoint p.inputVault (by simp) w hw)
      (hdisjoint p.outputVault (by simp) w hw)
    rw [hsame, hfree]
  obtain ⟨k₁, hk₁⟩ := exists_settle_of_balance_eq hsecond (huntouched _ (by simp))
    (huntouched _ (by simp))
  have hleft : ∀ v ∈ [p.inputVault, p.outputVault], k₁.vaults.balance v = j.vaults.balance v := by
    intro v hv
    have hfree := balance_of_settle hk₁ (hdisjoint v hv q.inputVault (by simp)).symm
      (hdisjoint v hv q.outputVault (by simp)).symm
    rw [hfree, hsame]
  obtain ⟨k₂, hk₂⟩ := exists_settle_of_balance_eq hfirst (hleft _ (by simp)) (hleft _ (by simp))
  refine ⟨k₁, k₂, hk₁, hk₂, ?_⟩
  intro key
  have hj₁ := (settle_eq_ok hfirst).2.1 key
  have hj₂ := (settle_eq_ok hsecond).2.1 key
  have hk₁' := (settle_eq_ok hk₁).2.1 key
  have hk₂' := (settle_eq_ok hk₂).2.1 key
  have hstart := congrArg Word.toNat (hsame key)
  apply Word.ext
  omega

end Venue

namespace Book

variable {book : Book} {venue : Venue} {sender : Address} {request : ClearRequest}
  {aInput aOutput bInput bOutput : Leg} {p q : Quote} {crossing : Crossing}

/-- Orders that can trade with each other can do so the other way round. -/
theorem Matched.mirror
    (h : Matched book venue sender request aInput aOutput bInput bOutput p q crossing) :
    Matched book venue sender request.mirror bInput bOutput aInput aOutput q p crossing.mirror where
  owners := h.owners.symm
  aLegs := h.bLegs
  bLegs := h.aLegs
  aFacing := h.bFacing
  bFacing := h.aFacing
  aLive := h.bLive
  bLive := h.aLive
  aQuote := h.bQuote
  bQuote := h.aQuote
  crosses := Crossing.ofOffers_mirror h.crosses

/-- A match posts the same the other way round. -/
theorem net_postings_mirror (request : ClearRequest) (sender : Address) (crossing : Crossing)
    (key : VaultKey) :
    Posting.net (request.mirror.terms.postings sender request.mirror.a request.mirror.b
        crossing.mirror) key =
      Posting.net (request.terms.postings sender request.a request.b crossing) key := by
  simp only [ClearTerms.postings, ClearRequest.mirror, ClearTerms.mirror, Crossing.mirror,
    Posting.net_append]
  omega

/-- A match that succeeds does so the other way round, and comes to the same. -/
theorem clear_mirror_of_eq_ok {after : Book}
    (h : book.clear venue sender request = .ok (crossing, after)) :
    ∃ after', book.clear venue sender request.mirror = .ok (crossing.mirror, after') ∧
      after'.vaults.balance = after.vaults.balance ∧ after'.live = after.live := by
  obtain ⟨aInput, aOutput, bInput, bOutput, p, q, journal, hstep, rfl⟩ := clear_eq_ok h
  have hmatched := hstep.toMatched
  rw [hmatched.clear_eq] at h
  simp only [bind_eq_ok_iff, mapError_eq_ok_iff] at h
  obtain ⟨j₁, hfirst, j₂, hsecond, j₃, hpay, _⟩ := h
  have hstart : ∀ key,
      (book.journal.note (.matching sender request.b request.a
          request.terms.mirror)).vaults.balance key =
        (book.journal.note (.matching sender request.a request.b request.terms)).vaults.balance
          key :=
    fun _ => rfl
  obtain ⟨k₁, k₂, hk₁, hk₂, hsame⟩ := Venue.settle_swap hfirst hsecond hstart hmatched.vault_ne
  obtain ⟨k₃, hk₃⟩ := Journal.paySurplus_mirror hpay hsame
  have hmirror : book.clear venue sender request.mirror =
      .ok (crossing.mirror, book.commit (k₃.note (.cleared sender crossing.mirror))) := by
    rw [hmatched.mirror.clear_eq]
    simp only [bind_eq_ok_iff, mapError_eq_ok_iff]
    exact ⟨k₁, hk₁, k₂, hk₂, k₃, hk₃, rfl⟩
  refine ⟨_, hmirror, ?_, rfl⟩
  obtain ⟨_, _, _, _, _, _, journal', hstep', hafter⟩ := clear_eq_ok hmirror
  funext key
  have hposted := hstep.posted key
  have hposted' := hstep'.posted key
  rw [net_postings_mirror] at hposted'
  rw [hafter, commit, commit, Overlay.balance_commit, Overlay.balance_commit]
  apply Word.ext
  omega

/-- A match comes to the same whichever of the two orders is named first: it succeeds with the same
amounts or not at all, and leaves the same balances and the same listed orders. -/
theorem clear_mirror (book : Book) (venue : Venue) (sender : Address) (request : ClearRequest)
    (crossing : Crossing) (balance : VaultKey → Word) (live : SortedMap OrderHash Unit) :
    (∃ after, book.clear venue sender request = .ok (crossing, after) ∧
      after.vaults.balance = balance ∧ after.live = live) ↔
    ∃ after, book.clear venue sender request.mirror = .ok (crossing.mirror, after) ∧
      after.vaults.balance = balance ∧ after.live = live := by
  constructor
  · rintro ⟨after, hclear, rfl, rfl⟩
    exact clear_mirror_of_eq_ok hclear
  · rintro ⟨after, hclear, rfl, rfl⟩
    have hback := clear_mirror_of_eq_ok hclear
    rwa [ClearRequest.mirror_mirror, Crossing.mirror_mirror] at hback

end Book

end Bourse
