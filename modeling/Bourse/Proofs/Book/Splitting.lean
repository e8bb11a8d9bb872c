import Bourse.Proofs.Book.Taking
import Bourse.Proofs.Vault.Staging

/-!
# A taker's request in two parts

Taking some orders and then others, as much as is still wanted, comes to the same as taking all of
them at once. Taken at once, the later orders draw on balances that the earlier ones have only
staged; taken in parts, they draw on committed ones. Nothing that an order can see tells the two
apart: a journal that is still going on and one that starts from its committed vaults have the
same balances, and both grow in the same way.
-/

namespace Bourse

/-- The request for other orders, up to another total and without a least one. -/
def TakeRequest.part (request : TakeRequest) (maximum : Word) (takes : List Take) : TakeRequest :=
  { request with minimumInput := 0, maximumInput := maximum, takes }

/-- The journal `j` has come to the same vaults as `j'`, and past events precede its own. -/
structure Journal.Continues (past : List Event) (j j' : Journal) : Prop where
  commit_eq : j.vaults.commit = j'.vaults.commit
  events_eq : j.events = past ++ j'.events

namespace Journal.Continues

variable {past : List Event} {j j' : Journal}

/-- Noting an event keeps one journal going on where the other one does. -/
theorem note (h : Continues past j j') (event : Event) :
    Continues past (j.note event) (j'.note event) := by
  refine ⟨h.commit_eq, ?_⟩
  rw [events_note, events_note, h.events_eq, List.append_assoc]

/-- A credit is possible in both journals or in none. -/
theorem credit (h : Continues past j j') (key : VaultKey) (amount : Word) :
    Alike (Continues past) (j.credit key amount) (j'.credit key amount) := by
  rw [Journal.credit, Journal.credit]
  split
  · exact .ok h
  · exact (Overlay.credit_alike h.commit_eq key amount).bind fun _ _ hvaults =>
      .ok ⟨hvaults, h.events_eq⟩

theorem debit (h : Continues past j j') (key : VaultKey) (amount : Word) :
    Alike (Continues past) (j.debit key amount) (j'.debit key amount) := by
  rw [Journal.debit, Journal.debit]
  split
  · exact .ok h
  · exact (Overlay.debit_alike h.commit_eq key amount).bind fun _ _ hvaults =>
      .ok ⟨hvaults, h.events_eq⟩

/-- A settlement comes to the same in both journals. -/
theorem settle (h : Continues past j j') (venue : Venue) (sender : Address) (order : Order)
    (q : Quote) (input output : Word) :
    Alike (Continues past) (venue.settle sender order q input output j)
      (venue.settle sender order q input output j') := by
  rw [Venue.settle, Venue.settle]
  refine (h.credit q.inputVault input).mapError.bind fun k k' hk => ?_
  refine (hk.debit q.outputVault output).mapError.bind fun l l' hl => ?_
  exact Alike.bind_same fun _ => .ok (hl.note _)

end Journal.Continues

/-- An order sees of the vaults nothing but balances. -/
theorem Venue.quote_congr {a b : Overlay} (h : ∀ key, a.balance key = b.balance key) (venue : Venue)
    (sender : Address) (order : Order) (legs : LegChoice) (counterparty : Address)
    (signed : List SignedRow) :
    venue.quote a sender order legs counterparty signed =
      venue.quote b sender order legs counterparty signed := by
  simp only [quote, offerContext, h]

/-- The taker has come as far in both journals. -/
structure Taking.Continues (past : List Event) (t t' : Taking) : Prop where
  journal : t.journal.Continues past t'.journal
  remaining : t.remaining = t'.remaining
  paid : t.paid = t'.paid

namespace Taking.Continues

variable {past : List Event} {t t' : Taking} {book : Book} {venue : Venue} {sender : Address}
  {request : TakeRequest}

theorem note (h : Continues past t t') (event : Event) :
    Continues past (t.note event) (t'.note event) :=
  ⟨h.journal.note event, h.remaining, h.paid⟩

/-- A fill comes to the same in both takings. -/
theorem fill (h : Continues past t t') (take : Take) (q : Quote) :
    Alike (Continues past) (Book.fill venue sender take q t)
      (Book.fill venue sender take q t') := by
  rw [Book.fill, Book.fill, h.remaining, h.paid]
  refine Alike.bind_same fun output => Alike.bind_same fun remaining =>
    Alike.bind_same fun paid => ?_
  refine (h.journal.settle ..).bind fun j j' hj => ?_
  exact .ok ⟨hj.note _, rfl, rfl⟩

/-- A listed order that is taken comes to the same in both takings. -/
theorem takeLive (h : Continues past t t') (maximumRatio : Word) (take : Take) :
    Alike (Continues past) (Book.takeLive venue sender maximumRatio take t)
      (Book.takeLive venue sender maximumRatio take t') := by
  rw [Book.takeLive, Book.takeLive,
    Venue.quote_congr (Overlay.balance_eq_of_commit_eq h.journal.commit_eq)]
  refine Alike.bind_same fun q => ?_
  split
  · exact .ok (h.note _)
  split
  · exact .ok (h.note _)
  · exact h.fill take q

/-- The next order comes to the same in both takings. -/
theorem takeNext (h : Continues past t t') (take : Take) :
    Alike (Continues past) (book.takeNext venue sender request t take)
      (book.takeNext venue sender request t' take) := by
  rw [Book.takeNext, Book.takeNext, h.remaining]
  split
  · exact .ok h
  split
  · exact .ok ⟨h.journal.note _, rfl, h.paid⟩
  · refine Alike.bind_same fun legs => Alike.bind_same fun _ => Alike.bind_same fun _ => ?_
    exact h.takeLive _ take

end Taking.Continues

/-- The taker has come as far in `t` as in `t'`, and has paid an amount before. -/
structure Taking.AfterPaying (cost : Word) (t t' : Taking) : Prop where
  journal : t.journal = t'.journal
  remaining : t.remaining = t'.remaining
  paid : t.paid.toNat = cost.toNat + t'.paid.toNat

/-- The computation `x` is `y` after an amount has been paid. It succeeds with `y` if the sum of the
payments fits a word. -/
def Taking.Deferred (cost : Word) (x y : Except Refusal Taking) : Prop :=
  ∀ u, x = .ok u ↔ ∃ u', y = .ok u' ∧ u.AfterPaying cost u'

namespace Taking

variable {cost : Word} {t t' : Taking} {book : Book} {venue : Venue} {sender : Address}
  {request : TakeRequest}

/-- What has been paid before determines what has been paid. -/
theorem AfterPaying.ext {a b : Taking} (ha : a.AfterPaying cost t) (hb : b.AfterPaying cost t) :
    a = b := by
  obtain ⟨aJournal, aRemaining, aPaid⟩ := a
  obtain ⟨bJournal, bRemaining, bPaid⟩ := b
  have hpaid : aPaid = bPaid := Word.ext (ha.paid.trans hb.paid.symm)
  obtain rfl : aJournal = bJournal := ha.journal.trans hb.journal.symm
  obtain rfl : aRemaining = bRemaining := ha.remaining.trans hb.remaining.symm
  rw [hpaid]

/-- Takings that only differ in what has been paid before are results that do. -/
theorem Deferred.ok (h : t.AfterPaying cost t') : Deferred cost (.ok t) (.ok t') := by
  intro u
  constructor
  · rintro ⟨⟩
    exact ⟨t', rfl, h⟩
  · rintro ⟨_, ⟨⟩, hu⟩
    rw [h.ext hu]

/-- What comes before is the same on both sides. -/
theorem Deferred.bind_same {α : Type} {x : Except Refusal α} {f g : α → Except Refusal Taking}
    (h : ∀ a, Deferred cost (f a) (g a)) : Deferred cost (x >>= f) (x >>= g) := by
  intro u
  cases x with
  | error e =>
    constructor
    · rintro ⟨⟩
    · rintro ⟨_, ⟨⟩, _⟩
  | ok a => exact h a u

/-- A fill can be added to what has been paid before, unless the sum does not fit. -/
theorem AfterPaying.fill (h : t.AfterPaying cost t') (take : Take) (q : Quote) :
    Deferred cost (Book.fill venue sender take q t) (Book.fill venue sender take q t') := by
  intro u
  simp only [Book.fill, bind_eq_ok_iff, mapError_eq_ok_iff, pure_eq_ok_iff,
    Arithmetic.add_eq_ok_iff, h.journal, h.remaining, h.paid]
  constructor
  · rintro ⟨output, hprice, remaining, hrest, paid, hpaid, journal, hsettle, rfl⟩
    have hfits : t'.paid.toNat + output.toNat < 2 ^ 256 := by
      have hlt := paid.toNat_lt
      omega
    refine ⟨_, ⟨output, hprice, remaining, hrest, ⟨_, hfits⟩, rfl, journal, hsettle, rfl⟩, rfl, rfl,
      ?_⟩
    rw [hpaid, Nat.add_assoc]
  · rintro ⟨_, ⟨output, hprice, remaining, hrest, paid', hpaid', journal, hsettle, rfl⟩, hu⟩
    refine ⟨output, hprice, remaining, hrest, u.paid, ?_, journal, hsettle, ?_⟩
    · rw [hu.paid, hpaid', Nat.add_assoc]
    · refine Eq.symm (hu.ext ?_)
      exact ⟨rfl, rfl, hu.paid⟩

/-- A listed order that is taken can be added to what has been paid before. -/
theorem AfterPaying.takeLive (h : t.AfterPaying cost t') (maximumRatio : Word) (take : Take) :
    Deferred cost (Book.takeLive venue sender maximumRatio take t)
      (Book.takeLive venue sender maximumRatio take t') := by
  rw [Book.takeLive, Book.takeLive, h.journal]
  refine Deferred.bind_same fun q => ?_
  split
  · exact .ok ⟨rfl, h.remaining, h.paid⟩
  split
  · exact .ok ⟨rfl, h.remaining, h.paid⟩
  · exact h.fill take q

/-- The next order can be added to what has been paid before. -/
theorem AfterPaying.takeNext (h : t.AfterPaying cost t') (take : Take) :
    Deferred cost (book.takeNext venue sender request t take)
      (book.takeNext venue sender request t' take) := by
  rw [Book.takeNext, Book.takeNext, h.remaining]
  split
  · exact .ok h
  split
  · exact .ok ⟨congrArg (Journal.note · _) h.journal, rfl, h.paid⟩
  · refine Deferred.bind_same fun legs => Deferred.bind_same fun _ => Deferred.bind_same fun _ => ?_
    exact h.takeLive _ take

/-- Only the sum of all payments has to fit: what is paid on the way never exceeds it. -/
theorem AfterPaying.foldlM_takeNext (h : t.AfterPaying cost t') (takes : List Take) :
    Deferred cost (takes.foldlM (book.takeNext venue sender request) t)
      (takes.foldlM (book.takeNext venue sender request) t') := by
  intro u
  induction takes generalizing t t' with
  | nil => exact Deferred.ok h u
  | cons take takes ih =>
    simp only [List.foldlM_cons, bind_eq_ok_iff]
    constructor
    · rintro ⟨v, hv, hu⟩
      obtain ⟨v', hv', hvv'⟩ := (h.takeNext take v).mp hv
      obtain ⟨u', hu', huu'⟩ := (ih hvv').mp hu
      exact ⟨u', ⟨v', hv', hu'⟩, huu'⟩
    · rintro ⟨u', ⟨v', hv', hu'⟩, huu'⟩
      have hfits : cost.toNat + v'.paid.toNat < 2 ^ 256 := by
        have hle := (Book.totals_of_foldlM_takeNext hu').2
        have hsum := huu'.paid
        have hlt := u.paid.toNat_lt
        omega
      have hvv' : AfterPaying cost { v' with paid := ⟨_, hfits⟩ } v' := ⟨rfl, rfl, rfl⟩
      exact ⟨_, (h.takeNext take _).mpr ⟨v', hv', hvv'⟩, (ih hvv').mpr ⟨u', hu', huu'⟩⟩

end Taking

namespace Book

variable {book : Book} {venue : Venue} {sender : Address} {request : TakeRequest}

/-- What a request without a least total comes to. -/
theorem takeOrders_part_eq_ok_iff {maximum : Word} {takes : List Take} {received paid : Word}
    {after : Book} :
    book.takeOrders venue sender (request.part maximum takes) = .ok ((received, paid), after) ↔
      ∃ t, takes.foldlM (book.takeNext venue sender request) ⟨book.journal, maximum, 0⟩ = .ok t ∧
        received.toNat + t.remaining.toNat = maximum.toNat ∧ t.paid = paid ∧
        book.commit t.journal = after := by
  simp only [takeOrders, bind_eq_ok_iff, mapError_eq_ok_iff, pure_eq_ok_iff, Prod.mk.injEq,
    Arithmetic.sub_eq_ok_iff]
  constructor
  · rintro ⟨t, hfold, _, hsum, ⟨⟩, _, ⟨rfl, hpaid⟩, hafter⟩
    exact ⟨t, hfold, hsum, hpaid, hafter⟩
  · rintro ⟨t, hfold, hsum, hpaid, hafter⟩
    have hleast : (0 : Word) ≤ received := Nat.zero_le _
    exact ⟨t, hfold, received, hsum, (), require_eq_ok_iff.mpr hleast, ⟨rfl, hpaid⟩, hafter⟩

/-- To go on is to start anew from the book as it would be committed now, but for what has been paid
already. -/
theorem foldlM_takeNext_resume {t : Taking} {takes : List Take} {remaining : Word} {paid : Nat}
    {after : Book} :
    (∃ u, takes.foldlM (book.takeNext venue sender request) t = .ok u ∧ u.remaining = remaining ∧
        u.paid.toNat = paid ∧ book.commit u.journal = after) ↔
      ∃ u, takes.foldlM ((book.commit t.journal).takeNext venue sender request)
          ⟨(book.commit t.journal).journal, t.remaining, 0⟩ = .ok u ∧ u.remaining = remaining ∧
        paid = t.paid.toNat + u.paid.toNat ∧ paid < 2 ^ 256 ∧
        (book.commit t.journal).commit u.journal = after := by
  have hpaying : t.AfterPaying t.paid { t with paid := 0 } := ⟨rfl, rfl, rfl⟩
  have hstart : Taking.Continues t.journal.events { t with paid := 0 }
      ⟨(book.commit t.journal).journal, t.remaining, 0⟩ :=
    ⟨⟨rfl, (List.append_nil _).symm⟩, rfl, rfl⟩
  have hcommit {j j' : Journal} (h : j.Continues t.journal.events j') :
      book.commit j = (book.commit t.journal).commit j' := by
    simp only [commit, h.commit_eq, h.events_eq, List.append_assoc]
  have halike : Alike (Taking.Continues t.journal.events)
      (takes.foldlM (book.takeNext venue sender request) { t with paid := 0 })
      (takes.foldlM ((book.commit t.journal).takeNext venue sender request)
        ⟨(book.commit t.journal).journal, t.remaining, 0⟩) :=
    Alike.foldlM (fun _ _ take h => h.takeNext take) takes hstart
  constructor
  · rintro ⟨w, hw, rfl, rfl, rfl⟩
    obtain ⟨v, hv, hwv⟩ := (hpaying.foldlM_takeNext takes w).mp hw
    obtain ⟨u, hu, hvu⟩ := halike.exists_of_left hv
    refine ⟨u, hu, ?_, ?_, w.paid.toNat_lt, ?_⟩
    · rw [hwv.remaining, hvu.remaining]
    · rw [hwv.paid, hvu.paid]
    · rw [hwv.journal, hcommit hvu.journal]
  · rintro ⟨u, hu, rfl, rfl, hfits, rfl⟩
    obtain ⟨v, hv, hvu⟩ := halike.exists_of_right hu
    have hwv : Taking.AfterPaying t.paid { v with paid := ⟨_, hfits⟩ } v := by
      refine ⟨rfl, rfl, ?_⟩
      rw [hvu.paid]
    exact ⟨_, (hpaying.foldlM_takeNext takes _).mpr ⟨v, hv, hwv⟩, hvu.remaining, rfl,
      hcommit hvu.journal⟩

/-- Orders can be taken all at once or in two parts, the second for what the first has left to be
received: both succeed with the same totals and leave the same book, unless the sum of what the
parts pay does not fit a word. -/
theorem takeOrders_append (book : Book) (venue : Venue) (sender : Address) (request : TakeRequest)
    (maximum : Word) (xs ys : List Take) (received paid : Nat) (after : Book) :
    (∃ r p : Word, r.toNat = received ∧ p.toNat = paid ∧
        book.takeOrders venue sender (request.part maximum (xs ++ ys)) = .ok ((r, p), after)) ↔
      ∃ (r₁ p₁ r₂ p₂ rest : Word) (between : Book),
        book.takeOrders venue sender (request.part maximum xs) = .ok ((r₁, p₁), between) ∧
        rest.toNat + r₁.toNat = maximum.toNat ∧
        between.takeOrders venue sender (request.part rest ys) = .ok ((r₂, p₂), after) ∧
        received = r₁.toNat + r₂.toNat ∧ paid = p₁.toNat + p₂.toNat ∧ paid < 2 ^ 256 := by
  simp only [takeOrders_part_eq_ok_iff, List.foldlM_append, bind_eq_ok_iff]
  constructor
  · rintro ⟨r, p, rfl, rfl, u, ⟨t, hfirst, hsecond⟩, hreceived, rfl, hafter⟩
    obtain ⟨v, hv, hremaining, hpaid, hfits, hafter⟩ :=
      foldlM_takeNext_resume.mp ⟨u, hsecond, rfl, rfl, hafter⟩
    have hrest := (totals_of_foldlM_takeNext hfirst).1
    have hleft := (totals_of_foldlM_takeNext hsecond).1
    simp only at hrest
    refine ⟨maximum.subSat t.remaining, t.paid, t.remaining.subSat u.remaining, v.paid, t.remaining,
      book.commit t.journal, ⟨t, hfirst, ?_, rfl, rfl⟩, ?_, ⟨v, hv, ?_, rfl, hafter⟩, ?_, hpaid,
        hfits⟩
    all_goals
      simp only [Word.toNat_subSat, hremaining]
      omega
  · rintro ⟨r₁, p₁, r₂, p₂, rest, between, ⟨t, hfirst, hr₁, rfl, rfl⟩, hrest,
      ⟨v, hv, hr₂, rfl, hafter⟩, rfl, hpaid, hfits⟩
    obtain rfl : rest = t.remaining := Word.ext (by omega)
    obtain ⟨u, hsecond, hremaining, hpaid, hafter⟩ :=
      foldlM_takeNext_resume.mpr ⟨v, hv, rfl, hpaid, hfits, hafter⟩
    have hreceived : r₁.toNat + r₂.toNat < 2 ^ 256 := by
      have hlt := maximum.toNat_lt
      omega
    refine ⟨⟨_, hreceived⟩, u.paid, rfl, hpaid, u, ⟨t, hfirst, hsecond⟩, ?_, rfl, hafter⟩
    simp only [hremaining]
    omega

end Book

end Bourse
