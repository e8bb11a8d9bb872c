import Bourse.Proofs.Vault.Posting
import Bourse.Proofs.Word

/-!
# Transactions

A transaction is a sequence of calls on balances that are staged over the vaults, and is committed
as a whole or dropped. The staged balances are those of the vaults with the granted calls added up
as integers, and a call is refused when its sum is no word. Committed vaults keep no balance of
zero, so they are told by their balances, whatever transactions have led to them.
-/

namespace Bourse

namespace Overlay

/-- A call on staged balances. -/
inductive Call where
  | credit (key : VaultKey) (amount : Word)
  | debit (key : VaultKey) (amount : Word)
  /-- Look at a balance. -/
  | balance (key : VaultKey)
  deriving DecidableEq

/-- The vault of a call. -/
def Call.key : Call → VaultKey
  | .credit key _ | .debit key _ | .balance key => key

/-- What a call posts if it is granted. -/
def Call.postings : Call → List Posting
  | .credit key amount => [.credit key amount]
  | .debit key amount => [.debit key amount]
  | .balance _ => []

/-- What a call has posted, going by its answer. -/
def Call.posted (call : Call) : Except ArithmeticError Word → List Posting
  | .ok _ => call.postings
  | .error _ => []

/-- The answer for a change: the new balance of the vault. A change that has failed leaves
everything as it was. -/
def conclude (o : Overlay) (key : VaultKey) :
    Except ArithmeticError Overlay → Except ArithmeticError Word × Overlay
  | .ok changed => (.ok (changed.balance key), changed)
  | .error cause => (.error cause, o)

/-- Answer a call. -/
def answer (o : Overlay) : Call → Except ArithmeticError Word × Overlay
  | .credit key amount => o.conclude key (o.credit key amount)
  | .debit key amount => o.conclude key (o.debit key amount)
  | .balance key => (.ok (o.balance key), o)

/-- Answer calls one after the other. -/
def run (o : Overlay) : List Call → List (Except ArithmeticError Word) × Overlay
  | [] => ([], o)
  | call :: calls =>
    ((o.answer call).1 :: ((o.answer call).2.run calls).1, ((o.answer call).2.run calls).2)

/-- What calls have posted, going by their answers. -/
def posted (calls : List Call) (answers : List (Except ArithmeticError Word)) : List Posting :=
  (List.zipWith Call.posted calls answers).flatten

/-- The balance that the vault of a call would have after it. -/
def next (o : Overlay) (call : Call) : Int :=
  (o.balance call.key).toNat + Posting.net call.postings call.key

section

variable {o after : Overlay} {key : VaultKey} {amount : Word} {cause : ArithmeticError}
  {x : Except ArithmeticError Word}

theorem next_credit :
    o.next (.credit key amount) = (o.balance key).toNat + amount.toNat := by
  simp only [next, Call.key, Call.postings, Posting.net_cons, Posting.net_nil, Posting.inVault,
    Posting.credit, if_true, Int.add_zero]

theorem next_debit :
    o.next (.debit key amount) = (o.balance key).toNat - amount.toNat := by
  simp only [next, Call.key, Call.postings, Posting.net_cons, Posting.net_nil, Posting.inVault,
    Posting.debit, if_true, Int.add_zero]
  omega

theorem next_balance : o.next (.balance key) = (o.balance key).toNat := Int.add_zero _

/-- A change stages a balance, if there is one, over the same vaults. -/
theorem base_of_stage (h : (do return o.stage key (← x)) = Except.ok after) :
    after.base = o.base := by
  rw [bind_eq_ok_iff] at h
  obtain ⟨_, _, hstage⟩ := h
  cases hstage
  rfl

/-- Staging a new balance fails as computing it does. -/
theorem stage_eq_error_iff :
    (do return o.stage key (← x)) = Except.error cause ↔ x = .error cause := by
  cases x with
  | ok w => exact iff_of_false nofun nofun
  | error cause' =>
    constructor <;>
    · rintro ⟨⟩
      rfl

end

/-- What an answer to a call says, and what has changed with it. -/
structure Answered (o : Overlay) (call : Call) (answer : Except ArithmeticError Word)
    (after : Overlay) : Prop where
  base : after.base = o.base
  /-- A call is granted when the new balance is a word. -/
  granted_iff : (∃ w, answer = .ok w) ↔ 0 ≤ o.next call ∧ o.next call < 2 ^ 256
  cause : ∀ cause, answer = .error cause → cause = if o.next call < 0 then .underflow else .overflow
  /-- The answer is the new balance. -/
  balance : ∀ w, answer = .ok w → after.balance call.key = w
  /-- A call that is granted changes the balance of its vault, and one that is refused none. -/
  posted : Posted o.balance after.balance (call.posted answer)

/-- An answer follows from what a successful change posts and from why a change fails. -/
theorem answered_conclude {o : Overlay} (call : Call) {x : Except ArithmeticError Overlay}
    (hok : ∀ after, x = .ok after →
      after.base = o.base ∧ Posted o.balance after.balance call.postings)
    (herror : ∀ cause, x = .error cause →
      o.next call < 0 ∧ cause = .underflow ∨ 2 ^ 256 ≤ o.next call ∧ cause = .overflow) :
    Answered o call (o.conclude call.key x).1 (o.conclude call.key x).2 := by
  cases x with
  | ok after =>
    obtain ⟨hbase, hposted⟩ := hok after rfl
    -- What was posted to the vault of the call is what makes its next balance, so that one is a
    -- word.
    have hnext : ((after.balance call.key).toNat : Int) = o.next call := hposted call.key
    have hlt := (after.balance call.key).toNat_lt
    refine ⟨hbase, iff_of_true ⟨_, rfl⟩ (by omega), nofun, ?_, hposted⟩
    rintro w ⟨⟩
    rfl
  | error cause =>
    refine ⟨rfl, iff_of_false nofun ?_, ?_, nofun, Posted.refl _⟩
    · rcases herror cause rfl with ⟨hless, _⟩ | ⟨hlarge, _⟩ <;> omega
    · rintro _ ⟨⟩
      rcases herror cause rfl with ⟨hless, rfl⟩ | ⟨hlarge, rfl⟩
      · rw [if_pos hless]
      · rw [if_neg (by omega)]

/-- Every call is answered so. -/
theorem answered (o : Overlay) (call : Call) :
    Answered o call (o.answer call).1 (o.answer call).2 := by
  cases call with
  | credit key amount =>
    apply answered_conclude (.credit key amount)
    · exact fun after h => ⟨base_of_stage h, credit_posted h⟩
    · intro cause h
      obtain ⟨hlarge, rfl⟩ := Arithmetic.fit_eq_error_iff.mp (stage_eq_error_iff.mp h)
      rw [next_credit]
      exact Or.inr ⟨by omega, rfl⟩
  | debit key amount =>
    apply answered_conclude (.debit key amount)
    · exact fun after h => ⟨base_of_stage h, debit_posted h⟩
    · intro cause h
      obtain ⟨hless, rfl⟩ := Arithmetic.sub_eq_error_iff.mp (stage_eq_error_iff.mp h)
      rw [next_debit]
      exact Or.inl ⟨by omega, rfl⟩
  | balance key =>
    have hlt := (o.balance key).toNat_lt
    refine ⟨rfl, iff_of_true ⟨_, rfl⟩ ?_, nofun, ?_, Posted.refl _⟩
    · rw [next_balance]
      omega
    · rintro w ⟨⟩
      rfl

/-- Every call has an answer. -/
theorem length_run (o : Overlay) (calls : List Call) : (o.run calls).1.length = calls.length := by
  induction calls generalizing o with
  | nil => rfl
  | cons call calls ih => exact congrArg Nat.succ (ih _)

/-- Calls can be made in two parts. -/
theorem run_append (o : Overlay) (calls more : List Call) :
    o.run (calls ++ more) =
      ((o.run calls).1 ++ ((o.run calls).2.run more).1, ((o.run calls).2.run more).2) := by
  induction calls generalizing o with
  | nil => rfl
  | cons call calls ih =>
    rw [List.cons_append, run, ih]
    rfl

/-- The answer to a call is the one that its overlay gives, after the calls before it. -/
theorem getElem?_run (o : Overlay) (done : List Call) (call : Call) (rest : List Call) :
    (o.run (done ++ call :: rest)).1[done.length]? = some ((o.run done).2.answer call).1 := by
  rw [run_append, ← length_run o done, List.getElem?_append_right (Nat.le_refl _), Nat.sub_self]
  rfl

/-- Calls do not touch what is below the overlay. -/
theorem base_run (o : Overlay) (calls : List Call) : (o.run calls).2.base = o.base := by
  induction calls generalizing o with
  | nil => rfl
  | cons call calls ih => exact (ih _).trans (o.answered call).base

/-- The balances are those from before, with the granted calls added up. -/
theorem posted_run (o : Overlay) (calls : List Call) :
    Posted o.balance (o.run calls).2.balance (posted calls (o.run calls).1) := by
  induction calls generalizing o with
  | nil => exact Posted.refl _
  | cons call calls ih => exact (o.answered call).posted.trans (ih _)

end Overlay

namespace Vaults

/-- No vault is kept with a balance of zero. -/
def Canonical (vaults : Vaults) : Prop := ∀ key, vaults.get? key ≠ some 0

/-- A sequence of calls that is committed at its end or dropped. -/
structure Transaction where
  calls : List Overlay.Call
  committed : Bool

/-- The vaults after a transaction. -/
def transact (vaults : Vaults) (t : Transaction) : Vaults :=
  if t.committed then ((Overlay.on vaults).run t.calls).2.commit else vaults

/-- The vaults after transactions, one after the other. -/
def after (vaults : Vaults) (ts : List Transaction) : Vaults := ts.foldl transact vaults

/-- Without vaults there is none that holds nothing. -/
theorem canonical_empty : Canonical (.empty : Vaults) := nofun

/-- Writing balances does not keep a zero among them. -/
theorem Canonical.commit {vaults : Vaults} (h : vaults.Canonical)
    (writes : List (VaultKey × Word)) : (vaults.commit writes).Canonical := by
  induction writes generalizing vaults with
  | nil => exact h
  | cons write writes ih =>
    apply ih
    intro key
    rw [get?_set]
    split
    · split
      · nofun
      · next hnonzero => exact fun hzero => hnonzero (Option.some.inj hzero)
    · exact h key

/-- Such vaults are told by their balances. -/
theorem Canonical.eq_iff {vaults others : Vaults} (h : vaults.Canonical) (h' : others.Canonical) :
    vaults = others ↔ ∀ key, vaults.balance key = others.balance key := by
  refine ⟨fun heq key => heq ▸ rfl, fun hbalance => SortedMap.ext fun key => ?_⟩
  have hkey := hbalance key
  have hleft := h key
  have hright := h' key
  rw [balance, balance] at hkey
  cases hv : vaults.get? key with
  | none =>
    cases ho : others.get? key with
    | none => rfl
    | some amount =>
      rw [hv, ho] at hkey
      rw [ho] at hright
      exact absurd (congrArg some hkey.symm) hright
  | some amount =>
    cases ho : others.get? key with
    | none =>
      rw [hv, ho] at hkey
      rw [hv] at hleft
      exact absurd (congrArg some hkey) hleft
    | some amount' =>
      rw [hv, ho] at hkey
      exact congrArg some hkey

/-- After any transactions no vault is kept that holds nothing. -/
theorem Canonical.after {vaults : Vaults} (h : vaults.Canonical) (ts : List Transaction) :
    (vaults.after ts).Canonical := by
  induction ts generalizing vaults with
  | nil => exact h
  | cons t ts ih =>
    apply ih
    rw [transact]
    split
    · have hbase := Overlay.base_run (.on vaults) t.calls
      rw [Overlay.commit, hbase]
      exact h.commit _
    · exact h

/-- What calls on balances staged over vaults have come to: their answers, and the overlay that
they have led to. -/
structure Session (base : Vaults) (calls : List Overlay.Call)
    (answers : List (Except ArithmeticError Word)) (o : Overlay) : Prop where
  base_eq : o.base = base
  /-- The staged balances are the old ones and the granted calls. -/
  posted : Posted base.balance o.balance (Overlay.posted calls answers)
  /-- Each call is answered from the balances that the calls before it have left. -/
  answered : ∀ done call rest, calls = done ++ call :: rest →
    ∃ answer, answers[done.length]? = some answer ∧
      ((Overlay.on base).run done).2.Answered call answer ((Overlay.on base).run (done ++ [call])).2
  committed : ∀ key, o.commit.balance key = o.balance key
  /-- Vaults that no granted call names keep their balances. -/
  untouched : ∀ key, (∀ p ∈ Overlay.posted calls answers, p.key ≠ key) →
    o.commit.balance key = base.balance key
  canonical : o.commit.Canonical

/-- Calls on vaults without zeros come to that. -/
theorem session_run {base : Vaults} (hbase : base.Canonical) (calls : List Overlay.Call) :
    Session base calls ((Overlay.on base).run calls).1 ((Overlay.on base).run calls).2 where
  base_eq := Overlay.base_run _ _
  posted := Overlay.posted_run _ _
  answered := by
    rintro done call rest rfl
    refine ⟨_, Overlay.getElem?_run _ done call rest, ?_⟩
    rw [Overlay.run_append]
    exact Overlay.answered _ call
  committed := Overlay.balance_commit _
  untouched := by
    intro key huntouched
    have hkey := Overlay.posted_run (.on base) calls key
    rw [Posting.net_eq_zero huntouched, Overlay.balance_on] at hkey
    rw [Overlay.balance_commit]
    apply Word.ext
    omega
  canonical := hbase.after [⟨calls, true⟩]

/-- From vaults without zeros, any calls are answered in exact integers, leave the vaults beneath
alone and are committed balance by balance. After any transactions the vaults have no zeros, and
are the same as others exactly when all balances are. -/
theorem transactions_exact {base : Vaults} (hbase : base.Canonical) :
    (∀ calls, Session base calls ((Overlay.on base).run calls).1 ((Overlay.on base).run calls).2) ∧
    ∀ ts, (base.after ts).Canonical ∧
      ∀ (other : Vaults) ts', other.Canonical →
        (base.after ts = other.after ts' ↔
          ∀ key, (base.after ts).balance key = (other.after ts').balance key) :=
  ⟨session_run hbase, fun ts => ⟨hbase.after ts,
    fun _ ts' hother => (hbase.after ts).eq_iff (hother.after ts')⟩⟩

/-- A vault that is to be emptied. -/
def tenKey : VaultKey := ⟨.ofNat 1, .ofNat 4, 0⟩

/-- Ten units in that vault. -/
def tenUnits : Vaults := Vaults.set .empty tenKey 10

/-- Take all of them, and then one more. -/
def takeTen : Transaction := ⟨[.debit tenKey 10, .debit tenKey 1], true⟩

/-- The second call is refused, and the emptied vault is forgotten. -/
theorem transactions_exact_takeTen :
    tenUnits.Canonical ∧
    ((Overlay.on tenUnits).run takeTen.calls).1 = [.ok 0, .error .underflow] ∧
    tenUnits.after [takeTen] = Vaults.after .empty [] := by
  have hbase : tenUnits.Canonical := canonical_empty.commit [(tenKey, 10)]
  have hanswers : ((Overlay.on tenUnits).run takeTen.calls).1 = [.ok 0, .error .underflow] := by
    decide
  obtain ⟨hsession, hafter⟩ := transactions_exact hbase
  refine ⟨hbase, hanswers, ((hafter [takeTen]).2 .empty [] canonical_empty).mpr fun key => ?_⟩
  have hcommitted : (tenUnits.after [takeTen]).balance key = _ :=
    (hsession takeTen.calls).committed key
  have hposted := (hsession takeTen.calls).posted key
  have hnet : Posting.net (Overlay.posted takeTen.calls [.ok 0, .error .underflow]) key =
      (if tenKey = key then -10 else 0) + 0 := rfl
  rw [hanswers, hnet, tenUnits, balance_set] at hposted
  rw [hcommitted]
  apply Word.ext
  by_cases hkey : key = tenKey
  · rw [if_pos hkey, if_pos hkey.symm] at hposted
    exact Int.ofNat.inj hposted
  · rw [if_neg hkey, if_neg (Ne.symm hkey)] at hposted
    exact Int.ofNat.inj hposted

end Vaults

end Bourse
