import Bourse.Proofs.Result
import Bourse.Vault.Overlay

/-!
# Staged balances and committed ones

Committing is gradual: it makes no difference whether a balance is staged before the vaults are
committed or set in them afterwards. So two overlays that would commit to the same vaults stay so
under the same credits and debits, even if one of them has committed what the other has only
staged.
-/

namespace Bourse

namespace Vaults

/-- Committed vaults hold what was written, forget those where that is zero, and keep the others. -/
theorem get?_commit (vaults : Vaults) {writes : List (VaultKey × Word)}
    (hsorted : writes.Pairwise fun a b => Ranked.rank a.1 < Ranked.rank b.1) (key : VaultKey) :
    (vaults.commit writes).get? key =
      match SortedMap.lookup key writes with
      | some amount => if amount = 0 then none else some amount
      | none => vaults.get? key := by
  induction writes generalizing vaults with
  | nil => rfl
  | cons write writes ih =>
    obtain ⟨hfirst, hrest⟩ := List.pairwise_cons.mp hsorted
    have hcommit := ih (vaults.set write.1 write.2) hrest
    rw [get?_set] at hcommit
    rw [SortedMap.lookup]
    by_cases hkey : key = write.1
    · subst hkey
      have hnone : SortedMap.lookup write.1 writes = none := by
        apply SortedMap.lookup_eq_none
        intro other hother
        exact Nat.ne_of_lt (hfirst other hother)
      rw [if_pos rfl]
      rwa [hnone, if_pos rfl] at hcommit
    · rw [if_neg fun hrank => hkey (Ranked.rank_inj hrank)]
      rwa [if_neg hkey] at hcommit

/-- Committed balances are the written ones where there is one, and the old ones elsewhere. -/
theorem balance_commit (vaults : Vaults) {writes : List (VaultKey × Word)}
    (hsorted : writes.Pairwise fun a b => Ranked.rank a.1 < Ranked.rank b.1) (key : VaultKey) :
    (vaults.commit writes).balance key =
      (SortedMap.lookup key writes).getD (vaults.balance key) := by
  rw [balance, get?_commit vaults hsorted]
  cases SortedMap.lookup key writes with
  | none => rfl
  | some amount =>
    by_cases hzero : amount = 0
    · simp only [hzero, if_true, Option.getD_none, Option.getD_some]
    · simp only [hzero, if_false, Option.getD_some]

end Vaults

namespace Overlay

/-- Committing an overlay makes its balances those of the vaults. -/
@[simp] theorem balance_commit (o : Overlay) (key : VaultKey) :
    o.commit.balance key = o.balance key :=
  Vaults.balance_commit o.base o.writes.sorted key

/-- Staging a balance and committing is committing and setting the balance. -/
theorem commit_stage (o : Overlay) (key : VaultKey) (amount : Word) :
    (o.stage key amount).commit = o.commit.set key amount := by
  apply SortedMap.ext
  intro other
  have hlookup : SortedMap.lookup other (o.stage key amount).writes.entries =
      if other = key then some amount else SortedMap.lookup other o.writes.entries := by
    have hget := SortedMap.get?_insert o.writes key other amount
    by_cases hkey : other = key
    · rw [if_pos hkey]
      rwa [if_pos (hkey ▸ rfl)] at hget
    · rw [if_neg hkey]
      rwa [if_neg fun hrank => hkey (Ranked.rank_inj hrank)] at hget
  rw [Vaults.get?_set, commit, Vaults.get?_commit _ (o.stage key amount).writes.sorted, hlookup]
  by_cases hkey : other = key
  · rw [if_pos hkey, if_pos hkey]
  · rw [if_neg hkey, if_neg hkey, commit, Vaults.get?_commit _ o.writes.sorted]
    rfl

variable {o o' : Overlay}

/-- Overlays that commit to the same vaults have the same balances. -/
theorem balance_eq_of_commit_eq (h : o.commit = o'.commit) (key : VaultKey) :
    o.balance key = o'.balance key := by
  rw [← balance_commit, h, balance_commit]

/-- A credit is possible on overlays that come to the same on both or on none. -/
theorem credit_alike (h : o.commit = o'.commit) (key : VaultKey) (amount : Word) :
    Alike (fun a b => a.commit = b.commit) (o.credit key amount) (o'.credit key amount) := by
  rw [credit, credit, balance_eq_of_commit_eq h]
  refine Alike.bind_same fun sum => .ok ?_
  rw [commit_stage, commit_stage, h]

theorem debit_alike (h : o.commit = o'.commit) (key : VaultKey) (amount : Word) :
    Alike (fun a b => a.commit = b.commit) (o.debit key amount) (o'.debit key amount) := by
  rw [debit, debit, balance_eq_of_commit_eq h]
  refine Alike.bind_same fun rest => .ok ?_
  rw [commit_stage, commit_stage, h]

end Overlay

end Bourse
