import Bourse.Address
import Bourse.SortedMap

/-!
# Vaults

A vault holds the balance of one token of one account under a number of the account's choice. A
vault that was never used has balance zero, and a vault whose balance returns to zero is
forgotten, so that equal balances are equal vaults.
-/

namespace Bourse

/-- The name of a vault. -/
structure VaultKey where
  /-- The account that the vault belongs to. -/
  owner : Address
  /-- The token that the vault holds. -/
  token : Address
  /-- The number of the vault among those of its owner and token. -/
  vault : Word
  deriving DecidableEq

/-- The place of a vault in the order by owner, token and number. -/
def VaultKey.rank (key : VaultKey) : Nat :=
  (key.owner.toNat * Address.size + key.token.toNat) * Word.size + key.vault.toNat

/-- Different vaults have different ranks. -/
theorem VaultKey.rank_inj {a b : VaultKey} (h : a.rank = b.rank) : a = b := by
  have hta := a.token.toNat_lt_size
  have htb := b.token.toNat_lt_size
  have hva := a.vault.toNat_lt_size
  have hvb := b.vault.toNat_lt_size
  obtain ⟨oa, ta, va⟩ := a
  obtain ⟨ob, tb, vb⟩ := b
  simp only [rank, Address.size, Word.size] at h hta htb hva hvb
  have hv : va.toNat = vb.toNat := by omega
  have ht : ta.toNat = tb.toNat := by omega
  have ho : oa.toNat = ob.toNat := by omega
  rw [Address.ext ho, Address.ext ht, Word.ext hv]

instance : Ranked VaultKey := ⟨VaultKey.rank, VaultKey.rank_inj⟩

/-- The balances of the vaults that are in use. -/
abbrev Vaults := SortedMap VaultKey Word

namespace Vaults

/-- The balance of a vault. -/
def balance (vaults : Vaults) (key : VaultKey) : Word := (vaults.get? key).getD 0

/-- Give a vault another balance, and forget it when that is zero. -/
def set (vaults : Vaults) (key : VaultKey) (balance : Word) : Vaults :=
  if balance = 0 then vaults.erase key else vaults.insert key balance

/-- Give vaults other balances, one after the other. -/
def commit (vaults : Vaults) (writes : List (VaultKey × Word)) : Vaults :=
  writes.foldl (fun vaults write => vaults.set write.1 write.2) vaults

/-- A vault that is set to nothing is not kept. -/
theorem get?_set (vaults : Vaults) (key other : VaultKey) (amount : Word) :
    (vaults.set key amount).get? other =
      if other = key then (if amount = 0 then none else some amount) else vaults.get? other := by
  have hrank : Ranked.rank other = Ranked.rank key ↔ other = key :=
    ⟨fun h => Ranked.rank_inj h, fun h => h ▸ rfl⟩
  rw [set]
  split
  · rw [SortedMap.get?_erase]
    simp only [hrank]
  · rw [SortedMap.get?_insert]
    simp only [hrank]

/-- Setting a vault changes its balance and no other one. -/
theorem balance_set (vaults : Vaults) (key other : VaultKey) (amount : Word) :
    (vaults.set key amount).balance other =
      if other = key then amount else vaults.balance other := by
  rw [balance, get?_set]
  split
  · split
    · next hzero => exact hzero.symm
    · rfl
  · rfl

end Vaults

end Bourse
