import Bourse.Arithmetic
import Bourse.Vault

/-!
# Staged balances

An overlay keeps the balances that an operation has changed beside the vaults that it has started
from. It reads as if the changes were made, and they are made when it is committed; until then the
vaults beneath stay as they are.
-/

namespace Bourse

/-- Vaults together with balances that are to replace theirs. -/
structure Overlay where
  /-- The vaults beneath. -/
  base : Vaults
  /-- The changed balances, among them those that have become zero. -/
  writes : SortedMap VaultKey Word
  deriving DecidableEq

namespace Overlay

/-- The overlay without changes. -/
def on (base : Vaults) : Overlay := ⟨base, .empty⟩

/-- The balance of a vault. -/
def balance (o : Overlay) (key : VaultKey) : Word := (o.writes.get? key).getD (o.base.balance key)

/-- Give a vault another balance. -/
def stage (o : Overlay) (key : VaultKey) (balance : Word) : Overlay :=
  { o with writes := o.writes.insert key balance }

/-- Add to the balance of a vault; overflow when the sum does not fit. -/
def credit (o : Overlay) (key : VaultKey) (amount : Word) : Except ArithmeticError Overlay := do
  return o.stage key (← Arithmetic.add (o.balance key) amount)

/-- Take from the balance of a vault; underflow when it does not suffice. -/
def debit (o : Overlay) (key : VaultKey) (amount : Word) : Except ArithmeticError Overlay := do
  return o.stage key (← Arithmetic.sub (o.balance key) amount)

/-- The vaults with the changes made. -/
def commit (o : Overlay) : Vaults := o.base.commit o.writes.entries

@[simp] theorem balance_on (base : Vaults) (key : VaultKey) :
    (on base).balance key = base.balance key := rfl

/-- Staging an amount changes the balance of its vault and no other one. -/
theorem balance_stage (o : Overlay) (key other : VaultKey) (amount : Word) :
    (o.stage key amount).balance other = if other = key then amount else o.balance other := by
  simp only [balance, stage, SortedMap.get?_insert]
  by_cases h : other = key
  · rw [if_pos (h ▸ rfl), if_pos h, Option.getD_some]
  · rw [if_neg fun hr => h (Ranked.rank_inj hr), if_neg h]

end Overlay

end Bourse
