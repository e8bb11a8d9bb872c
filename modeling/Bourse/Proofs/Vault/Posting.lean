import Mathlib.Algebra.BigOperators.Group.Finset.Piecewise
import Mathlib.Algebra.BigOperators.Ring.Finset
import Mathlib.Algebra.Order.BigOperators.Group.List
import Bourse.Proofs.Vault.Staging

/-!
# Postings

What a request does to the vaults is a list of postings: amounts that come into a vault or leave
it. Balances are compared before and after as integers, so neither the order of the postings nor
vaults that occur in several of them matter. From the balances of the single vaults follows the
sum over all vaults of a token: it changes by the postings in that token.
-/

namespace Bourse

/-- An amount that comes into a vault, or, when it is negative, leaves it. -/
structure Posting where
  key : VaultKey
  amount : Int
  deriving DecidableEq

namespace Posting

/-- An amount that comes into a vault. -/
def credit (key : VaultKey) (amount : Word) : Posting := ⟨key, amount.toNat⟩

/-- An amount that leaves a vault. -/
def debit (key : VaultKey) (amount : Word) : Posting := ⟨key, -amount.toNat⟩

/-- What a posting changes in a vault. -/
def inVault (p : Posting) (key : VaultKey) : Int := if p.key = key then p.amount else 0

/-- What a posting changes in the sum over the vaults of a token. -/
def inToken (p : Posting) (token : Address) : Int := if p.key.token = token then p.amount else 0

/-- What postings change in a vault. -/
def net (ps : List Posting) (key : VaultKey) : Int := (ps.map fun p => p.inVault key).sum

/-- What postings change in the sum over the vaults of a token. -/
def netToken (ps : List Posting) (token : Address) : Int := (ps.map fun p => p.inToken token).sum

@[simp] theorem net_nil (key : VaultKey) : net [] key = 0 := rfl

@[simp] theorem net_cons (p : Posting) (ps : List Posting) (key : VaultKey) :
    net (p :: ps) key = p.inVault key + net ps key := rfl

/-- Postings that follow each other add up for every vault. -/
@[simp] theorem net_append (ps qs : List Posting) (key : VaultKey) :
    net (ps ++ qs) key = net ps key + net qs key := by
  simp only [net, List.map_append, List.sum_append]

@[simp] theorem netToken_nil (token : Address) : netToken [] token = 0 := rfl

@[simp] theorem netToken_cons (p : Posting) (ps : List Posting) (token : Address) :
    netToken (p :: ps) token = p.inToken token + netToken ps token := rfl

@[simp] theorem netToken_append (ps qs : List Posting) (token : Address) :
    netToken (ps ++ qs) token = netToken ps token + netToken qs token := by
  simp only [netToken, List.map_append, List.sum_append]

/-- Postings to other vaults change nothing in a vault. -/
theorem net_eq_zero {ps : List Posting} {key : VaultKey} (h : ∀ p ∈ ps, p.key ≠ key) :
    net ps key = 0 := by
  induction ps with
  | nil => rfl
  | cons p ps ih =>
    rw [List.forall_mem_cons] at h
    rw [net_cons, inVault, if_neg h.1, ih h.2, Int.add_zero]

/-- A vault from which postings take has one among them that takes from it. -/
theorem exists_of_net_neg {ps : List Posting} {key : VaultKey} (h : net ps key < 0) :
    ∃ p ∈ ps, p.key = key ∧ p.amount < 0 := by
  by_contra hnone
  push Not at hnone
  have hnonneg : 0 ≤ net ps key := by
    apply List.sum_nonneg
    intro x hx
    obtain ⟨p, hp, rfl⟩ := List.mem_map.mp hx
    rw [inVault]
    split
    · next hkey => exact hnone p hp hkey
    · exact le_refl 0
  omega

/-- Over vaults that include all posted ones, the changes of the vaults of a token add up to the
change of the token. -/
theorem sum_net (ps : List Posting) (token : Address) (keys : Finset VaultKey)
    (hkeys : ∀ p ∈ ps, p.key ∈ keys) :
    ∑ key ∈ keys with key.token = token, net ps key = netToken ps token := by
  induction ps with
  | nil => simp
  | cons p ps ih =>
    have hp : p.key ∈ keys := hkeys p (List.mem_cons_self ..)
    have hrest := ih fun q hq => hkeys q (List.mem_cons_of_mem _ hq)
    simp only [net_cons, netToken_cons, Finset.sum_add_distrib, hrest, inVault, inToken,
      Finset.sum_ite_eq, Finset.mem_filter, hp, true_and]

end Posting

/-- The balances `after` are those of `before` with the postings made. -/
def Posted (before after : VaultKey → Word) (ps : List Posting) : Prop :=
  ∀ key, ((after key).toNat : Int) = (before key).toNat + Posting.net ps key

namespace Posted

/-- Nothing is posted where nothing changes. -/
theorem refl (balance : VaultKey → Word) : Posted balance balance [] := by
  intro key
  simp

/-- Changes that follow each other post what each of them posts. -/
theorem trans {a b c : VaultKey → Word} {ps qs : List Posting} (hab : Posted a b ps)
    (hbc : Posted b c qs) : Posted a c (ps ++ qs) := by
  intro key
  rw [hbc key, hab key, Posting.net_append, Int.add_assoc]

/-- A balance that has become smaller was posted to. -/
theorem exists_debit {before after : VaultKey → Word} {ps : List Posting} {key : VaultKey}
    (h : Posted before after ps) (hless : after key < before key) :
    ∃ p ∈ ps, p.key = key ∧ p.amount < 0 := by
  apply Posting.exists_of_net_neg
  have hkey := h key
  rw [Word.lt_iff] at hless
  omega

end Posted

namespace Vaults

/-- The sum of the balances of all vaults of a token. Vaults that are not in use have none. -/
def total (vaults : Vaults) (token : Address) : Nat :=
  ((vaults.entries.filter fun e => e.1.token = token).map fun e => e.2.toNat).sum

/-- The entries of a token add up to the balances over any keys that include theirs. -/
private theorem entries_sum_eq {es : List (VaultKey × Word)}
    (hsorted : es.Pairwise fun a b => Ranked.rank a.1 < Ranked.rank b.1) (token : Address)
    (keys : Finset VaultKey) (hkeys : ∀ e ∈ es, e.1 ∈ keys) :
    ((es.filter fun e => e.1.token = token).map fun e => e.2.toNat).sum =
      ∑ key ∈ keys with key.token = token, ((SortedMap.lookup key es).getD 0).toNat := by
  induction es with
  | nil => simp [SortedMap.lookup]
  | cons e es ih =>
    obtain ⟨hfirst, hrest⟩ := List.pairwise_cons.mp hsorted
    have htail := ih hrest fun d hd => hkeys d (List.mem_cons_of_mem _ hd)
    have he : e.1 ∈ keys := hkeys e (List.mem_cons_self ..)
    have hnone : SortedMap.lookup e.1 es = none := by
      apply SortedMap.lookup_eq_none
      intro d hd
      exact Nat.ne_of_lt (hfirst d hd)
    -- The first entry adds its balance at its own key, where the others have none.
    have hsplit : ∀ key, ((SortedMap.lookup key (e :: es)).getD 0).toNat =
        (if e.1 = key then e.2.toNat else 0) + ((SortedMap.lookup key es).getD 0).toNat := by
      intro key
      rw [SortedMap.lookup]
      by_cases hkey : e.1 = key
      · subst hkey
        simp [hnone]
      · rw [if_neg fun hrank => hkey (Ranked.rank_inj hrank).symm, if_neg hkey, Nat.zero_add]
    simp only [hsplit, Finset.sum_add_distrib, ← htail, Finset.sum_ite_eq, Finset.mem_filter, he,
      true_and, List.filter_cons]
    by_cases ht : e.1.token = token <;> simp [ht]

/-- The sum may be taken over any vaults that include those in use. -/
theorem total_eq_sum (vaults : Vaults) (token : Address) (keys : Finset VaultKey)
    (hkeys : ∀ e ∈ vaults.entries, e.1 ∈ keys) :
    vaults.total token = ∑ key ∈ keys with key.token = token, (vaults.balance key).toNat :=
  entries_sum_eq vaults.sorted token keys hkeys

end Vaults

/-- The sum over the vaults of a token changes by the postings in that token. -/
theorem Posted.total {before after : Vaults} {ps : List Posting}
    (h : Posted before.balance after.balance ps) (token : Address) :
    (after.total token : Int) = before.total token + Posting.netToken ps token := by
  let keys : Finset VaultKey :=
    (before.entries.map Prod.fst ++ after.entries.map Prod.fst ++ ps.map Posting.key).toFinset
  have hbefore : ∀ e ∈ before.entries, e.1 ∈ keys := by
    intro e he
    simp only [keys, List.mem_toFinset, List.mem_append, List.mem_map]
    exact Or.inl (Or.inl ⟨e, he, rfl⟩)
  have hafter : ∀ e ∈ after.entries, e.1 ∈ keys := by
    intro e he
    simp only [keys, List.mem_toFinset, List.mem_append, List.mem_map]
    exact Or.inl (Or.inr ⟨e, he, rfl⟩)
  have hposted : ∀ p ∈ ps, p.key ∈ keys := by
    intro p hp
    simp only [keys, List.mem_toFinset, List.mem_append, List.mem_map]
    exact Or.inr ⟨p, hp, rfl⟩
  rw [after.total_eq_sum token keys hafter, before.total_eq_sum token keys hbefore,
    ← Posting.sum_net ps token keys hposted]
  push_cast
  rw [← Finset.sum_add_distrib]
  exact Finset.sum_congr rfl fun key _ => h key

namespace Overlay

/-- A credit posts its amount. -/
theorem credit_posted {o o' : Overlay} {key : VaultKey} {amount : Word}
    (h : o.credit key amount = .ok o') :
    Posted o.balance o'.balance [Posting.credit key amount] := by
  rw [credit, bind_eq_ok_iff] at h
  obtain ⟨sum, hsum, hstage⟩ := h
  have hnat := Arithmetic.add_eq_ok_iff.mp hsum
  rw [pure_eq_ok_iff] at hstage
  subst hstage
  intro other
  rw [balance_stage]
  by_cases hkey : other = key
  · subst hkey
    simp [Posting.credit, Posting.inVault, hnat]
  · simp [Posting.credit, Posting.inVault, hkey, Ne.symm hkey]

/-- A debit posts its amount. -/
theorem debit_posted {o o' : Overlay} {key : VaultKey} {amount : Word}
    (h : o.debit key amount = .ok o') :
    Posted o.balance o'.balance [Posting.debit key amount] := by
  rw [debit, bind_eq_ok_iff] at h
  obtain ⟨rest, hrest, hstage⟩ := h
  have hnat := Arithmetic.sub_eq_ok_iff.mp hrest
  rw [pure_eq_ok_iff] at hstage
  subst hstage
  intro other
  rw [balance_stage]
  by_cases hkey : other = key
  · subst hkey
    simp [Posting.debit, Posting.inVault]
    omega
  · simp [Posting.debit, Posting.inVault, hkey, Ne.symm hkey]

end Overlay

end Bourse
