/-
  **Balances, guarantee orders and collected fees** (`libraries/chain/db_balance.cpp`,
  `protocol/asset.hpp`, `protocol/asset.cpp`).

  The balance objects are found by owner and asset in an ordered index, so by the hash of
  the owner.  A call that throws is `none`: the transaction around it is undone as a whole.

  `Moves` says of a call what it adds to what an address holds, spendable and frozen
  together; `Moves.heldBy` turns that into a statement about any set of addresses.
-/
import Mathlib.Algebra.BigOperators.Ring.Finset
import HyperExchange.Address
import HyperExchange.OperationSequences

namespace HyperExchange.Fees

open Option

/-! ### Assets and prices -/

/-- `asset`; ids are instances, `0` the core asset. -/
structure Asset where
  amount : Int
  assetId : Nat
deriving DecidableEq, Repr

def coreAsset : Nat := 0

/-- `share_type` is `safe<int64_t>`, whose operators throw on overflow. -/
def share (n : Int) : Option Int := if -2 ^ 63 ≤ n ∧ n < 2 ^ 63 then some n else none

theorem share_eq {n m : Int} (h : share n = some m) : m = n := by
  unfold share at h
  split at h
  · cases h
    rfl
  · cases h

theorem share_range {n m : Int} (h : share n = some m) : -2 ^ 63 ≤ m ∧ m < 2 ^ 63 := by
  unfold share at h
  split at h
  · next hrange =>
    cases h
    exact hrange
  · cases h

def Asset.neg (a : Asset) : Asset := ⟨-a.amount, a.assetId⟩

def Asset.add (a b : Asset) : Option Asset :=
  if a.assetId = b.assetId then (share (a.amount + b.amount)).map (⟨·, a.assetId⟩) else none

structure Price where
  base : Asset
  quote : Asset

/-- `GRAPHENE_MAX_SHARE_SUPPLY` -/
def maxShareSupply : Int := 10000000000000000

/-- `uint128_t( amount ) * quote / base` -/
def scale (amount quote base : Int) : Option Int :=
  if 0 < base then
    let result := amount * quote % 2 ^ 128 / base
    if result ≤ maxShareSupply then some result else none
  else none

/-- `asset * price` -/
def Asset.mulPrice (a : Asset) (p : Price) : Option Asset :=
  if a.assetId = p.base.assetId then
    (scale a.amount p.quote.amount p.base.amount).map (⟨·, p.quote.assetId⟩)
  else if a.assetId = p.quote.assetId then
    (scale a.amount p.base.amount p.quote.amount).map (⟨·, p.base.assetId⟩)
  else none

/-! ### The ledger -/

/-- `balance_object` -/
structure BalanceObject where
  balance : Int
  frozen : Int
deriving DecidableEq, Repr

/-- `guarantee_object` -/
structure GuaranteeObject (H : Type) where
  ownerAddr : Address H
  assetOrign : Asset
  assetTarget : Asset
  assetFinished : Asset
  finished : Bool

structure Ledger (H : Type) where
  balances : H → Nat → Option BalanceObject
  guarantees : Nat → Option (GuaranteeObject H)
  /-- `_total_collected_fees` -/
  collected : Nat → Int

namespace Ledger

variable {H : Type}

/-- `modify_current_collected_fee` -/
def modifyCurrentCollectedFee (changed : Asset) (l : Ledger H) : Option (Ledger H) :=
  (share (l.collected changed.assetId + changed.amount)).map fun n =>
    { l with collected := fun a => if a = changed.assetId then n else l.collected a }

/-- `adjust_guarantee` -/
def adjustGuarantee (id : Nat) (target : Asset) (l : Ledger H) : Option (Ledger H) :=
  (l.guarantees id).bind fun g =>
    if g.finished then none
    else (g.assetFinished.add target).bind fun sum =>
      if sum.assetId = g.assetTarget.assetId ∧ sum.amount ≤ g.assetTarget.amount then
        let g' := { g with assetFinished := sum, finished := decide (sum = g.assetTarget) }
        some { l with guarantees := fun i => if i = id then some g' else l.guarantees i }
      else none

/-- `record_guarantee`, without the records. -/
def recordGuarantee (id : Nat) (l : Ledger H) : Option (Ledger H) :=
  (l.guarantees id).bind fun g => if g.finished then none else some l

variable [DecidableEq H]

def setBalance (owner : H) (assetId : Nat) (b : BalanceObject) (l : Ledger H) : Ledger H :=
  { l with balances := fun x a => if x = owner ∧ a = assetId then some b else l.balances x a }

variable [Inhabited H]

/-- `adjust_balance` -/
def adjustBalance (addr : Address H) (delta : Asset) (l : Ledger H) : Option (Ledger H) :=
  if delta.amount = 0 then some l
  else if addr = .null then none
  else match l.balances addr.addr delta.assetId with
    | none =>
      if 0 < delta.amount then some (l.setBalance addr.addr delta.assetId ⟨delta.amount, 0⟩)
      else none
    | some b =>
      if delta.amount < 0 ∧ b.balance < -delta.amount then none
      else (share (b.balance + delta.amount)).map fun n =>
        l.setBalance addr.addr delta.assetId { b with balance := n }

/-- `adjust_frozen` -/
def adjustFrozen (addr : Address H) (delta : Asset) (l : Ledger H) : Option (Ledger H) :=
  if addr = .null then none
  else if delta.amount = 0 then some l
  else match l.balances addr.addr delta.assetId with
    | none => none
    | some b =>
      if delta.amount < 0 ∧ b.frozen < -delta.amount then none
      else (share (b.frozen + delta.amount)).map fun n =>
        l.setBalance addr.addr delta.assetId { b with frozen := n }

end Ledger

/-! ### What is held -/

namespace Ledger

variable {H : Type}

/-- `balance_object::amount()`: spendable and frozen. -/
def held (l : Ledger H) (owner : H) (a : Nat) : Int :=
  match l.balances owner a with
  | none => 0
  | some b => b.balance + b.frozen

/-- `get_balance` -/
def spendable (l : Ledger H) (owner : H) (a : Nat) : Int :=
  match l.balances owner a with
  | none => 0
  | some b => b.balance

def frozenOf (l : Ledger H) (owner : H) (a : Nat) : Int :=
  match l.balances owner a with
  | none => 0
  | some b => b.frozen

theorem held_eq (l : Ledger H) (x : H) (a : Nat) :
    l.held x a = l.spendable x a + l.frozenOf x a := by
  unfold held spendable frozenOf
  cases l.balances x a with
  | none | some => rfl

def heldBy (l : Ledger H) (s : Finset H) (a : Nat) : Int := ∑ x ∈ s, l.held x a

end Ledger

/-- How much of asset `a` an amount is. -/
def Asset.of (x : Asset) (a : Nat) : Int := if a = x.assetId then x.amount else 0

theorem Asset.of_neg (x : Asset) (a : Nat) : x.neg.of a = -x.of a := by
  by_cases ha : a = x.assetId <;> simp [Asset.of, Asset.neg, ha]

section Moves

variable {H : Type} {l l' : Ledger H}

/-- The call adds `delta` to what `owner` holds, and nothing else. -/
structure Moves [DecidableEq H] (owner : H) (delta : Asset) (l l' : Ledger H) : Prop where
  held : ∀ x a, l'.held x a = l.held x a + if x = owner then delta.of a else 0
  collected : l'.collected = l.collected
  guarantees : l'.guarantees = l.guarantees

variable [DecidableEq H] {owner : H} {delta : Asset} {addr : Address H}

/-- **What a set of addresses holds** after a move within it. -/
theorem Moves.heldBy (h : Moves owner delta l l') {s : Finset H} (hs : owner ∈ s) (a : Nat) :
    l'.heldBy s a = l.heldBy s a + delta.of a := by
  unfold Ledger.heldBy
  rw [Finset.sum_congr rfl fun x _ => h.held x a, Finset.sum_add_distrib, Finset.sum_ite_eq',
    if_pos hs]

/-- What a call changes of a balance of `owner`: it adds `x` to what can be spent and `y` to
    what is frozen. -/
structure Changes (owner : H) (x y : Asset) (l l' : Ledger H) : Prop where
  spendable : ∀ o a, l'.spendable o a = l.spendable o a + if o = owner then x.of a else 0
  frozen : ∀ o a, l'.frozenOf o a = l.frozenOf o a + if o = owner then y.of a else 0
  known : ∀ {o a}, (l.balances o a).isSome → (l'.balances o a).isSome
  collected : l'.collected = l.collected
  guarantees : l'.guarantees = l.guarantees

namespace Changes

variable {x y : Asset}

theorem of_zero (owner : H) (hx : x.amount = 0) (hy : y.amount = 0) (l : Ledger H) :
    Changes owner x y l l :=
  ⟨by simp [Asset.of, hx], by simp [Asset.of, hy], id, rfl, rfl⟩

theorem setBalance {b : BalanceObject} (hasset : y.assetId = x.assetId)
    (hx : b.balance = l.spendable owner x.assetId + x.amount)
    (hy : b.frozen = l.frozenOf owner x.assetId + y.amount) :
    Changes owner x y l (l.setBalance owner x.assetId b) := by
  have hread : ∀ o a, o = owner ∧ a = x.assetId ∨
      (l.setBalance owner x.assetId b).balances o a = l.balances o a ∧
        ∀ z : Asset, z.assetId = x.assetId → (if o = owner then z.of a else 0) = 0 := by
    intro o a
    by_cases h : o = owner ∧ a = x.assetId
    · exact .inl h
    · refine .inr ⟨if_neg h, fun z hz => ?_⟩
      simp only [Asset.of, hz]
      grind
  refine ⟨fun o a => ?_, fun o a => ?_, fun {o a} => ?_, rfl, rfl⟩
  all_goals rcases hread o a with ⟨rfl, rfl⟩ | ⟨hsame, hz⟩
  · simpa [Ledger.spendable, Ledger.setBalance, Asset.of] using hx
  · simp only [Ledger.spendable, hsame, hz x rfl, Int.add_zero]
  · simpa [Ledger.frozenOf, Ledger.setBalance, Asset.of, hasset] using hy
  · simp only [Ledger.frozenOf, hsame, hz y hasset, Int.add_zero]
  · simp [Ledger.setBalance]
  · rw [hsame]
    exact id

theorem moves (h : Changes owner x y l l') (hsum : ∀ a, x.of a + y.of a = delta.of a) :
    Moves owner delta l l' := by
  refine ⟨fun o a => ?_, h.collected, h.guarantees⟩
  rw [Ledger.held_eq, Ledger.held_eq, h.spendable, h.frozen, ← hsum]
  split <;> omega

end Changes

variable [Inhabited H]

section

variable (h : l.adjustBalance addr delta = some l')
include h

theorem adjustBalance_changes : Changes addr.addr delta ⟨0, delta.assetId⟩ l l' := by
  unfold Ledger.adjustBalance at h
  split at h
  · next hzero =>
    cases h
    exact .of_zero _ hzero rfl l
  split at h
  · cases h
  cases hb : l.balances addr.addr delta.assetId with
  | none =>
    simp only [hb] at h
    split at h
    · cases h
      exact .setBalance rfl (by simp [Ledger.spendable, hb]) (by simp [Ledger.frozenOf, hb])
    · cases h
  | some b =>
    simp only [hb] at h
    split at h
    · cases h
    obtain ⟨n, hn, rfl⟩ := map_eq_some_iff.mp h
    exact .setBalance rfl (by simp [Ledger.spendable, hb, share_eq hn])
      (by simp [Ledger.frozenOf, hb])

theorem moves_adjustBalance : Moves addr.addr delta l l' :=
  (adjustBalance_changes h).moves (by simp [Asset.of])

theorem spendable_adjustBalance (x : H) (a : Nat) :
    l'.spendable x a = l.spendable x a + if x = addr.addr then delta.of a else 0 :=
  (adjustBalance_changes h).spendable x a

end

/-- An adjustment within what is there, and within the range of amounts, returns. -/
theorem adjustBalance_returns (addr : Address H) (delta : Asset)
    (haddr : delta.amount ≠ 0 → addr ≠ .null)
    (hlow : 0 ≤ l.spendable addr.addr delta.assetId + delta.amount)
    (hhigh : l.spendable addr.addr delta.assetId + delta.amount < 2 ^ 63) :
    ∃ l', l.adjustBalance addr delta = some l' := by
  unfold Ledger.adjustBalance
  unfold Ledger.spendable at hlow hhigh
  by_cases hzero : delta.amount = 0
  · exact ⟨l, by rw [if_pos hzero]⟩
  rw [if_neg hzero, if_neg (haddr hzero)]
  cases hb : l.balances addr.addr delta.assetId with
  | none =>
    simp only [hb] at hlow ⊢
    exact ⟨_, if_pos (by omega)⟩
  | some b =>
    simp only [hb] at hlow hhigh ⊢
    rw [if_neg (by omega), share, if_pos (by omega)]
    exact ⟨_, rfl⟩

theorem adjustBalance_null (h : delta.amount ≠ 0) : l.adjustBalance .null delta = none := by
  unfold Ledger.adjustBalance
  rw [if_neg h, if_pos rfl]

theorem adjustFrozen_changes (h : l.adjustFrozen addr delta = some l') :
    Changes addr.addr ⟨0, delta.assetId⟩ delta l l' := by
  unfold Ledger.adjustFrozen at h
  split at h
  · cases h
  split at h
  · next hzero =>
    cases h
    exact .of_zero _ rfl hzero l
  cases hb : l.balances addr.addr delta.assetId with
  | none =>
    simp only [hb] at h
    cases h
  | some b =>
    simp only [hb] at h
    split at h
    · cases h
    obtain ⟨n, hn, rfl⟩ := map_eq_some_iff.mp h
    exact .setBalance rfl (by simp [Ledger.spendable, hb])
      (by simp [Ledger.frozenOf, hb, share_eq hn])

theorem moves_adjustFrozen (h : l.adjustFrozen addr delta = some l') :
    Moves addr.addr delta l l' :=
  (adjustFrozen_changes h).moves (by simp [Asset.of])

omit [DecidableEq H] [Inhabited H] in
theorem adjustGuarantee_spec {id : Nat} {target : Asset}
    (h : l.adjustGuarantee id target = some l') :
    l'.heldBy = l.heldBy ∧ l'.collected = l.collected ∧ ∀ i g', l'.guarantees i = some g' →
      ∃ g, l.guarantees i = some g ∧ g.ownerAddr = g'.ownerAddr := by
  obtain ⟨g, hg, h⟩ := bind_eq_some_iff.mp h
  split at h
  · cases h
  obtain ⟨sum, _, h⟩ := bind_eq_some_iff.mp h
  split at h
  · cases h
    refine ⟨rfl, rfl, fun i g' hg' => ?_⟩
    simp only at hg'
    split at hg'
    · next hi =>
      cases hg'
      exact ⟨g, hi ▸ hg, rfl⟩
    · exact ⟨g', hg', rfl⟩
  · cases h

omit [DecidableEq H] [Inhabited H] in
theorem recordGuarantee_eq {id : Nat} (h : l.recordGuarantee id = some l') : l' = l := by
  obtain ⟨g, _, h⟩ := bind_eq_some_iff.mp h
  split at h
  · cases h
  · cases h
    rfl

omit [DecidableEq H] [Inhabited H] in
theorem collected_modify {x : Asset} (h : l.modifyCurrentCollectedFee x = some l') :
    l'.heldBy = l.heldBy ∧ ∀ a, l'.collected a = l.collected a + x.of a := by
  obtain ⟨n, hn, rfl⟩ := map_eq_some_iff.mp h
  refine ⟨rfl, fun a => ?_⟩
  by_cases ha : a = x.assetId
  · simp [Asset.of, ha, share_eq hn]
  · simp [Asset.of, ha]

end Moves

end HyperExchange.Fees
