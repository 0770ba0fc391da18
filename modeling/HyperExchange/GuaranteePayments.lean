/-
  **Guarantee orders and payments through them** (`gurantee_create_evaluator` and
  `gurantee_cancel_evaluator` in `asset_evaluator.cpp`, `database::cancel_frozen` in
  `db_balance.cpp`).

  An order freezes an amount of its owner's balance and offers it for fees at a fixed price.
  What is spent of it is only kept in the asset it is paid in, rounded down with every
  payment; `OrderBook.spent` follows the original asset, for the statements here.

  A fee and the refund of unspent gas are the same move in two directions (`Pays`): the
  frozen balance of the owner changes by the amount, and the finished part of the order by
  what the amount is worth.
-/
import HyperExchange.Execution
import HyperExchange.FeeProcessing
import Mathlib.Tactic.Linarith

namespace HyperExchange.Fees

open Option Ledger Asset

section

variable {H : Type}

/-! ### The operations -/

/-- `gurantee_create_operation` -/
structure GuranteeCreate (H : Type) where
  ownerAddr : Address H
  assetOrigin : Asset
  assetTarget : Asset

/-- `gurantee_cancel_operation` -/
structure GuranteeCancel (H : Type) where
  ownerAddr : Address H
  cancelGuaranteeId : Nat

namespace Ledger

variable [DecidableEq H] [Inhabited H]

/-- `adjust_balance` with `freeze` set: what is taken from the balance is frozen. -/
def adjustAndFreeze (addr : Address H) (delta : Asset) (l : Ledger H) : Option (Ledger H) :=
  if delta.amount = 0 then some l
  else if addr = .null then none
  else match l.balances addr.addr delta.assetId with
    | none =>
      if 0 < delta.amount then some (l.setBalance addr.addr delta.assetId ⟨delta.amount, 0⟩)
      else none
    | some b =>
      if delta.amount < 0 ∧ b.balance < -delta.amount then none
      else (share (b.balance + delta.amount)).bind fun n =>
        (share (b.frozen - delta.amount)).map fun m =>
          l.setBalance addr.addr delta.assetId ⟨n, m⟩

/-- `cancel_frozen`, which does not look at how much is frozen. -/
def cancelFrozen (addr : Address H) (delta : Asset) (l : Ledger H) : Option (Ledger H) :=
  if addr = .null then none
  else match l.balances addr.addr delta.assetId with
    | none => none
    | some b => (share (b.balance + delta.amount)).bind fun n =>
        (share (b.frozen - delta.amount)).map fun m =>
          l.setBalance addr.addr delta.assetId ⟨n, m⟩

def setGuarantee (id : Nat) (g : GuaranteeObject H) (l : Ledger H) : Ledger H :=
  { l with guarantees := fun i => if i = id then some g else l.guarantees i }

end Ledger

/-- The chain's balances and orders; `spent` is what each order has paid for fees, in the
    asset that was frozen for it. -/
structure OrderBook (H : Type) where
  ledger : Ledger H
  nextId : Nat
  spent : Nat → Int

namespace OrderBook

variable [DecidableEq H] [Inhabited H] (s : OrderBook H)

/-- `gurantee_create_evaluator::do_evaluate` -/
def evaluateCreate (o : GuranteeCreate H) : Option Unit :=
  (s.ledger.balances o.ownerAddr.addr o.assetOrigin.assetId).bind fun b =>
    if o.assetOrigin.amount ≤ b.balance ∧ 0 < o.assetOrigin.amount ∧ 0 < o.assetTarget.amount then
      some ()
    else none

/-- `gurantee_create_evaluator::do_apply` -/
def applyCreate (o : GuranteeCreate H) : Option (OrderBook H) :=
  (s.ledger.adjustAndFreeze o.ownerAddr o.assetOrigin.neg).map fun l =>
    { s with
      ledger := l.setGuarantee s.nextId
        { ownerAddr := o.ownerAddr
          assetOrign := o.assetOrigin
          assetTarget := o.assetTarget
          assetFinished := ⟨0, o.assetTarget.assetId⟩
          finished := false }
      nextId := s.nextId + 1 }

/-- `gurantee_create_operation` at a head block number. -/
def create (headBlockNum : Nat) (o : GuranteeCreate H) : Option (OrderBook H) :=
  (evaluateAbove headBlockNum false (s.evaluateCreate o)).bind fun _ => s.applyCreate o

variable (g : GuaranteeObject H)

/-- `asset_orign - asset_finished * price(asset_orign, asset_target)` -/
def leftOf : Option Asset :=
  (g.assetFinished.mulPrice g.price).bind fun used => g.assetOrign.add used.neg

/-- `gurantee_cancel_evaluator::do_evaluate` -/
def evaluateCancel (o : GuranteeCancel H) : Option Unit :=
  (s.ledger.guarantees o.cancelGuaranteeId).bind fun g =>
    if g.ownerAddr = o.ownerAddr ∧ g.finished = false then some () else none

/-- `gurantee_cancel_evaluator::do_apply` -/
def applyCancel (o : GuranteeCancel H) : Option (OrderBook H) :=
  (s.ledger.guarantees o.cancelGuaranteeId).bind fun g =>
    (leftOf g).bind fun left =>
      ((s.ledger.setGuarantee o.cancelGuaranteeId { g with finished := true }).cancelFrozen
        g.ownerAddr left).map fun l => { s with ledger := l }

/-- `gurantee_cancel_operation` at a head block number. -/
def cancel (headBlockNum : Nat) (o : GuranteeCancel H) : Option (OrderBook H) :=
  (evaluateAbove headBlockNum false (s.evaluateCancel o)).bind fun _ => s.applyCancel o

def unspentOf (e : FeeCharge H) : Int :=
  match e.contract with
  | none => 0
  | some c => (c.unspentFee e.fee.amount).getD 0

def charge (e : FeeCharge H) : Option (OrderBook H) :=
  ((e.debit s.ledger).bind e.payFee).map fun l =>
    { s with
      ledger := l
      spent := match e.guaranteeId with
        | none => s.spent
        | some id => fun i =>
          if i = id then s.spent i + (e.fee.amount - unspentOf e) else s.spent i }

/-- What happens to balances and orders. -/
inductive Event (H : Type) where
  | create (headBlockNum : Nat) (o : GuranteeCreate H)
  | cancel (headBlockNum : Nat) (o : GuranteeCancel H)
  | charge (e : FeeCharge H)
  /-- Any other change of a balance. -/
  | adjust (addr : Address H) (delta : Asset)

def apply : Event H → Option (OrderBook H)
  | .create headBlockNum o => s.create headBlockNum o
  | .cancel headBlockNum o => s.cancel headBlockNum o
  | .charge e => s.charge e
  | .adjust addr delta => (s.ledger.adjustBalance addr delta).map fun l => { s with ledger := l }

def step (e : Event H) : OrderBook H := (s.apply e).getD s

/-- No order was created and nothing is frozen. -/
structure Fresh (s : OrderBook H) : Prop where
  guarantees : ∀ id, s.ledger.guarantees id = none
  frozen : ∀ x a, s.ledger.frozenOf x a = 0
  nextId : s.nextId = 0
  spent : ∀ id, s.spent id = 0

/-! ### When nothing is lost in rounding -/

/-- `amount` of the frozen asset is worth a whole amount of the asset it is sold for. -/
def ExactFor (amount : Int) : Prop :=
  g.assetOrign.amount ∣ amount * g.assetTarget.amount
deriving Decidable

/-- The order is cancelled at the price it was paid at.  `asset * price` takes an amount of
    an order between two amounts of one asset for the frozen side. -/
def OneSided : Prop :=
  g.assetOrign.assetId ≠ g.assetTarget.assetId ∨ g.assetOrign.amount = g.assetTarget.amount ∨
    g.assetFinished.amount = 0
deriving Decidable

/-- Every fee and refund through an order is exact at its price, orders are created and
    cancelled above the checkpoint, where this is evaluated, and an order that is cancelled
    was not between two different amounts of one asset. -/
def Exact : Event H → Prop
  | .create headBlockNum _ => checkPointBlock < headBlockNum
  | .cancel headBlockNum o => checkPointBlock < headBlockNum ∧
      ∀ g ∈ s.ledger.guarantees o.cancelGuaranteeId, OneSided g
  | .charge e => ∀ id ∈ e.guaranteeId, ∀ g ∈ s.ledger.guarantees id,
      ExactFor g e.fee.amount ∧ ExactFor g (unspentOf e)
  | .adjust _ _ => True

/-- `share_type` is a 64 bit integer. -/
def InRange : Event H → Prop
  | .create _ o => o.assetOrigin.amount < 2 ^ 63 ∧ o.assetTarget.amount < 2 ^ 63
  | .cancel _ _ => True
  | .charge e => e.fee.amount < 2 ^ 63
  | .adjust _ _ => True

instance (s : OrderBook H) : DecidablePred (Exact s) := fun e => by
  cases e <;> unfold Exact <;> infer_instance

instance : DecidablePred (InRange : Event H → Prop) := fun e => by
  cases e <;> unfold InRange <;> infer_instance

end OrderBook

end

variable {H : Type} {id : Nat}

/-! ### The price -/

/-- For amounts of 64 bit a conversion that returns did not wrap around. -/
theorem scale_eq {amount quote base r : Int} (h : scale amount quote base = some r)
    (hamount : -2 ^ 63 ≤ amount ∧ amount < 2 ^ 63) (hquote : 0 < quote ∧ quote < 2 ^ 63)
    (hbase : base < 2 ^ 63) : 0 < base ∧ 0 ≤ amount ∧ r = amount * quote / base := by
  unfold scale at h
  split at h
  · next hpos =>
    dsimp only at h
    split at h
    · next hle =>
      cases h
      have hhigh : amount * quote < 2 ^ 128 := by nlinarith
      have hlow : -2 ^ 126 ≤ amount * quote := by nlinarith
      by_cases hneg : amount < 0
      · -- a negative amount is taken modulo 2 ^ 128 and is far above the bound
        exfalso
        have hprod : amount * quote < 0 := mul_neg_of_neg_of_pos hneg hquote.1
        have hmod : amount * quote % 2 ^ 128 = amount * quote + 2 ^ 128 := by
          rw [← Int.add_emod_right, Int.emod_eq_of_lt (by omega) (by omega)]
        rw [hmod] at hle
        have hdiv : amount * quote + 2 ^ 128 <
            ((amount * quote + 2 ^ 128) / base + 1) * base :=
          Int.lt_ediv_add_one_mul_self _ hpos
        have hmax : maxShareSupply = 10000000000000000 := rfl
        rw [hmax] at hle
        nlinarith
      · have hnonneg : 0 ≤ amount * quote := mul_nonneg (not_lt.1 hneg) hquote.1.le
        rw [Int.emod_eq_of_lt hnonneg hhigh]
        exact ⟨hpos, not_lt.1 hneg, rfl⟩
    · cases h
  · cases h

/-! ### Frozen balances -/

section Frozen

variable {l l' : Ledger H} [DecidableEq H] [Inhabited H] {addr : Address H} {delta : Asset}

theorem frozenOf_adjustBalance (h : l.adjustBalance addr delta = some l') :
    l'.frozenOf = l.frozenOf := by
  funext x c
  rw [(adjustBalance_changes h).frozen]
  simp [of]

theorem frozenOf_adjustFrozen (h : l.adjustFrozen addr delta = some l') (x : H) (c : Nat) :
    l'.frozenOf x c = l.frozenOf x c + if x = addr.addr then delta.of c else 0 :=
  (adjustFrozen_changes h).frozen x c

theorem adjustAndFreeze_changes (hneg : delta.amount < 0)
    (h : l.adjustAndFreeze addr delta = some l') : Changes addr.addr delta delta.neg l l' := by
  unfold adjustAndFreeze at h
  rw [if_neg hneg.ne] at h
  split at h
  · cases h
  cases hb : l.balances addr.addr delta.assetId with
  | none =>
    simp only [hb, if_neg (not_lt.2 hneg.le)] at h
    cases h
  | some b =>
    simp only [hb] at h
    split at h
    · cases h
    obtain ⟨n, hn, h⟩ := bind_eq_some_iff.1 h
    obtain ⟨m, hm, rfl⟩ := map_eq_some_iff.1 h
    exact .setBalance rfl (by simp [spendable, hb, share_eq hn])
      (by simp [frozenOf, hb, share_eq hm, neg, Int.sub_eq_add_neg])

theorem cancelFrozen_changes (h : l.cancelFrozen addr delta = some l') :
    Changes addr.addr delta delta.neg l l' := by
  unfold cancelFrozen at h
  split at h
  · cases h
  cases hb : l.balances addr.addr delta.assetId with
  | none =>
    simp only [hb] at h
    cases h
  | some b =>
    simp only [hb] at h
    obtain ⟨n, hn, h⟩ := bind_eq_some_iff.1 h
    obtain ⟨m, hm, rfl⟩ := map_eq_some_iff.1 h
    exact .setBalance rfl (by simp [spendable, hb, share_eq hn])
      (by simp [frozenOf, hb, share_eq hm, neg, Int.sub_eq_add_neg])

end Frozen

/-! ### Payments -/

/-- The order pays `amount` of what is frozen for it. -/
structure Pays [DecidableEq H] (id : Nat) (amount : Int) (g : GuaranteeObject H)
    (l l' : Ledger H) : Prop where
  found : l.guarantees id = some g
  unfinished : g.finished = false
  /-- The finished part grows by what the amount is worth, and stays below the target. -/
  paid : ∃ n, n - g.assetFinished.amount = amount * g.assetTarget.amount / g.assetOrign.amount ∧
    -2 ^ 63 ≤ n ∧ n < g.assetTarget.amount ∧
      l'.guarantees =
        (l.setGuarantee id { g with assetFinished := ⟨n, g.assetFinished.assetId⟩ }).guarantees
  frozen : ∀ x a, l'.frozenOf x a = l.frozenOf x a -
    if x = g.ownerAddr.addr ∧ a = g.assetOrign.assetId then amount else 0

theorem adjustGuarantee_eq {l l' : Ledger H} {target : Asset}
    (h : l.adjustGuarantee id target = some l') : ∃ g n, l.guarantees id = some g ∧
      g.finished = false ∧ target.assetId = g.assetFinished.assetId ∧
      n = g.assetFinished.amount + target.amount ∧ (-2 ^ 63 ≤ n ∧ n < 2 ^ 63) ∧
      n ≤ g.assetTarget.amount ∧
      l' = l.setGuarantee id
        { g with
          assetFinished := ⟨n, g.assetFinished.assetId⟩
          finished := decide ((⟨n, g.assetFinished.assetId⟩ : Asset) = g.assetTarget) } := by
  obtain ⟨g, hg, h⟩ := bind_eq_some_iff.1 h
  split at h
  · cases h
  next hopen =>
  obtain ⟨sum, hsum, h⟩ := bind_eq_some_iff.1 h
  unfold add at hsum
  split at hsum
  · next hasset =>
    obtain ⟨n, hn, rfl⟩ := map_eq_some_iff.1 hsum
    split at h
    · next hle =>
      cases h
      exact ⟨g, n, hg, Bool.not_eq_true _ ▸ hopen, hasset.symm, share_eq hn, share_range hn,
        hle.2, rfl⟩
    · cases h
  · cases hsum

theorem recordGuarantee_open {l l' : Ledger H} (h : l.recordGuarantee id = some l') :
    ∃ g, l.guarantees id = some g ∧ g.finished = false := by
  obtain ⟨g, hg, h⟩ := bind_eq_some_iff.1 h
  split at h
  · cases h
  · next hopen => exact ⟨g, hg, Bool.not_eq_true _ ▸ hopen⟩

/-- What every order that was created satisfies. -/
structure GuaranteeObject.WellFormed (g : GuaranteeObject H) : Prop where
  orign : 0 < g.assetOrign.amount ∧ g.assetOrign.amount < 2 ^ 63
  target : 0 < g.assetTarget.amount ∧ g.assetTarget.amount < 2 ^ 63
  asset : g.assetFinished.assetId = g.assetTarget.assetId

/-- A conversion into the asset an order is paid in is one of an amount that is frozen. -/
theorem mulPrice_eq {g : GuaranteeObject H} (hg : g.WellFormed) {x y : Asset}
    (h : x.mulPrice g.price = some y) (hy : y.assetId = g.assetFinished.assetId)
    (hx : -2 ^ 63 ≤ x.amount ∧ x.amount < 2 ^ 63) :
    x.assetId = g.assetOrign.assetId ∧
      y.amount = x.amount * g.assetTarget.amount / g.assetOrign.amount := by
  unfold mulPrice GuaranteeObject.price at h
  split at h
  · next hbase =>
    obtain ⟨r, hr, rfl⟩ := map_eq_some_iff.1 h
    obtain ⟨_, _, heq⟩ := scale_eq hr hx hg.target hg.orign.2
    exact ⟨hbase, heq⟩
  · next hbase =>
    split at h
    · next hquote =>
      obtain ⟨r, _, rfl⟩ := map_eq_some_iff.1 h
      exact absurd (hquote.trans (hg.asset.symm.trans hy.symm)) hbase
    · cases h

variable [DecidableEq H] {l l' : Ledger H}

/-- `adjust_frozen`, `adjust_guarantee` and `record_guarantee` together are a payment. -/
theorem pays_of_adjust {g : GuaranteeObject H} (hg : g.WellFormed) {amount : Int} {need : Asset}
    {l₁ l₂ l₃ : Ledger H} (hl : l.guarantees id = some g)
    (hneed : need.assetId = g.assetFinished.assetId →
      need.amount = amount * g.assetTarget.amount / g.assetOrign.amount)
    (hguarantees : l₁.guarantees = l.guarantees)
    (hfrozen : need.assetId = g.assetFinished.assetId → ∀ x a, l₁.frozenOf x a =
      l.frozenOf x a - if x = g.ownerAddr.addr ∧ a = g.assetOrign.assetId then amount else 0)
    (hadjust : l₁.adjustGuarantee id need = some l₂)
    (hopen : ∃ g', l₂.guarantees id = some g' ∧ g'.finished = false)
    (hguarantees₃ : l₃.guarantees = l₂.guarantees) (hfrozen₃ : l₃.frozenOf = l₂.frozenOf) :
    Pays id amount g l l₃ := by
  obtain ⟨g₁, n, hg₁, hfinished, hasset, hn, hrange, hle, rfl⟩ := adjustGuarantee_eq hadjust
  have heq : g₁ = g := by
    rw [hguarantees, hl] at hg₁
    exact (Option.some.inj hg₁).symm
  subst heq
  obtain ⟨g', hg', hg'open⟩ := hopen
  have hne : n ≠ g₁.assetTarget.amount := by
    rintro rfl
    simp only [setGuarantee, if_true, Option.some.injEq] at hg'
    rw [← hg'] at hg'open
    rw [hg.asset] at hg'open
    simp at hg'open
  refine ⟨hl, hfinished, ⟨n, ?_, hrange.1, lt_of_le_of_ne hle hne, ?_⟩, ?_⟩
  · rw [hn, hneed hasset]
    omega
  · have hdecide : decide ((⟨n, g₁.assetFinished.assetId⟩ : Asset) = g₁.assetTarget) =
        g₁.finished := by
      rw [hfinished, decide_eq_false_iff_not]
      intro h
      exact hne (congrArg Asset.amount h)
    rw [hguarantees₃, hdecide]
    funext i
    simp only [setGuarantee, hguarantees]
  · intro x a
    rw [hfrozen₃]
    exact hfrozen hasset x a

variable [Inhabited H]

theorem debit_pays {e : FeeCharge H} (hid : e.guaranteeId = some id)
    (hwf : ∀ g, l.guarantees id = some g → g.WellFormed) (hfee : e.fee.amount < 2 ^ 63)
    (h : e.debit l = some l') : ∃ g, Pays id e.fee.amount g l l' := by
  obtain ⟨g, need, l₁, l₂, l₃, hg, hneed, h₁, hpos, h₂, h₃, h₄, h₅⟩ := FeeCharge.debit_eq hid h
  have m₁ := moves_adjustBalance h₁
  have m₂ := moves_adjustFrozen h₂
  have m₅ := moves_adjustBalance h₅
  have hprice := fun hasset => mulPrice_eq (hwf g hg) hneed hasset ⟨by omega, hfee⟩
  refine ⟨g, pays_of_adjust (hwf g hg) hg (fun hasset => (hprice hasset).2)
    (m₂.guarantees.trans m₁.guarantees) ?_ h₃ (recordGuarantee_open h₄) m₅.guarantees
    (frozenOf_adjustBalance h₅)⟩
  intro hasset x a
  rw [frozenOf_adjustFrozen h₂, frozenOf_adjustBalance h₁, of_neg]
  unfold of
  rw [(hprice hasset).1]
  by_cases hx : x = g.ownerAddr.addr
  · by_cases ha : a = g.assetOrign.assetId
    · simp [hx, ha, Int.sub_eq_add_neg]
    · simp [ha]
  · simp [hx]

theorem refund_pays {e : FeeCharge H} {unspent : Int} (hid : e.guaranteeId = some id)
    (hwf : ∀ g, l.guarantees id = some g → g.WellFormed)
    (hunspent : -2 ^ 63 ≤ unspent ∧ unspent < 2 ^ 63) (hne : unspent ≠ 0)
    (hexact : ∀ g, l.guarantees id = some g → OrderBook.ExactFor g unspent)
    (h : e.refund unspent l = some l') : ∃ g, Pays id (-unspent) g l l' := by
  obtain ⟨g, back, l₁, l₂, l₃, hg, hback, h₁, h₂, h₃, h₄, hrecord⟩ :=
    FeeCharge.refund_eq hid hne h
  have hopen := recordGuarantee_open hrecord
  have hguarantees : l'.guarantees = l₂.guarantees :=
    (moves_adjustBalance h₄).guarantees.trans (moves_adjustBalance h₃).guarantees
  have hfrozen : l'.frozenOf = l₂.frozenOf :=
    (frozenOf_adjustBalance h₄).trans (frozenOf_adjustBalance h₃)
  rw [hguarantees] at hopen
  have hprice := fun hasset => mulPrice_eq (hwf g hg) hback hasset hunspent
  refine ⟨g, pays_of_adjust (hwf g hg) hg ?_ (moves_adjustFrozen h₁).guarantees ?_ h₂ hopen
    hguarantees hfrozen⟩
  · intro hasset
    rw [neg_mul, Int.neg_ediv_of_dvd (hexact g hg), ← (hprice hasset).2]
    rfl
  · intro hasset x a
    rw [frozenOf_adjustFrozen h₁]
    unfold of
    rw [← (hprice hasset).1]
    by_cases hx : x = g.ownerAddr.addr
    · by_cases ha : a = coreAsset
      · simp [hx, ha]
      · simp [ha]
    · simp [hx]

end HyperExchange.Fees
