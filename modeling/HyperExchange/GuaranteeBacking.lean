/-
  **Guarantee orders are fully backed.**

  While every fee and refund through an order is exact at its price, and orders are created
  and cancelled above the checkpoint, the frozen balance of an owner is what his open orders
  have left, no order pays more than was frozen for it, and cancelling an order gives back
  what it has left (`orders_backed`).

  A fee is converted at the price of the order and rounded down, and only the rounded amount
  is held against the order.  An order with a coarse price can therefore pay again and again
  for nothing, and then be cancelled as if it had never paid (`order_overspent`).
-/
import Mathlib.Algebra.Order.BigOperators.Group.Finset
import HyperExchange.GuaranteePayments

namespace HyperExchange.Fees

open Option Ledger FeeCharge

variable {H : Type}

open Execution

namespace OrderBook

/-! ### The invariant -/

/-- What an open order has left, as far as it is frozen for `x` in asset `a`. -/
def backing [DecidableEq H] (g : Option (GuaranteeObject H)) (spent : Int) (x : H) (a : Nat) :
    Int :=
  match g with
  | none => 0
  | some g =>
    if g.finished = false ∧ x = g.ownerAddr.addr ∧ a = g.assetOrign.assetId then
      g.assetOrign.amount - spent
    else 0

/-- The finished part of an order is worth what it has paid. -/
structure Sound (g : GuaranteeObject H) (spent : Int) : Prop extends g.WellFormed where
  low : -2 ^ 63 ≤ g.assetFinished.amount
  le : g.assetFinished.amount ≤ g.assetTarget.amount
  worth : g.assetFinished.amount * g.assetOrign.amount = spent * g.assetTarget.amount

theorem Sound.spent_le {g : GuaranteeObject H} {spent : Int} (h : Sound g spent) :
    spent ≤ g.assetOrign.amount := by
  have hle := Int.mul_le_mul_of_nonneg_right h.le h.orign.1.le
  rw [h.worth, mul_comm g.assetTarget.amount] at hle
  exact Int.le_of_mul_le_mul_right hle h.target.1

structure Backed [DecidableEq H] (l : Ledger H) (n : Nat) (spent : Nat → Int) : Prop where
  unused : ∀ id, n ≤ id → l.guarantees id = none ∧ spent id = 0
  sound : ∀ id g, l.guarantees id = some g → Sound g (spent id)
  frozen : ∀ x a, l.frozenOf x a = ∑ id ∈ Finset.range n, backing (l.guarantees id) (spent id) x a

section

variable [DecidableEq H] {l l' : Ledger H} {n : Nat} {spent : Nat → Int} {id : Nat}
  {g : GuaranteeObject H} (h : Backed l n spent)
include h

theorem Backed.frozen_nonneg (x : H) (a : Nat) : 0 ≤ l.frozenOf x a := by
  rw [h.frozen]
  apply Finset.sum_nonneg
  intro id _
  unfold backing
  cases hg : l.guarantees id with
  | none => exact le_refl 0
  | some g =>
    dsimp only
    split
    · exact Int.sub_nonneg_of_le (h.sound id g hg).spent_le
    · exact le_refl 0

theorem Backed.lt_of_found (hg : l.guarantees id = some g) : id < n := by
  by_contra hn
  rw [(h.unused id (not_lt.1 hn)).1] at hg
  cases hg

theorem Backed.congr (hguarantees : l'.guarantees = l.guarantees)
    (hfrozen : l'.frozenOf = l.frozenOf) : Backed l' n spent := by
  refine ⟨?_, ?_, ?_⟩
  · rw [hguarantees]
    exact h.unused
  · rw [hguarantees]
    exact h.sound
  · rw [hguarantees, hfrozen]
    exact h.frozen

theorem Backed.of_spent {spent' : Nat → Int}
    (heq : ∀ i, spent' i = spent i) : Backed l n spent' := by
  rw [funext heq]
  exact h

omit h

theorem sum_range_change (f f' : Nat → Int) (hid : id < n) (h : ∀ i, i ≠ id → f' i = f i) :
    ∑ i ∈ Finset.range n, f' i = ∑ i ∈ Finset.range n, f i + (f' id - f id) := by
  have hmem : id ∈ Finset.range n := Finset.mem_range.2 hid
  have hrest : ∑ i ∈ (Finset.range n).erase id, f' i = ∑ i ∈ (Finset.range n).erase id, f i :=
    Finset.sum_congr rfl fun i hi => h i (Finset.ne_of_mem_erase hi)
  rw [← Finset.add_sum_erase _ f' hmem, ← Finset.add_sum_erase _ f hmem, hrest]
  omega

/-- Replacing an order by one that is sound, with the frozen balance that goes with it. -/
theorem Backed.replace (h : Backed l n spent) (g' : GuaranteeObject H) (spent' : Int)
    (hg : l.guarantees id = some g)
    (hguarantees : l'.guarantees = (l.setGuarantee id g').guarantees) (hsound : Sound g' spent')
    (hfrozen : ∀ x a, l'.frozenOf x a = l.frozenOf x a +
      (backing (some g') spent' x a - backing (some g) (spent id) x a)) :
    Backed l' n fun i => if i = id then spent' else spent i := by
  have hlt := h.lt_of_found hg
  refine ⟨?_, ?_, ?_⟩
  · intro i hi
    have hne : i ≠ id := by omega
    rw [if_neg hne, hguarantees, setGuarantee]
    simpa [hne] using h.unused i hi
  · intro i x hx
    simp only [hguarantees, setGuarantee] at hx
    by_cases hi : i = id
    · rw [if_pos hi] at hx ⊢
      cases hx
      exact hsound
    · rw [if_neg hi] at hx ⊢
      exact h.sound i x hx
  · intro x a
    rw [hfrozen, h.frozen]
    have hsum := sum_range_change (fun i => backing (l.guarantees i) (spent i) x a)
      (fun i => backing (l'.guarantees i) (if i = id then spent' else spent i) x a) hlt ?_
    · rw [hsum, hg]
      simp [hguarantees, setGuarantee]
    · intro i hi
      simp [hguarantees, setGuarantee, hi]

theorem Backed.pays (h : Backed l n spent) {amount : Int} (hp : Pays id amount g l l')
    (hexact : ExactFor g amount) :
    Backed l' n fun i => if i = id then spent id + amount else spent i := by
  have hsound := h.sound id g hp.found
  obtain ⟨m, hm, hlow, hlt, hguarantees⟩ := hp.paid
  refine h.replace _ _ hp.found hguarantees ?_ ?_
  · refine ⟨⟨hsound.orign, hsound.target, hsound.asset⟩, hlow, hlt.le, ?_⟩
    have hmul : (m - g.assetFinished.amount) * g.assetOrign.amount =
        amount * g.assetTarget.amount := by
      rw [hm]
      exact Int.ediv_mul_cancel hexact
    have hworth := hsound.worth
    show m * g.assetOrign.amount = (spent id + amount) * g.assetTarget.amount
    rw [Int.sub_mul] at hmul
    rw [Int.add_mul]
    omega
  · intro x a
    rw [hp.frozen]
    unfold backing
    simp only [hp.unfinished, true_and]
    split <;> omega

end

/-! ### The steps -/

variable {s s' : OrderBook H} {l l' : Ledger H}

/-- What is left of a guarantee is its amount without what was spent. -/
theorem leftOf_eq {g : GuaranteeObject H} {spent : Int} {left : Asset} (h : Sound g spent)
    (hside : OneSided g) (hleft : leftOf g = some left) :
    left = ⟨g.assetOrign.amount - spent, g.assetOrign.assetId⟩ := by
  obtain ⟨used, hused, hleft⟩ := bind_eq_some_iff.1 hleft
  have hrange : -2 ^ 63 ≤ g.assetFinished.amount ∧ g.assetFinished.amount < 2 ^ 63 :=
    ⟨h.low, lt_of_le_of_lt h.le h.target.2⟩
  have hspent : used.amount = spent := by
    have hworth := h.worth
    unfold Asset.mulPrice GuaranteeObject.price at hused
    split at hused
    · next hsame =>
      obtain ⟨r, hr, rfl⟩ := map_eq_some_iff.1 hused
      obtain ⟨hpos, _, heq⟩ := scale_eq hr hrange h.target h.orign.2
      rcases hside with hne | hamount | hzero
      · exact absurd (hsame.symm.trans h.asset) hne
      · rw [← hamount] at heq hworth
        rw [show r = g.assetFinished.amount * g.assetOrign.amount / g.assetOrign.amount from heq,
          hworth, Int.mul_ediv_cancel _ hpos.ne']
      · rw [hzero, zero_mul] at heq hworth
        have hzero' : spent = 0 := by
          rcases Int.mul_eq_zero.1 hworth.symm with hspent | htarget
          · exact hspent
          · exact absurd htarget h.target.1.ne'
        rw [hzero', show r = 0 / g.assetOrign.amount from heq, Int.zero_ediv]
    · split at hused
      · obtain ⟨r, hr, rfl⟩ := map_eq_some_iff.1 hused
        obtain ⟨hpos, _, heq⟩ := scale_eq hr hrange h.orign h.target.2
        rw [show r = g.assetFinished.amount * g.assetOrign.amount / g.assetTarget.amount from heq,
          hworth, Int.mul_ediv_cancel _ hpos.ne']
      · cases hused
  unfold Asset.add at hleft
  split at hleft
  · obtain ⟨m, hm, rfl⟩ := map_eq_some_iff.1 hleft
    rw [share_eq hm]
    show (⟨g.assetOrign.amount + -used.amount, g.assetOrign.assetId⟩ : Asset) = _
    rw [hspent, Int.sub_eq_add_neg]
  · cases hleft

theorem modifyCurrentCollectedFee_keeps {x : Asset} (h : l.modifyCurrentCollectedFee x = some l') :
    l'.guarantees = l.guarantees ∧ l'.frozenOf = l.frozenOf := by
  obtain ⟨n, _, rfl⟩ := map_eq_some_iff.1 h
  exact ⟨rfl, rfl⟩

theorem collectAll_keeps {xs : List Asset} (h : collectAll l xs = some l') :
    l'.guarantees = l.guarantees ∧ l'.frozenOf = l.frozenOf := by
  induction xs generalizing l with
  | nil =>
    cases h
    exact ⟨rfl, rfl⟩
  | cons x xs ih =>
    obtain ⟨l₁, h₁, h⟩ := bind_eq_some_iff.1 h
    obtain ⟨hguarantees₁, hfrozen₁⟩ := modifyCurrentCollectedFee_keeps h₁
    obtain ⟨hguarantees, hfrozen⟩ := ih h
    exact ⟨hguarantees.trans hguarantees₁, hfrozen.trans hfrozen₁⟩

variable [DecidableEq H] [Inhabited H]

section

variable (h : Backed s.ledger s.nextId s.spent)
include h

theorem create_backed {headBlockNum : Nat} {o : GuranteeCreate H}
    (hhead : checkPointBlock < headBlockNum)
    (hrange : o.assetOrigin.amount < 2 ^ 63 ∧ o.assetTarget.amount < 2 ^ 63)
    (hs' : s.create headBlockNum o = some s') : Backed s'.ledger s'.nextId s'.spent := by
  rw [create, evaluateAbove_of_lt hhead] at hs'
  obtain ⟨_, heval, hs'⟩ := bind_eq_some_iff.1 hs'
  obtain ⟨b, _, heval⟩ := bind_eq_some_iff.1 heval
  split at heval
  · next hpos =>
    obtain ⟨l, hl, rfl⟩ := map_eq_some_iff.1 hs'
    obtain ⟨_, horigin, htarget⟩ := hpos
    have hneg : o.assetOrigin.neg.amount < 0 := by
      show -o.assetOrigin.amount < 0
      omega
    have hchanges := adjustAndFreeze_changes hneg hl
    refine ⟨?_, ?_, ?_⟩
    · intro id hid
      dsimp only at hid
      have hne : id ≠ s.nextId := by omega
      have hunused := h.unused id (by omega)
      simpa [setGuarantee, hne, hchanges.guarantees] using hunused
    · intro id g hg
      simp only [setGuarantee, hchanges.guarantees] at hg
      split at hg
      · next heq =>
        cases hg
        refine ⟨⟨⟨horigin, hrange.1⟩, ⟨htarget, hrange.2⟩, rfl⟩, ?_, htarget.le, ?_⟩
        · show -2 ^ 63 ≤ (0 : Int)
          omega
        · rw [heq, (h.unused s.nextId (le_refl _)).2]
          rw [zero_mul, zero_mul]
      · exact h.sound id g hg
    · intro x a
      have hold : ∀ g, ∀ id ∈ Finset.range s.nextId,
          backing ((l.setGuarantee s.nextId g).guarantees id) (s.spent id) x a =
            backing (s.ledger.guarantees id) (s.spent id) x a := by
        intro g id hid
        have hne : id ≠ s.nextId := (Finset.mem_range.1 hid).ne
        simp [setGuarantee, hne, hchanges.guarantees]
      rw [Finset.sum_range_succ, Finset.sum_congr rfl (hold _), ← h.frozen]
      show l.frozenOf x a = _
      rw [hchanges.frozen, (h.unused s.nextId (le_refl _)).2]
      simp only [setGuarantee, if_true, backing, true_and, Asset.neg, Asset.of]
      by_cases hx : x = o.ownerAddr.addr
      · by_cases ha : a = o.assetOrigin.assetId
        · simp [hx, ha]
        · simp [ha]
      · simp [hx]
  · cases heval

section

variable {headBlockNum : Nat} {o : GuranteeCancel H} (hexact : Exact s (.cancel headBlockNum o))
include hexact

theorem cancel_eq (hs' : s.cancel headBlockNum o = some s') :
    ∃ g, s.ledger.guarantees o.cancelGuaranteeId = some g ∧ g.finished = false ∧
      s'.nextId = s.nextId ∧ s'.spent = s.spent ∧
      (s.ledger.setGuarantee o.cancelGuaranteeId { g with finished := true }).cancelFrozen
        g.ownerAddr ⟨g.assetOrign.amount - s.spent o.cancelGuaranteeId, g.assetOrign.assetId⟩ =
          some s'.ledger := by
  rw [cancel, evaluateAbove_of_lt hexact.1] at hs'
  obtain ⟨_, heval, hs'⟩ := bind_eq_some_iff.1 hs'
  obtain ⟨g, hg, heval⟩ := bind_eq_some_iff.1 heval
  split at heval
  · next howner =>
    rw [applyCancel, hg, bind_some] at hs'
    obtain ⟨left, hleft, hs'⟩ := bind_eq_some_iff.1 hs'
    obtain ⟨l, hl, rfl⟩ := map_eq_some_iff.1 hs'
    rw [leftOf_eq (h.sound _ g hg) (hexact.2 g hg) hleft] at hl
    exact ⟨g, hg, howner.2, rfl, rfl, hl⟩
  · cases heval

theorem cancel_backed (hs' : s.cancel headBlockNum o = some s') :
    Backed s'.ledger s'.nextId s'.spent := by
  obtain ⟨g, hg, hopen, hnext, hspent, hl⟩ := cancel_eq h hexact hs'
  have hchanges := cancelFrozen_changes hl
  have hsound := h.sound _ g hg
  have hreplaced := h.replace { g with finished := true } (s.spent o.cancelGuaranteeId) hg
    hchanges.guarantees
    ⟨⟨hsound.orign, hsound.target, hsound.asset⟩, hsound.low, hsound.le, hsound.worth⟩ ?_
  · have hsame : (fun i => if i = o.cancelGuaranteeId then s.spent o.cancelGuaranteeId
        else s.spent i) = s.spent := by
      funext i
      split
      · next heq => rw [heq]
      · rfl
    rw [hnext, hspent]
    rwa [hsame] at hreplaced
  · intro x a
    rw [hchanges.frozen, Asset.of_neg]
    show s.ledger.frozenOf x a + _ = _
    simp only [backing, hopen, Bool.true_eq_false, false_and, if_false, true_and, Asset.of]
    by_cases hx : x = g.ownerAddr.addr
    · by_cases ha : a = g.assetOrign.assetId
      · simp only [hx, ha, and_self, if_true]
        omega
      · simp [ha]
    · simp [hx]

end

omit h in
theorem countGasFee_range {price count : Nat} {n : Int} (h : countGasFee price count = some n) :
    -2 ^ 63 ≤ n ∧ n < 2 ^ 63 := by
  unfold countGasFee at h
  dsimp only at h
  generalize (count / 100 + if count % 100 = 0 then 0 else 1) * price % 2 ^ 64 = fee at h
  split at h
  · cases h
    omega
  · cases h

omit h in
theorem unspentFee_range {c : ContractCall} {total n : Int} (h : c.unspentFee total = some n) :
    -2 ^ 63 ≤ n ∧ n < 2 ^ 63 := by
  unfold ContractCall.unspentFee at h
  cases hc : c.outcome with
  | executed gasUsed fees =>
    simp only [hc] at h
    split at h
    · obtain ⟨limit, used, _, _, h⟩ := bind_bind_eq_some h
      exact share_range h
    · cases h
  | notRun =>
    simp only [hc] at h
    exact countGasFee_range h
  | outOfMoney =>
    simp only [hc] at h
    cases h
    decide
  | stored acctualFee fees =>
    simp only [hc] at h
    exact share_range h

variable {e : FeeCharge H}

omit h in
/-- `pay_fee` touches orders by the refund only. -/
theorem payFee_refund (h : e.payFee l = some l') :
    ∃ l₁, l'.guarantees = l₁.guarantees ∧ l'.frozenOf = l₁.frozenOf ∧
      (-2 ^ 63 ≤ unspentOf e ∧ unspentOf e < 2 ^ 63) ∧
        (l₁ = l ∧ unspentOf e = 0 ∨ e.refund (unspentOf e) l = some l₁) := by
  unfold payFee at h
  cases hc : e.contract with
  | none =>
    simp only [hc] at h
    obtain ⟨hguarantees, hfrozen⟩ := modifyCurrentCollectedFee_keeps h
    have hunspent : unspentOf e = 0 := by simp [unspentOf, hc]
    refine ⟨l, hguarantees, hfrozen, ?_, .inl ⟨rfl, hunspent⟩⟩
    rw [hunspent]
    decide
  | some c =>
    simp only [hc] at h
    obtain ⟨unspent, l₁, hunspent, h₁, h⟩ := bind_bind_eq_some h
    obtain ⟨spent, l₂, _, h₂, h₃⟩ := bind_bind_eq_some h
    obtain ⟨hguarantees₂, hfrozen₂⟩ := modifyCurrentCollectedFee_keeps h₂
    obtain ⟨hguarantees₃, hfrozen₃⟩ := collectAll_keeps h₃
    have heq : unspentOf e = unspent := by simp [unspentOf, hc, hunspent]
    refine ⟨l₁, hguarantees₃.trans hguarantees₂, hfrozen₃.trans hfrozen₂, ?_, .inr ?_⟩
    · rw [heq]
      exact unspentFee_range hunspent
    · rw [heq]
      exact h₁

omit h in
theorem charge_without {l₁ : Ledger H} (hid : e.guaranteeId = none)
    (hdebit : e.debit l = some l₁) (hpay : e.payFee l₁ = some l') :
    l'.guarantees = l.guarantees ∧ l'.frozenOf = l.frozenOf := by
  have hdebited : l₁.guarantees = l.guarantees ∧ l₁.frozenOf = l.frozenOf := by
    simp only [debit, hid] at hdebit
    split at hdebit
    · exact ⟨(moves_adjustBalance hdebit).guarantees, frozenOf_adjustBalance hdebit⟩
    · cases hdebit
      exact ⟨rfl, rfl⟩
  obtain ⟨l₂, hguarantees, hfrozen, _, hrefund⟩ := payFee_refund hpay
  have hrefunded : l₂.guarantees = l₁.guarantees ∧ l₂.frozenOf = l₁.frozenOf := by
    rcases hrefund with ⟨rfl, _⟩ | hrefund
    · exact ⟨rfl, rfl⟩
    simp only [refund, hid] at hrefund
    split at hrefund
    · cases hrefund
      exact ⟨rfl, rfl⟩
    · exact ⟨(moves_adjustBalance hrefund).guarantees, frozenOf_adjustBalance hrefund⟩
  exact ⟨hguarantees.trans (hrefunded.1.trans hdebited.1),
    hfrozen.trans (hrefunded.2.trans hdebited.2)⟩

/-- A fee that a guarantee pays for is counted as spent. -/
theorem charge_backed (hrange : e.fee.amount < 2 ^ 63) (hexact : Exact s (.charge e))
    (hs' : s.charge e = some s') : Backed s'.ledger s'.nextId s'.spent := by
  obtain ⟨l', hl', rfl⟩ := map_eq_some_iff.1 hs'
  obtain ⟨l₁, hdebit, hpay⟩ := bind_eq_some_iff.1 hl'
  cases hid : e.guaranteeId with
  | none =>
    obtain ⟨hguarantees, hfrozen⟩ := charge_without hid hdebit hpay
    exact h.congr hguarantees hfrozen
  | some id =>
    obtain ⟨g, hpays⟩ := debit_pays hid (fun g hg => (h.sound id g hg).toWellFormed) hrange hdebit
    obtain ⟨hfee, hunspent⟩ := hexact id hid g hpays.found
    have h₁ := h.pays hpays hfee
    obtain ⟨l₂, hguarantees, hfrozen, hunspentRange, hrefund⟩ := payFee_refund hpay
    have h₂ : Backed l₂ s.nextId fun i =>
        if i = id then s.spent i + (e.fee.amount - unspentOf e) else s.spent i := by
      by_cases hzero : unspentOf e = 0
      · have hl₂ : l₂ = l₁ := by
          rcases hrefund with ⟨hl₂, _⟩ | hrefund
          · exact hl₂
          · rw [hzero] at hrefund
            exact refund_zero hid hrefund
        rw [hl₂]
        apply h₁.of_spent
        intro i
        by_cases hi : i = id
        · rw [if_pos hi, if_pos hi, hi, hzero, sub_zero]
        · rw [if_neg hi, if_neg hi]
      · rcases hrefund with ⟨_, hzero'⟩ | hrefund
        · exact absurd hzero' hzero
        obtain ⟨m, _, _, _, hpaid⟩ := hpays.paid
        have hexact₁ : ∀ g₁, l₁.guarantees id = some g₁ → ExactFor g₁ (unspentOf e) := by
          intro g₁ hg₁
          simp only [hpaid, setGuarantee, if_true] at hg₁
          cases hg₁
          exact hunspent
        obtain ⟨g₁, hpays₁⟩ := refund_pays hid (fun g hg => (h₁.sound id g hg).toWellFormed)
          hunspentRange hzero hexact₁ hrefund
        have hback : ExactFor g₁ (-unspentOf e) := by
          unfold ExactFor
          rw [neg_mul]
          exact (hexact₁ g₁ hpays₁.found).neg_right
        apply (h₁.pays hpays₁ hback).of_spent
        intro i
        by_cases hi : i = id
        · rw [if_pos hi, if_pos hi, if_pos rfl, hi]
          omega
        · rw [if_neg hi, if_neg hi, if_neg hi]
    exact h₂.congr hguarantees hfrozen

/-! ### Runs -/

/-- A call that is refused changes nothing; the others keep the backing. -/
theorem step_backed {e : Event H} (hexact : Exact s e) (hrange : InRange e) : Backed
    (s.step e).ledger (s.step e).nextId (s.step e).spent := by
  unfold step
  cases hs' : s.apply e with
  | none => exact h
  | some s' =>
    cases e with
    | create _ o => exact create_backed h hexact hrange hs'
    | cancel _ o => exact cancel_backed h hexact hs'
    | charge e => exact charge_backed h hrange hexact hs'
    | adjust addr delta =>
      obtain ⟨l, hl, rfl⟩ := map_eq_some_iff.1 hs'
      exact h.congr (moves_adjustBalance hl).guarantees (frozenOf_adjustBalance hl)

end

def ExactRun : OrderBook H → Prop :=
  ReachableUnder Fresh (fun s e => Exact s e ∧ InRange e) step

theorem ExactRun.backed (h : ExactRun s) : Backed s.ledger s.nextId s.spent := by
  refine h.invariant (fun s => Backed s.ledger s.nextId s.spent) ?_ ?_
  · intro s hs
    refine ⟨fun id _ => ⟨hs.guarantees id, hs.spent id⟩, ?_, ?_⟩
    · intro id g hg
      rw [hs.guarantees] at hg
      cases hg
    · intro x a
      rw [hs.frozen, hs.nextId]
      rfl
  · intro s e hs he
    exact step_backed hs he.1 he.2

/-- In every run whose fees and refunds through orders are exact, what is frozen for an owner
    is what his open orders have left and is never negative, no order pays more than was
    frozen for it, and cancelling an order moves what it has left back to the balance. -/
theorem orders_backed (h : ExactRun s) :
    (∀ x a, s.ledger.frozenOf x a =
      ∑ id ∈ Finset.range s.nextId, backing (s.ledger.guarantees id) (s.spent id) x a) ∧
    (∀ x a, 0 ≤ s.ledger.frozenOf x a) ∧
    (∀ id g, s.ledger.guarantees id = some g → s.spent id ≤ g.assetOrign.amount) ∧
    ∀ headBlockNum o s', Exact s (.cancel headBlockNum o) → s.cancel headBlockNum o = some s' →
      ∃ g, s.ledger.guarantees o.cancelGuaranteeId = some g ∧ ∀ x a,
        s'.ledger.spendable x a = s.ledger.spendable x a + (if x = g.ownerAddr.addr then
          Asset.of ⟨g.assetOrign.amount - s.spent o.cancelGuaranteeId, g.assetOrign.assetId⟩ a
          else 0) := by
  have hb := h.backed
  refine ⟨hb.frozen, hb.frozen_nonneg, fun id g hg => (hb.sound id g hg).spent_le, ?_⟩
  intro headBlockNum o s' hexact hs'
  obtain ⟨g, hg, _, _, _, hl⟩ := cancel_eq hb hexact hs'
  exact ⟨g, hg, (cancelFrozen_changes hl).spendable⟩

/-! ### An order that pays more than it has

  Owner 2 has 600 of the core asset, and payer 1 has 500 of asset 1. -/

def sampleBook : OrderBook Nat where
  ledger :=
    { balances := fun x a =>
        if x = 1 ∧ a = 1 then some ⟨500, 0⟩ else if x = 2 ∧ a = 0 then some ⟨600, 0⟩ else none
      guarantees := fun _ => none
      collected := fun _ => 0 }
  nextId := 0
  spent := fun _ => 0

theorem sampleBook_fresh : sampleBook.Fresh := by
  refine ⟨fun _ => rfl, ?_, rfl, fun _ => rfl⟩
  intro x a
  unfold frozenOf sampleBook
  dsimp only
  split
  · rfl
  next b hb =>
  split at hb
  · cases hb
    rfl
  · split at hb
    · cases hb
      rfl
    · cases hb

/-- Freezes 300 core, which are sold for `target` of asset 1. -/
def sampleOrder (target : Int) : Event Nat :=
  .create 2000000 ⟨⟨Address.normal, 2⟩, ⟨300, coreAsset⟩, ⟨target, 1⟩⟩

/-- A fee of 100 core that is paid through the first order. -/
def sampleFee : Event Nat :=
  .charge ⟨⟨Address.normal, 1⟩, ⟨100, coreAsset⟩, some 0, true, false, none⟩

def sampleCancelOrder : Event Nat := .cancel 2000000 ⟨⟨Address.normal, 2⟩, 0⟩

/-- At two of asset 1 for one core a fee of 100 leaves 200 of the order. -/
theorem sampleOrder_backed :
    let s := [sampleOrder 600, sampleFee].foldl step sampleBook
    s.spent 0 = 100 ∧ s.ledger.frozenOf 2 0 =
      ∑ id ∈ Finset.range s.nextId, backing (s.ledger.guarantees id) (s.spent id) 2 0 := by
  intro s
  have hs : ExactRun s := .of_checkRun (.start sampleBook_fresh) (by decide +kernel)
  exact ⟨by decide +kernel, (orders_backed hs).1 2 0⟩

/-- At one of asset 1 for 300 core a fee of 100 costs nothing of the order: cancelled, it
    gives back all 300 and the frozen balance is negative; and while another order of the
    owner is open, it pays 400. -/
theorem order_overspent :
    sampleBook.Fresh ∧
      (let s := [sampleOrder 1, sampleFee, sampleCancelOrder].foldl step sampleBook
      s.spent 0 = 100 ∧ s.ledger.spendable 2 0 = 600 ∧ s.ledger.frozenOf 2 0 = -100) ∧
      let s := [sampleOrder 1, sampleOrder 1, sampleFee, sampleFee, sampleFee, sampleFee].foldl step
        sampleBook
      s.spent 0 = 400 ∧ (s.ledger.guarantees 0).map (·.assetOrign.amount) = some 300 := by
  refine ⟨sampleBook_fresh, ?_, ?_⟩
  all_goals decide +kernel

end OrderBook

end HyperExchange.Fees
