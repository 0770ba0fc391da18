/-
  **Using a guarantee order up** (`evaluator::apply` in `evaluator.hpp`, `record_guarantee` in
  `db_balance.cpp`, `pay_fee_and_refund` in `contract_evaluate.cpp`).

  `adjust_guarantee` marks an order finished when a fee takes all that is left of it, and
  `record_guarantee`, called right after it, refuses a finished order: an order can never be
  used up.  A refund of gas is converted as an amount of the core asset, so a contract
  operation that paid in another asset is refused when gas is left.  In all other cases a fee
  that could be paid is paid (`order_usable_iff`).
-/
import HyperExchange.GuaranteeBacking
import HyperExchange.Prices

namespace HyperExchange.Fees

open OrderBook Option Ledger Asset

variable {H : Type} {l l' : Ledger H}

/-! ### Calls that return -/

/-- The order with `n` more of it used. -/
def GuaranteeObject.used (g : GuaranteeObject H) (n : Int) : GuaranteeObject H :=
  { g with assetFinished := ⟨g.assetFinished.amount + n, g.assetFinished.assetId⟩ }

variable {g : GuaranteeObject H}

theorem adjustGuarantee_returns {id : Nat} {target : Asset}
    (hg : l.guarantees id = some g) (hopen : g.finished = false) (hwf : g.WellFormed)
    (hasset : target.assetId = g.assetTarget.assetId)
    (hlow : 0 ≤ g.assetFinished.amount + target.amount)
    (hless : g.assetFinished.amount + target.amount < g.assetTarget.amount) :
    l.adjustGuarantee id target = some (l.setGuarantee id (g.used target.amount)) := by
  have hhigh := hwf.target.2
  have hshare : share (g.assetFinished.amount + target.amount) =
      some (g.assetFinished.amount + target.amount) := by
    unfold share
    rw [if_pos (by omega)]
  have hne : (⟨g.assetFinished.amount + target.amount, g.assetFinished.assetId⟩ : Asset) ≠
      g.assetTarget := fun heq => hless.ne (congrArg Asset.amount heq)
  unfold adjustGuarantee add GuaranteeObject.used
  rw [hg, bind_some, hopen, if_neg Bool.false_ne_true, if_pos (hwf.asset.trans hasset.symm),
    hshare, map_some, bind_some, if_pos ⟨hwf.asset, hless.le⟩, decide_eq_false hne]
  rfl

/-- With an amount a smaller one can be converted. -/
theorem mulPrice_returns (hwf : g.WellFormed) {x y : Asset}
    (h : x.mulPrice g.price = some y) (hy : y.assetId = g.assetFinished.assetId)
    {n : Int} (hn : 0 ≤ n ∧ n ≤ x.amount) (hx : x.amount < 2 ^ 63) :
    ∃ z, mulPrice ⟨n, x.assetId⟩ g.price = some z ∧ z.assetId = y.assetId ∧
      0 ≤ z.amount ∧ z.amount ≤ y.amount := by
  obtain ⟨hbase, _⟩ := mulPrice_eq hwf h hy ⟨by omega, hx⟩
  have hpos := hwf.orign.1
  have htarget := hwf.target
  rw [mulPrice_base (p := g.price) htarget hpos ⟨by omega, hx⟩ hbase] at h
  rw [mulPrice_base (p := g.price) (a := ⟨n, _⟩) htarget hpos ⟨hn.1, hn.2.trans_lt hx⟩ hbase]
  have hle : n * g.assetTarget.amount * g.assetOrign.amount ≤
      x.amount * g.assetTarget.amount * g.assetOrign.amount :=
    mul_le_mul_of_nonneg_right (mul_le_mul_of_nonneg_right hn.2 htarget.1.le) hpos.le
  obtain ⟨z, hz, hzy⟩ := floorAt_mono hpos hpos hle h
  obtain ⟨_, rfl⟩ := floorAt_eq_some.mp hz
  exact ⟨_, hz, hwf.asset.symm.trans hy.symm,
    Int.ediv_nonneg (mul_nonneg hn.1 htarget.1.le) hpos.le, hzy⟩

theorem recordGuarantee_returns {id : Nat}
    (hg : l.guarantees id = some g) (hopen : g.finished = false) :
    l.recordGuarantee id = some l := by
  unfold recordGuarantee
  rw [hg, bind_some, hopen, if_neg Bool.false_ne_true]

/-! ### Counting what was paid -/

theorem modifyCurrentCollectedFee_returns {x : Asset} (hsame : l'.collected = l.collected)
    {m : Ledger H} (h : l.modifyCurrentCollectedFee x = some m) :
    ∃ m', l'.modifyCurrentCollectedFee x = some m' ∧ m'.collected = m.collected := by
  obtain ⟨n, hn, rfl⟩ := map_eq_some_iff.1 h
  unfold modifyCurrentCollectedFee
  rw [hsame, hn]
  exact ⟨_, rfl, rfl⟩

theorem collectAll_returns {xs : List Asset} (hsame : l'.collected = l.collected)
    (h : (FeeCharge.collectAll l xs).isSome) : (FeeCharge.collectAll l' xs).isSome := by
  induction xs generalizing l l' with
  | nil => rfl
  | cons x xs ih =>
    obtain ⟨m, h⟩ := isSome_iff_exists.1 h
    obtain ⟨l₁, hl₁, h⟩ := bind_eq_some_iff.1 h
    obtain ⟨l₂, hl₂, hsame⟩ := modifyCurrentCollectedFee_returns hsame hl₁
    show ((l'.modifyCurrentCollectedFee x).bind _).isSome
    rw [hl₂]
    exact ih hsame (isSome_iff_exists.2 ⟨m, h⟩)

/-- What `pay_fee` counts as collected, without the refund. -/
def FeeCharge.count (e : FeeCharge H) (l : Ledger H) : Option (Ledger H) :=
  match e.contract with
  | none => l.modifyCurrentCollectedFee e.fee
  | some c => (c.unspentFee e.fee.amount).bind fun unspent =>
      (share (e.fee.amount - unspent)).bind fun spent =>
        (l.modifyCurrentCollectedFee ⟨spent, coreAsset⟩).bind fun l =>
          FeeCharge.collectAll l c.transferFees

variable [DecidableEq H] [Inhabited H]

theorem spendable_adjustFrozen {addr : Address H} {delta : Asset}
    (h : l.adjustFrozen addr delta = some l') (x : H) (a : Nat) :
    l'.spendable x a = l.spendable x a := by
  rw [(adjustFrozen_changes h).spendable]
  simp [of]

theorem adjustFrozen_returns (addr : Address H) (delta : Asset) (haddr : addr ≠ .null)
    (hfound : (l.balances addr.addr delta.assetId).isSome)
    (hlow : 0 ≤ l.frozenOf addr.addr delta.assetId + delta.amount)
    (hhigh : l.frozenOf addr.addr delta.assetId + delta.amount < 2 ^ 63) :
    ∃ l', l.adjustFrozen addr delta = some l' ∧ (l'.balances addr.addr delta.assetId).isSome := by
  unfold adjustFrozen
  rw [if_neg haddr]
  by_cases hzero : delta.amount = 0
  · exact ⟨l, by rw [if_pos hzero], hfound⟩
  obtain ⟨b, hb⟩ := isSome_iff_exists.1 hfound
  unfold frozenOf at hlow hhigh
  simp only [hb] at hlow hhigh ⊢
  rw [if_neg hzero, if_neg (by omega), share, if_pos (by omega)]
  exact ⟨_, rfl, by simp [setBalance]⟩

/-! ### Fees that could be paid -/

/-- The order is open and the fee worth no more than what is left of it; the payer has the
    converted amount, the guarantor the fee among what is frozen; and the amounts stay within
    64 bit. -/
structure Payable (e : FeeCharge H) (l : Ledger H) (id : Nat) (g : GuaranteeObject H)
    (need : Asset) : Prop where
  guarantee : e.guaranteeId = some id
  found : l.guarantees id = some g
  unfinished : g.finished = false
  wellFormed : g.WellFormed
  started : 0 ≤ g.assetFinished.amount
  inTrx : e.inTrx = true
  testing : e.testing = false
  fee : 0 < e.fee.amount ∧ e.fee.amount < 2 ^ 63
  converted : e.fee.mulPrice g.price = some need
  asset : need.assetId = g.assetTarget.assetId
  rest : need.amount ≤ g.assetTarget.amount - g.assetFinished.amount
  payer : e.payer ≠ .null
  enough : need.amount ≤ l.spendable e.payer.addr need.assetId
  paid : l.spendable e.payer.addr need.assetId < 2 ^ 63
  owner : g.ownerAddr ≠ .null
  owned : 0 ≤ l.spendable g.ownerAddr.addr need.assetId
  room : l.spendable g.ownerAddr.addr need.assetId + need.amount < 2 ^ 63
  frozen : e.fee.amount ≤ l.frozenOf g.ownerAddr.addr e.fee.assetId
  kept : l.frozenOf g.ownerAddr.addr e.fee.assetId < 2 ^ 63
  unspent : 0 ≤ unspentOf e ∧ unspentOf e ≤ e.fee.amount
  counted : (e.count l).isSome

namespace Payable

variable {e : FeeCharge H} {id : Nat} {g : GuaranteeObject H} {need : Asset}

section

variable (h : Payable e l id g need)
include h

omit [DecidableEq H] in
theorem price : e.fee.assetId = g.assetOrign.assetId ∧ need.amount = e.fee.amount *
    g.assetTarget.amount / g.assetOrign.amount :=
  mulPrice_eq h.wellFormed h.converted (h.asset.trans h.wellFormed.asset.symm)
    ⟨by have := h.fee.1; omega, h.fee.2⟩

omit [DecidableEq H] in
theorem need_nonneg : 0 ≤ need.amount := by
  rw [h.price.2]
  exact Int.ediv_nonneg (mul_nonneg h.fee.1.le h.wellFormed.target.1.le) h.wellFormed.orign.1.le

/-- What the debit of a fee that leaves something of the order does. -/
structure Debited (e : FeeCharge H) (id : Nat) (g : GuaranteeObject H) (need : Asset)
    (l l' : Ledger H) : Prop where
  order : l'.guarantees id = some (g.used need.amount)
  collected : l'.collected = l.collected
  known : (l'.balances g.ownerAddr.addr e.fee.assetId).isSome
  frozen : l'.frozenOf g.ownerAddr.addr e.fee.assetId =
    l.frozenOf g.ownerAddr.addr e.fee.assetId - e.fee.amount
  spendable : ∀ x, l'.spendable x need.assetId = l.spendable x need.assetId -
    (if x = e.payer.addr then need.amount else 0) +
      if x = g.ownerAddr.addr then need.amount else 0

theorem debit_returns (hne : need.amount ≠ g.assetTarget.amount - g.assetFinished.amount) : ∃ l',
    e.debit l = some l' ∧ Debited e id g need l l' := by
  have hneed := h.need_nonneg
  have henough := h.enough
  have hpaid := h.paid
  have hfee := h.fee
  have hfrozen := h.frozen
  have hkept := h.kept
  have howned := h.owned
  have hroom := h.room
  have hof : need.of need.assetId = need.amount := if_pos rfl
  -- the payer gives the price of the fee
  obtain ⟨l₁, h₁⟩ := adjustBalance_returns (l := l) e.payer need.neg (fun _ => h.payer)
    (by show 0 ≤ l.spendable e.payer.addr need.assetId + -need.amount; omega)
    (by show l.spendable e.payer.addr need.assetId + -need.amount < _; omega)
  have hspend₁ := fun x => spendable_adjustBalance h₁ x need.assetId
  simp only [of_neg, hof] at hspend₁
  have hfound : (l.balances g.ownerAddr.addr e.fee.assetId).isSome := by
    unfold frozenOf at hfrozen
    cases hb : l.balances g.ownerAddr.addr e.fee.assetId with
    | none =>
      simp only [hb] at hfrozen
      omega
    | some b => rfl
  -- the guarantor the fee
  obtain ⟨l₂, h₂, hfound₂⟩ := adjustFrozen_returns (l := l₁) g.ownerAddr e.fee.neg h.owner
    ((adjustBalance_changes h₁).known hfound)
    (by
      rw [frozenOf_adjustBalance h₁]
      show 0 ≤ l.frozenOf g.ownerAddr.addr e.fee.assetId + -e.fee.amount
      omega)
    (by
      rw [frozenOf_adjustBalance h₁]
      show l.frozenOf g.ownerAddr.addr e.fee.assetId + -e.fee.amount < _
      omega)
  have hg₂ : l₂.guarantees id = some g := by
    rw [(moves_adjustFrozen h₂).guarantees, (moves_adjustBalance h₁).guarantees]
    exact h.found
  have hstarted := h.started
  have hrest := h.rest
  have h₃ := adjustGuarantee_returns hg₂ h.unfinished h.wellFormed h.asset (by omega) (by omega)
  have hg₃ : (l₂.setGuarantee id (g.used need.amount)).guarantees id = some (g.used need.amount) :=
    if_pos rfl
  -- and gets the price, which may have been its own
  have hspend₂ : ∀ x, l₂.spendable x need.assetId =
      l.spendable x need.assetId + if x = e.payer.addr then -need.amount else 0 := by
    intro x
    rw [spendable_adjustFrozen h₂, hspend₁]
  have howner := hspend₂ g.ownerAddr.addr
  obtain ⟨l₅, h₅⟩ := adjustBalance_returns (l := l₂.setGuarantee id (g.used need.amount))
    g.ownerAddr need (fun _ => h.owner)
    (by
      show 0 ≤ l₂.spendable g.ownerAddr.addr need.assetId + need.amount
      split at howner <;> omega)
    (by
      show l₂.spendable g.ownerAddr.addr need.assetId + need.amount < _
      split at howner <;> omega)
  refine ⟨l₅, ?_, ⟨?_, ?_, ?_, ?_, ?_⟩⟩
  · unfold FeeCharge.debit
    simp only [h.guarantee, h.found, h.unfinished, h.converted, h₁, h₂, h.inTrx, bind_some,
      if_true, Bool.false_eq_true, if_false, if_neg (not_le.2 hfee.1)]
    rw [h₃, bind_some, recordGuarantee_returns hg₃ h.unfinished]
    exact h₅
  · rw [(moves_adjustBalance h₅).guarantees]
    exact hg₃
  · rw [(moves_adjustBalance h₅).collected]
    exact (moves_adjustFrozen h₂).collected.trans (moves_adjustBalance h₁).collected
  · exact (adjustBalance_changes h₅).known hfound₂
  · rw [frozenOf_adjustBalance h₅]
    show l₂.frozenOf _ _ = _
    rw [frozenOf_adjustFrozen h₂, frozenOf_adjustBalance h₁, if_pos rfl, of_neg]
    simp [of, Int.sub_eq_add_neg]
  · intro x
    have hlast := spendable_adjustBalance h₅ x need.assetId
    have hset : (l₂.setGuarantee id (g.used need.amount)).spendable x need.assetId =
      l₂.spendable x need.assetId := rfl
    rw [hset, hspend₂, hof] at hlast
    rw [hlast]
    split <;> omega

/-- The refund after such a debit, of a fee in the core asset. -/
theorem refund_returns (hcore : e.fee.assetId = coreAsset)
    (hless : need.amount ≠ g.assetTarget.amount - g.assetFinished.amount) (hne : unspentOf e ≠ 0)
    (hd : Debited e id g need l l') : ∃ m n, e.refund (unspentOf e) l' = some m ∧ m.collected =
    l'.collected ∧ m.guarantees id = some ((g.used need.amount).used n) ∧ n ≤ 0 := by
  have hunspent := h.unspent
  have hrest := h.rest
  have hstarted := h.started
  have hneed := h.need_nonneg
  have hkept := h.kept
  have hfee := h.frozen
  have henough := h.enough
  have hpaid := h.paid
  have howned := h.owned
  have hroom := h.room
  have hwf : (g.used need.amount).WellFormed :=
    ⟨h.wellFormed.orign, h.wellFormed.target, h.wellFormed.asset⟩
  obtain ⟨back, hback, hasset, hnonneg, hle⟩ := mulPrice_returns h.wellFormed h.converted
    (h.asset.trans h.wellFormed.asset.symm) hunspent h.fee.2
  have hfound := hd.known
  have hfrozen := hd.frozen
  rw [hcore] at hback hfound hfrozen hkept hfee
  -- the guarantor gets what was not spent frozen again
  obtain ⟨l₁, h₁, _⟩ := adjustFrozen_returns (l := l') g.ownerAddr ⟨unspentOf e, coreAsset⟩
    h.owner hfound
    (by
      show 0 ≤ l'.frozenOf g.ownerAddr.addr coreAsset + unspentOf e
      omega)
    (by
      show l'.frozenOf g.ownerAddr.addr coreAsset + unspentOf e < _
      omega)
  have hg₁ : l₁.guarantees id = some (g.used need.amount) := by
    rw [(moves_adjustFrozen h₁).guarantees]
    exact hd.order
  have hneg : back.neg.assetId = (g.used need.amount).assetTarget.assetId := hasset.trans h.asset
  have hlow : 0 ≤ (g.used need.amount).assetFinished.amount + back.neg.amount := by
    show 0 ≤ g.assetFinished.amount + need.amount + -back.amount
    omega
  have hhigh : (g.used need.amount).assetFinished.amount + back.neg.amount <
      (g.used need.amount).assetTarget.amount := by
    show g.assetFinished.amount + need.amount + -back.amount < g.assetTarget.amount
    omega
  have h₂ := adjustGuarantee_returns hg₁ h.unfinished hwf hneg hlow hhigh
  -- and gives its price back to the payer
  have howner := hd.spendable g.ownerAddr.addr
  rw [if_pos rfl] at howner
  have hspend₂ : ∀ x, (l₁.setGuarantee id ((g.used need.amount).used back.neg.amount)).spendable x
      need.assetId = l'.spendable x need.assetId := fun x => spendable_adjustFrozen h₁ x _
  obtain ⟨l₃, h₃⟩ := adjustBalance_returns
    (l := l₁.setGuarantee id ((g.used need.amount).used back.neg.amount)) g.ownerAddr back.neg
    (fun _ => h.owner)
    (by
      show 0 ≤ spendable _ g.ownerAddr.addr back.assetId + -back.amount
      rw [hasset, hspend₂]
      split at howner <;> grind)
    (by
      show spendable _ g.ownerAddr.addr back.assetId + -back.amount < _
      rw [hasset, hspend₂]
      split at howner <;> omega)
  have hpayer := hd.spendable e.payer.addr
  rw [if_pos rfl] at hpayer
  have hspend₃ := spendable_adjustBalance h₃ e.payer.addr need.assetId
  rw [hspend₂, of_neg, of, if_pos hasset.symm] at hspend₃
  obtain ⟨m, h₄⟩ := adjustBalance_returns (l := l₃) e.payer back (fun _ => h.payer)
    (by
      rw [hasset, hspend₃]
      split at hpayer <;> grind)
    (by
      rw [hasset, hspend₃]
      split at hpayer <;> grind)
  have hg₄ : m.guarantees id = some ((g.used need.amount).used back.neg.amount) := by
    rw [(moves_adjustBalance h₄).guarantees, (moves_adjustBalance h₃).guarantees]
    exact if_pos rfl
  refine ⟨m, back.neg.amount, ?_, ?_, hg₄, ?_⟩
  · have hprice : (g.used need.amount).price = g.price := rfl
    have hopen : (g.used need.amount).finished = false := h.unfinished
    have howner : (g.used need.amount).ownerAddr = g.ownerAddr := rfl
    unfold FeeCharge.refund
    simp only [h.guarantee, if_neg hne, hd.order, hopen, hprice, howner, hback, h₁, h₂, h₃, h₄,
      h.inTrx, bind_some, if_true, Bool.false_eq_true, if_false]
    exact recordGuarantee_returns hg₄ h.unfinished
  · rw [(moves_adjustBalance h₄).collected, (moves_adjustBalance h₃).collected]
    exact (moves_adjustFrozen h₁).collected
  · show -back.amount ≤ 0
    omega

end

theorem payFee_returns {m₀ : Ledger H} (hcount : (e.count l).isSome)
    (hsame : m₀.collected = l.collected) (hplain : e.contract = none → m₀ = l')
    (hrefund : e.contract.isSome → e.refund (unspentOf e) l' = some m₀) :
    ∃ m, e.payFee l' = some m ∧ m.guarantees = m₀.guarantees := by
  obtain ⟨n, hn⟩ := isSome_iff_exists.1 hcount
  unfold FeeCharge.payFee
  cases hc : e.contract with
  | none =>
    cases hplain hc
    simp only [FeeCharge.count, hc] at hn
    obtain ⟨m, hm, _⟩ := modifyCurrentCollectedFee_returns hsame hn
    exact ⟨m, hm, (modifyCurrentCollectedFee_keeps hm).1⟩
  | some c =>
    simp only [FeeCharge.count, hc] at hn
    obtain ⟨unspent, spent, hunspent, hspent, hn⟩ := bind_bind_eq_some hn
    obtain ⟨l₁, hl₁, hn⟩ := bind_eq_some_iff.1 hn
    have heq : unspentOf e = unspent := by simp [unspentOf, hc, hunspent]
    have hm₀ := hrefund (by rw [hc]; rfl)
    rw [heq] at hm₀
    obtain ⟨m₁, hm₁, hsame₁⟩ := modifyCurrentCollectedFee_returns hsame hl₁
    obtain ⟨m, hm⟩ := isSome_iff_exists.1
      (collectAll_returns hsame₁ (isSome_iff_exists.2 ⟨n, hn⟩))
    refine ⟨m, ?_, (collectAll_keeps hm).1.trans (modifyCurrentCollectedFee_keeps hm₁).1⟩
    simp only [hunspent, hm₀, hspent, hm₁, hm, bind_some]

/-- An operation that could pay its fee through an open order is accepted exactly when the
    order is not used up by it, and no gas is to be paid back of a fee in an asset that is not
    the core asset.  Then the order is marked finished exactly when nothing is left of it. -/
theorem order_usable_iff {doApply : Ledger H → Option (Ledger H)} {l₀ : Ledger H}
    (hdo : doApply l₀ = some l) (h : Payable e l id g need) :
    (∃ l' g', e.apply doApply l₀ = some l' ∧ l'.guarantees id = some g' ∧
      (g'.finished = true ↔ g'.assetTarget.amount - g'.assetFinished.amount = 0)) ↔
    need.amount ≠ g.assetTarget.amount - g.assetFinished.amount ∧
      (unspentOf e = 0 ∨ e.fee.assetId = coreAsset) := by
  have happly : e.apply doApply l₀ = (e.debit l).bind e.payFee := by
    rw [FeeCharge.apply, hdo, bind_some, h.testing, if_neg Bool.false_ne_true]
  rw [happly]
  constructor
  · rintro ⟨l', g', hl', _, _⟩
    obtain ⟨l₁, hdebit, hpay⟩ := bind_eq_some_iff.1 hl'
    have hwf : ∀ g', l.guarantees id = some g' → g'.WellFormed := by
      intro g' hg'
      cases h.found.symm.trans hg'
      exact h.wellFormed
    obtain ⟨g₁, hpays⟩ := debit_pays h.guarantee hwf h.fee.2 hdebit
    cases h.found.symm.trans hpays.found
    obtain ⟨n, hn, _, hless, hguarantees⟩ := hpays.paid
    refine ⟨?_, ?_⟩
    · rw [h.price.2]
      omega
    · rw [or_iff_not_imp_left]
      intro hne
      obtain ⟨l₂, _, _, hrange, ⟨_, hzero⟩ | hrefund⟩ := payFee_refund hpay
      · exact absurd hzero hne
      -- the conversion of the refund is one into the asset of the order
      obtain ⟨g₂, back, m₁, m₂, m₃, hg₂, hback, hm₁, hm₂, _⟩ :=
        FeeCharge.refund_eq h.guarantee hne hrefund
      rw [hguarantees, setGuarantee] at hg₂
      simp only [if_true, Option.some.injEq] at hg₂
      obtain ⟨g₃, _, hg₃, _, hasset, _⟩ := adjustGuarantee_eq hm₂
      rw [(moves_adjustFrozen hm₁).guarantees, hguarantees, setGuarantee] at hg₃
      simp only [if_true, Option.some.injEq] at hg₃
      rw [← hg₂] at hback
      rw [← hg₃] at hasset
      have hcore := mulPrice_eq (g := g) h.wellFormed hback hasset hrange
      rw [h.price.1, ← hcore.1]
  · rintro ⟨hne, hcore⟩
    obtain ⟨l₁, hdebit, hd⟩ := h.debit_returns hne
    rw [hdebit, bind_some]
    have hrest := h.rest
    obtain ⟨m₀, n, hm₀, hsame, hg, hn, hrefund⟩ : ∃ m n, (e.contract = none → m = l₁) ∧
        m.collected = l₁.collected ∧ m.guarantees id = some ((g.used need.amount).used n) ∧ n ≤ 0 ∧
        (e.contract.isSome → e.refund (unspentOf e) l₁ = some m) := by
      by_cases hzero : unspentOf e = 0
      · refine ⟨l₁, 0, fun _ => rfl, rfl, ?_, le_rfl, ?_⟩
        · rw [hd.order]
          simp [GuaranteeObject.used]
        · intro _
          have hopen : (g.used need.amount).finished = false := h.unfinished
          simp only [hzero, FeeCharge.refund, h.guarantee, if_true, h.inTrx, bind_some]
          exact recordGuarantee_returns hd.order hopen
      · obtain ⟨m, n, hm, hsame, hg, hn⟩ := h.refund_returns (hcore.resolve_left hzero) hne
          hzero hd
        refine ⟨m, n, ?_, hsame, hg, hn, fun _ => hm⟩
        intro hc
        simp [unspentOf, hc] at hzero
    obtain ⟨m, hm, hguarantees⟩ := payFee_returns h.counted (hsame.trans hd.collected) hm₀ hrefund
    refine ⟨m, _, hm, (congrFun hguarantees id).trans hg, ?_⟩
    have hopen : ((g.used need.amount).used n).finished = false := h.unfinished
    rw [hopen]
    have hleft : g.assetTarget.amount - (g.assetFinished.amount + need.amount + n) ≠ 0 := by
      omega
    exact iff_of_false Bool.false_ne_true hleft

end Payable

/-! ### A fee that takes the rest -/

/-- The order of `twoOwners` with `n` of its 2000 used. -/
def usedOrder (n : Int) : GuaranteeObject Nat :=
  ⟨⟨Address.normal, 2⟩, ⟨1000, 0⟩, ⟨2000, 1⟩, ⟨n, 1⟩, false⟩

def partlyUsed (n : Int) : Ledger Nat := twoOwners.setGuarantee 7 (usedOrder n)

def plainFee : FeeCharge Nat := ⟨⟨Address.normal, 1⟩, ⟨100, 0⟩, some 7, true, false, none⟩

/-- Of the order 1000 are left, and the fee is worth 200. -/
theorem plain_fee_accepted :
    ∃ l' g', plainFee.apply some (partlyUsed 1000) = some l' ∧ l'.guarantees 7 = some g' ∧
      (g'.finished = true ↔ g'.assetTarget.amount - g'.assetFinished.amount = 0) := by
  have h : Payable plainFee (partlyUsed 1000) 7 (usedOrder 1000) ⟨200, 1⟩ := by
    constructor <;> first | decide | rfl | exact ⟨by decide, by decide, rfl⟩
  exact (Payable.order_usable_iff rfl h).2 ⟨by decide, .inl rfl⟩

/-- A fee that takes the rest of an order is refused, though payer and guarantor have all that
    it takes. -/
theorem last_fee_refused :
    Payable plainFee (partlyUsed 1800) 7 (usedOrder 1800) ⟨200, 1⟩ ∧
      (plainFee.apply some (partlyUsed 1800)).isNone := by
  refine ⟨?_, by decide⟩
  constructor <;> first | decide | rfl | exact ⟨by decide, by decide, rfl⟩

end HyperExchange.Fees
