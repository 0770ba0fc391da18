/-
  **What the maps of a running contract add up to, and paying it** (`do_apply_balance`).

  `Balanced`: the money that contracts have given away and not got back is what addresses
  will get, what is kept as fees and what is left of the deposit; and no contract has given
  away more than it had.  Contracts are paid first, then charged, then the addresses get
  their money.  The sum of all balances changes by the deposit less the fees
  (`Balanced.heldBy`), and nothing stands in the way of the payments (`Balanced.pays`) but an
  amount for the null address.
-/
import HyperExchange.ContractTransfers
import Mathlib.Algebra.Order.BigOperators.Group.Finset

namespace HyperExchange.Transfers

open Fees OrderedMap List Option OMap

variable {H : Type}

theorem assetIs_key (a : Nat) (addr : Address H) (asset : Nat) :
    assetIs a (key addr asset) = true ↔ a = asset := by
  unfold assetIs key
  rw [decide_eq_true_eq, ofLex_toLex]
  exact eq_comm

/-! ### Balances and payments -/

def standsFor [DecidableEq H] (x : H) (a : Nat) (k : Key H) : Bool :=
  (ofLex k).1.addr = x && (ofLex k).2 = a

section Balances

variable {l l' : Ledger H} {s : Finset H} {sign : Int} {es : List (Key H × Int)}

/-- A ledger as the chain keeps it: all balances are those of addresses in `s`, none is
    negative, frozen money is not negative either, and no asset exceeds the largest supply. -/
structure Sound (s : Finset H) (l : Ledger H) : Prop where
  outside : ∀ x, x ∉ s → ∀ a, l.balances x a = none
  spendable_nonneg : ∀ x a, 0 ≤ l.spendable x a
  spendable_le : ∀ x a, l.spendable x a ≤ l.held x a
  supply : ∀ a, l.heldBy s a ≤ maxShareSupply

theorem Sound.held_nonneg (hl : Sound s l) (x : H) (a : Nat) : 0 ≤ l.held x a :=
  (hl.spendable_nonneg x a).trans (hl.spendable_le x a)

theorem Sound.spendable_le_supply (hl : Sound s l) (x : H) (a : Nat) :
    l.spendable x a ≤ maxShareSupply := by
  by_cases hx : x ∈ s
  · calc
      l.spendable x a ≤ l.held x a := hl.spendable_le x a
      _ ≤ l.heldBy s a := Finset.single_le_sum (fun y _ => hl.held_nonneg y a) hx
      _ ≤ maxShareSupply := hl.supply a
  · unfold Ledger.spendable
    rw [hl.outside x hx a]
    decide

/-- Between the first and the last value there are only values in range. -/
theorem between {b u v : Int} (hsign : sign = 1 ∨ sign = -1) (hu : 0 ≤ u) (hv : 0 ≤ v)
    (hb : 0 ≤ b ∧ b < 2 ^ 63) (hlast : 0 ≤ b + sign * (u + v) ∧ b + sign * (u + v) < 2 ^ 63) :
    0 ≤ b + sign * u ∧ b + sign * u < 2 ^ 63 := by
  rcases hsign with rfl | rfl
  · omega
  · omega

theorem ne_null_of_contract [Inhabited H] {addr : Address H} (h : addr.version = Address.contract) :
    addr ≠ .null := by
  rintro rfl
  have hversion : Address.normal ≠ Address.contract := by decide
  exact hversion h

variable [DecidableEq H]

theorem sumEntries_standsFor_le (hes : ∀ e ∈ es, 0 ≤ e.2) (x : H) (a : Nat) :
    sumEntries (standsFor x a) es ≤ sumEntries (assetIs a) es := by
  induction es with
  | nil => exact le_refl _
  | cons e es ih =>
    have hrest := ih fun d hd => hes d (mem_cons_of_mem e hd)
    have hfirst := hes e mem_cons_self
    have himp : standsFor x a e.1 = true → assetIs a e.1 = true := by
      intro h
      exact (Bool.and_eq_true_iff.mp h).2
    rw [sumEntries_cons, sumEntries_cons]
    by_cases hx : standsFor x a e.1 = true
    · rw [if_pos hx, if_pos (himp hx)]
      omega
    · rw [if_neg hx]
      split <;> omega

variable [Inhabited H]

theorem heldBy_adjustAll (hs : ∀ e ∈ es, e.2 ≠ 0 → (ofLex e.1).1.addr ∈ s)
    (h : adjustAll sign es l = some l') (a : Nat) :
    l'.heldBy s a = l.heldBy s a + sign * sumEntries (assetIs a) es := by
  induction es generalizing l with
  | nil =>
    cases h
    simp [sumEntries]
  | cons e es ih =>
    have hrest : ∀ d ∈ es, d.2 ≠ 0 → (ofLex d.1).1.addr ∈ s := fun d hd =>
      hs d (mem_cons_of_mem e hd)
    rw [sumEntries_cons, Int.mul_add]
    by_cases hzero : e.2 = 0
    · rw [adjustAll, if_pos hzero] at h
      rw [ih hrest h, hzero]
      simp
    · rw [adjustAll, if_neg hzero] at h
      obtain ⟨l₁, hl₁, h⟩ := bind_eq_some_iff.mp h
      have hmoves := (moves_adjustBalance hl₁).heldBy (hs e mem_cons_self hzero) a
      rw [ih hrest h, hmoves]
      simp only [Asset.of, assetIs, decide_eq_true_eq]
      by_cases ha : (ofLex e.1).2 = a
      · rw [if_pos ha.symm, if_pos ha]
        omega
      · rw [if_neg (Ne.symm ha), if_neg ha]
        omega

theorem spendable_adjustAll (h : adjustAll sign es l = some l') (x : H) (a : Nat) :
    l'.spendable x a = l.spendable x a + sign * sumEntries (standsFor x a) es ∧
      l'.held x a = l.held x a + sign * sumEntries (standsFor x a) es := by
  induction es generalizing l with
  | nil =>
    cases h
    simp [sumEntries]
  | cons e es ih =>
    rw [sumEntries_cons, Int.mul_add]
    unfold adjustAll at h
    split at h
    · next hzero =>
      rw [hzero, ite_self, Int.mul_zero, Int.zero_add]
      exact ih h
    · obtain ⟨l₁, hl₁, h⟩ := bind_eq_some_iff.mp h
      have hof : (if x = (ofLex e.1).1.addr then Asset.of ⟨sign * e.2, (ofLex e.1).2⟩ a else 0) =
          sign * if standsFor x a e.1 then e.2 else 0 := by
        simp only [standsFor, Asset.of, Bool.and_eq_true, decide_eq_true_eq]
        by_cases hx : (ofLex e.1).1.addr = x
        · by_cases ha : (ofLex e.1).2 = a
          · rw [if_pos hx.symm, if_pos ha.symm, if_pos ⟨hx, ha⟩]
          · rw [if_pos hx.symm, if_neg (Ne.symm ha), if_neg fun h => ha h.2, Int.mul_zero]
        · rw [if_neg (Ne.symm hx), if_neg fun h => hx h.1, Int.mul_zero]
      have hrest := ih h
      rw [spendable_adjustBalance hl₁, (moves_adjustBalance hl₁).held, hof] at hrest
      rw [← Int.add_assoc, ← Int.add_assoc]
      exact hrest

/-- All payments go through if none is to the null address, and if what is there before and
    after is in the range of amounts. -/
theorem adjustAll_returns (hsign : sign = 1 ∨ sign = -1) (hes : ∀ e ∈ es, 0 ≤ e.2)
    (hnull : ∀ e ∈ es, e.2 ≠ 0 → (ofLex e.1).1 ≠ .null)
    (hbefore : ∀ x a, 0 ≤ l.spendable x a ∧ l.spendable x a < 2 ^ 63)
    (hafter : ∀ x a, 0 ≤ l.spendable x a + sign * sumEntries (standsFor x a) es ∧
      l.spendable x a + sign * sumEntries (standsFor x a) es < 2 ^ 63) :
    ∃ l', adjustAll sign es l = some l' := by
  induction es generalizing l with
  | nil => exact ⟨l, rfl⟩
  | cons e es ih =>
    have hes' : ∀ d ∈ es, 0 ≤ d.2 := fun d hd => hes d (mem_cons_of_mem e hd)
    have hnull' : ∀ d ∈ es, d.2 ≠ 0 → (ofLex d.1).1 ≠ .null := fun d hd =>
      hnull d (mem_cons_of_mem e hd)
    have hfirst := hes e mem_cons_self
    have hstep : ∀ x a, 0 ≤ l.spendable x a + sign * (if standsFor x a e.1 then e.2 else 0) ∧
        l.spendable x a + sign * (if standsFor x a e.1 then e.2 else 0) < 2 ^ 63 := by
      intro x a
      have hlast := hafter x a
      rw [sumEntries_cons] at hlast
      refine between hsign ?_ (sumEntries_nonneg hes') (hbefore x a) hlast
      split
      · exact hfirst
      · exact le_refl 0
    unfold adjustAll
    by_cases hzero : e.2 = 0
    · rw [if_pos hzero]
      refine ih hes' hnull' hbefore ?_
      intro x a
      have h := hafter x a
      rw [sumEntries_cons, hzero, ite_self, Int.zero_add] at h
      exact h
    · rw [if_neg hzero]
      have hown := hstep (ofLex e.1).1.addr (ofLex e.1).2
      rw [if_pos (by simp [standsFor])] at hown
      obtain ⟨l₁, hl₁⟩ := adjustBalance_returns (ofLex e.1).1 ⟨sign * e.2, (ofLex e.1).2⟩
        (fun _ => hnull e mem_cons_self hzero) hown.1 hown.2
      rw [hl₁, bind_some]
      have hspent : ∀ x a, l₁.spendable x a = l.spendable x a + sign *
          if standsFor x a e.1 then e.2 else 0 := by
        intro x a
        have hone : adjustAll sign [e] l = some l₁ := by
          rw [adjustAll, if_neg hzero, hl₁]
          rfl
        rw [(spendable_adjustAll hone x a).1, sumEntries_cons]
        simp [sumEntries]
      refine ih hes' hnull' ?_ ?_
      · intro x a
        rw [hspent]
        exact hstep x a
      · intro x a
        have ha := hafter x a
        rw [sumEntries_cons, Int.mul_add, ← Int.add_assoc] at ha
        rw [hspent]
        exact ha

/-- The null address takes no payment. -/
theorem adjustAll_null (sign : Int) {e : Key H × Int} (he : e ∈ es) (hnull : (ofLex e.1).1 = .null)
    (hzero : sign * e.2 ≠ 0) : adjustAll sign es l = none := by
  induction es generalizing l with
  | nil => cases he
  | cons d es ih =>
    rw [adjustAll]
    rcases mem_cons.mp he with rfl | he
    · rw [if_neg fun h => hzero (by rw [h, Int.mul_zero]), hnull, adjustBalance_null hzero]
      rfl
    · split
      · exact ih he
      · cases l.adjustBalance (ofLex d.1).1 ⟨sign * d.2, (ofLex d.1).2⟩ with
        | none => rfl
        | some l₁ => exact ih he

end Balances

variable [LinearOrder (Address H)]

/-! ### What a withdrawal does to the maps -/

/-- `amount` more was withdrawn under the index, in all. -/
structure Withdrawn (index : Key H) (amount : Int) (r r' : InvokeResult H) : Prop where
  net : ∀ k, r'.contractWithdraw.amount k - r'.depositContract.amount k =
    r.contractWithdraw.amount k - r.depositContract.amount k + if k = index then amount else 0
  sum : ∀ p, r'.contractWithdraw.sumOver p - r'.depositContract.sumOver p =
    r.contractWithdraw.sumOver p - r.depositContract.sumOver p + if p index then amount else 0
  deposit_nonneg : ∀ k, 0 ≤ r'.depositContract.amount k
  deposit_le : ∀ k, r'.depositContract.amount k ≤ r.depositContract.amount k
  le_withdraw : ∀ k, r.contractWithdraw.amount k ≤ r'.contractWithdraw.amount k
  credits : r'.depositToAddress = r.depositToAddress
  fees : r'.transferFees = r.transferFees
  balances : r'.contractBalances = r.contractBalances
  succeeded : r'.execSucceed = r.execSucceed
  withdraw_mem : ∀ e ∈ r'.contractWithdraw.entries, e.1 = index ∨
    ∃ e' ∈ r.contractWithdraw.entries, e'.1 = e.1
  deposit_mem : ∀ e ∈ r'.depositContract.entries, ∃ e' ∈ r.depositContract.entries, e'.1 = e.1

theorem mem_insert_key {m : OMap (Key H) Int} {k : Key H} {v : Int} {e : Key H × Int}
    (h : e ∈ (m.insert k v).entries) : e.1 = k ∨ ∃ e' ∈ m.entries, e'.1 = e.1 := by
  rcases mem_entries_insert h with rfl | h
  · exact .inl rfl
  · exact .inr ⟨e, h, rfl⟩

theorem Withdrawn.of_insert {index : Key H} {amount d d' w : Int} {r : InvokeResult H}
    (hdeposit : ∀ k, 0 ≤ r.depositContract.amount k) (hd : r.depositContract.find index = some d)
    (hd' : 0 ≤ d' ∧ d' ≤ d) (hw : 0 ≤ w) (hamount : w + (d - d') = amount) :
    Withdrawn index amount r { r with
      depositContract := r.depositContract.insert index d'
      contractWithdraw :=
        r.contractWithdraw.insert index (r.contractWithdraw.amount index + w) } := by
  have hfound : r.depositContract.amount index = d := by rw [OMap.amount, hd]; rfl
  refine ⟨?_, ?_, ?_, ?_, ?_, rfl, rfl, rfl, rfl, fun e he => mem_insert_key he, ?_⟩
  · intro k
    rw [amount_insert, amount_insert]
    split
    · subst k
      omega
    · omega
  · intro p
    rw [sumOver_insert, sumOver_insert]
    split <;> omega
  · intro k
    rw [amount_insert]
    split
    · exact hd'.1
    · exact hdeposit k
  · intro k
    dsimp only
    rw [amount_insert]
    split
    · subst k
      omega
    · exact le_refl _
  · intro k
    rw [amount_insert]
    split
    · subst k
      omega
    · exact le_refl _
  · intro e he
    rcases mem_insert_key he with h | h
    · exact ⟨(index, d), (mem_entries_iff ..).mpr hd, h.symm⟩
    · exact h

theorem withdrawn_withdraw (index : Key H) {amount : Int} {r : InvokeResult H}
    (hamount : 0 < amount) (hdeposit : ∀ k, 0 ≤ r.depositContract.amount k) :
    Withdrawn index amount r (r.withdraw index amount) := by
  unfold InvokeResult.withdraw
  cases hd : r.depositContract.find index with
  | none =>
    refine ⟨?_, ?_, hdeposit, fun _ => le_refl _, ?_, rfl, rfl, rfl, rfl,
      fun e he => mem_insert_key he, fun e he => ⟨e, he, rfl⟩⟩
    · intro k
      dsimp only
      rw [amount_insert]
      split
      · subst k
        omega
      · omega
    · intro p
      dsimp only
      rw [sumOver_insert]
      split <;> omega
    · intro k
      rw [amount_insert]
      split
      · subst k
        omega
      · exact le_refl _
  | some d =>
    have hdnonneg : 0 ≤ d := by
      have h := hdeposit index
      rwa [OMap.amount, hd] at h
    dsimp only
    split <;> exact .of_insert hdeposit hd (by omega) (by omega) (by omega)

theorem addTransferFee_eq {asset : Nat} {fee : Int} (hfee : 0 ≤ fee) (r : InvokeResult H) :
    ∃ fees, r.addTransferFee asset fee = { r with transferFees := fees } ∧
      ∀ a, fees.amount a = r.transferFees.amount a + if a = asset then fee else 0 := by
  unfold InvokeResult.addTransferFee
  split
  · refine ⟨_, rfl, ?_⟩
    intro a
    rw [amount_insert]
    split
    · next ha => rw [ha]
    · rw [Int.add_zero]
  · refine ⟨r.transferFees, rfl, ?_⟩
    intro a
    split <;> omega

/-! ### The maps and the ledger -/

/-- What a running contract has recorded, against the ledger it started with: `deposit` is
    what the operation pays to the contract, and `paid` what was paid to addresses. -/
structure Balanced [Inhabited H] (l : Ledger H) (deposit : Nat → Int) (r : InvokeResult H)
    (paid : List (Payment H)) : Prop where
  withdraw_keys : ∀ e ∈ r.contractWithdraw.entries, (ofLex e.1).1.version = Address.contract
  deposit_keys : ∀ e ∈ r.depositContract.entries, (ofLex e.1).1.version = Address.contract
  withdraw_nonneg : ∀ k, 0 ≤ r.contractWithdraw.amount k
  deposit_nonneg : ∀ k, 0 ≤ r.depositContract.amount k
  credit_nonneg : ∀ k, 0 ≤ r.depositToAddress.amount k
  fees_nonneg : ∀ a, 0 ≤ r.transferFees.amount a
  deposit_le : ∀ k, r.depositContract.amount k ≤ deposit (ofLex k).2
  read : ∀ k b, r.contractBalances.find k = some b → b ≤ l.spendable (ofLex k).1.addr (ofLex k).2
  covered : ∀ k, r.contractWithdraw.amount k ≤
    l.spendable (ofLex k).1.addr (ofLex k).2 + r.depositContract.amount k
  total : ∀ a, r.depositContract.sumOver (assetIs a) + r.depositToAddress.sumOver (assetIs a) +
    r.transferFees.amount a = r.contractWithdraw.sumOver (assetIs a) + deposit a
  null : (∀ a, r.depositToAddress.amount (key .null a) = 0) ↔
    ∀ p ∈ paid, p.toAddr = .null → p.amount = 0
  succeeded : r.execSucceed = true

namespace Balanced

variable [Inhabited H] {l : Ledger H} {deposit : Nat → Int} {r r' : InvokeResult H}
  {paid : List (Payment H)} {env : Setting H}

theorem empty (hl : ∀ x a, 0 ≤ l.spendable x a) : Balanced l (fun _ => 0) .empty [] where
  withdraw_keys e he := by cases he
  deposit_keys e he := by cases he
  withdraw_nonneg k := le_refl 0
  deposit_nonneg k := le_refl 0
  credit_nonneg k := le_refl 0
  fees_nonneg a := le_refl 0
  deposit_le k := le_refl 0
  read k b hb := by cases hb
  covered k := by simpa [InvokeResult.empty] using hl _ _
  total a := rfl
  null := ⟨fun _ p hp => (by cases hp), fun _ _ => rfl⟩
  succeeded := rfl

theorem balances_le (h : Balanced l deposit r paid) (hl : ∀ x a, 0 ≤ l.spendable x a)
    (k : Key H) : r.contractBalances.amount k ≤ l.spendable (ofLex k).1.addr (ofLex k).2 := by
  unfold OMap.amount
  cases hb : r.contractBalances.find k with
  | none => exact hl _ _
  | some b => exact h.read k b hb

/-- A balance is read once and then kept in the result. -/
theorem readBalance (h : Balanced env.ledger deposit r paid)
    (hl : ∀ x a, 0 ≤ env.ledger.spendable x a) (addr : Address H) (asset : Nat) :
    Balanced env.ledger deposit (r.readBalance env addr asset) paid := by
  unfold InvokeResult.readBalance
  split
  · exact h
  refine { h with read := ?_ }
  intro k b hb
  rw [find_insert] at hb
  split at hb
  · next hk =>
    cases hb
    subst hk
    unfold Setting.getBalance
    split
    · exact le_refl _
    · exact hl _ _
  · exact h.read k b hb

theorem depositToContract (hl : ∀ x a, 0 ≤ env.ledger.spendable x a) {contract : Address H}
    {x : Asset} (hversion : contract.version = Address.contract) (hx : 0 < x.amount)
    (hr : InvokeResult.empty.depositToContract env contract x = some r) :
    Balanced env.ledger x.of r [] := by
  have hr' : r = ⟨.empty, .empty, .empty, OMap.empty.insert (key contract x.assetId) (0 + x.amount),
      .empty, true⟩ := by
    unfold InvokeResult.depositToContract at hr
    split at hr
    · simp only [InvokeResult.empty, find_empty] at hr
      rw [if_neg (by omega)] at hr
      cases hr
      rfl
    · cases hr
  subst hr'
  have hof : ∀ a, 0 ≤ x.of a := by
    intro a
    unfold Asset.of
    split <;> omega
  refine { empty hl with
    deposit_keys := ?_
    deposit_nonneg := ?_
    deposit_le := ?_
    covered := ?_
    total := ?_ }
  · intro e he
    rcases mem_entries_insert he with rfl | he
    · exact hversion
    · cases he
  · intro k
    rw [amount_insert]
    split
    · omega
    · exact le_refl 0
  · intro k
    dsimp only
    rw [amount_insert]
    split
    · subst k
      simp [key, Asset.of]
    · exact hof _
  · intro k
    have hspendable := hl (ofLex k).1.addr (ofLex k).2
    rw [amount_insert]
    simp only [amount_empty]
    split <;> omega
  · intro a
    rw [sumOver_insert]
    simp only [sumOver_empty, amount_empty, assetIs_key, Asset.of]
    split <;> omega

theorem null_credit {t : OMap (Key H) Int} (ht : ∀ k, 0 ≤ t.amount k)
    (hnull : (∀ a, t.amount (key .null a) = 0) ↔ ∀ p ∈ paid, p.toAddr = .null → p.amount = 0)
    (p : Payment H) (hp : 0 ≤ p.amount) :
    (∀ a, (t.insert (key p.toAddr p.asset) (t.amount (key p.toAddr p.asset) + p.amount)).amount
      (key .null a) = 0) ↔ ∀ q ∈ paid ++ [p], q.toAddr = .null → q.amount = 0 := by
  have hinsert : ∀ a, (t.insert (key p.toAddr p.asset)
      (t.amount (key p.toAddr p.asset) + p.amount)).amount (key .null a) =
      t.amount (key .null a) + if p.toAddr = .null ∧ p.asset = a then p.amount else 0 := by
    intro a
    rw [amount_insert]
    by_cases hk : p.toAddr = .null ∧ p.asset = a
    · rw [if_pos hk, hk.1, hk.2, if_pos rfl]
    have hne : key .null a ≠ key p.toAddr p.asset := by
      intro h
      have hpair := toLex.injective h
      exact hk ⟨(Prod.mk.inj hpair).1.symm, (Prod.mk.inj hpair).2.symm⟩
    rw [if_neg hk, if_neg hne, Int.add_zero]
  simp only [hinsert]
  constructor
  · intro h q hq hnullq
    have hold : ∀ a, t.amount (key .null a) = 0 := by
      intro a
      have ha := h a
      have hta := ht (key .null a)
      split at ha <;> omega
    rcases mem_append.mp hq with hq | hq
    · exact hnull.mp hold q hq hnullq
    · cases mem_singleton.mp hq
      have ha := h p.asset
      rw [if_pos ⟨hnullq, rfl⟩, hold, Int.zero_add] at ha
      exact ha
  · intro h a
    have hold := hnull.mpr (fun q hq => h q (mem_append_left _ hq)) a
    rw [hold, Int.zero_add]
    split
    · next hp => exact h p (mem_append_right _ (mem_singleton.mpr rfl)) hp.1
    · rfl

/-- **Step lemma.** A transfer that is carried out. -/
theorem transfer {t : Transfer H} {fee : Int} (h : Balanced l deposit r paid)
    (hl : ∀ x a, 0 ≤ l.spendable x a) (hfee : 0 ≤ fee ∧ fee ≤ t.amount)
    (hr : r.transfer t fee = some r') :
    Balanced l deposit r' (paid ++ [⟨t.toAddr, t.asset, t.amount - fee⟩]) := by
  unfold InvokeResult.transfer at hr
  dsimp only at hr
  split at hr
  · cases hr
  next havailable =>
  have hw := withdrawn_withdraw (key t.contract t.asset) t.amount_pos h.deposit_nonneg
  generalize r.withdraw (key t.contract t.asset) t.amount = w at hw hr
  cases hr
  unfold InvokeResult.available at havailable
  have hindex := h.balances_le hl (key t.contract t.asset)
  have hcredit : 0 ≤ t.amount - fee := by omega
  obtain ⟨fees, hfees, hamount⟩ := addTransferFee_eq hfee.1
    (w.credit t.toAddr t.asset (t.amount - fee))
  rw [hfees]
  have hcredits : ∀ k, 0 ≤ w.depositToAddress.amount k := by
    rw [hw.credits]
    exact h.credit_nonneg
  constructor
  case withdraw_keys =>
    intro e he
    rcases hw.withdraw_mem e he with hk | ⟨e', he', hk⟩
    · rw [hk]
      exact t.contract_version
    · rw [← hk]
      exact h.withdraw_keys e' he'
  case deposit_keys =>
    intro e he
    obtain ⟨e', he', hk⟩ := hw.deposit_mem e he
    rw [← hk]
    exact h.deposit_keys e' he'
  case withdraw_nonneg =>
    intro k
    exact (h.withdraw_nonneg k).trans (hw.le_withdraw k)
  case deposit_nonneg => exact hw.deposit_nonneg
  case credit_nonneg =>
    intro k
    dsimp only [InvokeResult.credit]
    rw [amount_insert]
    split
    · have hold := hcredits (key t.toAddr t.asset)
      omega
    · exact hcredits k
  case fees_nonneg =>
    intro a
    have hold := h.fees_nonneg a
    have hnew := hamount a
    dsimp only [InvokeResult.credit] at hnew ⊢
    rw [hw.fees] at hnew
    split at hnew <;> omega
  case deposit_le =>
    intro k
    exact (hw.deposit_le k).trans (h.deposit_le k)
  case read =>
    intro k b hb
    dsimp only [InvokeResult.credit] at hb
    rw [hw.balances] at hb
    exact h.read k b hb
  case covered =>
    intro k
    have hnet := hw.net k
    have hold := h.covered k
    dsimp only [InvokeResult.credit]
    split at hnet
    · next hk =>
      subst hk
      omega
    · omega
  case total =>
    intro a
    have hold := h.total a
    have hsum := hw.sum (assetIs a)
    have hnew := hamount a
    dsimp only [InvokeResult.credit] at hnew ⊢
    rw [hw.fees] at hnew
    rw [sumOver_insert, hw.credits]
    simp only [assetIs_key] at hsum ⊢
    by_cases ha : a = t.asset
    · rw [if_pos ha] at hsum hnew ⊢
      omega
    · rw [if_neg ha] at hsum hnew ⊢
      omega
  case null =>
    have hnull := h.null
    rw [← hw.credits] at hnull
    exact null_credit hcredits hnull ⟨t.toAddr, t.asset, t.amount - fee⟩ hcredit
  case succeeded => exact hw.succeeded.trans h.succeeded

variable (hl : ∀ x a, 0 ≤ env.ledger.spendable x a)
include hl

/-- **Run lemma.** The calls of a contract of the virtual machine. -/
theorem runUvm {calls : List (Call H)} {s s' : InvokeResult H × List (Payment H)}
    (h : Balanced env.ledger deposit s.1 s.2) (hrun : runUvm env calls s = some s') : Balanced
    env.ledger deposit s'.1 s'.2 := by
  induction calls generalizing s with
  | nil =>
    cases hrun
    exact h
  | cons c calls ih =>
    obtain ⟨s₁, hcall, hrest⟩ := bind_eq_some_iff.mp hrun
    refine ih ?_ hrest
    cases c with
    | getContractBalance addr asset =>
      cases hcall
      exact h.readBalance hl addr asset
    | transfer t =>
      have hread := h.readBalance hl t.contract t.asset
      unfold uvmCall at hcall
      dsimp only at hcall
      split at hcall
      · split at hcall
        · cases hcall
          exact hread
        · next r hr =>
          cases hcall
          exact hread.transfer hl ⟨t.fee_nonneg, t.fee_le⟩ hr
      · cases hcall

/-- **Run lemma.** The transfers of a native contract, in its own result. -/
theorem runNative {transfers : List (Transfer H)} {n n' : Native H}
    (h : Balanced env.ledger deposit n.result paid) (hrun : runNative env transfers n = some n') :
    Balanced env.ledger deposit n'.result
    (paid ++ transfers.map fun t => ⟨t.toAddr, t.asset, t.amount⟩) := by
  induction transfers generalizing n paid with
  | nil =>
    cases hrun
    rw [map_nil, append_nil]
    exact h
  | cons t transfers ih =>
    obtain ⟨n₁, hcall, hrest⟩ := bind_eq_some_iff.mp hrun
    obtain ⟨r, hr, rfl⟩ := map_eq_some_iff.mp hcall
    have hread := h.readBalance hl t.contract t.asset
    have hstep := hread.transfer hl ⟨le_refl 0, t.amount_pos.le⟩ hr
    have hall := ih hstep hrest
    rw [Int.sub_zero, append_assoc] at hall
    exact hall

end Balanced

/-! ### Paying -/

theorem entries_nonneg {m : OMap (Key H) Int} (hm : ∀ k, 0 ≤ m.amount k) :
    ∀ e ∈ m.entries, 0 ≤ e.2 := by
  intro e he
  rw [← amount_of_mem he]
  exact hm e.1

section Paying

variable [DecidableEq H] {l l' : Ledger H}

theorem sumOver_contract {m : OMap (Key H) Int}
    (hm : ∀ e ∈ m.entries, (ofLex e.1).1.version = Address.contract) (x : H) (a : Nat) :
    m.sumOver (standsFor x a) = m.amount (key ⟨Address.contract, x⟩ a) := by
  refine sumOver_eq_amount (by simp [standsFor, key]) ?_
  intro e he hstands
  simp only [standsFor, Bool.and_eq_true, decide_eq_true_eq] at hstands
  have hversion := hm e he
  have haddr : (ofLex e.1).1 = ⟨Address.contract, x⟩ := by rw [← hversion, ← hstands.1]
  rw [← haddr, ← hstands.2]
  rfl

variable [Inhabited H]

/-- What `do_apply_balance` has paid after each of its loops. -/
theorem doApplyBalance_eq_some {r : InvokeResult H} (h : doApplyBalance r l = some l') :
    ∃ l₁ l₂, adjustAll 1 r.depositContract.entries l = some l₁ ∧
      adjustAll (-1) r.contractWithdraw.entries l₁ = some l₂ ∧
      adjustAll 1 r.depositToAddress.entries l₂ = some l' := by
  obtain ⟨l₁, l₂, hl₁, hl₂, h⟩ := bind_bind_eq_some h
  exact ⟨l₁, l₂, hl₁, hl₂, h⟩

variable {deposit : Nat → Int} {r : InvokeResult H} {paid : List (Payment H)} {s : Finset H}

def Names (r : InvokeResult H) (s : Finset H) : Prop :=
  ∀ e ∈ r.depositContract.entries ++ r.contractWithdraw.entries ++ r.depositToAddress.entries,
    (ofLex e.1).1.addr ∈ s

instance (r : InvokeResult H) (s : Finset H) : Decidable (Names r s) := List.decidableBAll ..

theorem Balanced.heldBy (h : Balanced l deposit r paid) (hs : Names r s)
    (hl' : doApplyBalance r l = some l') (a : Nat) :
    l'.heldBy s a = l.heldBy s a + deposit a - r.transferFees.amount a := by
  obtain ⟨l₁, l₂, hl₁, hl₂, hl₃⟩ := doApplyBalance_eq_some hl'
  have hdeposits : ∀ e ∈ r.depositContract.entries, e.2 ≠ 0 → (ofLex e.1).1.addr ∈ s :=
    fun e he _ => hs e (mem_append_left _ (mem_append_left _ he))
  have hwithdraws : ∀ e ∈ r.contractWithdraw.entries, e.2 ≠ 0 → (ofLex e.1).1.addr ∈ s :=
    fun e he _ => hs e (mem_append_left _ (mem_append_right _ he))
  have hcredits : ∀ e ∈ r.depositToAddress.entries, e.2 ≠ 0 → (ofLex e.1).1.addr ∈ s :=
    fun e he _ => hs e (mem_append_right _ he)
  have h₁ := heldBy_adjustAll hdeposits hl₁ a
  have h₂ := heldBy_adjustAll hwithdraws hl₂ a
  have h₃ := heldBy_adjustAll hcredits hl₃ a
  have htotal := h.total a
  unfold sumOver at htotal
  omega

variable (h : Balanced l deposit r paid)
include h

variable (hl : Sound s l)
include hl

/-- The range of a balance, and of what a contract gets and gives. -/
theorem Balanced.bounds (hdeposit : ∀ a, deposit a ≤ maxShareSupply) (x : H)
    (a : Nat) : (0 ≤ l.spendable x a ∧ l.spendable x a ≤ maxShareSupply) ∧
      (0 ≤ r.depositContract.sumOver (standsFor x a) ∧
        r.depositContract.sumOver (standsFor x a) ≤ maxShareSupply) ∧
      0 ≤ r.contractWithdraw.sumOver (standsFor x a) ∧
        r.contractWithdraw.sumOver (standsFor x a) ≤
          l.spendable x a + r.depositContract.sumOver (standsFor x a) := by
  rw [sumOver_contract h.withdraw_keys, sumOver_contract h.deposit_keys]
  exact ⟨⟨hl.spendable_nonneg x a, hl.spendable_le_supply x a⟩,
    ⟨h.deposit_nonneg _, (h.deposit_le _).trans (hdeposit a)⟩,
    h.withdraw_nonneg _, h.covered (key ⟨Address.contract, x⟩ a)⟩

theorem Balanced.settles (hdeposit : ∀ a, deposit a ≤ maxShareSupply) : ∃ l₁ l₂, adjustAll 1
    r.depositContract.entries l = some l₁ ∧ adjustAll (-1) r.contractWithdraw.entries l₁ = some l₂ ∧
    ∀ x a, l₂.spendable x a = l.spendable x a + r.depositContract.sumOver (standsFor x a) -
    r.contractWithdraw.sumOver (standsFor x a) ∧ l₂.spendable x a ≤ l₂.held x a := by
  have hmax : maxShareSupply = 10000000000000000 := rfl
  have hbounds := h.bounds hl hdeposit
  unfold sumOver at hbounds ⊢
  obtain ⟨l₁, hl₁⟩ := adjustAll_returns (l := l) (.inl rfl) (entries_nonneg h.deposit_nonneg)
    (fun e he _ => ne_null_of_contract (h.deposit_keys e he))
    (fun x a => by have hx := hbounds x a; omega) (fun x a => by have hx := hbounds x a; omega)
  have h₁ := spendable_adjustAll hl₁
  obtain ⟨l₂, hl₂⟩ := adjustAll_returns (l := l₁) (.inr rfl) (entries_nonneg h.withdraw_nonneg)
    (fun e he _ => ne_null_of_contract (h.withdraw_keys e he)) (by
      intro x a
      have hx := hbounds x a
      rw [(h₁ x a).1]
      omega) (by
      intro x a
      have hx := hbounds x a
      rw [(h₁ x a).1]
      omega)
  refine ⟨l₁, l₂, hl₁, hl₂, ?_⟩
  intro x a
  have hfirst := h₁ x a
  have hsecond := spendable_adjustAll hl₂ x a
  have hle := hl.spendable_le x a
  omega

/-- **Everything can be paid**, unless something is owed to the null address. -/
theorem Balanced.pays (hs : Names r s) (hdeposit : ∀ a, deposit a ≤ maxShareSupply)
    (hpaid : ∀ p ∈ paid, p.toAddr = .null → p.amount = 0) : ∃ l', doApplyBalance r l = some l' ∧
    ∀ x a, l.spendable x a - r.contractWithdraw.sumOver (standsFor x a) ≤ l'.spendable x a ∧ 0 ≤
    l'.spendable x a ∧ l'.spendable x a < 2 ^ 62 := by
  have hmax : maxShareSupply = 10000000000000000 := rfl
  obtain ⟨l₁, l₂, hl₁, hl₂, h₂⟩ := h.settles hl hdeposit
  have hbounds := h.bounds hl hdeposit
  have hnull : ∀ e ∈ r.depositToAddress.entries, e.2 ≠ 0 → (ofLex e.1).1 ≠ .null := by
    intro e he hzero haddr
    refine hzero ?_
    rw [← amount_of_mem he]
    have hkey : e.1 = key .null (ofLex e.1).2 := by
      rw [← haddr]
      rfl
    rw [hkey]
    exact h.null.mpr hpaid _
  -- what the addresses get is what the contracts gave, and was there before
  have hcredits : ∀ x a, 0 ≤ r.depositToAddress.sumOver (standsFor x a) ∧
      r.depositToAddress.sumOver (standsFor x a) ≤ 2 * maxShareSupply := by
    intro x a
    refine ⟨sumEntries_nonneg (entries_nonneg h.credit_nonneg), ?_⟩
    have hle := sumEntries_standsFor_le (entries_nonneg h.credit_nonneg) x a
    have htotal := h.total a
    have hfees := h.fees_nonneg a
    have hdep := hdeposit a
    have hsupply := hl.supply a
    have hheld : 0 ≤ l₂.heldBy s a := by
      refine Finset.sum_nonneg fun y _ => ?_
      have hy := h₂ y a
      have hbound := hbounds y a
      omega
    have hafter₁ := heldBy_adjustAll
      (fun e he _ => hs e (mem_append_left _ (mem_append_left _ he))) hl₁ a
    have hafter₂ := heldBy_adjustAll
      (fun e he _ => hs e (mem_append_left _ (mem_append_right _ he))) hl₂ a
    unfold sumOver at htotal ⊢
    omega
  have hrange : ∀ x a, 0 ≤ l₂.spendable x a ∧ l₂.spendable x a ≤ 2 * maxShareSupply := by
    intro x a
    have hx := (h₂ x a).1
    have hbound := hbounds x a
    omega
  obtain ⟨l', hl'⟩ := adjustAll_returns (l := l₂) (.inl rfl) (entries_nonneg h.credit_nonneg)
    hnull (by
      intro x a
      have hx := hrange x a
      omega) (by
      intro x a
      have hx := hrange x a
      have ht := hcredits x a
      unfold sumOver at ht
      omega)
  refine ⟨l', ?_, ?_⟩
  · unfold doApplyBalance
    rw [hl₁, bind_some, hl₂, bind_some, hl']
  · intro x a
    have hlast := (spendable_adjustAll hl' x a).1
    have hx := hrange x a
    have hmid := (h₂ x a).1
    have hbound := hbounds x a
    have ht := hcredits x a
    unfold sumOver at hbound ht hmid ⊢
    omega

end Paying

end HyperExchange.Transfers
