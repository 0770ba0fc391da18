/-
  **Fee processing** (`evaluator::apply` in `evaluator.hpp`, `generic_evaluator::pay_fee`
  in `evaluator.cpp`, `contract_common_evaluate::pay_fee_and_refund` in
  `contract_evaluate.cpp`).

  The fee is taken from the fee payer, or, with a guarantee order, from what the guarantor has
  frozen, for which the payer gives the price of the order.  A contract evaluator gives back
  the unspent gas, and counts the fees of the contract's transfers.  A fee that is not in the
  core asset is only taken with a guarantee order, and `pay_fee_and_refund` reckons in the
  core asset whatever the fee was paid in; otherwise nothing is lost (`fees_conserved`).
-/
import HyperExchange.Ledger

namespace HyperExchange.Fees

open Option Asset

variable {H : Type}

/-! ### Gas -/

/-- `count_gas_fee`, in 64 bit. -/
def countGasFee (gasPrice gasCount : Nat) : Option Int :=
  let fee : Nat := (gasCount / 100 + if gasCount % 100 = 0 then 0 else 1) * gasPrice % 2 ^ 64
  if fee < 2 ^ 63 then some fee else none

/-- What a contract evaluator finds out in `do_evaluate`: the contract ran, the operation
    needed no run, it ran out of gas, or the result of an earlier evaluation is there. -/
inductive GasOutcome where
  | executed (gasUsed : Nat) (transferFees : List (Nat × Int))
  | notRun
  | outOfMoney
  | stored (acctualFee : Int) (transferFees : List (Nat × Int))

structure ContractCall where
  gasPrice : Nat
  gasLimit : Nat
  -- not for the invocation of a contract that the virtual machine runs: it is asked
  -- `!offline` there, and `offline` is an enumerator that is not zero
  limitChecked : Bool
  outcome : GasOutcome

/-- `unspent_fee` -/
def ContractCall.unspentFee (c : ContractCall) (totalFee : Int) : Option Int :=
  match c.outcome with
  | .executed gasUsed _ =>
    if c.limitChecked = false ∨ gasUsed ≤ c.gasLimit ∧ 0 < gasUsed then
      (countGasFee c.gasPrice c.gasLimit).bind fun limit =>
        (countGasFee c.gasPrice gasUsed).bind fun used => share (limit - used)
    else none
  | .notRun => countGasFee c.gasPrice c.gasLimit
  | .outOfMoney => some 0
  | .stored acctualFee _ => share (totalFee - acctualFee)

/-- `invoke_contract_result.transfer_fees` -/
def ContractCall.transferFees (c : ContractCall) : List Asset :=
  match c.outcome with
  | .executed _ fees => fees.map fun f => ⟨f.2, f.1⟩
  | .stored _ fees => fees.map fun f => ⟨f.2, f.1⟩
  | .notRun => []
  | .outOfMoney => []

/-! ### Fees -/

/-- The fee of an operation, as the evaluator has it after `prepare_fee`. -/
structure FeeCharge (H : Type) where
  payer : Address H
  fee : Asset
  guaranteeId : Option Nat
  /-- `_trx != nullptr` -/
  inTrx : Bool
  testing : Bool
  contract : Option ContractCall

def GuaranteeObject.price (g : GuaranteeObject H) : Price := ⟨g.assetOrign, g.assetTarget⟩

namespace FeeCharge

variable (e : FeeCharge H)

/-- One `modify_current_collected_fee` for each transfer fee. -/
def collectAll (l : Ledger H) : List Asset → Option (Ledger H)
  | [] => some l
  | x :: xs => (l.modifyCurrentCollectedFee x).bind fun l => collectAll l xs

/-- How much of asset `a` the transfers of the contract cost. -/
def transferFeesOf (a : Nat) : Int :=
  if e.testing then 0
  else match e.contract with
    | none => 0
    | some c => (c.transferFees.map (·.of a)).sum

variable [DecidableEq H] [Inhabited H]

/-- The debit in `apply`. -/
def debit (l : Ledger H) : Option (Ledger H) :=
  match e.guaranteeId with
  | none => if e.fee.assetId = coreAsset then l.adjustBalance e.payer e.fee.neg else some l
  | some id => (l.guarantees id).bind fun g =>
      if g.finished then none
      else (e.fee.mulPrice g.price).bind fun need =>
        (l.adjustBalance e.payer need.neg).bind fun l =>
          if e.fee.amount ≤ 0 then none
          else (l.adjustFrozen g.ownerAddr e.fee.neg).bind fun l =>
            (l.adjustGuarantee id need).bind fun l =>
              if e.inTrx then
                (l.recordGuarantee id).bind fun l => l.adjustBalance g.ownerAddr need
              else none

/-- The refund in `pay_fee_and_refund`. -/
def refund (unspent : Int) (l : Ledger H) : Option (Ledger H) :=
  match e.guaranteeId with
  | none => if unspent = 0 then some l else l.adjustBalance e.payer ⟨unspent, coreAsset⟩
  | some id =>
    (if unspent = 0 then some l
      else (l.guarantees id).bind fun g =>
        if g.finished then none
        else (mulPrice ⟨unspent, coreAsset⟩ g.price).bind fun back =>
          (l.adjustFrozen g.ownerAddr ⟨unspent, coreAsset⟩).bind fun l =>
            (l.adjustGuarantee id back.neg).bind fun l =>
              (l.adjustBalance g.ownerAddr back.neg).bind fun l =>
                l.adjustBalance e.payer back).bind fun l =>
      if e.inTrx then l.recordGuarantee id else none

/-- `pay_fee` -/
def payFee (l : Ledger H) : Option (Ledger H) :=
  match e.contract with
  | none => l.modifyCurrentCollectedFee e.fee
  | some c => (c.unspentFee e.fee.amount).bind fun unspent =>
      (e.refund unspent l).bind fun l =>
        (share (e.fee.amount - unspent)).bind fun spent =>
          (l.modifyCurrentCollectedFee ⟨spent, coreAsset⟩).bind fun l =>
            collectAll l c.transferFees

def apply (doApply : Ledger H → Option (Ledger H)) (l : Ledger H) : Option (Ledger H) :=
  (doApply l).bind fun l => if e.testing then some l else (e.debit l).bind e.payFee

/-! ### The parties -/

def parties (l : Ledger H) : Finset H :=
  match e.guaranteeId.bind l.guarantees with
  | none => {e.payer.addr}
  | some g => {e.payer.addr, g.ownerAddr.addr}

/-! ### Each step -/

variable {e} {l l' : Ledger H} {s : Finset H}

omit [DecidableEq H] [Inhabited H] in
theorem collectAll_spec {xs : List Asset} (h : collectAll l xs = some l') :
    l'.heldBy = l.heldBy ∧ ∀ a, l'.collected a = l.collected a + (xs.map (·.of a)).sum := by
  induction xs generalizing l with
  | nil =>
    cases h
    exact ⟨rfl, fun a => by simp⟩
  | cons x xs ih =>
    obtain ⟨l₁, hx, hxs⟩ := bind_eq_some_iff.mp h
    obtain ⟨hheld₁, hcollected₁⟩ := collected_modify hx
    obtain ⟨hheld, hcollected⟩ := ih hxs
    refine ⟨hheld.trans hheld₁, fun a => ?_⟩
    rw [hcollected a, hcollected₁ a, List.map_cons, List.sum_cons]
    omega

/-- The guarantor of the order stays in `s`. -/
def GuarantorIn (e : FeeCharge H) (s : Finset H) (l : Ledger H) : Prop :=
  ∀ id g, e.guaranteeId = some id → l.guarantees id = some g → g.ownerAddr.addr ∈ s

/-- The calls of a debit through an order. -/
theorem debit_eq {id : Nat} (hid : e.guaranteeId = some id) (h : e.debit l = some l') :
    ∃ g need l₁ l₂ l₃, l.guarantees id = some g ∧ e.fee.mulPrice g.price = some need ∧
      l.adjustBalance e.payer need.neg = some l₁ ∧ 0 < e.fee.amount ∧
      l₁.adjustFrozen g.ownerAddr e.fee.neg = some l₂ ∧ l₂.adjustGuarantee id need = some l₃ ∧
      l₃.recordGuarantee id = some l₃ ∧ l₃.adjustBalance g.ownerAddr need = some l' := by
  unfold debit at h
  simp only [hid] at h
  obtain ⟨g, hg, h⟩ := bind_eq_some_iff.mp h
  split at h
  · cases h
  obtain ⟨need, l₁, hneed, h₁, h⟩ := bind_bind_eq_some h
  split at h
  · cases h
  next hpos =>
  obtain ⟨l₂, l₃, h₂, h₃, h⟩ := bind_bind_eq_some h
  split at h
  · obtain ⟨l₄, h₄, h₅⟩ := bind_eq_some_iff.mp h
    cases recordGuarantee_eq h₄
    exact ⟨g, need, l₁, l₂, l₃, hg, hneed, h₁, not_le.1 hpos, h₂, h₃, h₄, h₅⟩
  · cases h

/-- The calls of a refund through an order. -/
theorem refund_eq {id : Nat} {unspent : Int} (hid : e.guaranteeId = some id) (hne : unspent ≠ 0)
    (h : e.refund unspent l = some l') :
    ∃ g back l₁ l₂ l₃, l.guarantees id = some g ∧
      mulPrice ⟨unspent, coreAsset⟩ g.price = some back ∧
      l.adjustFrozen g.ownerAddr ⟨unspent, coreAsset⟩ = some l₁ ∧
      l₁.adjustGuarantee id back.neg = some l₂ ∧
      l₂.adjustBalance g.ownerAddr back.neg = some l₃ ∧ l₃.adjustBalance e.payer back = some l' ∧
      l'.recordGuarantee id = some l' := by
  unfold refund at h
  simp only [hid, if_neg hne] at h
  obtain ⟨l₅, h, hrecord⟩ := bind_eq_some_iff.mp h
  split at hrecord
  · cases recordGuarantee_eq hrecord
    obtain ⟨g, hg, h⟩ := bind_eq_some_iff.mp h
    split at h
    · cases h
    obtain ⟨back, l₁, hback, h₁, h⟩ := bind_bind_eq_some h
    obtain ⟨l₂, l₃, h₂, h₃, h₄⟩ := bind_bind_eq_some h
    exact ⟨g, back, l₁, l₂, l₃, hg, hback, h₁, h₂, h₃, h₄, hrecord⟩
  · cases hrecord

theorem refund_zero {id : Nat} (hid : e.guaranteeId = some id) (h : e.refund 0 l = some l') :
    l' = l := by
  simp only [refund, hid, if_true, bind_some] at h
  split at h
  · exact recordGuarantee_eq h
  · cases h

/-- The debit takes the fee out of what the payer and the guarantor hold. -/
theorem debit_spec (hfee : e.fee.assetId = coreAsset ∨ e.guaranteeId.isSome = true)
    (hpayer : e.payer.addr ∈ s) (hguarantor : GuarantorIn e s l) (h : e.debit l = some l') :
    (∀ a, l'.heldBy s a = l.heldBy s a - e.fee.of a) ∧ l'.collected = l.collected ∧
      GuarantorIn e s l' := by
  cases hid : e.guaranteeId with
  | none =>
    simp only [debit, hid] at h
    have hcore : e.fee.assetId = coreAsset := by
      rcases hfee with hcore | hno
      · exact hcore
      · rw [hid] at hno
        cases hno
    rw [if_pos hcore] at h
    have hmoves := moves_adjustBalance h
    refine ⟨fun a => ?_, hmoves.collected, ?_⟩
    · rw [hmoves.heldBy hpayer a, of_neg]
      rfl
    · intro id g hsome
      rw [hid] at hsome
      cases hsome
  | some id =>
    obtain ⟨g, need, l₁, l₂, l₃, hg, _, h₁, _, h₂, h₃, _, h₅⟩ := debit_eq hid h
    have howner : g.ownerAddr.addr ∈ s := hguarantor id g hid hg
    have m₁ := moves_adjustBalance h₁
    have m₂ := moves_adjustFrozen h₂
    obtain ⟨hheld₃, hcollected₃, howners₃⟩ := adjustGuarantee_spec h₃
    have m₅ := moves_adjustBalance h₅
    refine ⟨fun a => ?_, ?_, ?_⟩
    · -- the price of the order goes from the payer to the guarantor
      rw [m₅.heldBy howner a, hheld₃, m₂.heldBy howner a, m₁.heldBy hpayer a, of_neg,
        of_neg]
      omega
    · rw [m₅.collected, hcollected₃, m₂.collected, m₁.collected]
    · intro i g' hi hg'
      rw [m₅.guarantees] at hg'
      obtain ⟨g₂, hg₂, hsame⟩ := howners₃ i g' hg'
      rw [m₂.guarantees, m₁.guarantees] at hg₂
      rw [← hsame]
      exact hguarantor i g₂ hi hg₂

theorem refund_spec {unspent : Int} (hpayer : e.payer.addr ∈ s) (hguarantor : GuarantorIn e s l)
    (h : e.refund unspent l = some l') :
    (∀ a, l'.heldBy s a = l.heldBy s a + (⟨unspent, coreAsset⟩ : Asset).of a) ∧
      l'.collected = l.collected := by
  by_cases hne : unspent = 0
  · have hnothing : ∀ a, (⟨unspent, coreAsset⟩ : Asset).of a = 0 := by
      intro a
      simp [of, hne]
    have heq : l' = l := by
      subst hne
      cases hid : e.guaranteeId with
      | none =>
        simp only [refund, hid, if_true] at h
        exact (Option.some.inj h).symm
      | some id => exact refund_zero hid h
    rw [heq]
    exact ⟨fun a => by rw [hnothing a, add_zero], rfl⟩
  cases hid : e.guaranteeId with
  | none =>
    simp only [refund, hid, if_neg hne] at h
    have hmoves := moves_adjustBalance h
    exact ⟨hmoves.heldBy hpayer, hmoves.collected⟩
  | some id =>
    obtain ⟨g, back, l₁, l₂, l₃, hg, _, h₁, h₂, h₃, h₄, _⟩ := refund_eq hid hne h
    have howner : g.ownerAddr.addr ∈ s := hguarantor id g hid hg
    have m₁ := moves_adjustFrozen h₁
    obtain ⟨hheld₂, hcollected₂, _⟩ := adjustGuarantee_spec h₂
    have m₃ := moves_adjustBalance h₃
    have m₄ := moves_adjustBalance h₄
    refine ⟨fun a => ?_, ?_⟩
    · rw [m₄.heldBy hpayer a, m₃.heldBy howner a, hheld₂, m₁.heldBy howner a, of_neg]
      omega
    · rw [m₄.collected, m₃.collected, hcollected₂, m₁.collected]

theorem payFee_spec (hfee : e.contract = none ∨ e.fee.assetId = coreAsset)
    (htesting : e.testing = false) (hpayer : e.payer.addr ∈ s) (hguarantor : GuarantorIn e s l)
    (h : e.payFee l = some l') (a : Nat) :
    l'.collected a - l.collected a =
      e.fee.of a - (l'.heldBy s a - l.heldBy s a) + e.transferFeesOf a := by
  unfold payFee at h
  unfold transferFeesOf
  rw [htesting]
  cases hc : e.contract with
  | none =>
    simp only [hc] at h
    obtain ⟨hheld, hcollected⟩ := collected_modify h
    rw [hheld, hcollected a]
    simp
  | some c =>
    simp only [hc] at h
    have hcore : e.fee.assetId = coreAsset := by
      rcases hfee with hno | hcore
      · rw [hc] at hno
        cases hno
      · exact hcore
    obtain ⟨unspent, l₁, _, h₁, h⟩ := bind_bind_eq_some h
    obtain ⟨spent, l₂, hspent, h₂, h₃⟩ := bind_bind_eq_some h
    obtain ⟨hheld₁, hcollected₁⟩ := refund_spec hpayer hguarantor h₁
    obtain ⟨hheld₂, hcollected₂⟩ := collected_modify h₂
    obtain ⟨hheld₃, hcollected₃⟩ := collectAll_spec h₃
    have hsplit : (⟨spent, coreAsset⟩ : Asset).of a =
        e.fee.of a - (⟨unspent, coreAsset⟩ : Asset).of a := by
      rw [share_eq hspent]
      simp only [of, hcore]
      split <;> simp
    rw [hcollected₃ a, hcollected₂ a, hcollected₁, hheld₃, hheld₂, hheld₁ a, hsplit]
    simp only [Bool.false_eq_true, if_false]
    omega

omit [Inhabited H] in
theorem guarantorIn_parties (e : FeeCharge H) (l : Ledger H) : GuarantorIn e (e.parties l) l := by
  intro id g hid hg
  simp [parties, hid, hg]

omit [Inhabited H] in
theorem payer_mem_parties (e : FeeCharge H) (l : Ledger H) : e.payer.addr ∈ e.parties l := by
  unfold parties
  split <;> simp

end FeeCharge

/-- What `apply` collects after `do_apply`, in each asset, is what it takes from the fee
    payer and the guarantor and what the transfers of a contract cost: for a fee in the
    core asset, and for any fee of the default `pay_fee` with a guarantee order. -/
theorem fees_conserved [DecidableEq H] [Inhabited H] (e : FeeCharge H)
    (doApply : Ledger H → Option (Ledger H)) (l applied l' : Ledger H)
    (hdo : doApply l = some applied) (happly : e.apply doApply l = some l')
    (hfee : e.fee.assetId = coreAsset ∨ e.contract = none ∧ e.guaranteeId.isSome = true)
    (a : Nat) :
    l'.collected a - applied.collected a =
      applied.heldBy (e.parties applied) a - l'.heldBy (e.parties applied) a +
        e.transferFeesOf a := by
  rw [FeeCharge.apply, hdo, bind_some] at happly
  cases htesting : e.testing with
  | true =>
    rw [htesting, if_pos rfl] at happly
    cases happly
    simp [FeeCharge.transferFeesOf, htesting]
  | false =>
    rw [htesting, if_neg Bool.false_ne_true] at happly
    obtain ⟨l₁, hdebit, hpay⟩ := bind_eq_some_iff.mp happly
    have hpayer := e.payer_mem_parties applied
    obtain ⟨hheld, hcollected, hguarantor⟩ := FeeCharge.debit_spec (hfee.imp id And.right) hpayer
      (e.guarantorIn_parties applied) hdebit
    have hpaid := FeeCharge.payFee_spec (hfee.symm.imp And.left id) htesting hpayer hguarantor
      hpay a
    rw [hheld a] at hpaid
    rw [← hcollected]
    omega

/-! ### Two addresses

  Address 1 has 1000 of the core asset and 500 of asset 1; address 2 has 300 core frozen
  for a guarantee order that sells core at two of asset 1. -/

def twoOwners : Ledger Nat where
  balances x a :=
    if x = 1 ∧ a = 0 then some ⟨1000, 0⟩
    else if x = 1 ∧ a = 1 then some ⟨500, 0⟩
    else if x = 2 ∧ a = 0 then some ⟨0, 300⟩
    else none
  guarantees id :=
    if id = 7 then some ⟨⟨Address.normal, 2⟩, ⟨1000, 0⟩, ⟨2000, 1⟩, ⟨0, 1⟩, false⟩ else none
  collected _ := 0

def contractFee (guaranteeId : Option Nat) (transferFees : List (Nat × Int)) : FeeCharge Nat :=
  ⟨⟨Address.normal, 1⟩, ⟨100, 0⟩, guaranteeId, true, false,
    some ⟨1, 5000, true, .executed 2000 transferFees⟩⟩

/-- Of the 100 core taken from address 2, 30 are given back. -/
theorem guaranteed_call_conserved :
    let e := contractFee (some 7) []
    (e.apply some twoOwners).map (·.collected 0) = some 70 ∧
      ∀ l', e.apply some twoOwners = some l' → l'.collected 0 - twoOwners.collected 0 =
        twoOwners.heldBy (e.parties twoOwners) 0 - l'.heldBy (e.parties twoOwners) 0 +
          e.transferFeesOf 0 := by
  refine ⟨by decide +kernel, fun l' hl' => ?_⟩
  exact fees_conserved _ some twoOwners twoOwners l' rfl hl' (Or.inl rfl) 0

/-- A call whose contract makes a transfer that costs 5 of asset 2 collects them, though
    neither party ever held any.  A fee of 40 in asset 1 without a guarantee order is
    collected and not taken from anyone. -/
theorem fees_not_conserved :
    let e := contractFee none [(2, 5)]
    let e' : FeeCharge Nat := ⟨⟨Address.normal, 1⟩, ⟨40, 1⟩, none, true, false, none⟩
    (e.apply some twoOwners).map (fun l => (l.collected 2, l.heldBy (e.parties twoOwners) 2)) =
        some (5, 0) ∧
      twoOwners.heldBy (e.parties twoOwners) 2 = 0 ∧
      (e'.apply some twoOwners).map
          (fun l => (l.collected 1, l.heldBy (e'.parties twoOwners) 1)) = some (40, 500) ∧
      twoOwners.heldBy (e'.parties twoOwners) 1 = 500 := by
  decide +kernel

end HyperExchange.Fees
