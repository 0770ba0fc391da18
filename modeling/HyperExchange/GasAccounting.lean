/-
  **What the gas of a contract operation costs** (`contract.cpp`, `contract_evaluate.cpp`,
  `fee_schedule.cpp`).

  The fee paid in advance has to reach what the fee schedule asks for, the price of the
  whole limit among other things, scaled.  After the run the price of the limit less the
  price of the gas that was used is given back, not scaled.  All prices are in 64 bits.

  So the books balance exactly if (`Covered`, `gas_charge_iff`) the price of the limit, as 64
  bits see it, is not less than the exact price of the gas used, and the fee is not less than
  the former.  At full scale, without a wrap and with a fee in the core asset they hold
  (`Covered.of_full_scale`).
-/
import HyperExchange.FeeProcessing

namespace HyperExchange.Fees

open Option

inductive ContractOperation where
  | register
  | upgrade
  | invoke
  | transfer
deriving DecidableEq

/-- What a contract operation says about gas, and whether the contract is a native one. -/
structure GasRequest where
  operation : ContractOperation
  native : Bool
  fee : Asset
  gasPrice : Nat
  gasLimit : Nat
  -- the fee is a `share_type`
  fee_lt : fee.amount < 2 ^ 63

def gasCost (gasPrice gasCount : Nat) : Nat := (gasCount + 99) / 100 * gasPrice

theorem gasCost_mono (gasPrice : Nat) {used limit : Nat} (h : used ≤ limit) :
    gasCost gasPrice used ≤ gasCost gasPrice limit :=
  Nat.mul_le_mul_right _ (Nat.div_le_div_right (Nat.add_le_add_right h 99))

theorem gasCost_zero (gasPrice : Nat) : gasCost gasPrice 0 = 0 := Nat.zero_mul gasPrice

/-- What comes of the run: gas is used, nothing has to run, or the gas does not suffice. -/
inductive GasRun where
  | executed (gasUsed : Nat)
  | notRun
  | outOfMoney

namespace GasRequest

variable (r : GasRequest)

/-- `validate`, as far as gas is concerned.  That of `contract_invoke_operation` asks
    `!offline`, the enumerator again, and so checks nothing. -/
def validate : Bool :=
  match r.operation with
  | .invoke => true
  | .register | .upgrade | .transfer => 0 < r.gasLimit && r.gasLimit ≤ 100000000

def calculateFee (scheduleFee : Int) : Option Int :=
  match r.operation with
  | .register =>
    (countGasFee r.gasPrice r.gasLimit).bind fun gas => (share (10 + gas)).bind fun n =>
      share (n + scheduleFee)
  | .upgrade | .invoke | .transfer =>
    (countGasFee r.gasPrice r.gasLimit).bind fun gas => share (gas + scheduleFee)

/-- `fee_schedule::calculate_fee`; the base value is read as an unsigned number. -/
def requiredFee (scheduleFee : Int) (scale : Nat) : Option Int :=
  (r.calculateFee scheduleFee).bind fun base =>
    let scaled := base % 2 ^ 64 * scale / 10000
    if scaled ≤ 10000000000000000 then some scaled else none

/-- `validate`, `prepare_fee` and the check of the fee in `evaluate`. -/
def accepted (scheduleFee : Int) (scale : Nat) : Bool :=
  r.validate && 0 ≤ r.fee.amount &&
    (r.requiredFee scheduleFee scale).any fun required => required ≤ r.fee.amount

def call (outcome : GasOutcome) : ContractCall :=
  ⟨r.gasPrice, r.gasLimit, r.operation ≠ .invoke || r.native, outcome⟩

/-- `gas_count` -/
def gasCount : GasRun → Nat
  | .executed gasUsed => gasUsed
  | .notRun => 0
  | .outOfMoney => r.gasLimit

/-- `unspent_fee` after a run. -/
def refundOf (run : GasRun) : Option Int :=
  match run with
  | .executed gasUsed => (r.call (.executed gasUsed [])).unspentFee r.fee.amount
  | .notRun => (r.call .notRun).unspentFee r.fee.amount
  | .outOfMoney => (r.call .outOfMoney).unspentFee r.fee.amount

/-- The gas reported and the refund: of the run itself, or of a later evaluation of the
    same operation that finds the result of an earlier one. -/
inductive Settled (r : GasRequest) (run : GasRun) : Nat → Int → Prop
  | fresh {refund : Int} (h : r.refundOf run = some refund) :
      Settled r run (r.gasCount run) refund
  | stored {gas : Nat} {earlier acctualFee refund : Int} (hearlier : Settled r run gas earlier)
      (hfee : share (r.fee.amount - earlier) = some acctualFee)
      (h : (r.call (.stored acctualFee [])).unspentFee r.fee.amount = some refund) :
      Settled r run gas refund

def paid : Int := r.fee.of coreAsset

/-- The price of the limit in 64 bits, which `count_gas_fee` returns if it is not negative. -/
def limitPrice : Nat := gasCost r.gasPrice r.gasLimit % 2 ^ 64

def Covered : GasRun → Prop
  | .executed gasUsed => gasCost r.gasPrice gasUsed ≤ r.limitPrice ∧ (r.limitPrice : Int) ≤ r.paid
  | .notRun => (r.limitPrice : Int) ≤ r.paid
  | .outOfMoney => (gasCost r.gasPrice r.gasLimit : Int) ≤ r.paid

variable {r : GasRequest} {run : GasRun} {gas : Nat} {refund : Int}

theorem Settled.refund_eq (h : r.Settled run gas refund) :
    gas = r.gasCount run ∧ r.refundOf run = some refund := by
  induction h with
  | fresh h => exact ⟨rfl, h⟩
  | @stored gas earlier acctualFee refund _ hfee h ih =>
    obtain ⟨hgas, hearlier⟩ := ih
    have hagain : share (r.fee.amount - acctualFee) = some refund := h
    have hsame : refund = earlier := by
      rw [share_eq hagain, share_eq hfee]
      omega
    exact ⟨hgas, by rw [hsame]; exact hearlier⟩

theorem countGasFee_eq_some {gasPrice gasCount : Nat} {fee : Int}
    (h : countGasFee gasPrice gasCount = some fee) :
    fee = (gasCost gasPrice gasCount % 2 ^ 64 : Nat) ∧ fee < 2 ^ 63 := by
  have hceil : gasCount / 100 + (if gasCount % 100 = 0 then 0 else 1) = (gasCount + 99) / 100 := by
    split <;> omega
  simp only [countGasFee, hceil] at h
  split at h
  · cases h
    exact ⟨rfl, by omega⟩
  · cases h

theorem refundOf_executed {gasUsed : Nat} (h : r.refundOf (.executed gasUsed) = some refund) :
    refund = r.limitPrice - (gasCost r.gasPrice gasUsed % 2 ^ 64 : Nat) ∧
      (r.limitPrice : Int) < 2 ^ 63 := by
  simp only [refundOf, call, ContractCall.unspentFee] at h
  obtain ⟨_, h⟩ := Option.ite_none_right_eq_some.mp h
  obtain ⟨limit, used, hlimit, hused, h⟩ := bind_bind_eq_some h
  obtain ⟨hlimit, hlt⟩ := countGasFee_eq_some hlimit
  have hprice : limit = r.limitPrice := hlimit
  rw [hprice] at h hlt
  rw [share_eq h, (countGasFee_eq_some hused).1]
  exact ⟨rfl, hlt⟩

theorem refundOf_notRun (h : r.refundOf .notRun = some refund) : refund = r.limitPrice :=
  (countGasFee_eq_some h).1

theorem refundOf_outOfMoney (h : r.refundOf .outOfMoney = some refund) : refund = 0 :=
  (Option.some.inj h).symm

/-- In every case the refund is the price of the limit less that of the gas reported. -/
theorem Settled.refund_of_gas (h : r.Settled run gas refund) :
    refund = r.limitPrice - (gasCost r.gasPrice gas % 2 ^ 64 : Nat) := by
  obtain ⟨rfl, hrefund⟩ := h.refund_eq
  cases run with
  | executed gasUsed => exact (refundOf_executed hrefund).1
  | notRun =>
    rw [refundOf_notRun hrefund, gasCount, gasCost_zero]
    rfl
  | outOfMoney =>
    rw [refundOf_outOfMoney hrefund, gasCount, limitPrice, sub_self]

theorem paid_lt (r : GasRequest) : r.paid < 2 ^ 63 := by
  have := r.fee_lt
  unfold paid Asset.of
  split <;> omega

/-- **Gas is charged exactly, and no more than the payment is given back, exactly when the
    run is covered.** -/
theorem gas_charge_iff (h : r.Settled run gas refund) :
    0 ≤ refund ∧ refund ≤ r.paid ∧ (gasCost r.gasPrice gas : Int) ≤ r.paid - refund ↔
      r.Covered run := by
  obtain ⟨rfl, hrefund⟩ := h.refund_eq
  have hpaid := r.paid_lt
  cases run with
  | executed gasUsed =>
    obtain ⟨rfl, hlimit⟩ := refundOf_executed hrefund
    simp only [Covered, gasCount]
    -- what is kept is a share, so the price of the gas used cannot have wrapped around
    have hwrap : (gasCost r.gasPrice gasUsed : Int) < 2 ^ 64 →
        gasCost r.gasPrice gasUsed % 2 ^ 64 = gasCost r.gasPrice gasUsed :=
      fun hlt => Nat.mod_eq_of_lt (by omega)
    constructor
    · rintro ⟨hnonneg, hle, hkept⟩
      have hmod := hwrap (by omega)
      rw [hmod] at hnonneg hkept
      omega
    · rintro ⟨hused, hpay⟩
      have hmod := hwrap (by omega)
      rw [hmod]
      omega
  | notRun =>
    rw [refundOf_notRun hrefund]
    simp only [Covered, gasCount, gasCost_zero]
    omega
  | outOfMoney =>
    cases hrefund
    simp only [Covered, gasCount]
    omega

/-! ### Ordinary circumstances -/

/-- At full scale the fee of an accepted operation pays for the whole limit. -/
theorem le_fee_of_accepted {scheduleFee : Int} {scale : Nat}
    (haccepted : r.accepted scheduleFee scale = true) (hschedule : 0 ≤ scheduleFee)
    (hscale : 10000 ≤ scale) (hexact : gasCost r.gasPrice r.gasLimit < 2 ^ 63) :
    (gasCost r.gasPrice r.gasLimit : Int) ≤ r.fee.amount := by
  simp only [accepted, Bool.and_eq_true, Option.any_eq_true, decide_eq_true_eq] at haccepted
  obtain ⟨_, required, hrequired, hle⟩ := haccepted
  obtain ⟨base, hbase, hscaled⟩ := bind_eq_some_iff.mp hrequired
  have hgas : ∀ {fee : Int}, countGasFee r.gasPrice r.gasLimit = some fee →
      fee = gasCost r.gasPrice r.gasLimit := by
    intro fee hfee
    rw [(countGasFee_eq_some hfee).1, Nat.mod_eq_of_lt (by omega)]
  have hbound : (gasCost r.gasPrice r.gasLimit : Int) ≤ base ∧ base < 2 ^ 63 := by
    unfold calculateFee at hbase
    split at hbase
    · obtain ⟨fee, n, hfee, hn, hbase⟩ := bind_bind_eq_some hbase
      have hfee := hgas hfee
      have hn := share_eq hn
      have hrange := share_range hbase
      have hbase := share_eq hbase
      omega
    all_goals
      obtain ⟨fee, hfee, hbase⟩ := bind_eq_some_iff.mp hbase
      have hfee := hgas hfee
      have hrange := share_range hbase
      have hbase := share_eq hbase
      omega
  have hmod : base % 2 ^ 64 = base := Int.emod_eq_of_lt (by omega) (by omega)
  simp only [hmod, ite_none_right_eq_some, Option.some.injEq] at hscaled
  have hmul : base * 10000 ≤ base * scale := Int.mul_le_mul_of_nonneg_left (by omega) (by omega)
  omega

/-- At full scale, with a fee in the core asset and a price that does not wrap around, every
    run within the limit is covered. -/
theorem Covered.of_full_scale {scheduleFee : Int} {scale : Nat}
    (haccepted : r.accepted scheduleFee scale = true) (hschedule : 0 ≤ scheduleFee)
    (hscale : 10000 ≤ scale) (hcore : r.fee.assetId = coreAsset)
    (hexact : gasCost r.gasPrice r.gasLimit < 2 ^ 63) (hlimit : r.gasCount run ≤ r.gasLimit) :
    r.Covered run := by
  have hfee := le_fee_of_accepted haccepted hschedule hscale hexact
  have hpaid : r.paid = r.fee.amount := by rw [paid, Asset.of, if_pos hcore.symm]
  have hprice : r.limitPrice = gasCost r.gasPrice r.gasLimit := Nat.mod_eq_of_lt (by omega)
  cases run with
  | executed gasUsed =>
    have hmono := gasCost_mono r.gasPrice hlimit
    simp only [Covered, hprice, hpaid]
    exact ⟨hmono, hfee⟩
  | notRun =>
    simp only [Covered, hprice, hpaid]
    exact hfee
  | outOfMoney =>
    simp only [Covered, hpaid]
    exact hfee

/-! ### A wrap, and a schedule that is scaled down -/

/-- A call that pays 50 for a limit of 5000 gas. -/
def plainCall : GasRequest := ⟨.invoke, true, ⟨50, coreAsset⟩, 1, 5000, by decide⟩

theorem plain_call_covered : plainCall.Covered (.executed 2000) :=
  @Covered.of_full_scale plainCall (.executed 2000) 0 10000 (by decide +kernel) (by decide)
    (by decide) rfl (by decide +kernel) (by decide +kernel)

theorem plain_call_charged :
    plainCall.accepted 0 10000 = true ∧ plainCall.Settled (.executed 2000) 2000 30 ∧
      0 ≤ (30 : Int) ∧ 30 ≤ plainCall.paid ∧
        (gasCost plainCall.gasPrice 2000 : Int) ≤ plainCall.paid - 30 := by
  have hsettled : plainCall.Settled (.executed 2000) 2000 30 := .fresh (by decide +kernel)
  exact ⟨by decide +kernel, hsettled,
    (gas_charge_iff hsettled).mpr ⟨by decide +kernel, by decide +kernel⟩⟩

/-- At a price of `2 ^ 58` the greatest limit costs nothing in 64 bits, and a hundred gas
    cost `2 ^ 58`. -/
def wrappedUpgrade : GasRequest := ⟨.upgrade, false, ⟨0, coreAsset⟩, 2 ^ 58, 100000000, by decide⟩

def freeTransfer : GasRequest := ⟨.transfer, false, ⟨0, coreAsset⟩, 1, 5000, by decide⟩

/-- The first takes from the caller what was not spent, the second gives back what was not
    paid. -/
theorem gas_charge_wrong :
    (wrappedUpgrade.accepted 0 10000 = true ∧
        wrappedUpgrade.Settled (.executed 100) 100 (-2 ^ 58) ∧ ¬ (0 : Int) ≤ -2 ^ 58) ∧
      freeTransfer.accepted 100 0 = true ∧ freeTransfer.Settled (.executed 2000) 2000 30 ∧
        ¬ 30 ≤ freeTransfer.paid :=
  ⟨⟨by decide +kernel, .fresh (by decide +kernel), by decide⟩, by decide +kernel,
    .fresh (by decide +kernel), by decide⟩

end GasRequest

end HyperExchange.Fees
