/-
  **Contracts neither make nor lose money.**

  Applying a contract operation changes the sum of all balances of an asset by the transfer
  fees, and leaves no balance negative (`money_conserved`).

  Two kinds of operations are left out there.  A deposit to a native contract is recorded in
  the evaluator's maps, which are then replaced by those of the native contract: the caller
  pays and nobody is paid (`native_deposit_lost`).  And a contract may transfer to the null
  address, which only fails when the result is applied.
-/
import HyperExchange.TransferPayments

namespace HyperExchange.Transfers

open Fees OrderedMap Option Asset InvokeResult

variable {H : Type} [LinearOrder (Address H)]

/-! ### Operations -/

theorem transferFees_withdraw (index : Key H) (amount : Int) (r : InvokeResult H) :
    (r.withdraw index amount).transferFees = r.transferFees := by
  unfold withdraw
  split
  · split
    · rfl
    · rfl
  · rfl

theorem transferFees_readBalance (env : Setting H) (addr : Address H) (asset : Nat)
    (r : InvokeResult H) : (r.readBalance env addr asset).transferFees = r.transferFees := by
  unfold readBalance
  split
  · rfl
  · rfl

theorem transferFees_runNative {env : Setting H} {transfers : List (Transfer H)} {n n' : Native H}
    (hrun : runNative env transfers n = some n') :
    n'.result.transferFees = n.result.transferFees := by
  induction transfers generalizing n with
  | nil =>
    cases hrun
    rfl
  | cons t transfers ih =>
    obtain ⟨n₁, hcall, hrest⟩ := bind_eq_some_iff.mp hrun
    obtain ⟨r, hr, rfl⟩ := map_eq_some_iff.mp hcall
    rw [ih hrest]
    unfold transfer at hr
    dsimp only at hr
    split at hr
    · cases hr
    · cases hr
      exact (transferFees_withdraw ..).trans (transferFees_readBalance ..)

theorem validate_eq {r r' : InvokeResult H} (h : r.validate = some r') : r' = r := by
  obtain ⟨_, _, _, _, h⟩ := bind_bind_eq_some h
  obtain ⟨_, _, h⟩ := bind_eq_some_iff.mp h
  split at h
  · cases h
    rfl
  · cases h

section Evaluate

variable [Inhabited H] {env : Setting H} {r : InvokeResult H} {paid : List (Payment H)}

def deposited (op : ContractOperation H) (code : Code H) : Nat → Int :=
  match op, code with
  | .transfer _ _ amount _ _, .uvm _ _ => amount.of
  | _, _ => fun _ => 0

variable (hl : ∀ x a, 0 ≤ env.ledger.spendable x a)
include hl

/-- Out of gas, nothing of what the contract did is left. -/
theorem evaluateUvm_cases {calls : List (Call H)} {outOfGas : Bool} {deposit : Nat → Int}
    {r' : InvokeResult H} (h : Balanced env.ledger deposit r [])
    (heval : evaluateUvm env calls outOfGas r = some (r', paid)) : (r' = .failed ∧ paid = []) ∨
    Balanced env.ledger deposit r' paid := by
  unfold evaluateUvm at heval
  split at heval
  · cases heval
    exact .inl ⟨rfl, rfl⟩
  · exact .inr (Balanced.runUvm (s := (r, [])) hl h heval)

/-- **What an evaluation leaves.** Without gas nothing; otherwise balanced maps, in which
    the deposit to a native contract is missing. -/
theorem evaluate_cases {op : ContractOperation H} {code : Code H}
    (heval : evaluate env op code = some (r, paid)) :
    (r = .failed ∧ paid = [] ∧ code.isNative = false) ∨
      (Balanced env.ledger (deposited op code) r paid ∧
        (code.isNative = true → r.transferFees = .empty)) := by
  have hplain : ∀ calls outOfGas, ((evaluateUvm env calls outOfGas .empty).bind fun s =>
      s.1.validate.map fun r => (r, s.2)) = some (r, paid) →
      (r = .failed ∧ paid = []) ∨ Balanced env.ledger (fun _ => 0) r paid := by
    intro calls outOfGas h
    obtain ⟨⟨r₁, paid₁⟩, hrun, hvalid⟩ := bind_eq_some_iff.mp h
    obtain ⟨r₂, hr₂, hpair⟩ := map_eq_some_iff.mp hvalid
    cases hpair
    cases validate_eq hr₂
    exact evaluateUvm_cases hl (.empty hl) hrun
  have hnative : ∀ transfers evaluator, ((evaluateNative env transfers evaluator).bind fun s =>
      s.1.validate.map fun r => (r, s.2)) = some (r, paid) →
      Balanced env.ledger (fun _ => 0) r paid ∧ r.transferFees = .empty := by
    intro transfers evaluator h
    obtain ⟨⟨r₁, paid₁⟩, hrun, hvalid⟩ := bind_eq_some_iff.mp h
    obtain ⟨r₂, hr₂, hpair⟩ := map_eq_some_iff.mp hvalid
    cases hpair
    cases validate_eq hr₂
    obtain ⟨n, hnative, hn⟩ := map_eq_some_iff.mp hrun
    cases hn
    have hstart : Balanced env.ledger (fun _ => 0)
        (⟨evaluator, .empty⟩ : Native H).result [] := .empty hl
    exact ⟨hstart.runNative hl hnative, transferFees_runNative hnative⟩
  cases code with
  | native transfers =>
    right
    have hempty : Balanced env.ledger (fun _ => 0) r paid ∧ r.transferFees = .empty := by
      cases op with
      | transfer callerAddr contractId amount hversion hpos =>
        obtain ⟨r₁, _, h⟩ := bind_eq_some_iff.mp heval
        exact hnative transfers r₁ h
      | _ => exact hnative transfers .empty heval
    refine ⟨?_, fun _ => hempty.2⟩
    cases op with
    | _ => exact hempty.1
  | uvm calls outOfGas =>
    have hcases : (r = .failed ∧ paid = []) ∨
        Balanced env.ledger (deposited op (.uvm calls outOfGas)) r paid := by
      cases op with
      | transfer callerAddr contractId amount hversion hpos =>
        obtain ⟨r₁, hr₁, h⟩ := bind_eq_some_iff.mp heval
        exact evaluateUvm_cases hl (.depositToContract hl hversion hpos hr₁) h
      | _ => exact hplain calls outOfGas heval
    rcases hcases with ⟨hr, hpaid⟩ | h
    · exact .inl ⟨hr, hpaid, rfl⟩
    · exact .inr ⟨h, fun h => by cases h⟩

end Evaluate

/-! ### Conservation -/

section Conservation

variable [DecidableEq H] [Inhabited H] {env : Setting H} {s : Finset H} {r : InvokeResult H}
  {paid : List (Payment H)} {native : Bool} {callerAddr contractId : Address H} {amount : Asset}

def ContractOperation.isTransfer : ContractOperation H → Bool
  | .transfer _ _ _ _ _ => true
  | _ => false

def ContractOperation.isRegister : ContractOperation H → Bool
  | .register => true
  | _ => false

/-- The caller of a transfer has the amount and is counted; it is not itself a contract. -/
def CallerPays (s : Finset H) (l : Ledger H) (r : InvokeResult H) : ContractOperation H → Prop
  | .transfer callerAddr _ amount _ _ =>
    callerAddr ≠ .null ∧ callerAddr.addr ∈ s ∧
      amount.amount ≤ l.spendable callerAddr.addr amount.assetId ∧
      ∀ e ∈ r.contractWithdraw.entries, (ofLex e.1).1.addr ≠ callerAddr.addr
  | _ => True

instance (s : Finset H) (l : Ledger H) (r : InvokeResult H) (op : ContractOperation H) :
    Decidable (CallerPays s l r op) := by
  cases op <;> unfold CallerPays <;> infer_instance

/-- Applying the result returns, changes the sum of each asset by the recorded fees, and
    leaves no balance negative. -/
def Conserves (s : Finset H) (l : Ledger H) (op : ContractOperation H) (native : Bool)
    (r : InvokeResult H) : Prop :=
  ∃ l', doApply op native r l = some l' ∧
    (∀ a, l'.heldBy s a = l.heldBy s a - r.transferFees.amount a) ∧
    ∀ x a, 0 ≤ l'.spendable x a

theorem Balanced.null_unpaid {l l' : Ledger H} {deposit : Nat → Int} (h : Balanced l deposit r paid)
    (hl' : doApplyBalance r l = some l') : ∀ p ∈ paid, p.toAddr = .null → p.amount = 0 := by
  refine h.null.mp ?_
  intro a
  by_contra hne
  obtain ⟨l₁, l₂, _, _, hcredits⟩ := doApplyBalance_eq_some hl'
  cases hfound : r.depositToAddress.find (key .null a) with
  | none =>
    unfold OMap.amount at hne
    rw [hfound] at hne
    exact hne rfl
  | some v =>
    unfold OMap.amount at hne
    rw [hfound] at hne
    have hmem := (OMap.mem_entries_iff ..).mpr hfound
    have hthrows := adjustAll_null 1 (l := l₂) hmem rfl (by simpa using hne)
    rw [hthrows] at hcredits
    cases hcredits

variable {op : ContractOperation H}

/-- Money is conserved exactly if nothing was sent to the null address. -/
theorem Balanced.conserves (h : Balanced env.ledger (fun _ => 0) r paid)
    (hl : Sound s env.ledger) (hs : Names r s)
    (hop : doApply op native r env.ledger = doApplyBalance r env.ledger) :
    Conserves s env.ledger op native r ↔ ∀ p ∈ paid, p.toAddr = .null → p.amount = 0 := by
  unfold Conserves
  rw [hop]
  constructor
  · rintro ⟨l', hl', _⟩
    exact h.null_unpaid hl'
  · intro hpaid
    obtain ⟨l', hl', hnonneg⟩ := h.pays hl hs (fun _ => by decide) hpaid
    refine ⟨l', hl', ?_, fun x a => (hnonneg x a).2.1⟩
    intro a
    rw [h.heldBy hs hl', Int.add_zero]

variable {hversion : contractId.version = Address.contract} {hpos : 0 < amount.amount}

theorem doApply_transfer
    {l : Ledger H} (hr : r.execSucceed = true) :
    doApply (.transfer callerAddr contractId amount hversion hpos) native r l =
      (doApplyBalance r l).bind fun l => l.adjustBalance callerAddr amount.neg := by
  unfold doApply
  rw [if_pos hr]

theorem Balanced.conserves_transfer
    (h : Balanced env.ledger amount.of r paid) (hl : Sound s env.ledger)
    (hs : Names r s)
    (hcaller : CallerPays s env.ledger r (.transfer callerAddr contractId amount hversion hpos)) :
    Conserves s env.ledger (.transfer callerAddr contractId amount hversion hpos) native r ↔
      ∀ p ∈ paid, p.toAddr = .null → p.amount = 0 := by
  obtain ⟨hcallerNull, hcallerMem, hfunds, hnoContract⟩ := hcaller
  unfold Conserves
  rw [doApply_transfer h.succeeded]
  constructor
  · rintro ⟨l', hl', _⟩
    obtain ⟨l₁, hl₁, _⟩ := bind_eq_some_iff.mp hl'
    exact h.null_unpaid hl₁
  · intro hpaid
    have hdeposit : ∀ a, amount.of a ≤ maxShareSupply := by
      intro a
      have hbound := hl.spendable_le_supply callerAddr.addr amount.assetId
      have hmax : maxShareSupply = 10000000000000000 := rfl
      unfold of
      split <;> omega
    obtain ⟨l₁, hl₁, hpays⟩ := h.pays hl hs hdeposit hpaid
    -- no contract charged the caller
    have hkept : r.contractWithdraw.sumOver (standsFor callerAddr.addr amount.assetId) = 0 := by
      rw [sumOver_contract h.withdraw_keys]
      unfold OMap.amount
      cases hfound : r.contractWithdraw.find (key ⟨Address.contract, callerAddr.addr⟩
          amount.assetId) with
      | none => rfl
      | some v =>
        have hmem := (OMap.mem_entries_iff ..).mpr hfound
        exact absurd rfl (hnoContract _ hmem)
    have hcaller := hpays callerAddr.addr amount.assetId
    rw [hkept] at hcaller
    obtain ⟨l', hl'⟩ := adjustBalance_returns (l := l₁) callerAddr amount.neg
      (fun _ => hcallerNull)
      (by dsimp only [neg]; omega) (by dsimp only [neg]; omega)
    refine ⟨l', ?_, ?_, ?_⟩
    · rw [hl₁, bind_some, hl']
    · intro a
      have hmoved := (moves_adjustBalance hl').heldBy hcallerMem a
      rw [of_neg] at hmoved
      have hsum := h.heldBy hs hl₁ a
      omega
    · intro x a
      have hx := hpays x a
      rw [spendable_adjustBalance hl', of_neg]
      split
      · next hcallerx =>
        subst hcallerx
        unfold of
        split
        · next ha =>
          subst ha
          omega
        · omega
      · omega

/-- A transfer to a native contract: the caller pays and nobody is paid. -/
theorem Balanced.not_conserves_native
    (h : Balanced env.ledger (fun _ => 0) r paid) (hs : Names r s)
    (hcaller : callerAddr.addr ∈ s) :
    ¬ Conserves s env.ledger (.transfer callerAddr contractId amount hversion hpos) native r := by
  rintro ⟨l', hl', hsum, _⟩
  rw [doApply_transfer h.succeeded] at hl'
  obtain ⟨l₁, hl₁, hl'⟩ := bind_eq_some_iff.mp hl'
  have hmoved := (moves_adjustBalance hl').heldBy hcaller amount.assetId
  rw [hsum, h.heldBy hs hl₁] at hmoved
  simp only [of, neg, if_true] at hmoved
  omega

/-- For every contract operation that was evaluated: applying it conserves money exactly if
    it is not a transfer to a native contract, and it owes nothing to the null address (the
    registration of a native contract pays nobody). -/
theorem money_conserved {code : Code H} {r : InvokeResult H}
    {paid : List (Payment H)} (hl : Sound s env.ledger) (hs : Names r s)
    (hcaller : CallerPays s env.ledger r op) (heval : evaluate env op code = some (r, paid)) :
    Conserves s env.ledger op code.isNative r ↔
      ¬ (op.isTransfer = true ∧ code.isNative = true) ∧
        ((op.isRegister = true ∧ code.isNative = true) ∨
          ∀ p ∈ paid, p.toAddr = .null → p.amount = 0) := by
  rcases evaluate_cases hl.spendable_nonneg heval with ⟨rfl, rfl, huvm⟩ | ⟨h, hfees⟩
  · -- out of gas: nothing was recorded
    rw [huvm]
    have happly : doApply op false failed env.ledger = some env.ledger := rfl
    have hconserves : Conserves s env.ledger op false .failed :=
      ⟨env.ledger, happly, fun a => (Int.sub_zero _).symm, hl.spendable_nonneg⟩
    refine ⟨fun _ => ⟨?_, .inr ?_⟩, fun _ => hconserves⟩
    · rintro ⟨_, ⟨⟩⟩
    · intro p hp
      cases hp
  · cases op with
    | register =>
      cases hcode : code.isNative with
      | true =>
        have happly : doApply .register true r env.ledger = some env.ledger := by
          unfold doApply
          rw [if_pos h.succeeded]
          rfl
        have hconserves : Conserves s env.ledger .register true r := by
          refine ⟨env.ledger, happly, ?_, hl.spendable_nonneg⟩
          intro a
          rw [hfees hcode, OMap.amount_empty, Int.sub_zero]
        refine ⟨fun _ => ⟨?_, .inl ⟨rfl, rfl⟩⟩, fun _ => hconserves⟩
        rintro ⟨⟨⟩, _⟩
      | false =>
        have hplain : doApply .register false r env.ledger = doApplyBalance r env.ledger := by
          unfold doApply
          rw [if_pos h.succeeded]
          rfl
        rw [h.conserves hl hs hplain]
        simp [ContractOperation.isTransfer]
    | upgrade =>
      have hplain : doApply .upgrade code.isNative r env.ledger = doApplyBalance r env.ledger := by
        unfold doApply
        rw [if_pos h.succeeded]
      rw [h.conserves hl hs hplain]
      simp [ContractOperation.isTransfer, ContractOperation.isRegister]
    | invoke =>
      have hplain : doApply .invoke code.isNative r env.ledger = doApplyBalance r env.ledger := by
        unfold doApply
        rw [if_pos h.succeeded]
      rw [h.conserves hl hs hplain]
      simp [ContractOperation.isTransfer, ContractOperation.isRegister]
    | transfer callerAddr contractId amount hversion hpos =>
      cases code with
      | native transfers =>
        refine ⟨fun hc => absurd hc (h.not_conserves_native hs hcaller.2.1), fun hc => ?_⟩
        exact absurd ⟨rfl, rfl⟩ hc.1
      | uvm calls outOfGas =>
        rw [h.conserves_transfer hl hs hcaller]
        simp [Code.isNative]

end Conservation

/-! ### Sample operations -/

instance : LinearOrder (Address Nat) :=
  LinearOrder.lift' (fun a => toLex (a.version.toNat, a.addr)) (by
    rintro ⟨v, x⟩ ⟨v', x'⟩ h
    have hpair := toLex.injective h
    rw [Prod.mk.injEq, UInt8.toNat_inj] at hpair
    obtain ⟨rfl, rfl⟩ := hpair
    rfl)

/-- A caller with ten units, a contract with ten units, and a third address. -/
def sampleLedger : Ledger Nat where
  balances x a := if (x = 1 ∨ x = 2) ∧ a = 0 then some ⟨10, 0⟩ else none
  guarantees _ := none
  collected _ := 0

def sampleSetting : Setting Nat := ⟨sampleLedger, fun c => c.addr == 2, fun _ _ => true⟩

def sampleCaller : Address Nat := ⟨Address.normal, 1⟩

def sampleContract : Address Nat := ⟨Address.contract, 2⟩

def sampleDeposit : ContractOperation Nat :=
  .transfer sampleCaller sampleContract ⟨5, 0⟩ rfl (by decide)

variable (toAddr : Address Nat)

/-- The contract passes on twelve units, of which two are kept as a fee. -/
def samplePayout : Transfer Nat :=
  ⟨sampleContract, toAddr, 0, 12, 2, rfl, by decide, by decide, by decide⟩

def sampleCode : Code Nat := .uvm [.transfer (samplePayout toAddr)] false

theorem sound_sampleLedger : Sound {1, 2, 3} sampleLedger where
  outside x hx a := by
    simp only [Finset.mem_insert, Finset.mem_singleton, not_or] at hx
    simp [sampleLedger, hx.1, hx.2.1]
  spendable_nonneg x a := by
    unfold Ledger.spendable sampleLedger
    dsimp only
    split
    · exact le_refl 0
    next h =>
    split at h
    · cases h
      decide
    · cases h
  spendable_le x a := by
    unfold Ledger.spendable Ledger.held sampleLedger
    dsimp only
    split
    · exact le_refl 0
    next h =>
    split at h
    · cases h
      decide
    · cases h
  supply a := by
    by_cases ha : a = 0
    · subst ha
      decide +kernel
    · have hzero : ∀ x, sampleLedger.held x a = 0 := by
        intro x
        simp [Ledger.held, sampleLedger, ha]
      unfold Ledger.heldBy
      rw [Finset.sum_congr rfl fun x _ => hzero x, Finset.sum_const_zero]
      decide

/-- The evaluation of a deposit of which the contract passes something on. -/
def sampleResult : Option (InvokeResult Nat × List (Payment Nat)) :=
  evaluate sampleSetting sampleDeposit (sampleCode toAddr)

theorem payout_conserves_money :
    ∃ r paid, sampleResult ⟨Address.normal, 3⟩ = some (r, paid) ∧ r.transferFees.amount 0 = 2 ∧
      Conserves {1, 2, 3} sampleLedger sampleDeposit false r := by
  have hsome : (sampleResult ⟨Address.normal, 3⟩).isSome = true := by decide +kernel
  have hsound : Sound {1, 2, 3} sampleSetting.ledger := sound_sampleLedger
  have heval := (some_get hsome).symm
  refine ⟨_, _, heval, by decide +kernel, ?_⟩
  exact (money_conserved hsound (by decide +kernel) (by decide +kernel) heval).mpr
    (by decide +kernel)

/-- Five units are paid to a native contract, which does nothing: the caller has lost them
    and the contract has not got them.  And a contract that pays the null address is
    evaluated, but cannot be applied. -/
theorem native_deposit_lost :
    (evaluate sampleSetting sampleDeposit (.native [])).bind (fun s =>
        (doApply sampleDeposit true s.1 sampleLedger).map fun l =>
          (s.1.transferFees.amount 0, l.heldBy {1, 2, 3} 0, l.spendable 2 0)) =
      some (0, 15, 10) ∧ sampleLedger.heldBy {1, 2, 3} 0 = 20 ∧
      (sampleResult .null).isSome = true ∧
      (sampleResult .null).bind (fun s => (doApplyBalance s.1 sampleLedger).map fun _ => ()) =
        none := by
  decide +kernel

end HyperExchange.Transfers
