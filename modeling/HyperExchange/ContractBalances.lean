/-
  **The balance a running contract is told** (`contract_evaluate.cpp`).

  `get_contract_balance` adds the deposits and subtracts the withdrawals of a contract.  A
  transfer to a contract is recorded with those to addresses, so its receiver does not see
  it until it is paid (`balance_true_iff`).
-/
import HyperExchange.TransferConservation

namespace HyperExchange.Transfers

open Fees OrderedMap List Option

variable {H : Type} [LinearOrder (Address H)]

/-! ### Balances -/

/-- `get_contract_balance` -/
def InvokeResult.getContractBalance (env : Setting H) (contract : Address H) (asset : Nat)
    (r : InvokeResult H) : Int :=
  (r.readBalance env contract asset).available (key contract asset)

/-- Deposits to contracts between the other calls. -/
inductive BalanceCall (H : Type) where
  | deposit (contract : Address H) (x : Asset)
      (contract_version : contract.version = Address.contract) (amount_pos : 0 < x.amount)
  | other (c : Call H)

/-- A call that throws has changed nothing. -/
def balanceCall (env : Setting H) (s : InvokeResult H × List (Payment H)) :
    BalanceCall H → InvokeResult H × List (Payment H)
  | .deposit contract x _ _ => ((s.1.depositToContract env contract x).getD s.1, s.2)
  | .other c => (uvmCall env c s).getD s

def runBalanceCalls (env : Setting H) (calls : List (BalanceCall H)) :
    InvokeResult H × List (Payment H) :=
  calls.foldl (balanceCall env) (.empty, [])

theorem contract_keys_insert {m : OMap (Key H) Int} {k : Key H} {v : Int}
    (hm : ∀ e ∈ m.entries, (ofLex e.1).1.version = Address.contract)
    (hk : (ofLex k).1.version = Address.contract) :
    ∀ e ∈ (m.insert k v).entries, (ofLex e.1).1.version = Address.contract := by
  intro e he
  rcases OMap.mem_entries_insert he with rfl | he
  · exact hk
  · exact hm e he

theorem nonneg_insert {m : OMap (Key H) Int} {k : Key H} {v : Int} (hm : ∀ k, 0 ≤ m.amount k)
    (hv : 0 ≤ v) (k' : Key H) : 0 ≤ (m.insert k v).amount k' := by
  rw [OMap.amount_insert]
  split
  · exact hv
  · exact hm k'

variable [DecidableEq H]

/-- What the payments bring to the balance objects with a hash. -/
def owed (paid : List (Payment H)) (x : H) (a : Nat) : Int :=
  (paid.map fun p => if p.toAddr.addr = x ∧ p.asset = a then p.amount else 0).sum

omit [LinearOrder (Address H)] in
theorem owed_eq_zero {paid : List (Payment H)} (hpaid : ∀ p ∈ paid, 0 ≤ p.amount) (x : H)
    (a : Nat) : 0 ≤ owed paid x a ∧
      (owed paid x a = 0 ↔ ∀ p ∈ paid, p.toAddr.addr = x → p.asset = a → p.amount = 0) := by
  induction paid with
  | nil => exact ⟨le_refl 0, fun _ _ hp => absurd hp not_mem_nil, fun _ => rfl⟩
  | cons p paid ih =>
    obtain ⟨hrest, hiff⟩ := ih fun q hq => hpaid q (mem_cons_of_mem p hq)
    have hp := hpaid p mem_cons_self
    have hcons : owed (p :: paid) x a =
        (if p.toAddr.addr = x ∧ p.asset = a then p.amount else 0) + owed paid x a := by
      rw [owed, map_cons, sum_cons, owed]
    rw [hcons, forall_mem_cons, ← hiff]
    split
    · next hto =>
      refine ⟨by omega, fun h => ⟨fun _ _ => by omega, by omega⟩, fun h => ?_⟩
      have := h.1 hto.1 hto.2
      omega
    · next hto => exact ⟨by omega, fun h => ⟨fun hx ha => absurd ⟨hx, ha⟩ hto, by omega⟩, by omega⟩

structure Tracked (env : Setting H) (s : InvokeResult H × List (Payment H)) : Prop where
  withdraw_keys : ∀ e ∈ s.1.contractWithdraw.entries, (ofLex e.1).1.version = Address.contract
  deposit_keys : ∀ e ∈ s.1.depositContract.entries, (ofLex e.1).1.version = Address.contract
  deposit_nonneg : ∀ k, 0 ≤ s.1.depositContract.amount k
  read : ∀ k b, s.1.contractBalances.find k = some b → b = env.getBalance (ofLex k).1 (ofLex k).2
  credited : ∀ x a, s.1.depositToAddress.sumOver (standsFor x a) = owed s.2 x a
  paid_nonneg : ∀ p ∈ s.2, 0 ≤ p.amount

namespace Tracked

variable {env : Setting H} {r r' : InvokeResult H} {paid : List (Payment H)}

section

variable (h : Tracked env (r, paid))
include h

theorem deposit {contract : Address H} {x : Asset} (hversion : contract.version = Address.contract)
    (hx : 0 < x.amount) (hr : r.depositToContract env contract x = some r') :
    Tracked env (r', paid) := by
  have hdeposit := h.deposit_nonneg (key contract x.assetId)
  unfold InvokeResult.depositToContract at hr
  dsimp only at hr hdeposit
  split at hr
  · split at hr
    · split at hr
      · cases hr
        exact { h with withdraw_keys := contract_keys_insert h.withdraw_keys hversion }
      · cases hr
        exact { h with
          withdraw_keys := contract_keys_insert h.withdraw_keys hversion
          deposit_keys := contract_keys_insert h.deposit_keys hversion
          deposit_nonneg := nonneg_insert h.deposit_nonneg (by omega) }
    · split at hr
      · cases hr
        exact h
      · cases hr
        exact { h with
          deposit_keys := contract_keys_insert h.deposit_keys hversion
          deposit_nonneg := nonneg_insert h.deposit_nonneg (by omega) }
  · cases hr

theorem readBalance (addr : Address H) (asset : Nat) : Tracked env
    (r.readBalance env addr asset, paid) := by
  unfold InvokeResult.readBalance
  split
  · exact h
  refine { h with read := fun k b hb => ?_ }
  rw [OMap.find_insert] at hb
  split at hb
  · next hk =>
    cases hb
    rw [hk]
    rfl
  · exact h.read k b hb

theorem transfer {t : Transfer H} (hr : r.transfer t t.fee = some r') : Tracked env
    (r', paid ++ [⟨t.toAddr, t.asset, t.amount - t.fee⟩]) := by
  unfold InvokeResult.transfer at hr
  dsimp only at hr
  split at hr
  · cases hr
  cases hr
  have hw := withdrawn_withdraw (key t.contract t.asset) t.amount_pos h.deposit_nonneg
  generalize r.withdraw (key t.contract t.asset) t.amount = w at hw
  obtain ⟨fees, hfees, _⟩ := @addTransferFee_eq _ _ t.asset _ t.fee_nonneg
    (w.credit t.toAddr t.asset (t.amount - t.fee))
  rw [hfees]
  refine ⟨fun e he => ?_, fun e he => ?_, hw.deposit_nonneg, fun k b hb => ?_, fun x a => ?_,
    fun p hp => ?_⟩
  · rcases hw.withdraw_mem e he with hk | ⟨d, hd, hk⟩
    · rw [hk]
      exact t.contract_version
    · rw [← hk]
      exact h.withdraw_keys d hd
  · obtain ⟨d, hd, hk⟩ := hw.deposit_mem e he
    rw [← hk]
    exact h.deposit_keys d hd
  · exact h.read k b (hw.balances ▸ hb)
  · have hold := h.credited x a
    show (w.depositToAddress.insert _ _).sumOver _ = _
    rw [OMap.sumOver_insert, hw.credits, hold]
    by_cases hx : t.toAddr.addr = x <;> by_cases ha : t.asset = a <;>
      simp [owed, standsFor, key, hx, ha]
  · rcases mem_append.mp hp with hp | hp
    · exact h.paid_nonneg p hp
    · cases mem_singleton.mp hp
      exact Int.sub_nonneg_of_le t.fee_le

end

/-- **Step lemma.** -/
theorem call {s : InvokeResult H × List (Payment H)} (h : Tracked env s) (c : BalanceCall H) :
    Tracked env (balanceCall env s c) := by
  unfold balanceCall
  split
  · next contract x hversion hx =>
    cases hr : s.1.depositToContract env contract x with
    | none => exact h
    | some r => exact h.deposit hversion hx hr
  · next c =>
    cases hs : uvmCall env c s with
    | none => exact h
    | some s' =>
      unfold uvmCall at hs
      split at hs
      · next t =>
        split at hs
        · have hread := h.readBalance t.contract t.asset
          dsimp only at hs
          split at hs
          · cases hs
            exact hread
          · next hr =>
            cases hs
            exact hread.transfer hr
        · cases hs
      · cases hs
        exact h.readBalance _ _

theorem run (env : Setting H) (calls : List (BalanceCall H)) :
    Tracked env (runBalanceCalls env calls) := by
  refine List.foldlRecOn calls _ ?_ fun s h c _ => h.call c
  exact ⟨by nofun, by nofun, fun _ => le_refl 0, by nofun, fun _ _ => rfl, by nofun⟩

end Tracked

variable [Inhabited H]

/-- **Contracts and their balances.**  After any calls, `get_contract_balance` tells a
    contract what it has when the result is applied exactly if its balance object is in its
    own name, and nothing was transferred to it. -/
theorem balance_true_iff {env : Setting H} {calls : List (BalanceCall H)} {contract : Address H}
    {l' : Ledger H} (hl : ∀ x a, 0 ≤ env.ledger.spendable x a)
    (hcontract : contract.version = Address.contract) (a : Nat)
    (happly : doApplyBalance (runBalanceCalls env calls).1 env.ledger = some l') :
    (runBalanceCalls env calls).1.getContractBalance env contract a = l'.spendable contract.addr a ↔
      env.getBalance contract a = env.ledger.spendable contract.addr a ∧
        ∀ p ∈ (runBalanceCalls env calls).2, p.toAddr.addr = contract.addr → p.asset = a →
          p.amount = 0 := by
  have h := Tracked.run env calls
  generalize runBalanceCalls env calls = s at h happly ⊢
  obtain ⟨hpos, hzero⟩ := owed_eq_zero h.paid_nonneg contract.addr a
  have hkey : key ⟨Address.contract, contract.addr⟩ a = key contract a := by rw [← hcontract]
  have hafter : l'.spendable contract.addr a = env.ledger.spendable contract.addr a +
      s.1.depositContract.amount (key contract a) - s.1.contractWithdraw.amount (key contract a) +
      owed s.2 contract.addr a := by
    obtain ⟨l₁, l₂, h₁, h₂, h₃⟩ := doApplyBalance_eq_some happly
    have hdeposit := sumOver_contract h.deposit_keys contract.addr a
    have hwithdraw := sumOver_contract h.withdraw_keys contract.addr a
    have hcredit := h.credited contract.addr a
    unfold OMap.sumOver at hdeposit hwithdraw hcredit
    rw [(spendable_adjustAll h₃ _ _).1, (spendable_adjustAll h₂ _ _).1,
      (spendable_adjustAll h₁ _ _).1, hdeposit, hwithdraw, hcredit, hkey]
    omega
  have htold : s.1.getContractBalance env contract a = env.getBalance contract a +
      s.1.depositContract.amount (key contract a) -
        s.1.contractWithdraw.amount (key contract a) := by
    unfold InvokeResult.getContractBalance InvokeResult.available InvokeResult.readBalance
    split
    · next b hb =>
      have hread : s.1.contractBalances.amount (key contract a) = b := by rw [OMap.amount, hb]; rfl
      rw [hread, h.read _ b hb]
      rfl
    · rw [OMap.amount_insert, if_pos rfl]
  have hbefore := hl contract.addr a
  have hcases : env.getBalance contract a = env.ledger.spendable contract.addr a ∨
      env.getBalance contract a = 0 := by
    unfold Setting.getBalance
    split
    · exact .inl rfl
    · exact .inr rfl
  rw [hafter, htold, ← hzero]
  omega

def sampleCalls (toAddr : Address Nat) : List (BalanceCall Nat) :=
  [.deposit sampleContract ⟨5, 0⟩ (.refl Address.contract) (by decide : (0 : Int) < 5),
    .other (.transfer (samplePayout toAddr))]

theorem payout_is_seen :
    let s := runBalanceCalls sampleSetting (sampleCalls sampleCaller)
    s.1.getContractBalance sampleSetting sampleContract 0 = 3 ∧
      ∃ l', doApplyBalance s.1 sampleLedger = some l' ∧ l'.spendable 2 0 = 3 := by
  intro s
  have htold : s.1.getContractBalance sampleSetting sampleContract 0 = 3 := by decide +kernel
  have hsome : (doApplyBalance s.1 sampleLedger).isSome = true := by decide +kernel
  have happly := (some_get hsome).symm
  refine ⟨htold, _, happly, ?_⟩
  have htrue : s.1.getContractBalance sampleSetting sampleContract 0 = _ :=
    (balance_true_iff sound_sampleLedger.spendable_nonneg rfl 0 happly).mpr (by decide +kernel)
  exact htrue.symm.trans htold

/-- The contract pays the twelve units to itself. -/
theorem own_payout_is_not_seen :
    let s := runBalanceCalls sampleSetting (sampleCalls sampleContract)
    s.1.getContractBalance sampleSetting sampleContract 0 = 3 ∧
      (doApplyBalance s.1 sampleLedger).map (·.spendable 2 0) = some 13 := by
  decide +kernel

end HyperExchange.Transfers
