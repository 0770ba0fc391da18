/-
  **Who gets a refund** (`guard_refund_balance_evaluator.cpp`).

  The refunds of a batch go to the account that the stored withdrawal names.  A withdrawal
  that is called off before it is in a batch goes to the account that the refund names, which
  only has to be the address of a key that signed the withdrawal; for a multisignature
  address one of the signers can take what all of them paid (`signer_takes_refund`).  Where
  refunds are evaluated and name the withdraw account, every refund is the debit turned round
  (`refunds_were_debited`), whatever the order of the operations.  Balances are kept by the
  hash of an address, so accounts are compared by it.
-/
import HyperExchange.WithdrawalPayouts
import HyperExchange.Multisignature

namespace HyperExchange.Crosschain

open Keyed Fees Execution

variable {H : Type} {reg : Registry}

/-! ### Runs -/

def Operation.getRefundBalance : Operation H → Option (GuardRefundBalance H)
  | .guardRefundBalance o => some o
  | _ => none

/-- A refund of a withdrawal that is in no batch names the account that it was taken from. -/
def NamesPayer (s : State H) (op : Operation H) : Prop :=
  ∀ o ∈ op.getRefundBalance, ∀ r ∈ s.trxs.find o.txid, ∀ w ∈ withdrawOf r,
    o.refundAddr.addr = w.withdrawAccount.addr

/-- Refunds are evaluated, and those that name their receiver name the payer. -/
def Restores (ctx : Context reg H) (s : State H) (op : Operation H) : Prop :=
  (op.getRefundBalance.isSome ∨ op.refundsBatch = true → checkPointBlock < ctx.headBlockNum) ∧
    NamesPayer s op

instance [DecidableEq H] (ctx : Context reg H) (s : State H) : DecidablePred (Restores ctx s) := by
  intro op
  unfold Restores NamesPayer
  infer_instance

/-- A withdrawal that is signed for its own address only cannot be refunded to another. -/
theorem namesPayer_of_signers [DecidableEq H] {s : State H} {o : GuardRefundBalance H}
    {u : Unit} (heval : evaluateRefundBalance s o = some u)
    (hsigners : ∀ r ∈ s.trxs.find o.txid, ∀ w ∈ withdrawOf r,
      ∀ a ∈ r.realTransaction.signers, a.addr = w.withdrawAccount.addr) :
    NamesPayer s (.guardRefundBalance o) := by
  simp only [evaluateRefundBalance, Option.bind_eq_bind, Option.bind_eq_some_iff,
    fcAssert_eq_some] at heval
  obtain ⟨r, hr, _, _, _, _, _, _, a, ha, hsame⟩ := heval
  intro o' ho' r' hr' w hw
  cases ho'
  cases hr.symm.trans hr'
  exact hsame.symm.trans (hsigners r hr w hw a ha)

/-- Every stored withdrawal was taken, and every refund is that of a debit. -/
structure Repaid (reg : Registry) (s : State H) : Prop where
  taken : ∀ id w, Stored s.trxs id w → ∃ x, Taken reg s.trace id w x
  refunds : ∀ id a x, .refunded id a x ∈ s.trace →
    ∃ b : Address H, b.addr = a.addr ∧ .debited id b x ∈ s.trace

variable [DecidableEq H] [Inhabited H] {ctx : Context reg H} {trx : SignedTransaction H}
  {s s' : State H}

theorem applyWithdraw_taken {o : CrosschainWithdraw H}
    (h : applyOperation ctx trx s (.crosschainWithdraw o) = some s') :
    ∃ x, Taken reg s'.trace trx.id o x := by
  obtain ⟨s₁, hran, hpay⟩ := applyOperation_ran h
  cases hran with
  | @withdraw _ x _ _ hx _ hissues =>
    cases hpay
    obtain ⟨hasset, hamount⟩ := Context.amountFromString_eq hx
    refine ⟨x, ?_, hasset, hamount⟩
    rw [hissues.trace]
    exact List.mem_append_right _ List.mem_cons_self

theorem Repaid.applyOperation {op : Operation H} (h : Repaid reg s) (hop : op ∈ trx.operations)
    (hrestores : Restores ctx s op) (happly : applyOperation ctx trx s op = some s') :
    Repaid reg s' := by
  have hdoes := applyOperation_does (permits_sameRecord ctx trx s.trxs op) happly
  obtain ⟨added, htrace, hadded⟩ := hdoes.trace
  have hkept : ∀ e ∈ s.trace, e ∈ s'.trace := by
    intro e he
    rw [htrace]
    exact List.mem_append_left _ he
  constructor
  · rintro id w ⟨r', hr', hops⟩
    rcases hdoes.records.back hr' with ⟨r, hr, hsame⟩ | hnew
    · obtain ⟨x, htaken⟩ := h.taken id w ⟨r, hr, by rw [← hsame.real, hops]⟩
      exact ⟨x, hkept _ htaken.debited, htaken.asset, htaken.amount⟩
    · -- the record of a transaction with one operation is made by that operation
      rw [hnew.real] at hops
      rw [hops] at hop
      rw [List.mem_singleton.1 hop] at happly
      rw [← Table.key_of_find hr', hnew.id]
      exact applyWithdraw_taken happly
  · intro id a x hx
    rw [htrace] at hx
    rcases List.mem_append.1 hx with hold | hx
    · obtain ⟨b, hb, hdebit⟩ := h.refunds id a x hold
      exact ⟨b, hb, hkept _ hdebit⟩
    cases hadded _ hx with
    | refundBalance hstored hread =>
      have hstored := hstored (hrestores.1 (.inl rfl))
      obtain ⟨y, htaken⟩ := h.taken _ _ hstored
      obtain ⟨r, hr, hw⟩ := hstored.exists_withdrawOf
      rw [htaken.amount_eq hread]
      exact ⟨_, (hrestores.2 _ rfl r hr _ hw).symm, hkept _ htaken.debited⟩
    | refundSource hbatch hstored =>
      obtain ⟨hstored, hread⟩ := hstored (hrestores.1 (.inr hbatch))
      obtain ⟨y, htaken⟩ := h.taken _ _ hstored
      rw [htaken.amount_eq hread]
      exact ⟨_, rfl, hkept _ htaken.debited⟩

/-- In every run in which refunds are evaluated, and one that names its receiver names the
    withdraw account, what is refunded for a withdrawal was debited for it, from the same
    account, in the same asset and in the same amount. -/
theorem refunds_were_debited
    (hrun : RunUnder (fun ctx : Context reg H => Restores ctx) State.Fresh s) {id : TrxId}
    {account : Address H} {x : Asset} (hrefund : .refunded id account x ∈ s.trace) :
    ∃ payer : Address H, payer.addr = account.addr ∧ .debited id payer x ∈ s.trace := by
  have hrepaid : Repaid reg s := by
    refine hrun.invariant_of_operations (Repaid reg) (fun _ _ => True) ?_
      (fun _ hs => ⟨hs.taken, hs.refunds⟩) fun hmem _ hs hrestores happly =>
        ⟨hs.applyOperation hmem hrestores happly, trivial⟩
    intro s hs
    constructor
    · rintro id w ⟨r, hr, _⟩
      have htrxs : s.trxs = Table.empty := Table.ext hs.trxs
      rw [htrxs] at hr
      cases hr
    · intro id a x hx
      rw [hs.trace] at hx
      cases hx
  exact hrepaid.refunds id account x hrefund

/-- The user calls off a withdrawal of five. -/
theorem own_withdrawal_comes_back :
    let s := step (step sampleState (sampleWithdraw 1))
      (sampleEvent 2 (.guardRefundBalance ⟨sampleUser, 1, ⟨0, 0⟩⟩))
    .refunded 1 sampleUser ⟨5, 1⟩ ∈ s.trace ∧
      ∃ payer : Address Bool, payer.addr = sampleUser.addr ∧ .debited 1 payer ⟨5, 1⟩ ∈ s.trace := by
  intro s
  have hrun : RunUnder (fun ctx : Context sampleRegistry Bool => Restores ctx) State.Fresh s :=
    .call (.call (.start ⟨rfl, rfl, rfl⟩) (by decide +kernel)) (by decide +kernel)
  have hrefund : .refunded 1 sampleUser ⟨5, 1⟩ ∈ s.trace := by decide +kernel
  exact ⟨hrefund, refunds_were_debited hrun hrefund⟩

/-! ### A withdrawal from a shared address -/

abbrev SharedHash := Auth.AddressForm × Nat

instance : Inhabited SharedHash := ⟨(.plain, 0)⟩

/-- `sampleContext` for the addresses of keys that are numbers. -/
def sharedChain : Context sampleRegistry SharedHash where
  headBlockNum := sampleContext.headBlockNum
  assets := sampleContext.assets
  getAsset := sampleContext.getAsset
  getAsset_eq := sampleContext.getAsset_eq
  guardMember := sampleContext.guardMember
  accountAddr := fun _ => none
  fetchTrx := sampleContext.fetchTrx
  bindings := []
  getMultisgiAccount := sampleContext.getMultisgiAccount
  getCurrentMultisigAccount := sampleContext.getCurrentMultisigAccount
  handle := sampleContext.handle
  late := false
  bchVinsHaveAmount := sampleContext.bchVinsHaveAmount
  usdtAmount := sampleContext.usdtAmount
  validateSign := fun _ _ => true
  findBinding := headFinder _
  findTrx := headFinder _

def sharedState : State SharedHash where
  trxs := .empty
  acquired := .empty
  ledger :=
    { balances := fun h _ => if h = Auth.sharedAddress.addr then some ⟨10, 0⟩ else none
      guarantees := fun _ => none
      collected := fun _ => 0 }
  currentSupply := fun _ => 100
  trace := []

/-- `address(key)` -/
def addressOf (k : Nat) : Address SharedHash := ⟨Address.normal, Auth.numberScheme.hash .plain k⟩

/-- `crosschain_withdraw` requires the authority of the withdraw account. -/
def withdrawing : Auth.OpAuthorities Nat SharedHash := ⟨61, [.single Auth.sharedAddress]⟩

def sharedEvent (id : TrxId) (op : Operation SharedHash) (keys : List Nat) :
    Event sampleRegistry SharedHash :=
  .transaction sharedChain ⟨id, [op], keys.map addressOf⟩ 1

/-- Two of the three keys sign a withdrawal of five from the shared address.  The holder of
    one of them calls it off and gets the five. -/
theorem signer_takes_refund :
    let s := step (step sharedState
        (sharedEvent 1 (.crosschainWithdraw ⟨Auth.sharedAddress, ['5'], eth, 1, ['a']⟩) [5, 9]))
      (sharedEvent 2 (.guardRefundBalance ⟨addressOf 5, 1, ⟨0, 0⟩⟩) [5])
    sharedState.Fresh ∧ Auth.verifyAuthority Auth.sharedContext [withdrawing] [5, 9] = true ∧
      s.trace = [.debited 1 Auth.sharedAddress ⟨5, 1⟩, .refunded 1 (addressOf 5) ⟨5, 1⟩] ∧
      s.ledger.held Auth.sharedAddress.addr 1 = 5 ∧ s.ledger.held (addressOf 5).addr 1 = 5 := by
  refine ⟨⟨rfl, rfl, rfl⟩, ?_, ?_, ?_, ?_⟩
  · decide
  · decide +kernel
  · decide +kernel
  · decide +kernel

end HyperExchange.Crosschain
