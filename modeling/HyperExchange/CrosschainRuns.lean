/-
  **The evaluators of the Ethereum series, and runs of the whole system**
  (`eth_seri_record_evaluate.cpp`).

  A run is a sequence of transactions, each with the context it is applied in, between which
  the node's plugin may note transactions of other chains it has seen and mark those it
  could not report.
-/
import HyperExchange.CrosschainEvaluators
import HyperExchange.Execution

namespace HyperExchange.Crosschain

open Keyed Fees Execution

variable {H : Type} {reg : Registry}

/-! ### Signing for the Ethereum series -/

/-- `combine_op.cross_chain_trx["without_sign"]` -/
def unsignedText (op : WithdrawCombineSign) : Option Text :=
  op.crossChainTrx.lookup ['w', 'i', 't', 'h', 'o', 'u', 't', '_', 's', 'i', 'g', 'n']

variable (ctx : Context reg H)

/-- `eths_guard_sign_final_evaluator::do_evaluate`.  It does not ask for the state of the
    combined transaction. -/
def evaluateSignFinal (s : State H) (o : EthsGuardSign) : Option Unit := do
  let _ ← ctx.guardMember o.guardToSign
  let r ← s.trxs.find o.combineTrxId
  let op ← r.realTransaction.first.bind Operation.getCombineSign
  ctx.withHandle o.chainType fun h => do
    let signed ← h.withoutSign o.signedCrosschainTrx
    let unsigned ← unsignedText op
    fcAssert (signed = unsigned)

/-- `eths_guard_change_signer_evaluator::do_evaluate` -/
def evaluateChangeSigner (s : State H) (o : EthsGuardSign) : Option Unit := do
  let g ← ctx.guardMember o.guardToSign
  fcAssert (g.permanent = true)
  let r ← s.trxs.find o.combineTrxId
  fcAssert (r.trxState = .withdrawEthGuardNeedSign)
  let op ← r.realTransaction.first.bind Operation.getCombineSign
  ctx.withHandle o.chainType fun h => do
    let signed ← h.changeSigner o.signedCrosschainTrx
    let unsigned ← (unsignedText op).bind h.changeSigner
    fcAssert (unsigned = signed)

/-- `eths_guard_sign_final_evaluator::do_apply` -/
def applySignFinal (trx : SignedTransaction H) (s : State H)
    (o : EthsGuardSign) : Option (State H) :=
  (CrosschainTrxIndex.adjustGuardSign ctx.headBlockNum .ethsGuardSignFinal Operation.getSignFinal
    o.combineTrxId trx s.trxs).map fun t => { s with trxs := t }

/-- `eths_guard_change_signer_evaluator::do_apply` -/
def applyChangeSigner (trx : SignedTransaction H) (s : State H)
    (o : EthsGuardSign) : Option (State H) :=
  (CrosschainTrxIndex.adjustGuardSign ctx.headBlockNum .ethsGuardChangeSigner
    Operation.getChangeSigner o.combineTrxId trx s.trxs).map fun t => { s with trxs := t }

/-! ### `senator_change_acquire_trx` -/

def acquiredId (op : EthsGuardSign) : Text :=
  if isEthSeries op.chainType then afterBar op.signedCrosschainTrxId else op.signedCrosschainTrxId

def namedSignFinal (s : State H) (o : GuardDecision H) : Option EthsGuardSign :=
  (s.trxs.find o.trxId).bind fun r => r.realTransaction.first.bind Operation.getSignFinal

/-- `senator_change_acquire_trx_evaluator::do_evaluate`.  It does not ask for the state of the
    acquired transaction. -/
def evaluateChangeAcquire [DecidableEq H] (ctx : Context reg H) (s : State H)
    (o : GuardDecision H) : Option Unit := do
  let _ ← namedRecord ctx s true .withdrawEthGuardSign o
  oldEnough ctx o.trxId
  let op ← namedSignFinal s o
  let acquired ← s.acquired.find (acquiredId op)
  let multisig ← ctx.getMultisgiAccount acquired.handleTrx.fromAccount op.chainType
  fcAssert (0 < multisig.effectiveBlockNum)

/-- `senator_change_acquire_trx_evaluator::do_apply` -/
def applyChangeAcquire (s : State H) (o : GuardDecision H) : Option (State H) := do
  let op ← namedSignFinal s o
  some { s with acquired := s.acquired.modify (acquiredId op) (setAcquired .acquiredTrxUncreate) }

/-! ### Runs -/

variable [DecidableEq H]

def evaluateOperation (ctx : Context reg H) (trx : SignedTransaction H) (s : State H) :
    Operation H → Option Unit
  | .crosschainRecord o => evaluateRecord ctx s o
  | .crosschainWithdraw o => evaluateWithdraw ctx trx s o
  | .withdrawWithoutSign o => evaluateWithoutSign ctx trx s o
  | .withdrawWithSign o => evaluateWithSign ctx trx s o
  | .withdrawCombineSign o => evaluateCombineSign ctx trx s o
  | .withdrawResult o => evaluateResult ctx s o
  | .guardRefundBalance o => evaluateRefundBalance s o
  | .guardRefundCrosschainTrx o => evaluateRefundCrosschainTrx ctx s o
  | .guardCancelCombineTrx o => evaluateCancelCombineTrx ctx s o
  | .senatorPassSuccessTrx o => evaluatePassSuccessTrx ctx s o
  | .ethsCancelUnsignedTransaction o => evaluateCancelUnsigned ctx s o
  | .ethCancelFailCrosschainTrx o => evaluateCancelFail ctx s o
  | .senatorChangeAcquireTrx o => evaluateChangeAcquire ctx s o
  | .ethsGuardSignFinal o => evaluateSignFinal ctx s o
  | .ethsGuardChangeSigner o => evaluateChangeSigner ctx s o
  | .other => some ()

variable [Inhabited H]

def doApply (ctx : Context reg H) (trx : SignedTransaction H) (s : State H) :
    Operation H → Option (State H)
  | .crosschainRecord o => applyRecord ctx s o
  | .crosschainWithdraw o => applyWithdraw ctx trx s o
  | .withdrawWithoutSign o => applyWithoutSign ctx trx s o
  | .withdrawWithSign o => applyWithSign ctx trx s o
  | .withdrawCombineSign o => applyCombineSign ctx trx s o
  | .withdrawResult o => applyResult ctx s o
  | .guardRefundBalance o => applyRefundBalance ctx s o
  | .guardRefundCrosschainTrx o => applyRefundCrosschainTrx ctx s o
  | .guardCancelCombineTrx o => applyCancelRelated ctx s o
  | .senatorPassSuccessTrx o => applyPassSuccessTrx ctx s o
  | .ethsCancelUnsignedTransaction o => applyCancelUnsigned s o
  | .ethCancelFailCrosschainTrx o => applyCancelRelated ctx s o
  | .senatorChangeAcquireTrx o => applyChangeAcquire s o
  | .ethsGuardSignFinal o => applySignFinal ctx trx s o
  | .ethsGuardChangeSigner o => applyChangeSigner ctx trx s o
  | .other => some s

/-- The evaluator overrides `if_evluate`. -/
def Operation.alwaysEvaluated : Operation H → Bool
  | .withdrawCombineSign _ => true
  | .withdrawResult _ => true
  | _ => false

/-- Who pays what for an operation whose evaluator leaves `pay_fee` as it is.  The others
    collect nothing of their own. -/
def Operation.ownFee : Operation H → Option (Address H × Asset)
  | .guardRefundBalance o => some (o.refundAddr, o.fee)
  | .guardRefundCrosschainTrx o | .guardCancelCombineTrx o | .senatorPassSuccessTrx o
  | .ethsCancelUnsignedTransaction o | .ethCancelFailCrosschainTrx o =>
    some (o.guardAddress, o.fee)
  | _ => none

/-- `prepare_fee` -/
def prepareFee (ctx : Context reg H) (op : Operation H) : Option Unit :=
  match op.ownFee with
  | none => some ()
  | some (_, fee) => (ctx.assets fee.assetId).bind fun _ => fcAssert (0 ≤ fee.amount)

def payFee (op : Operation H) (s : State H) : Option (State H) :=
  match op.ownFee with
  | none => some s
  | some (payer, fee) => s.payFee payer fee

/-- Evaluates and applies an operation; `none` when it is not accepted. -/
def applyOperation (ctx : Context reg H) (trx : SignedTransaction H) (s : State H)
    (op : Operation H) : Option (State H) := do
  prepareFee ctx op
  evaluateAbove ctx.headBlockNum op.alwaysEvaluated (evaluateOperation ctx trx s op)
  (doApply ctx trx s op).bind (payFee op)

def applyOperations (ctx : Context reg H) (trx : SignedTransaction H) :
    List (Operation H) → State H → Option (State H)
  | [], s => some s
  | op :: ops, s => (applyOperation ctx trx s op).bind (applyOperations ctx trx ops)

inductive Event (reg : Registry) (H : Type) where
  /-- A transaction, or a proposed one, of which the first `count` operations are accepted:
      a proposal that throws keeps what the operations before did. -/
  | transaction (ctx : Context reg H) (trx : SignedTransaction H) (count : Nat)
  /-- The plugin notes a transaction of another chain. -/
  | noted (trx : HdTrx)
  /-- The node could not report a transaction it had noted. -/
  | notReported (id : Text)

def step (s : State H) : Event reg H → State H
  | .transaction ctx trx count =>
    (applyOperations ctx trx (trx.operations.take count) s).getD s
  | .noted trx =>
    if (s.acquired.find trx.resultId).isSome then s
    else ((s.acquired.put trx trx.resultId .acquiredTrxUncreate).map
      fun t => { s with acquired := t }).getD s
  | .notReported id =>
    { s with
      acquired := s.acquired.modifyWhere
        (fun r => decide (r.handleTrxId = id ∧ r.acquiredTransactionState = .acquiredTrxUncreate))
        (setAcquired .acquiredTrxDepositFailure) }

/-- No record of a withdrawal or of a transaction of another chain yet. -/
structure State.Fresh (s : State H) : Prop where
  trxs : s.trxs.rows = []
  acquired : s.acquired.rows = []
  trace : s.trace = []

/-! ### Runs under a condition -/

section Conditions

variable (allowed : Context reg H → State H → Operation H → Prop)

def AllowedEach (ctx : Context reg H) (trx : SignedTransaction H) :
    List (Operation H) → State H → Prop
  | [], _ => True
  | op :: ops, s => allowed ctx s op ∧
      ∀ s' ∈ applyOperation ctx trx s op, AllowedEach ctx trx ops s'

def Meets (s : State H) : Event reg H → Prop
  | .transaction ctx trx count => (applyOperations ctx trx (trx.operations.take count) s).isSome →
      AllowedEach allowed ctx trx (trx.operations.take count) s
  | .noted _ => True
  | .notReported _ => True

def RunUnder (init : State H → Prop) : State H → Prop :=
  ReachableUnder init (Meets allowed) step

/-- In a run whose accepted operations are all allowed, an accepted transaction applies the
    operation to the state. -/
inductive Applied (init : State H → Prop) :
    Context reg H → SignedTransaction H → State H → Operation H → Prop
  | intro {ctx : Context reg H} {trx : SignedTransaction H} {s₀ s : State H} {op : Operation H}
      (count : Nat) (done rest : List (Operation H)) :
      RunUnder allowed init s₀ → Meets allowed s₀ (.transaction ctx trx count) →
      (applyOperations ctx trx (trx.operations.take count) s₀).isSome →
      trx.operations.take count = done ++ op :: rest →
      applyOperations ctx trx done s₀ = some s → Applied init ctx trx s op

variable [∀ ctx s, DecidablePred (allowed ctx s)]

instance AllowedEach.decidable (ctx : Context reg H) (trx : SignedTransaction H) :
    ∀ (ops : List (Operation H)) (s : State H), Decidable (AllowedEach allowed ctx trx ops s)
  | [], _ => .isTrue trivial
  | op :: ops, s =>
    have := AllowedEach.decidable ctx trx ops
    inferInstanceAs (Decidable (allowed ctx s op ∧
      ∀ s' ∈ applyOperation ctx trx s op, AllowedEach allowed ctx trx ops s'))

instance (s : State H) : DecidablePred (Meets allowed s) := fun e => by
  cases e <;> unfold Meets <;> infer_instance

end Conditions

section Rules

variable {allowed : Context reg H → State H → Operation H → Prop} {ctx : Context reg H}
  {trx : SignedTransaction H} {s s' : State H}

theorem applyOperations_eq (ctx : Context reg H) (trx : SignedTransaction H)
    (ops : List (Operation H)) (s : State H) :
    applyOperations ctx trx ops s = applyAll (applyOperation ctx trx) ops s := by
  induction ops generalizing s with
  | nil => rfl
  | cons op ops ih => exact Option.bind_congr fun s' _ => ih s'

theorem AllowedEach.eachAllowed {ops : List (Operation H)}
    (h : AllowedEach allowed ctx trx ops s) :
    EachAllowed (applyOperation ctx trx) (allowed ctx) ops s := by
  induction ops generalizing s with
  | nil => trivial
  | cons op ops ih => exact ⟨h.1, fun s' hs' => ih (h.2 s' hs')⟩

variable {init : State H → Prop} (Inv : State H → Prop)
  (Under : SignedTransaction H → State H → Prop) (hinit : ∀ s, init s → Inv s)
  (hacquired : ∀ {s} t, Inv s → Inv { s with acquired := t })
  (hop : ∀ {ctx trx op s s'}, op ∈ trx.operations → trx.first = some op ∨ Under trx s → Inv s →
    allowed ctx s op → applyOperation ctx trx s op = some s' → Inv s' ∧ Under trx s')
include hinit hacquired hop

/-- **Invariant rule.** What the allowed operations and the plugin keep holds in every state of
    a run.  `Under trx` is what is known once an operation of the transaction was accepted. -/
theorem RunUnder.invariant_of_operations (h : RunUnder allowed init s) : Inv s := by
  refine ReachableUnder.invariant Inv hinit ?_ h
  intro s e hs hmeets
  cases e with
  | transaction ctx trx count =>
    simp only [step]
    cases happly : applyOperations ctx trx (trx.operations.take count) s with
    | none => exact hs
    | some s' =>
      have hallowed := (hmeets (by rw [happly]; rfl)).eachAllowed
      rw [applyOperations_eq] at happly
      exact (hallowed.started_invariant Inv (Under trx) (List.take_prefix _ _) hs hop happly).1
  | noted trx =>
    simp only [step]
    split
    · exact hs
    · cases s.acquired.put trx trx.resultId .acquiredTrxUncreate with
      | none => exact hs
      | some t => exact hacquired t hs
  | notReported id => exact hacquired _ hs

/-- The same for the states that the operations of a run are applied to. -/
theorem Applied.invariant_of_operations {op : Operation H}
    (h : Applied allowed init ctx trx s op) :
    Inv s ∧ allowed ctx s op ∧ (applyOperation ctx trx s op).isSome := by
  obtain ⟨count, done, rest, hrun, hmeets, haccepted, hops, hdone⟩ := h
  have hallowed := (hmeets haccepted).eachAllowed
  rw [applyOperations_eq] at haccepted hdone
  rw [hops] at hallowed haccepted
  obtain ⟨hbefore, hop'⟩ := hallowed.split haccepted hdone
  have hprefix : done <+: trx.operations :=
    (List.prefix_append done _).trans (hops ▸ List.take_prefix count _)
  have hs := hrun.invariant_of_operations Inv Under hinit hacquired hop
  exact ⟨(hbefore.started_invariant Inv (Under trx) hprefix hs hop hdone).1, hop'⟩

end Rules

/-! ### A small chain -/

/-- `HX`, `ETH`, `ETHX`, … -/
def sampleSymbol : Nat → Text
  | 0 => ['H', 'X']
  | n + 1 => eth ++ List.replicate n 'X'

def sampleRegistry : Registry where
  symbol := sampleSymbol
  precision := fun _ => 0
  symbol_injective := by
    intro a b h
    have hlen := congrArg List.length h
    cases a <;> cases b <;> simp [sampleSymbol, eth] at hlen ⊢
    exact hlen

/-- A handle that finds every signature and transaction in order, and every transaction that
    it is asked for failed.  The transaction it makes pays `5` to the account `a`. -/
def sampleHandle : Handle where
  validateAddress := fun _ => true
  validateLinkTrx := fun _ => true
  validateLinkTrxV1 := fun _ => true
  turnTrxs := fun _ _ => some
    { trxs := ⟨[(['a'], ⟨[], ['m'], ['a'], ['5'], eth⟩)], List.nodup_singleton _⟩
      feeText := fun _ => ['0'] }
  withoutSign := fun _ => some ['u']
  changeSigner := fun _ => some ['u']
  failed := fun _ => true

def headFinder (R : Type) : Finder R where
  pick := List.head?
  mem := List.mem_of_head?
  isSome := by
    intro l hl
    cases l with
    | nil => exact absurd rfl hl
    | cons r l => rfl

def sampleUser : Address Bool := ⟨Address.normal, true⟩
def sampleSenator : Address Bool := ⟨Address.normal, false⟩

def sampleContext : Context sampleRegistry Bool where
  headBlockNum := 2000000
  assets := fun _ => some
    { maxSupply := 1000
      description := []
      allowWithdrawDeposit := true
      withdrawLimition := 1
      feePool := 0 }
  getAsset := fun symbol => if symbol = eth then some 1 else none
  getAsset_eq := by
    intro symbol id h
    split at h
    · rename_i hsymbol
      cases h
      rw [hsymbol]
      rfl
    · cases h
  guardMember := fun _ => some ⟨0, true⟩
  accountAddr := fun _ => some sampleSenator
  fetchTrx := fun _ => some 0
  bindings := [⟨sampleUser, eth, ['d']⟩]
  getMultisgiAccount := fun account _ => if account = ['m'] then some ⟨1, 0⟩ else none
  getCurrentMultisigAccount := fun _ => some ⟨1, 0⟩
  handle := fun _ => some sampleHandle
  late := false
  bchVinsHaveAmount := fun _ => true
  usdtAmount := fun _ => .none
  validateSign := fun _ _ => true
  findBinding := headFinder _
  findTrx := headFinder _

/-- The user has ten and nothing was withdrawn. -/
def sampleState : State Bool where
  trxs := .empty
  acquired := .empty
  ledger :=
    { balances := fun h _ => if h then some ⟨10, 0⟩ else none
      guarantees := fun _ => none
      collected := fun _ => 0 }
  currentSupply := fun _ => 100
  trace := []

/-- The transaction with the id and only this operation, signed by the user. -/
def sampleEvent (id : TrxId) (op : Operation Bool) : Event sampleRegistry Bool :=
  .transaction sampleContext ⟨id, [op], [sampleUser]⟩ 1

def sampleWithdraw (id : TrxId) : Event sampleRegistry Bool :=
  sampleEvent id (.crosschainWithdraw ⟨sampleUser, ['5'], eth, 1, ['a']⟩)

/-- The final signature of the combined transaction `4`. -/
def sampleSignFinal (id : TrxId) : Event sampleRegistry Bool :=
  sampleEvent id (.ethsGuardSignFinal ⟨0, 4, [], ['y'], eth⟩)

/-- A withdrawal is brought to its final signature. -/
def sampleSigned : List (Event sampleRegistry Bool) :=
  [sampleWithdraw 1,
    sampleEvent 2 (.withdrawWithoutSign ⟨[1], [], eth, 1, ⟨0, 1⟩⟩),
    sampleEvent 3 (.withdrawWithSign ⟨2, [], 0, eth, sampleSenator, []⟩),
    sampleEvent 4 (.withdrawCombineSign
      ⟨[(['w', 'i', 't', 'h', 'o', 'u', 't', '_', 's', 'i', 'g', 'n'], ['u']),
        (['s', 'i', 'g', 'n', 'e', 'r'], [])], [3], eth, ['x']⟩),
    sampleSignFinal 5]

end HyperExchange.Crosschain
