/-
  **The evaluators of transfers between cold and hot accounts**
  (`coldhot_transfer_evaluate.cpp`, `eth_seri_record_evaluate.cpp`).

  They read what the evaluators of withdrawals read, and besides it the multisig accounts of
  the chains and the handles that the node has and that are not configured: the evaluators
  of combined transactions and of results return early when the handle is configured, where
  all others return early when it is not.
-/
import HyperExchange.ColdhotTransfers
import HyperExchange.CrosschainRuns

namespace HyperExchange.Coldhot

open Keyed Crosschain Fees Option

variable {H : Type} {reg : Registry}

/-! ### What the evaluators read -/

/-- `multisig_account_pair_object` -/
structure MultisigAccountPair where
  id : Nat
  chainType : Text
  bindAccountHot : Text
  bindAccountCold : Text

/-- `multisig_address_object`: the part of a senator in an account pair. -/
structure MultisigAddress where
  guardAccount : Nat
  multisigAccountPairObjectId : Nat

structure Context (reg : Registry) (H : Type) extends Crosschain.Context reg H where
  /-- A handle of the node for which `valid_config` is false. -/
  unconfigured : Text → Option Handle
  multisigAccountPairs : List MultisigAccountPair
  multisigAddresses : List MultisigAddress
  /-- What `transaction_query` tells of a transaction: whether it left no log and used up its
      gas; `none` when the answer lacks one of the parts that are read. -/
  transactionQuery : Text → Text → Option Bool
  /-- The signature is that of a senator of the account the transaction is paid from. -/
  validateTransferSign : TransferWithSign H → SignedTransaction H → Bool
  findPair : Finder MultisigAccountPair
  findTransfer : Finder (TransferObject H)

structure State (H : Type) where
  transfers : TransferIndex H
  chain : Crosschain.State H

namespace Context

/-- Runs the checks behind `if (crosschain_plugin->valid_config()) return`. -/
def withUnconfigured (ctx : Context reg H) (symbol : Text) (f : Handle → Option Unit) :
    Option Unit :=
  match ctx.handle symbol, ctx.unconfigured symbol with
  | some _, _ => some ()
  | none, none => some ()
  | none, some h => f h

/-- The pair that an account is the hot or else the cold account of; the default id when
    there is none. -/
def pairOf (ctx : Context reg H) (account symbol : Text) : Nat :=
  let hot := ctx.findPair.pick (ctx.multisigAccountPairs.filter fun p =>
    decide (p.bindAccountHot = account ∧ p.chainType = symbol))
  let cold := ctx.findPair.pick (ctx.multisigAccountPairs.filter fun p =>
    decide (p.bindAccountCold = account ∧ p.chainType = symbol))
  ((hot.or cold).map MultisigAccountPair.id).getD 0

def senatorsOf (ctx : Context reg H) (account symbol : Text) : List Nat :=
  (ctx.multisigAddresses.filter fun a =>
    decide (a.multisigAccountPairObjectId = ctx.pairOf account symbol)).map
      MultisigAddress.guardAccount

end Context

/-! ### `coldhot_transfer` -/

variable (ctx : Context reg H)

def isMultiAccount (account symbol : Text) : Bool :=
  ctx.multisigAccountPairs.any fun p => decide (p.chainType = symbol) &&
    (decide (account = p.bindAccountHot) || decide (account = p.bindAccountCold))

variable (trx : SignedTransaction H) (s : State H)

/-- `coldhot_transfer_evaluate::do_evaluate` -/
def evaluateTransfer (o : Transfer) : Option Unit := do
  let _ ← ctx.assets o.assetId
  fcAssert (reg.symbol o.assetId = o.assetSymbol)
  fcAssert (((o.amount.dropWhile (· ≠ '.')).drop 1).length ≤ reg.precision o.assetId)
  let amount ← ctx.amountFromString o.assetId o.amount
  fcAssert (0 < amount.amount)
  fcAssert (isMultiAccount ctx o.multiAccountWithdraw o.assetSymbol = true ∧
    isMultiAccount ctx o.multiAccountDeposit o.assetSymbol = true)
  fcAssert ((s.transfers.find trx.id).isNone = true)

/-! ### `coldhot_transfer_without_sign` -/

/-- The check of a USDT transaction: one output is dust and goes to a multisig account, and
    so does the change if there is any. -/
def evaluateUsdt (symbol : Text) (created : CrosschainTrx) : Option Unit := do
  fcAssert (created.trxs.rows.length = 1)
  let trx ← created.trxs.rows.head?
  let parts := splitBar trx.2.fromAccount
  fcAssert (1 < parts.length ∧ parts.length ≤ 3)
  fcAssert (parts.head? ≠ some ['-'])
  let outputs := parts.drop 1
  fcAssert (∀ p ∈ outputs, ',' ∈ p ∧ ctx.usdtAmount ((p.dropWhile (· ≠ ',')).drop 1) ≠ .none)
  let isDust := fun p : Text => decide (ctx.usdtAmount ((p.dropWhile (· ≠ ',')).drop 1) = .dust)
  fcAssert (outputs.countP isDust = 1)
  let addressOf := fun l : List Text => (l.getLast?.map fun p => p.takeWhile (· ≠ ',')).getD []
  let toAddress := addressOf (outputs.filter isDust)
  fcAssert (toAddress ≠ [])
  let _ ← ctx.getMultisgiAccount toAddress symbol
  let change := addressOf (outputs.filter fun p => !isDust p)
  if change = [] then some () else do
    let _ ← ctx.getMultisgiAccount change symbol
    some ()

def sourceForm (symbol description : Text) : SourceForm :=
  if Text.holds symbol erc then .erc description
  else if symbol = usdt then .usdt
  else if symbol = eth then .eth
  else .plain

/-- The account that the decoded transaction is paid from; a USDT transaction lists its
    outputs with it. -/
def paidFrom (symbol : Text) (trx : HdTrx) : Option Text :=
  if symbol = usdt then do
    let parts := splitBar trx.fromAccount
    fcAssert (1 < parts.length ∧ parts.length ≤ 3)
    fcAssert (parts.head? ≠ some ['-'])
    parts.head?
  else some trx.fromAccount

def checkTransfer (o : TransferWithoutSign) (r : TransferObject H)
    (created : CrosschainTrx) : Option Unit := do
  fcAssert (r.currentTrx.operations.length = 1)
  let transfer ← r.currentTrx.first.bind Operation.getTransfer
  fcAssert (((ctx.senatorsOf transfer.multiAccountWithdraw transfer.assetSymbol).length : Int) =
    o.withdrawAccountCount)
  let one ← created.trxs.find transfer.multiAccountDeposit
  fcAssert (one.2.toAccount = transfer.multiAccountDeposit)
  let payer ← paidFrom o.assetSymbol one.2
  fcAssert (payer = transfer.multiAccountWithdraw)
  let id ← ctx.getAsset transfer.assetSymbol
  fcAssert (one.2.assetSymbol = transfer.assetSymbol)
  let paid ← ctx.amountFromString id one.2.amount
  let amount ← ctx.amountFromString id transfer.amount
  fcAssert (paid.amount = amount.amount)

/-- `coldhot_transfer_without_sign_evaluate::do_evaluate`.  It does not ask for the state of
    the transfer, nor whether the record it names is one of a transfer. -/
def evaluateWithoutSign (o : TransferWithoutSign) : Option Unit := do
  let id ← ctx.getAsset o.assetSymbol
  let a ← ctx.assets id
  let r ← s.transfers.find o.coldhotTrxId
  fcAssert (∀ x ∈ s.transfers.rows, relatesTo trx.id x = false)
  fcAssert (o.assetSymbol = bch →
    VariantObject.contains o.coldhotTrxOriginalChain ['h', 'e', 'x'] = true ∧
      VariantObject.contains o.coldhotTrxOriginalChain ['t', 'r', 'x'] = true ∧
        ctx.bchVinsHaveAmount o.coldhotTrxOriginalChain = true)
  ctx.withHandle o.assetSymbol fun h =>
    if ctx.late then some () else do
      let created ← h.turnTrxs (sourceForm o.assetSymbol a.description) o.coldhotTrxOriginalChain
      if o.assetSymbol = usdt then evaluateUsdt ctx o.assetSymbol created else some ()
      checkTransfer ctx o r created

/-! ### `coldhot_transfer_with_sign` -/

/-- `coldhot_transfer_with_sign_evaluate::do_evaluate` -/
def evaluateWithSign (o : TransferWithSign H) : Option Unit := do
  let withoutSign ← s.transfers.find o.coldhotTrxId
  fcAssert ((s.transfers.find trx.id).isNone = true)
  let signs := s.transfers.rows.filter (relatesTo o.coldhotTrxId)
  fcAssert (∀ r ∈ signs, r.curretTrxState = .coldhotWithoutSignTrxCreate ∨
    r.curretTrxState = .coldhotSignTrx)
  fcAssert (∀ r ∈ signs, r.curretTrxState = .coldhotSignTrx →
    r.currentTrx.operations.length = 1 ∧
      ∃ sign ∈ r.currentTrx.first.bind Operation.getWithSign, sign.signGuard ≠ o.signGuard)
  ctx.withHandle o.assetSymbol fun _ =>
    if ctx.late then some ()
    else fcAssert (ctx.validateTransferSign o withoutSign.currentTrx = true)

/-! ### `coldhot_transfer_combine_sign` -/

/-- `coldhot_transfer_combine_sign_evaluate::do_evaluate` -/
def evaluateCombineSign (o : TransferCombineSign) : Option Unit := do
  let withoutSign ← s.transfers.find o.coldhotTransferTrxId
  fcAssert ((s.transfers.find trx.id).isNone = true)
  let _ ← withoutSign.relateTrxId.bind s.transfers.find
  fcAssert (trx.operations.length = 1)
  let _ ← trx.first.bind Operation.getCombineSign
  fcAssert (∀ id ∈ o.signedTrxIds, ∃ r ∈ s.transfers.find id,
    relatesTo o.coldhotTransferTrxId r = true)
  fcAssert (isEthSeries o.assetSymbol = true →
    VariantObject.contains o.coldhotTrxOriginalChain
        ['w', 'i', 't', 'h', 'o', 'u', 't', '_', 's', 'i', 'g', 'n'] = true ∧
      VariantObject.contains o.coldhotTrxOriginalChain ['s', 'i', 'g', 'n', 'e', 'r'] = true)
  ctx.withUnconfigured o.assetSymbol fun h =>
    if ctx.late then some () else do
      let decoded ← h.turnTrxs .plain o.coldhotTrxOriginalChain
      let one ← decoded.trxs.rows.head?
      fcAssert (one.2.trxId = o.originalTrxId)

/-! ### `coldhot_transfer_result` -/

def findCombine (result : HdTrx) : Option (TransferObject H) :=
  ctx.findTransfer.pick (s.transfers.rows.filter fun r =>
    decide (r.originalTrxId = result.resultId ∧ r.opType = .transferCombineSign))

/-- `coldhot_transfer_result_evaluate::do_evaluate` -/
def evaluateResult (result : HdTrx) : Option Unit := do
  let combine ← findCombine ctx s result
  fcAssert (isEthSeries result.assetSymbol = true → combine.curretTrxState = .coldhotEthGuardSign)
  let withoutSign ← combine.relateTrxId.bind s.transfers.find
  let _ ← withoutSign.relateTrxId.bind s.transfers.find
  fcAssert (∀ r ∈ s.chain.acquired.find result.resultId,
    r.acquiredTransactionState = .acquiredTrxUncreate)
  ctx.withUnconfigured result.assetSymbol fun h => ctx.validateLinkTrx h false result

/-- `coldhot_transfer_result_evaluate::do_apply`.  The fee of the asset is taken out of the
    supply and of the collected fees. -/
def applyResult (result : HdTrx) : Option (State H) := do
  let combine ← findCombine ctx s result
  let relate ← combine.relateTrxId
  let transfers ← TransferIndex.adjustResult ctx.headBlockNum relate s.transfers
  let acquired ← s.chain.acquired.adjustCrosschainConfirmTrx result
  let id ← ctx.getAsset result.assetSymbol
  let a ← ctx.assets id
  let chain ← { s.chain with acquired := acquired }.addSupply id (-a.feePool)
  let ledger ← chain.ledger.modifyCurrentCollectedFee (Asset.neg ⟨a.feePool, id⟩)
  some { transfers := transfers, chain := { chain with ledger := ledger } }

theorem applyResult_eq {ctx : Context reg H} {s s' : State H} {result : HdTrx}
    (h : applyResult ctx s result = some s') :
    (∃ combine relate, findCombine ctx s result = some combine ∧
      combine.relateTrxId = some relate ∧
      TransferIndex.adjustResult ctx.headBlockNum relate s.transfers = some s'.transfers) ∧
    s'.chain.trxs = s.chain.trxs := by
  obtain ⟨combine, relate, hcombine, hrelate, h⟩ := bind_bind_eq_some h
  obtain ⟨t, _, ht, _, h⟩ := bind_bind_eq_some h
  obtain ⟨_, _, _, _, h⟩ := bind_bind_eq_some h
  obtain ⟨chain, _, hchain, _, h⟩ := bind_bind_eq_some h
  cases h
  obtain ⟨_, _, rfl⟩ := map_eq_some_iff.1 hchain
  exact ⟨⟨combine, relate, hcombine, hrelate, ht⟩, rfl⟩

/-! ### Decisions of the senators -/

def namedRecord (st : ColdhotTrxState) (id : TrxId) : Option (TransferObject H) := do
  let r ← s.transfers.find id
  fcAssert (r.curretTrxState = st)
  let _ ← r.relateTrxId.bind s.transfers.find
  some r

/-- `coldhot_cancel_transafer_transaction_evaluate::do_evaluate` -/
def evaluateCancelTransfer (o : Decision) : Option Unit := do
  let r ← s.transfers.find o.trxId
  fcAssert (r.curretTrxState = .coldhotWithoutSignTrxUncreate)

/-- `coldhot_cancel_uncombined_trx_evaluate::do_evaluate` -/
def evaluateCancelUncombined (o : Decision) : Option Unit := do
  let _ ← namedRecord s .coldhotWithoutSignTrxCreate o.trxId
  fcAssert (trx.operations.length = 1)

/-- `coldhot_cancel_combined_trx_evaluate::do_evaluate` -/
def evaluateCancelCombined (o : Decision) : Option Unit := do
  let _ ← namedRecord s .coldhotCombineTrxCreate o.trxId
  oldEnough ctx.toContext o.trxId
  fcAssert (trx.operations.length = 1)

def permanentGuard (guardId : Nat) : Option Unit := do
  let g ← ctx.guardMember guardId
  fcAssert (g.permanent = true)

/-- `coldhot_pass_combine_trx_evaluate::do_evaluate` -/
def evaluatePassCombine (o : Decision) : Option Unit := do
  fcAssert (220000 ≤ ctx.headBlockNum)
  let _ ← namedRecord s .coldhotCombineTrxCreate o.trxId
  permanentGuard ctx o.guardId
  fcAssert (trx.operations.length = 1)

/-- `eth_cancel_coldhot_fail_trx_evaluate::do_evaluate`.  From the height
    `COLDHOT_TRANSFER_EVALUATE_HEIGHT` on it is not asked whether the transaction failed. -/
def evaluateCancelFail (o : Decision) : Option Unit := do
  permanentGuard ctx o.guardId
  let r ← namedRecord s .coldhotEthGuardSign o.trxId
  fcAssert (trx.operations.length = 1)
  fcAssert (r.currentTrx.operations.length = 1)
  oldEnough ctx.toContext o.trxId
  let signFinal ← r.currentTrx.first.bind Operation.getSignFinal
  fcAssert (isEthSeries signFinal.chainType = true)
  ctx.withHandle signFinal.chainType fun _ => do
    let failed ←
      ctx.transactionQuery signFinal.chainType (beforeBar signFinal.signedCrosschainTrxId)
    fcAssert (ctx.headBlockNum < 2607000 → failed = true)

/-! ### Signing for the Ethereum series -/

def namedCombine (id : TrxId) : Option TransferCombineSign :=
  (s.transfers.find id).bind fun r => r.currentTrx.first.bind Operation.getCombineSign

/-- `combine_op.coldhot_trx_original_chain["without_sign"]` -/
def unsignedText (op : TransferCombineSign) : Option Text :=
  op.coldhotTrxOriginalChain.lookup ['w', 'i', 't', 'h', 'o', 'u', 't', '_', 's', 'i', 'g', 'n']

/-- `eths_coldhot_guard_sign_final_evaluator::do_evaluate`.  It does not ask for the state of
    the combined transaction. -/
def evaluateSignFinal (o : EthsGuardSign) : Option Unit := do
  let _ ← ctx.guardMember o.guardToSign
  let op ← namedCombine s o.combineTrxId
  ctx.withHandle o.chainType fun h => do
    let signed ← h.withoutSign o.signedCrosschainTrx
    let unsigned ← unsignedText op
    fcAssert (signed = unsigned)

/-- `eths_guard_coldhot_change_signer_evaluator::do_evaluate`.  Neither does it. -/
def evaluateChangeSigner (o : EthsGuardSign) : Option Unit := do
  permanentGuard ctx o.guardToSign
  let op ← namedCombine s o.combineTrxId
  ctx.withHandle o.chainType fun h => do
    let signed ← h.changeSigner o.signedCrosschainTrx
    let unsigned ← (unsignedText op).bind h.changeSigner
    fcAssert (unsigned = signed)

/-! ### Operations -/

def evaluateOperation : Operation H → Option Unit
  | .transfer o => evaluateTransfer ctx trx s o
  | .transferWithoutSign o => evaluateWithoutSign ctx trx s o
  | .transferWithSign o => evaluateWithSign ctx trx s o
  | .transferCombineSign o => evaluateCombineSign ctx trx s o
  | .transferResult result => evaluateResult ctx s result
  | .cancelTransferTransaction o => evaluateCancelTransfer s o
  | .cancelUncombinedTrx o => evaluateCancelUncombined trx s o
  | .cancelCombinedTrx o => evaluateCancelCombined ctx trx s o
  | .passCombineTrx o => evaluatePassCombine ctx trx s o
  | .ethCancelColdhotFailTrx o => evaluateCancelFail ctx trx s o
  | .ethsColdhotGuardSignFinal o => evaluateSignFinal ctx s o
  | .ethsGuardColdhotChangeSigner o => evaluateChangeSigner ctx s o
  | .other => some ()

def adjustTransaction (blockNum : Nat) (trx : SignedTransaction H) (t : TransferIndex H) :
    Operation H → Option (TransferIndex H)
  | .transfer _ => t.adjustTransfer blockNum trx
  | .transferWithoutSign o => t.adjustWithoutSign blockNum o.coldhotTrxId trx
  | .transferWithSign o => t.adjustWithSign blockNum o.coldhotTrxId trx
  | .transferCombineSign o => t.adjustCombineSign blockNum o.coldhotTransferTrxId trx
  | .cancelTransferTransaction o => t.adjustCancelTransfer blockNum o.trxId trx
  | .cancelUncombinedTrx o => t.adjustCancelUncombined blockNum o.trxId trx
  | .cancelCombinedTrx o => t.adjustCancelCombined blockNum .cancelCombinedTrx true o.trxId trx
  | .passCombineTrx o => t.adjustPass blockNum o.trxId
  | .ethCancelColdhotFailTrx o =>
    t.adjustCancelCombined blockNum .ethCancelColdhotFailTrx false o.trxId trx
  | .ethsColdhotGuardSignFinal o =>
    t.adjustGuardSign blockNum .ethsColdhotGuardSignFinal setSigned Operation.getSignFinal
      o.combineTrxId trx
  | .ethsGuardColdhotChangeSigner o =>
    t.adjustGuardSign blockNum .ethsGuardColdhotChangeSigner (setSignedAt blockNum)
      Operation.getChangeSigner o.combineTrxId trx
  | .transferResult _ => some t
  | .other => some t

def doApply (op : Operation H) : Option (State H) :=
  match op with
  | .transferResult result => applyResult ctx s result
  | _ => (adjustTransaction ctx.headBlockNum trx s.transfers op).map fun t =>
    { s with transfers := t }

/-- Evaluates and applies an operation; `none` when it is not accepted. -/
def applyOperation (op : Operation H) : Option (State H) :=
  (evaluateAbove ctx.headBlockNum false (evaluateOperation ctx trx s op)).bind fun _ =>
    doApply ctx trx s op

theorem applyOperation_eq {ctx : Context reg H} {trx : SignedTransaction H} {s s' : State H}
    {op : Operation H} (h : applyOperation ctx trx s op = some s') :
    (checkPointBlock < ctx.headBlockNum → evaluateOperation ctx trx s op = some ()) ∧
      doApply ctx trx s op = some s' := by
  obtain ⟨⟨⟩, heval, h⟩ := bind_eq_some_iff.1 h
  refine ⟨?_, h⟩
  intro hhead
  simpa [evaluateAbove, hhead] using heval

theorem applyOperation_trxs {ctx : Context reg H} {trx : SignedTransaction H} {s s' : State H}
    {op : Operation H} (h : applyOperation ctx trx s op = some s') :
    s'.chain.trxs = s.chain.trxs := by
  obtain ⟨_, h⟩ := applyOperation_eq h
  cases op
  case transferResult result => exact (applyResult_eq h).2
  case other =>
    cases h
    rfl
  all_goals
    obtain ⟨t, _, rfl⟩ := map_eq_some_iff.1 h
    rfl

end HyperExchange.Coldhot
