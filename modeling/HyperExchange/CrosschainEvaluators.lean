/-
  **The evaluators of deposits and withdrawals** (`crosschain_record_evaluate.cpp`,
  `guard_refund_balance_evaluator.cpp`, `eth_seri_record_evaluate.cpp`).

  What they read besides the records is a `Context`, given anew with every transaction; only
  the symbol and the precision of an asset never change (`Registry`).  A node without a
  configured handle for a chain skips the checks that need it, and so does a node that
  applies an old block (`late`).

  A batch names the withdrawals that one transaction of the other chain is to pay; a node
  with a handle compares the two, account by account.  Users and senators may call a
  withdrawal off, alone or with its batch; a senator may also declare a batch paid, and for
  the Ethereum series take the combined transaction back.
-/
import HyperExchange.CrosschainTransactions

namespace HyperExchange.Crosschain

open Keyed Fees CrosschainTrxIndex

section

variable {H : Type}

/-! ### What the evaluators read -/

structure Registry where
  symbol : Nat → Text
  precision : Nat → Nat
  symbol_injective : Function.Injective symbol

structure AssetObject where
  maxSupply : Int
  description : Text
  allowWithdrawDeposit : Bool
  withdrawLimition : Int
  feePool : Int

structure GuardMember where
  guardMemberAccount : Nat
  /-- `senator_type == PERMANENT` -/
  permanent : Bool

structure AccountBinding (H : Type) where
  owner : Address H
  chainType : Text
  bindAccount : Text

structure MultisigAccountPair where
  effectiveBlockNum : UInt32
  endBlock : UInt32

/-- `find` of an index whose keys are not unique: one of the objects with the key. -/
structure Finder (R : Type) where
  pick : List R → Option R
  mem : ∀ {l r}, pick l = some r → r ∈ l
  isSome : ∀ {l}, l ≠ [] → (pick l).isSome

/-- `crosschain_trx`: the transactions that one transaction of the other chain makes, by the
    account they go to.  `feeText p` is the fee, printed with `p` decimals. -/
structure CrosschainTrx where
  trxs : Table (Prod.fst : Text × HdTrx → Text)
  feeText : Nat → Text

/-- How the source of a transaction is handed to `turn_trxs`. -/
inductive SourceForm where
  | erc (description : Text)
  | eth
  | usdt
  | plain

/-- What a USDT output pays: nothing, at most 0.00000546, or more. -/
inductive UsdtAmount where
  | none
  | dust
  | change
deriving DecidableEq

/-- A configured `abstract_crosschain_interface`. -/
structure Handle where
  validateAddress : Text → Bool
  validateLinkTrx : HdTrx → Bool
  validateLinkTrxV1 : HdTrx → Bool
  turnTrxs : SourceForm → VariantObject → Option CrosschainTrx
  /-- `turn_trx` of `get_without_sign` -/
  withoutSign : Text → Option Text
  /-- `turn_trx` of `change_signer` -/
  changeSigner : Text → Option Text
  /-- `transaction_query` shows that the transaction failed. -/
  failed : Text → Bool

structure Context (reg : Registry) (H : Type) where
  headBlockNum : Nat
  assets : Nat → Option AssetObject
  /-- `get_asset`, by symbol -/
  getAsset : Text → Option Nat
  getAsset_eq : ∀ {symbol id}, getAsset symbol = some id → reg.symbol id = symbol
  guardMember : Nat → Option GuardMember
  accountAddr : Nat → Option (Address H)
  /-- The block of a transaction (`fetch_trx`). -/
  fetchTrx : TrxId → Option Nat
  bindings : List (AccountBinding H)
  getMultisgiAccount : Text → Text → Option MultisigAccountPair
  getCurrentMultisigAccount : Text → Option MultisigAccountPair
  handle : Text → Option Handle
  /-- `now() > head_block_time() + validate_time_period` -/
  late : Bool
  /-- Every input of the transaction has an amount. -/
  bchVinsHaveAmount : VariantObject → Bool
  usdtAmount : Text → UsdtAmount
  /-- The signature is that of a senator of the account the transaction is paid from. -/
  validateSign : WithdrawWithSign H → SignedTransaction H → Bool
  findBinding : Finder (AccountBinding H)
  findTrx : Finder (CrosschainTrxObject H)

/-- `FC_ASSERT` -/
def fcAssert (p : Prop) [Decidable p] : Option Unit := if p then some () else none

@[simp] theorem fcAssert_eq_some {p : Prop} [Decidable p] {u : Unit} :
    fcAssert p = some u ↔ p := by
  by_cases h : p <;> simp [fcAssert, h]

namespace Context

variable {reg : Registry} (ctx : Context reg H)

def amountFromString (id : Nat) (s : Text) : Option Asset :=
  (ctx.assets id).bind fun a =>
    (Crosschain.amountFromString (reg.precision id) a.maxSupply s).map fun n => ⟨n, id⟩

def withHandle (symbol : Text) (f : Handle → Option Unit) : Option Unit :=
  match ctx.handle symbol with
  | none => some ()
  | some h => f h

/-- `validate_link_trx`, which gets the description of an ERC token with its symbol. -/
def validateLinkTrx (h : Handle) (v1 : Bool) (trx : HdTrx) : Option Unit :=
  (ctx.getAsset trx.assetSymbol).bind fun id =>
    (ctx.assets id).bind fun a =>
      if ctx.late then some ()
      else if Text.holds trx.assetSymbol erc then
        fcAssert (h.validateLinkTrx
          { trx with assetSymbol := trx.assetSymbol ++ '|' :: a.description } = true)
      else if v1 then fcAssert (h.validateLinkTrxV1 trx = true)
      else fcAssert (h.validateLinkTrx trx = true)

end Context

variable {reg : Registry}

/-! ### `crosschain_record` -/

variable (ctx : Context reg H) (s : State H)

/-- `crosschain_record_evaluate::do_evaluate` -/
def evaluateRecord [DecidableEq H] (o : CrosschainRecord H) : Option Unit := do
  let trx := o.crossChainTrx
  fcAssert (∀ r ∈ s.acquired.find trx.trxId, r.acquiredTransactionState = .acquiredTrxUncreate)
  let tunnel ← ctx.bindings.find? fun b =>
    decide (b.bindAccount = trx.fromAccount ∧ b.chainType = trx.assetSymbol)
  fcAssert (tunnel.owner = o.depositAddress)
  let a ← ctx.assets o.assetId
  fcAssert (reg.symbol o.assetId = trx.assetSymbol)
  fcAssert (a.allowWithdrawDeposit = true)
  let toAccount := if isEthSeries trx.assetSymbol then beforeBar trx.toAccount else trx.toAccount
  let multisig ← ctx.getMultisgiAccount toAccount trx.assetSymbol
  fcAssert (0 < multisig.effectiveBlockNum)
  let current ← ctx.getCurrentMultisigAccount trx.assetSymbol
  fcAssert (multisig.effectiveBlockNum = current.effectiveBlockNum ∨
    UInt32.ofNat ctx.headBlockNum - multisig.endBlock ≤ 20000)
  ctx.withHandle trx.assetSymbol fun h =>
    ctx.validateLinkTrx h (decide (220000 ≤ ctx.headBlockNum)) trx

/-- `crosschain_withdraw_evaluate::do_evaluate` -/
def evaluateWithdraw (trx : SignedTransaction H) (s : State H)
    (o : CrosschainWithdraw H) : Option Unit := do
  fcAssert ((s.trxs.find trx.id).isNone = true)
  let a ← ctx.assets o.assetId
  fcAssert (a.allowWithdrawDeposit = true)
  fcAssert (((o.amount.dropWhile (· ≠ '.')).drop 1).length ≤ reg.precision o.assetId)
  ctx.withHandle o.assetSymbol fun h => do
    fcAssert (h.validateAddress o.crosschainAccount = true)
    fcAssert (trx.operations.length = 1)
    let amount ← ctx.amountFromString o.assetId o.amount
    if 480000 < ctx.headBlockNum ∧ Text.holds (reg.symbol o.assetId) erc then
      fcAssert (a.withdrawLimition < amount.amount)
    else fcAssert (a.withdrawLimition ≤ amount.amount)

def findCombine (result : HdTrx) : Option (CrosschainTrxObject H) :=
  ctx.findTrx.pick (s.trxs.rows.filter fun r =>
    decide (r.crosschainTrxId = result.resultId ∧ r.opType = .withdrawCombineSign))

/-- `crosschain_withdraw_result_evaluate::do_evaluate` -/
def evaluateResult (result : HdTrx) : Option Unit := do
  let combine ← findCombine ctx s result
  let withoutSign ← findRelated s.trxs combine
  fcAssert (1030000 < ctx.headBlockNum → isEthSeries result.assetSymbol = true →
    combine.trxState = .withdrawEthGuardSign)
  fcAssert (∀ id ∈ withoutSign.allRelatedOriginTransactionIds, (s.trxs.find id).isSome)
  fcAssert (∀ r ∈ s.acquired.find result.resultId,
    r.acquiredTransactionState = .acquiredTrxUncreate)
  ctx.withHandle result.assetSymbol fun h => ctx.validateLinkTrx h false result

/-- `crosschain_withdraw_result_evaluate::pay_fee` and `do_apply` -/
def applyResult (result : HdTrx) : Option (State H) := do
  let combine ← findCombine ctx s result
  let relate ← combine.relateTransactionId
  let withoutSign ← s.trxs.find relate
  let ledger ← s.ledger.modifyCurrentCollectedFee withoutSign.crosschainFee
  let acquired ← s.acquired.adjustCrosschainConfirmTrx result
  let trxs ← adjustResult ctx.headBlockNum relate s.trxs
  some
    { s with
      trxs := trxs
      acquired := acquired
      ledger := ledger
      trace := s.trace ++ [.counted result] }

variable [DecidableEq H] [Inhabited H]

/-- `crosschain_record_evaluate::do_apply`.  The owner is looked up by the account alone. -/
def applyRecord (ctx : Context reg H) (s : State H) (o : CrosschainRecord H) :
    Option (State H) := do
  let trx := o.crossChainTrx
  let tunnel ← ctx.findBinding.pick
    (ctx.bindings.filter fun b => decide (b.bindAccount = trx.fromAccount))
  let amount ← ctx.amountFromString o.assetId trx.amount
  let s ← s.adjustBalance tunnel.owner amount (.minted trx tunnel.owner amount)
  let acquired ← s.acquired.adjustDepositToLinkTrx trx
  { s with acquired := acquired }.addSupply o.assetId amount.amount

/-! ### `crosschain_withdraw` -/

/-- `crosschain_withdraw_evaluate::do_apply` -/
def applyWithdraw (ctx : Context reg H) (trx : SignedTransaction H) (s : State H)
    (o : CrosschainWithdraw H) : Option (State H) := do
  let amount ← ctx.amountFromString o.assetId o.amount
  let s ← s.adjustBalance o.withdrawAccount amount.neg (.debited trx.id o.withdrawAccount amount)
  let trxs ← adjustWithdraw ctx.headBlockNum trx s.trxs
  { s with trxs := trxs }.addSupply o.assetId (-amount.amount)

end

section

variable {H : Type} {reg : Registry}

/-! ### `crosschain_withdraw_without_sign` -/

/-- What the withdrawals of a batch send to one account, and the fees that are kept of it. -/
structure Tally where
  account : Text
  balance : Asset
  fees : Int

/-- Adds a withdrawal to `all_balances` and `fees_cal`. -/
def addTally (account : Text) (amount : Asset) (fee : Int) (m : Table Tally.account) :
    Option (Table Tally.account) :=
  match m.find account with
  | none => m.insert ⟨account, amount, fee⟩
  | some t => do
    let balance ← t.balance.add amount
    let fees ← share (t.fees + fee)
    some (m.modify account ⟨fun r => ⟨r.account, balance, fees⟩, fun _ => rfl⟩)

def splitBar (s : Text) : List Text := (s.splitOn '|').filter fun t => decide (t ≠ [])

variable (ctx : Context reg H)

/-- The check of a USDT transaction: it has one output for the receiver, which is dust, and
    at most one that brings the change back to a multisig account. -/
def evaluateUsdt (o : WithdrawWithoutSign) (created : CrosschainTrx) : Option Unit := do
  fcAssert (o.ccwTrxIds.length = 1)
  fcAssert (created.trxs.rows.length = 1)
  let trx ← created.trxs.rows.head?
  let parts := splitBar trx.2.fromAccount
  fcAssert (1 < parts.length ∧ parts.length ≤ 3)
  fcAssert (parts.head? ≠ some ['-'])
  let outputs := parts.drop 1
  fcAssert (∀ p ∈ outputs, ',' ∈ p ∧ ctx.usdtAmount ((p.dropWhile (· ≠ ',')).drop 1) ≠ .none)
  let isDust := fun p : Text => decide (ctx.usdtAmount ((p.dropWhile (· ≠ ',')).drop 1) = .dust)
  fcAssert (outputs.countP isDust = 1)
  let change := ((outputs.filter fun p => !isDust p).getLast?.map
    fun p => p.takeWhile (· ≠ ',')).getD []
  if change = [] then some () else do
    let _ ← ctx.getMultisgiAccount change o.assetSymbol
    some ()

def sourceForm (o : WithdrawWithoutSign) (description : Text) : SourceForm :=
  if Text.holds o.assetSymbol erc then .erc description
  else if o.assetSymbol = eth then .eth
  else if o.assetSymbol = usdt then .usdt
  else .plain

def bchPrefixed : Text := ['b', 'i', 't', 'c', 'o', 'i', 'n', 'c', 'a', 's', 'h', ':']

/-- The account on the other chain, with the form BCH accounts have since block 3700000. -/
def crosschainAccount (o : WithdrawWithoutSign) (w : CrosschainWithdraw H) : Text :=
  if 3700000 ≤ ctx.headBlockNum ∧ o.assetSymbol = bch ∧ ':' ∉ w.crosschainAccount then
    bchPrefixed ++ w.crosschainAccount
  else w.crosschainAccount

def accounted (w : CrosschainWithdraw H) : Option Asset :=
  (ctx.getAsset w.assetSymbol).bind fun id => ctx.amountFromString id w.amount

def tallyEach (ctx : Context reg H) (t : CrosschainTrxIndex H) (o : WithdrawWithoutSign)
    (created : CrosschainTrx) (fee : Int) :
    List TrxId → Table Tally.account → Option (Table Tally.account)
  | [], m => some m
  | id :: ids, m => do
    let r ← t.find id
    fcAssert (r.realTransaction.operations.length = 1)
    let w ← r.realTransaction.first.bind Operation.getWithdraw
    let account := crosschainAccount ctx o w
    let one ← created.trxs.find account
    fcAssert (one.2.toAccount = account)
    fcAssert (one.2.assetSymbol = w.assetSymbol)
    let amount ← accounted ctx w
    let m ← addTally account amount fee m
    tallyEach ctx t o created fee ids m

def checkAmounts (t : CrosschainTrxIndex H) (o : WithdrawWithoutSign)
    (id : Nat) (a : AssetObject) (created : CrosschainTrx) : Option Unit := do
  let m ← tallyEach ctx t o created a.feePool o.ccwTrxIds .empty
  fcAssert (m.rows.length = created.trxs.rows.length)
  let crossFee ← ctx.amountFromString o.assetId (created.feeText (reg.precision o.assetId))
  let totalAmount ← m.rows.foldlM (fun (sum : Int) (b : Tally) => do
    let trx ← created.trxs.find b.account
    let paid ← ctx.amountFromString id trx.2.amount
    fcAssert (b.balance.amount = paid.amount + b.fees)
    share (sum + b.balance.amount)) 0
  let totalOpAmount ← created.trxs.rows.foldlM (fun (sum : Int) (p : Text × HdTrx) => do
    let paid ← ctx.amountFromString o.assetId p.2.amount
    share (sum + paid.amount)) 0
  fcAssert (0 ≤ o.crosschainFee.amount)
  fcAssert (totalAmount = totalOpAmount + o.crosschainFee.amount + crossFee.amount)

variable (trx : SignedTransaction H) (s : State H)

/-- `crosschain_withdraw_without_sign_evaluate::do_evaluate` -/
def evaluateWithoutSign (o : WithdrawWithoutSign) : Option Unit := do
  let id ← ctx.getAsset o.assetSymbol
  let a ← ctx.assets id
  fcAssert (∀ w ∈ o.ccwTrxIds, (s.trxs.find w).isSome)
  fcAssert (∀ w ∈ o.ccwTrxIds, ∀ r ∈ s.trxs.find w,
    310000 ≤ ctx.headBlockNum → r.trxState = .withdrawWithoutSignTrxUncreate)
  fcAssert (o.assetSymbol = bch →
    VariantObject.contains o.withdrawSourceTrx ['h', 'e', 'x'] = true ∧
      VariantObject.contains o.withdrawSourceTrx ['t', 'r', 'x'] = true ∧
        ctx.bchVinsHaveAmount o.withdrawSourceTrx = true)
  fcAssert ((s.trxs.find trx.id).isNone = true)
  ctx.withHandle o.assetSymbol fun h =>
    if ctx.late then some () else do
      let created ← h.turnTrxs (sourceForm o a.description) o.withdrawSourceTrx
      if o.assetSymbol = usdt then evaluateUsdt ctx o created else some ()
      checkAmounts ctx s.trxs o id a created

/-- `crosschain_withdraw_without_sign_evaluate::do_apply` -/
def applyWithoutSign (o : WithdrawWithoutSign) : Option (State H) := do
  let t ← o.ccwTrxIds.foldlM (fun t id =>
    adjustWithoutSign ctx.headBlockNum trx o.ccwTrxIds id t) s.trxs
  let _ ← t.find trx.id
  let _ ← ctx.assets o.assetId
  { s with trxs := t.modify trx.id (setFee o.crosschainFee) }.addSupply o.assetId
    o.crosschainFee.amount

/-! ### `crosschain_withdraw_with_sign` -/

/-- `crosschain_withdraw_with_sign_evaluate::do_evaluate` -/
def evaluateWithSign (o : WithdrawWithSign H) : Option Unit := do
  let withoutSign ← s.trxs.find o.ccwTrxId
  fcAssert ((s.trxs.find trx.id).isNone = true)
  let signs := s.trxs.rows.filter (relatesTo o.ccwTrxId)
  fcAssert (∀ r ∈ signs,
    r.trxState = .withdrawWithoutSignTrxCreate ∨ r.trxState = .withdrawSignTrx)
  fcAssert (∀ r ∈ signs, r.trxState = .withdrawSignTrx →
    ∃ sign ∈ r.realTransaction.first.bind Operation.getWithSign, sign.signGuard ≠ o.signGuard)
  ctx.withHandle o.assetSymbol fun _ =>
    if ctx.late then some ()
    else fcAssert (ctx.validateSign o withoutSign.realTransaction = true)

/-- `crosschain_withdraw_with_sign_evaluate::do_apply` -/
def applyWithSign (o : WithdrawWithSign H) : Option (State H) :=
  (adjustWithSign ctx.headBlockNum o.ccwTrxId trx s.trxs).map fun t =>
    { s with trxs := t }

/-! ### `crosschain_withdraw_combine_sign` -/

def combinedBatch (o : WithdrawCombineSign) : Option TrxId :=
  (o.signedTrxIds.head?.bind s.trxs.find).bind CrosschainTrxObject.relateTransactionId

/-- `crosschain_withdraw_combine_sign_evaluate::do_evaluate` -/
def evaluateCombineSign (o : WithdrawCombineSign) : Option Unit := do
  let relate ← combinedBatch s o
  let withoutSign ← s.trxs.find relate
  fcAssert ((s.trxs.find trx.id).isNone = true)
  fcAssert (∀ id ∈ withoutSign.allRelatedOriginTransactionIds, (s.trxs.find id).isSome)
  fcAssert (∀ id ∈ withoutSign.allRelatedOriginTransactionIds, ∀ r ∈ s.trxs.find id,
    480000 < ctx.headBlockNum → r.trxState = .withdrawWithoutSignTrxCreate)
  fcAssert (isEthSeries o.assetSymbol = true → 680000 < ctx.headBlockNum →
    VariantObject.contains o.crossChainTrx
        ['w', 'i', 't', 'h', 'o', 'u', 't', '_', 's', 'i', 'g', 'n'] = true ∧
      VariantObject.contains o.crossChainTrx ['s', 'i', 'g', 'n', 'e', 'r'] = true)
  fcAssert (trx.operations.length = 1)

/-- `crosschain_withdraw_combine_sign_evaluate::do_apply` -/
def applyCombineSign (o : WithdrawCombineSign) : Option (State H) := do
  let relate ← combinedBatch s o
  let t ← adjustCombineSign ctx.headBlockNum relate trx s.trxs
  some { s with trxs := t }

end

variable {H : Type} {reg : Registry}

/-! ### What the decisions check -/

def withoutSignOf (r : CrosschainTrxObject H) : Option WithdrawWithoutSign :=
  r.realTransaction.first.bind Operation.getWithoutSign

def withdrawOf (r : CrosschainTrxObject H) : Option (CrosschainWithdraw H) :=
  r.realTransaction.first.bind Operation.getWithdraw

variable (ctx : Context reg H)

def checkSources (t : CrosschainTrxIndex H) (op : WithdrawWithoutSign) : Option Unit := do
  let _ ← ctx.assets op.assetId
  fcAssert (op.assetSymbol = reg.symbol op.assetId)
  fcAssert (∀ id ∈ op.ccwTrxIds, ∃ r ∈ t.find id, r.realTransaction.operations.length = 1 ∧
    ∃ source ∈ withdrawOf r, op.assetSymbol = source.assetSymbol ∧ op.assetId = source.assetId)

/-- The transaction is in a block that is at least 720 blocks old. -/
def oldEnough (id : TrxId) : Option Unit := do
  let blockNum ← ctx.fetchTrx id
  fcAssert (blockNum + 720 < ctx.headBlockNum)

def checkBatch (s : State H) (r : CrosschainTrxObject H) : Option Unit := do
  let withoutSign ← findRelated s.trxs r
  fcAssert (withoutSign.realTransaction.operations.length = 1)
  let op ← withoutSignOf withoutSign
  checkSources ctx s.trxs op

/-- `senator_pass_success_trx_evaluate::do_apply` -/
def applyPassSuccessTrx (s : State H) (o : GuardDecision H) : Option (State H) := do
  let r ← s.trxs.find o.trxId
  let batch ← r.relateTransactionId
  let withoutSign ← s.trxs.find batch
  let op ← withoutSignOf withoutSign
  let confirm := setState .withdrawTransactionConfirm ctx.headBlockNum
  let t₁ := s.trxs.modifyWhere (relatesTo batch) confirm
  let t₂ := t₁.modifyEach op.ccwTrxIds confirm
  some { s with trxs := (t₂.modify o.trxId confirm).modify batch confirm }

/-- `eths_cancel_unsigned_transaction_evaluator::do_apply` -/
def applyCancelUnsigned (s : State H) (o : GuardDecision H) : Option (State H) := do
  let r ← s.trxs.find o.trxId
  let batch ← r.relateTransactionId
  let withoutSign ← s.trxs.find batch
  let op ← withoutSignOf withoutSign
  let t₁ := s.trxs.modifyWhere (relatesTo batch) (resetState .withdrawSignTrx)
  let t₂ := t₁.modifyEach op.ccwTrxIds (resetState .withdrawWithoutSignTrxCreate)
  let t₃ := t₂.modify batch (resetState .withdrawWithoutSignTrxCreate)
  some { s with trxs := t₃.erase o.trxId }

variable [DecidableEq H]

def namedRecord (ctx : Context reg H) (s : State H) (permanent : Bool) (st : TransactionStata)
    (o : GuardDecision H) : Option (CrosschainTrxObject H) := do
  let g ← ctx.guardMember o.guardId
  fcAssert (permanent = true → g.permanent = true)
  fcAssert (ctx.accountAddr g.guardMemberAccount = some o.guardAddress)
  let r ← s.trxs.find o.trxId
  fcAssert (r.trxState = st)
  fcAssert (r.realTransaction.operations.length = 1)
  some r

theorem namedRecord_eq {ctx : Context reg H} {s : State H} {permanent : Bool}
    {st : TransactionStata} {o : GuardDecision H} {r : CrosschainTrxObject H}
    (h : namedRecord ctx s permanent st o = some r) :
    s.trxs.find o.trxId = some r ∧ r.trxState = st := by
  simp only [namedRecord, Option.bind_eq_bind, Option.bind_eq_some_iff, fcAssert_eq_some] at h
  obtain ⟨_, _, _, _, _, _, r', hr, _, hst, _, _, heq⟩ := h
  cases heq
  exact ⟨hr, hst⟩

/-! ### Refunds -/

/-- `guard_refund_balance_evaluator::do_evaluate`.  The set of the signers is searched with
    `operator<`, which compares hashes. -/
def evaluateRefundBalance (s : State H) (o : GuardRefundBalance H) : Option Unit := do
  let r ← s.trxs.find o.txid
  fcAssert (r.trxState = .withdrawWithoutSignTrxUncreate)
  fcAssert (r.realTransaction.operations.length = 1)
  let _ ← withdrawOf r
  fcAssert (∃ a ∈ r.realTransaction.signers, a.addr = o.refundAddr.addr)

/-- `guard_refund_crosschain_trx_evaluator::do_evaluate` -/
def evaluateRefundCrosschainTrx (ctx : Context reg H) (s : State H) (o : GuardDecision H) :
    Option Unit := do
  let r ← namedRecord ctx s false .withdrawWithoutSignTrxCreate o
  let op ← withoutSignOf r
  checkSources ctx s.trxs op

/-- `guard_cancel_combine_trx_evaluator::do_evaluate` -/
def evaluateCancelCombineTrx (ctx : Context reg H) (s : State H) (o : GuardDecision H) :
    Option Unit := do
  let r ← namedRecord ctx s true .withdrawCombineTrxCreate o
  oldEnough ctx o.trxId
  checkBatch ctx s r

/-- `eth_cancel_fail_crosschain_trx_evaluate::do_evaluate`.  It does not ask how many
    operations the transaction of the batch has. -/
def evaluateCancelFail (ctx : Context reg H) (s : State H) (o : GuardDecision H) :
    Option Unit := do
  let r ← namedRecord ctx s true .withdrawEthGuardSign o
  oldEnough ctx o.trxId
  let signFinal ← r.realTransaction.first.bind Operation.getSignFinal
  let withoutSign ← findRelated s.trxs r
  let op ← withoutSignOf withoutSign
  fcAssert (isEthSeries op.assetSymbol = true)
  checkSources ctx s.trxs op
  ctx.withHandle signFinal.chainType fun h =>
    fcAssert (h.failed (beforeBar signFinal.signedCrosschainTrxId) = true)

variable [Inhabited H]

/-- `guard_refund_balance_evaluator::do_apply` -/
def applyRefundBalance (ctx : Context reg H) (s : State H) (o : GuardRefundBalance H) :
    Option (State H) := do
  let r ← s.trxs.find o.txid
  let w ← withdrawOf r
  let amount ← ctx.amountFromString w.assetId w.amount
  let s ← s.adjustBalance o.refundAddr amount (.refunded o.txid o.refundAddr amount)
  let t := s.trxs.modify o.txid (setState .withdrawCanceled ctx.headBlockNum)
  { s with trxs := t }.addSupply w.assetId amount.amount

def refundSources (ctx : Context reg H) (assetId : Nat) : List TrxId → State H → Option (State H)
  | [], s => some s
  | id :: ids, s => do
    let r ← s.trxs.find id
    let w ← withdrawOf r
    let amount ← ctx.amountFromString assetId w.amount
    let refund : Asset := ⟨amount.amount, w.assetId⟩
    let s ← s.adjustBalance w.withdrawAccount refund (.refunded id w.withdrawAccount refund)
    let t := s.trxs.modify id (setState .withdrawCanceled ctx.headBlockNum)
    let s ← { s with trxs := t }.addSupply assetId amount.amount
    refundSources ctx assetId ids s

/-- The `do_apply` of the refunds of a batch: the records that belong to the batch, the
    withdrawals, the record that was named and the batch itself are cancelled. -/
def cancelBatch (ctx : Context reg H) (s : State H) (named batch : TrxId) : Option (State H) := do
  let withoutSign ← s.trxs.find batch
  let op ← withoutSignOf withoutSign
  let cancel := setState .withdrawCanceled ctx.headBlockNum
  let s ← refundSources ctx op.assetId op.ccwTrxIds
    { s with trxs := s.trxs.modifyWhere (relatesTo batch) cancel }
  { s with trxs := (s.trxs.modify named cancel).modify batch cancel }.addSupply op.assetId
    (-op.crosschainFee.amount)

/-- `guard_refund_crosschain_trx_evaluator::do_apply` -/
def applyRefundCrosschainTrx (ctx : Context reg H) (s : State H) (o : GuardDecision H) :
    Option (State H) :=
  cancelBatch ctx s o.trxId o.trxId

/-- `guard_cancel_combine_trx_evaluator::do_apply` and
    `eth_cancel_fail_crosschain_trx_evaluate::do_apply` -/
def applyCancelRelated (ctx : Context reg H) (s : State H) (o : GuardDecision H) :
    Option (State H) := do
  let r ← s.trxs.find o.trxId
  let batch ← r.relateTransactionId
  cancelBatch ctx s o.trxId batch

omit [Inhabited H]

/-! ### Passing and taking back -/

/-- `senator_pass_success_trx_evaluate::do_evaluate` -/
def evaluatePassSuccessTrx (ctx : Context reg H) (s : State H) (o : GuardDecision H) :
    Option Unit := do
  fcAssert (220000 ≤ ctx.headBlockNum)
  let r ← namedRecord ctx s true .withdrawCombineTrxCreate o
  let _ ← r.realTransaction.first.bind Operation.getCombineSign
  checkBatch ctx s r

/-- `eths_cancel_unsigned_transaction_evaluator::do_evaluate` -/
def evaluateCancelUnsigned (ctx : Context reg H) (s : State H) (o : GuardDecision H) :
    Option Unit := do
  let r ← namedRecord ctx s true .withdrawEthGuardNeedSign o
  let _ ← r.realTransaction.first.bind Operation.getCombineSign
  oldEnough ctx o.trxId
  checkBatch ctx s r

end HyperExchange.Crosschain
