/-
  **The records of withdrawals and deposits, and how they change**
  (`db_crosschain_trx.cpp`).

  A withdrawal passes through several transactions of the local chain, each of which leaves a
  `crosschain_trx_object`: the withdrawal, the batch (`without_sign`), the signatures of the
  senators (`with_sign`), the combined transaction (`combine_sign`) and, for the Ethereum
  series, the final signature.  They are linked by `relate_transaction_id`.  Transactions of
  the other chain that were seen are `acquired_crosschain_trx_object`s.

  `adjust_crosschain_transaction` is one function with a branch for each kind of operation;
  here every branch is a function.  `transaction_id_type()` is `none` where an object may
  hold it.  The trace has what was taken from and given to users.
-/
import HyperExchange.KeyedTable
import HyperExchange.Ledger

namespace HyperExchange.Crosschain

open Keyed Fees

section

abbrev Text := List Char

abbrev TrxId := Nat

/-- `fc::variant_object`; a nested value is its JSON text. -/
abbrev VariantObject := List (Text × Text)

def VariantObject.contains (v : VariantObject) (k : Text) : Bool := v.any fun p => decide (p.1 = k)

/-! ### Texts -/

def eth : Text := ['E', 'T', 'H']
def erc : Text := ['E', 'R', 'C']
def bch : Text := ['B', 'C', 'H']
def usdt : Text := ['U', 'S', 'D', 'T']

/-- `s.find(t) != s.npos` -/
def Text.holds (s t : Text) : Bool := s.tails.any fun u => t.isPrefixOf u

/-- `symbol == "ETH" || symbol.find("ERC") != symbol.npos` -/
def isEthSeries (symbol : Text) : Bool := decide (symbol = eth) || Text.holds symbol erc

/-- What follows the first `|`, or the whole text when there is none. -/
def afterBar (s : Text) : Text := if '|' ∈ s then (s.dropWhile (· ≠ '|')).drop 1 else s

/-- What stands before the first `|`. -/
def beforeBar (s : Text) : Text := s.takeWhile (· ≠ '|')

/-! ### Amounts -/

/-- `std::stoll`: a sign and the digits that follow; it throws when there are none or when
    the number does not fit. -/
def stoll (s : Text) : Option Int :=
  let (negative, t) := match s with
    | '-' :: t => (true, t)
    | t => (false, t)
  let digits := t.takeWhile Char.isDigit
  if digits = [] then none
  else
    let n : Int := digits.foldl (fun n c => n * 10 + (c.toNat - '0'.toNat : Nat)) 0
    share (if negative then -n else n)

/-- `asset::scaled_precision` -/
def scaledPrecision (precision : Nat) : Option Int :=
  if precision < 19 then some (10 ^ precision) else none

/-- What stands before the point.  A `-` may stand anywhere; one character is skipped for it. -/
def wholePart (scaled : Int) (s : Text) : Option Int :=
  let lhs := (s.drop (if '-' ∈ s then 1 else 0)).take (s.idxOf '.')
  if lhs = [] then some 0 else (stoll lhs).bind fun n => share (n * scaled)

def fractionPart (precision : Nat) (s : Text) : Option Int :=
  if '.' ∈ s then
    let rhs := (s.drop (s.idxOf '.' + 1)).take precision
    let filled := rhs ++ List.replicate (precision - rhs.length) '0'
    if filled = [] then some 0 else stoll filled
  else some 0

/-- `asset_object::amount_from_string` -/
def amountFromString (precision : Nat) (maxSupply : Int) (s : Text) : Option Int :=
  if (s.all fun c => c.isDigit || decide (c = '-') || decide (c = '.')) && s.count '-' ≤ 1 &&
      s.count '.' ≤ 1 then
    (scaledPrecision precision).bind fun scaled =>
      (wholePart scaled s).bind fun whole =>
        (fractionPart precision s).bind fun fraction =>
          (share (whole + fraction)).bind fun satoshis =>
            if satoshis ≤ maxSupply then some (if '-' ∈ s then -satoshis else satoshis) else none
  else none

example : amountFromString 8 (10 ^ 15) ['1', '.', '5'] = some 150000000 := by decide +kernel
example : amountFromString 2 (10 ^ 15) ['-', '3'] = some (-300) := by decide +kernel

/-! ### Operations -/

/-- `hd_trx`: a transaction of another chain. -/
structure HdTrx where
  trxId : Text
  fromAccount : Text
  toAccount : Text
  amount : Text
  assetSymbol : Text
deriving DecidableEq

variable {H : Type}

/-- `crosschain_record_operation`: a deposit. -/
structure CrosschainRecord (H : Type) where
  crossChainTrx : HdTrx
  depositAddress : Address H
  assetId : Nat
deriving DecidableEq

structure CrosschainWithdraw (H : Type) where
  withdrawAccount : Address H
  amount : Text
  assetSymbol : Text
  assetId : Nat
  crosschainAccount : Text
deriving DecidableEq

structure WithdrawWithoutSign where
  ccwTrxIds : List TrxId
  withdrawSourceTrx : VariantObject
  assetSymbol : Text
  assetId : Nat
  crosschainFee : Asset
deriving DecidableEq

structure WithdrawWithSign (H : Type) where
  ccwTrxId : TrxId
  withdrawSourceTrx : VariantObject
  signGuard : Nat
  assetSymbol : Text
  guardAddress : Address H
  ccwTrxSignature : Text
deriving DecidableEq

structure WithdrawCombineSign where
  crossChainTrx : VariantObject
  signedTrxIds : List TrxId
  assetSymbol : Text
  crosschainTrxId : Text
deriving DecidableEq

structure GuardRefundBalance (H : Type) where
  refundAddr : Address H
  txid : TrxId
  fee : Asset
deriving DecidableEq

/-- The operations by which a senator decides about one transaction. -/
structure GuardDecision (H : Type) where
  guardAddress : Address H
  guardId : Nat
  trxId : TrxId
  fee : Asset
deriving DecidableEq

/-- `eths_guard_sign_final_operation` and `eths_guard_change_signer_operation` -/
structure EthsGuardSign where
  guardToSign : Nat
  combineTrxId : TrxId
  signedCrosschainTrx : Text
  signedCrosschainTrxId : Text
  chainType : Text
deriving DecidableEq

inductive Operation (H : Type) where
  | crosschainRecord (o : CrosschainRecord H)
  | crosschainWithdraw (o : CrosschainWithdraw H)
  | withdrawWithoutSign (o : WithdrawWithoutSign)
  | withdrawWithSign (o : WithdrawWithSign H)
  | withdrawCombineSign (o : WithdrawCombineSign)
  | withdrawResult (crossChainTrx : HdTrx)
  | guardRefundBalance (o : GuardRefundBalance H)
  | guardRefundCrosschainTrx (o : GuardDecision H)
  | guardCancelCombineTrx (o : GuardDecision H)
  | senatorPassSuccessTrx (o : GuardDecision H)
  | ethsCancelUnsignedTransaction (o : GuardDecision H)
  | ethCancelFailCrosschainTrx (o : GuardDecision H)
  | senatorChangeAcquireTrx (o : GuardDecision H)
  | ethsGuardSignFinal (o : EthsGuardSign)
  | ethsGuardChangeSigner (o : EthsGuardSign)
  /-- An operation that touches none of the objects here. -/
  | other
deriving DecidableEq

/-- The kinds of operations that leave a `crosschain_trx_object`. -/
inductive OpType where
  | crosschainWithdraw
  | withdrawWithoutSign
  | withdrawWithSign
  | withdrawCombineSign
  | ethsGuardSignFinal
  | ethsGuardChangeSigner
deriving DecidableEq

/-- `operation.get<...>()`, which throws when the operation is of another kind. -/
def Operation.getWithdraw : Operation H → Option (CrosschainWithdraw H)
  | .crosschainWithdraw o => some o
  | _ => none

@[inherit_doc Operation.getWithdraw]
def Operation.getWithoutSign : Operation H → Option WithdrawWithoutSign
  | .withdrawWithoutSign o => some o
  | _ => none

@[inherit_doc Operation.getWithdraw]
def Operation.getWithSign : Operation H → Option (WithdrawWithSign H)
  | .withdrawWithSign o => some o
  | _ => none

@[inherit_doc Operation.getWithdraw]
def Operation.getCombineSign : Operation H → Option WithdrawCombineSign
  | .withdrawCombineSign o => some o
  | _ => none

@[inherit_doc Operation.getWithdraw]
def Operation.getSignFinal : Operation H → Option EthsGuardSign
  | .ethsGuardSignFinal o => some o
  | _ => none

@[inherit_doc Operation.getWithdraw]
def Operation.getChangeSigner : Operation H → Option EthsGuardSign
  | .ethsGuardChangeSigner o => some o
  | _ => none

/-- `signed_transaction`; `signers` are the addresses of its signature keys. -/
structure SignedTransaction (H : Type) where
  id : TrxId
  operations : List (Operation H)
  signers : List (Address H)
deriving DecidableEq

/-- `real_transaction.operations[0]` -/
def SignedTransaction.first (t : SignedTransaction H) : Option (Operation H) := t.operations.head?

/-! ### Objects -/

inductive TransactionStata where
  | withdrawWithoutSignTrxUncreate
  | withdrawWithoutSignTrxCreate
  | withdrawSignTrx
  | withdrawCombineTrxCreate
  | withdrawTransactionConfirm
  | withdrawTransactionFail
  | withdrawCanceled
  | withdrawEthGuardNeedSign
  | withdrawEthGuardSign
deriving DecidableEq

structure CrosschainTrxObject (H : Type) where
  relateTransactionId : Option TrxId
  transactionId : TrxId
  allRelatedOriginTransactionIds : List TrxId
  realTransaction : SignedTransaction H
  opType : OpType
  trxState : TransactionStata
  crosschainTrxId : Text
  crosschainFee : Asset
  blockNum : Nat
  symbol : Text
deriving DecidableEq

/-- `crosschain_trx_index`, by transaction id. -/
abbrev CrosschainTrxIndex (H : Type) :=
  Table (CrosschainTrxObject.transactionId : CrosschainTrxObject H → TrxId)

/-- `trx_db.find(relate_transaction_id)` -/
def CrosschainTrxIndex.findRelated (t : CrosschainTrxIndex H) (r : CrosschainTrxObject H) :
    Option (CrosschainTrxObject H) :=
  r.relateTransactionId.bind t.find

inductive AcquiredTrxState where
  | acquiredTrxUncreate
  | acquiredTrxCreate
  | acquiredTrxComfirmed
  | acquiredTrxDepositFailure
deriving DecidableEq

structure AcquiredCrosschainTrxObject where
  handleTrx : HdTrx
  handleTrxId : Text
  acquiredTransactionState : AcquiredTrxState
deriving DecidableEq

abbrev AcquiredCrosschainIndex := Table AcquiredCrosschainTrxObject.handleTrxId

end

variable {H : Type}

/-! ### The state -/

/-- What happened to a user's balance because of another chain. -/
inductive Entry (H : Type) where
  /-- A withdrawal took the amount from the account. -/
  | debited (withdrawal : TrxId) (account : Address H) (amount : Asset)
  /-- The amount was given back for a withdrawal. -/
  | refunded (withdrawal : TrxId) (account : Address H) (amount : Asset)
  /-- A deposit was credited for a transaction of another chain. -/
  | minted (trx : HdTrx) (account : Address H) (amount : Asset)
  /-- A transaction of another chain was counted as the result of withdrawals. -/
  | counted (trx : HdTrx)
deriving DecidableEq

structure State (H : Type) where
  trxs : CrosschainTrxIndex H
  acquired : AcquiredCrosschainIndex
  ledger : Ledger H
  /-- `asset_dynamic_data_object::current_supply` -/
  currentSupply : Nat → Int
  trace : List (Entry H)

/-- `d.current_supply += amount` -/
def State.addSupply (assetId : Nat) (amount : Int) (s : State H) : Option (State H) :=
  (share (s.currentSupply assetId + amount)).map fun n =>
    { s with currentSupply := fun a => if a = assetId then n else s.currentSupply a }

variable [DecidableEq H] [Inhabited H]

/-- What `evaluator::apply` does after `do_apply`, with `generic_evaluator::pay_fee`: a fee in
    the core asset is taken from the payer, and a fee in any asset is collected. -/
def State.payFee (payer : Address H) (fee : Asset) (s : State H) : Option (State H) :=
  let taken :=
    if fee.assetId = coreAsset then s.ledger.adjustBalance payer fee.neg else some s.ledger
  (taken.bind (Ledger.modifyCurrentCollectedFee fee)).map fun l => { s with ledger := l }

/-- `adjust_balance`, with the entry that is kept of it. -/
def State.adjustBalance (account : Address H) (delta : Asset) (e : Entry H) (s : State H) :
    Option (State H) :=
  (s.ledger.adjustBalance account delta).map fun l =>
    { s with ledger := l, trace := s.trace ++ [e] }

/-! ### Editing records -/

abbrev TrxEdit (H : Type) :=
  Edit (CrosschainTrxObject.transactionId : CrosschainTrxObject H → TrxId)

omit [DecidableEq H] [Inhabited H]

variable (st : TransactionStata)

def setState (blockNum : Nat) : TrxEdit H :=
  ⟨fun r => { r with trxState := st, blockNum := blockNum }, fun _ => rfl⟩

def setStateAndId (crosschainTrxId : Text) (blockNum : Nat) : TrxEdit H :=
  ⟨fun r => { r with trxState := st, crosschainTrxId := crosschainTrxId, blockNum := blockNum },
    fun _ => rfl⟩

/-- Sets the state and leaves `block_num` as it is. -/
def resetState : TrxEdit H :=
  ⟨fun r => { r with trxState := st }, fun _ => rfl⟩

def setFee (fee : Asset) : TrxEdit H := ⟨fun r => { r with crosschainFee := fee }, fun _ => rfl⟩

/-- The records of `by_relate_trx_id.equal_range(id)`. -/
def relatesTo (id : TrxId) (r : CrosschainTrxObject H) : Bool :=
  decide (r.relateTransactionId = some id)

namespace CrosschainTrxIndex

/-! ### `adjust_crosschain_transaction` -/

/-- The branch of `crosschain_withdraw_operation`. -/
def adjustWithdraw (blockNum : Nat) (trx : SignedTransaction H) (t : CrosschainTrxIndex H) :
    Option (CrosschainTrxIndex H) :=
  (trx.first.bind Operation.getWithdraw).bind fun op =>
    t.insert
      { relateTransactionId := none
        transactionId := trx.id
        allRelatedOriginTransactionIds := []
        realTransaction := trx
        opType := .crosschainWithdraw
        trxState := .withdrawWithoutSignTrxUncreate
        crosschainTrxId := []
        crosschainFee := ⟨0, coreAsset⟩
        blockNum := blockNum
        symbol := op.assetSymbol }

/-- The branch of `crosschain_withdraw_without_sign_operation`, which is called for each
    withdrawal of the batch: the first call adds the record of the batch. -/
def adjustWithoutSign (blockNum : Nat) (trx : SignedTransaction H) (ids : List TrxId) (id : TrxId)
    (t : CrosschainTrxIndex H) : Option (CrosschainTrxIndex H) :=
  (t.find id).bind fun withdraw =>
    let t' := t.modify id (setState .withdrawWithoutSignTrxCreate blockNum)
    if (t.find trx.id).isSome then some t'
    else t'.insert
      { relateTransactionId := some id
        transactionId := trx.id
        allRelatedOriginTransactionIds := ids
        realTransaction := trx
        opType := .withdrawWithoutSign
        trxState := .withdrawWithoutSignTrxCreate
        crosschainTrxId := []
        crosschainFee := ⟨0, coreAsset⟩
        blockNum := blockNum
        symbol := withdraw.symbol }

def combinedState (assetSymbol : Text) : TransactionStata :=
  if isEthSeries assetSymbol then .withdrawEthGuardNeedSign else .withdrawCombineTrxCreate

/-- The branch of `crosschain_withdraw_combine_sign_operation`; `relate` is the batch. -/
def adjustCombineSign (blockNum : Nat) (relate : TrxId) (trx : SignedTransaction H)
    (t : CrosschainTrxIndex H) : Option (CrosschainTrxIndex H) :=
  (trx.first.bind Operation.getCombineSign).bind fun op =>
    (t.find relate).bind fun withoutSign =>
      let st := combinedState op.assetSymbol
      let t₁ := t.modify relate (setState st blockNum)
      let t₂ := t₁.modifyEach withoutSign.allRelatedOriginTransactionIds
        (setStateAndId st op.crosschainTrxId blockNum)
      let t₃ := t₂.modifyWhere
        (fun r => relatesTo relate r && decide (r.trxState = .withdrawSignTrx))
        (setState st blockNum)
      t₃.insert
        { relateTransactionId := some relate
          transactionId := trx.id
          allRelatedOriginTransactionIds := []
          realTransaction := trx
          opType := .withdrawCombineSign
          trxState := st
          crosschainTrxId := op.crosschainTrxId
          crosschainFee := ⟨0, coreAsset⟩
          blockNum := blockNum
          symbol := op.assetSymbol }

/-- The branch of `crosschain_withdraw_with_sign_operation`. -/
def adjustWithSign (blockNum : Nat) (relate : TrxId) (trx : SignedTransaction H)
    (t : CrosschainTrxIndex H) : Option (CrosschainTrxIndex H) :=
  (t.find relate).bind fun withoutSign =>
    t.insert
      { relateTransactionId := some relate
        transactionId := trx.id
        allRelatedOriginTransactionIds := []
        realTransaction := trx
        opType := .withdrawWithSign
        trxState := .withdrawSignTrx
        crosschainTrxId := []
        crosschainFee := ⟨0, coreAsset⟩
        blockNum := blockNum
        symbol := withoutSign.symbol }

/-- The branch of `crosschain_withdraw_result_operation`; `relate` is the batch. -/
def adjustResult (blockNum : Nat) (relate : TrxId) (t : CrosschainTrxIndex H) :
    Option (CrosschainTrxIndex H) :=
  (t.find relate).bind fun withoutSign =>
    let ids := withoutSign.allRelatedOriginTransactionIds
    if ids.all fun id => (t.find id).isSome then
      let t₁ := t.modify relate (setState .withdrawTransactionConfirm blockNum)
      let t₂ := t₁.modifyEach ids (setState .withdrawTransactionConfirm blockNum)
      some (t₂.modifyWhere
        (fun r => relatesTo relate r && (decide (r.trxState = .withdrawCombineTrxCreate) ||
          decide (r.trxState = .withdrawEthGuardSign)))
        (setState .withdrawTransactionConfirm blockNum))
    else none

/-- The branches of `eths_guard_sign_final_operation` and
    `eths_guard_change_signer_operation`, which differ in the kind of operation only.  The
    operation is the first one of the transaction; `combineId` is named by the caller. -/
def adjustGuardSign (blockNum : Nat) (opType : OpType) (get : Operation H → Option EthsGuardSign)
    (combineId : TrxId) (trx : SignedTransaction H) (t : CrosschainTrxIndex H) :
    Option (CrosschainTrxIndex H) :=
  (t.find combineId).bind fun combine =>
    combine.relateTransactionId.bind fun relate =>
      (t.find relate).bind fun withoutSign =>
        (trx.first.bind get).bind fun op =>
          let signedTrxid := afterBar op.signedCrosschainTrxId
          let signed := setStateAndId .withdrawEthGuardSign signedTrxid blockNum
          let t₁ := t.modify combineId signed
          let t₂ := t₁.modify relate (setState .withdrawEthGuardSign blockNum)
          let t₃ := t₂.modifyEach withoutSign.allRelatedOriginTransactionIds signed
          let t₄ := t₃.modifyWhere
            (fun r => relatesTo relate r && decide (r.trxState = .withdrawEthGuardNeedSign)) signed
          t₄.insert
            { relateTransactionId := some relate
              transactionId := trx.id
              allRelatedOriginTransactionIds := []
              realTransaction := trx
              opType := opType
              trxState := .withdrawEthGuardSign
              crosschainTrxId := signedTrxid
              crosschainFee := ⟨0, coreAsset⟩
              blockNum := blockNum
              symbol := op.chainType }

end CrosschainTrxIndex

/-! ### Transactions of other chains -/

def setAcquired (st : AcquiredTrxState) : Edit AcquiredCrosschainTrxObject.handleTrxId :=
  ⟨fun r => { r with acquiredTransactionState := st }, fun _ => rfl⟩

def AcquiredCrosschainIndex.put (handled : HdTrx) (id : Text) (st : AcquiredTrxState)
    (t : AcquiredCrosschainIndex) : Option AcquiredCrosschainIndex :=
  if (t.find id).isSome then some (t.modify id (setAcquired st))
  else t.insert { handleTrx := handled, handleTrxId := id, acquiredTransactionState := st }

/-- `adjust_deposit_to_link_trx` -/
def AcquiredCrosschainIndex.adjustDepositToLinkTrx (handled : HdTrx) (t : AcquiredCrosschainIndex) :
    Option AcquiredCrosschainIndex :=
  t.put handled handled.trxId .acquiredTrxCreate

def HdTrx.resultId (t : HdTrx) : Text :=
  if isEthSeries t.assetSymbol then afterBar t.trxId else t.trxId

/-- `adjust_crosschain_confirm_trx` -/
def AcquiredCrosschainIndex.adjustCrosschainConfirmTrx (handled : HdTrx)
    (t : AcquiredCrosschainIndex) : Option AcquiredCrosschainIndex :=
  t.put handled handled.resultId .acquiredTrxComfirmed

end HyperExchange.Crosschain
