/-
  **Transfers between the cold and the hot account of a chain: operations, objects and how
  they change** (`coldhot_withdraw.hpp`, `coldhot_transfer_object.hpp`,
  `db_coldhot_trx.cpp`).

  The stages are those of withdrawals: the transfer, the transaction that is built for it
  (`without_sign`), the signatures (`with_sign`), the combined transaction (`combine_sign`)
  and, for the Ethereum series, a final signature.  Where a branch of
  `adjust_coldhot_transaction` reads through an iterator at `end()` the behaviour is
  undefined, and the branch has no result here.
-/
import HyperExchange.CrosschainEvaluators

namespace HyperExchange.Coldhot

open Keyed Crosschain

variable {H : Type}

/-! ### Operations -/

/-- `coldhot_transfer_operation` -/
structure Transfer where
  multiAccountWithdraw : Text
  multiAccountDeposit : Text
  amount : Text
  assetSymbol : Text
  assetId : Nat
deriving DecidableEq

structure TransferWithoutSign where
  coldhotTrxId : TrxId
  coldhotTrxOriginalChain : VariantObject
  withdrawAccountCount : Int
  assetSymbol : Text
deriving DecidableEq

structure TransferWithSign (H : Type) where
  coldhotTrxId : TrxId
  coldhotTrxOriginalChain : VariantObject
  signGuard : Nat
  assetSymbol : Text
  guardAddress : Address H
  coldhotTransferSign : Text
deriving DecidableEq

structure TransferCombineSign where
  coldhotTrxOriginalChain : VariantObject
  signedTrxIds : List TrxId
  coldhotTransferTrxId : TrxId
  assetSymbol : Text
  originalTrxId : Text
deriving DecidableEq

/-- The operations by which a senator decides about one transaction. -/
structure Decision where
  guardId : Nat
  trxId : TrxId
deriving DecidableEq

inductive Operation (H : Type) where
  | transfer (o : Transfer)
  | transferWithoutSign (o : TransferWithoutSign)
  | transferWithSign (o : TransferWithSign H)
  | transferCombineSign (o : TransferCombineSign)
  | transferResult (coldhotTrxOriginalChain : HdTrx)
  | cancelTransferTransaction (o : Decision)
  | cancelUncombinedTrx (o : Decision)
  | cancelCombinedTrx (o : Decision)
  | passCombineTrx (o : Decision)
  | ethCancelColdhotFailTrx (o : Decision)
  | ethsColdhotGuardSignFinal (o : EthsGuardSign)
  | ethsGuardColdhotChangeSigner (o : EthsGuardSign)
  /-- An operation that touches none of the objects here. -/
  | other
deriving DecidableEq

/-- The kinds of operations that leave a `coldhot_transfer_object`. -/
inductive OpType where
  | transfer
  | transferWithoutSign
  | transferWithSign
  | transferCombineSign
  | cancelTransferTransaction
  | cancelUncombinedTrx
  | cancelCombinedTrx
  | ethCancelColdhotFailTrx
  | ethsColdhotGuardSignFinal
  | ethsGuardColdhotChangeSigner
deriving DecidableEq

/-- `operation.get<...>()`, which throws when the operation is of another kind. -/
def Operation.getTransfer : Operation H → Option Transfer
  | .transfer o => some o
  | _ => none

@[inherit_doc Operation.getTransfer]
def Operation.getWithoutSign : Operation H → Option TransferWithoutSign
  | .transferWithoutSign o => some o
  | _ => none

@[inherit_doc Operation.getTransfer]
def Operation.getWithSign : Operation H → Option (TransferWithSign H)
  | .transferWithSign o => some o
  | _ => none

@[inherit_doc Operation.getTransfer]
def Operation.getCombineSign : Operation H → Option TransferCombineSign
  | .transferCombineSign o => some o
  | _ => none

@[inherit_doc Operation.getTransfer]
def Operation.getSignFinal : Operation H → Option EthsGuardSign
  | .ethsColdhotGuardSignFinal o => some o
  | _ => none

@[inherit_doc Operation.getTransfer]
def Operation.getChangeSigner : Operation H → Option EthsGuardSign
  | .ethsGuardColdhotChangeSigner o => some o
  | _ => none

structure SignedTransaction (H : Type) where
  id : TrxId
  operations : List (Operation H)
deriving DecidableEq

/-- `current_trx.operations[0]` -/
def SignedTransaction.first (t : SignedTransaction H) : Option (Operation H) := t.operations.head?

/-! ### Objects -/

inductive ColdhotTrxState where
  | coldhotWithoutSignTrxUncreate
  | coldhotWithoutSignTrxCreate
  | coldhotSignTrx
  | coldhotCombineTrxCreate
  | coldhotTransactionConfirm
  | coldhotTransactionFail
  | coldhotEthGuardNeedSign
  | coldhotEthGuardSign
deriving DecidableEq

/-- `coldhot_transfer_object` -/
structure TransferObject (H : Type) where
  relateTrxId : Option TrxId
  currentId : TrxId
  currentTrx : SignedTransaction H
  originalTrxId : Text
  opType : OpType
  curretTrxState : ColdhotTrxState
  blockNum : Nat
  symbol : Text
deriving DecidableEq

/-- `coldhot_transfer_index`, by transaction id. -/
abbrev TransferIndex (H : Type) := Table (TransferObject.currentId : TransferObject H → TrxId)

/-- The records of `by_relate_trx_id.equal_range(id)`. -/
def relatesTo (id : TrxId) (r : TransferObject H) : Bool := decide (r.relateTrxId = some id)

abbrev TransferEdit (H : Type) := Edit (TransferObject.currentId : TransferObject H → TrxId)

def setState (st : ColdhotTrxState) (blockNum : Nat) : TransferEdit H :=
  ⟨fun r => { r with curretTrxState := st, blockNum := blockNum }, fun _ => rfl⟩

/-- What the final signature sets; it leaves `block_num` as it is. -/
def setSigned (id : Text) : TransferEdit H :=
  ⟨fun r => { r with curretTrxState := .coldhotEthGuardSign, originalTrxId := id }, fun _ => rfl⟩

def setSignedAt (blockNum : Nat) (id : Text) : TransferEdit H :=
  ⟨fun r =>
    { r with curretTrxState := .coldhotEthGuardSign, originalTrxId := id, blockNum := blockNum },
    fun _ => rfl⟩

namespace TransferIndex

/-! ### `adjust_coldhot_transaction` -/

def record (blockNum : Nat) (trx : SignedTransaction H) (opType : OpType) (relate : Option TrxId)
    (st : ColdhotTrxState) (originalTrxId symbol : Text) : TransferObject H where
  relateTrxId := relate
  currentId := trx.id
  currentTrx := trx
  originalTrxId := originalTrxId
  opType := opType
  curretTrxState := st
  blockNum := blockNum
  symbol := symbol

/-- The branch of `coldhot_transfer_operation`. -/
def adjustTransfer (blockNum : Nat) (trx : SignedTransaction H) (t : TransferIndex H) :
    Option (TransferIndex H) :=
  let symbol := ((trx.operations.findSome? Operation.getTransfer).map Transfer.assetSymbol).getD []
  t.insert (record blockNum trx .transfer none .coldhotWithoutSignTrxUncreate [] symbol)

/-- The branch of `coldhot_transfer_without_sign_operation`. -/
def adjustWithoutSign (blockNum : Nat) (relate : TrxId) (trx : SignedTransaction H)
    (t : TransferIndex H) : Option (TransferIndex H) :=
  (t.find relate).bind fun transfer =>
    (t.modify relate (setState .coldhotWithoutSignTrxCreate blockNum)).insert
      (record blockNum trx .transferWithoutSign (some relate) .coldhotWithoutSignTrxCreate []
        transfer.symbol)

/-- The branch of `coldhot_transfer_with_sign_operation`. -/
def adjustWithSign (blockNum : Nat) (relate : TrxId) (trx : SignedTransaction H)
    (t : TransferIndex H) : Option (TransferIndex H) :=
  (t.find relate).bind fun withoutSign =>
    t.insert (record blockNum trx .transferWithSign (some relate) .coldhotSignTrx []
      withoutSign.symbol)

def combinedState (assetSymbol : Text) : ColdhotTrxState :=
  if Text.holds assetSymbol eth || Text.holds assetSymbol erc then .coldhotEthGuardNeedSign
  else .coldhotCombineTrxCreate

/-- The branch of `coldhot_transfer_combine_sign_operation`. -/
def adjustCombineSign (blockNum : Nat) (relate : TrxId) (trx : SignedTransaction H)
    (t : TransferIndex H) : Option (TransferIndex H) :=
  (t.find relate).bind fun withoutSign =>
    withoutSign.relateTrxId.bind fun original =>
      (t.find original).bind fun _ =>
        (trx.first.bind Operation.getCombineSign).bind fun op =>
          let st := combinedState op.assetSymbol
          let t₁ := (t.modify original (setState st blockNum)).modify relate (setState st blockNum)
          let t₂ := t₁.modifyWhere
            (fun r => relatesTo relate r && decide (r.curretTrxState = .coldhotSignTrx))
            (setState st blockNum)
          t₂.insert (record blockNum trx .transferCombineSign (some relate) st op.originalTrxId
            op.assetSymbol)

/-- The branch of `coldhot_transfer_result_operation`, which adds no record. -/
def adjustResult (blockNum : Nat) (relate : TrxId) (t : TransferIndex H) :
    Option (TransferIndex H) :=
  (t.find relate).bind fun withoutSign =>
    withoutSign.relateTrxId.bind fun original =>
      (t.find original).bind fun _ =>
        let confirm := setState .coldhotTransactionConfirm blockNum
        some (((t.modify relate confirm).modify original confirm).modifyWhere
          (fun r => relatesTo relate r && (decide (r.curretTrxState = .coldhotCombineTrxCreate) ||
            decide (r.curretTrxState = .coldhotEthGuardSign))) confirm)

/-- Brings the records of a transfer to a final state: the one that is named, the
    `without_sign` one, all that are related to it, and the transfer itself. -/
def close (e : TransferEdit H) (named relate original : TrxId) (t : TransferIndex H) :
    TransferIndex H :=
  (((t.modify named e).modify relate e).modifyWhere (relatesTo relate) e).modify original e

/-- The branch of `coldhot_pass_combine_trx_operation`, which adds no record. -/
def adjustPass (blockNum : Nat) (named : TrxId) (t : TransferIndex H) : Option (TransferIndex H) :=
  (t.find named).bind fun combine =>
    combine.relateTrxId.bind fun relate =>
      (t.find relate).bind fun withoutSign =>
        withoutSign.relateTrxId.bind fun original =>
          (t.find original).bind fun _ =>
            some (t.close (setState .coldhotTransactionConfirm blockNum) named relate original)

/-- The branch of `coldhot_cancel_transafer_transaction_operation`. -/
def adjustCancelTransfer (blockNum : Nat) (named : TrxId) (trx : SignedTransaction H)
    (t : TransferIndex H) : Option (TransferIndex H) :=
  (t.find named).bind fun transfer =>
    (t.modify named (setState .coldhotTransactionFail blockNum)).insert
      (record blockNum trx .cancelTransferTransaction (some named) .coldhotTransactionFail []
        transfer.symbol)

/-- The branch of `coldhot_cancel_uncombined_trx_operaion`. -/
def adjustCancelUncombined (blockNum : Nat) (relate : TrxId) (trx : SignedTransaction H)
    (t : TransferIndex H) : Option (TransferIndex H) :=
  (t.find relate).bind fun withoutSign =>
    withoutSign.relateTrxId.bind fun original =>
      (t.find original).bind fun transfer =>
        let fail := setState .coldhotTransactionFail blockNum
        (((t.modify relate fail).modifyWhere (relatesTo relate) fail).modify original fail).insert
          (record blockNum trx .cancelUncombinedTrx (some relate) .coldhotTransactionFail []
            transfer.symbol)

/-- The branches of `coldhot_cancel_combined_trx_operaion` and
    `eth_cancel_coldhot_fail_trx_operaion`.  The first relates its own record to the record
    that is named, the second to the `without_sign` one. -/
def adjustCancelCombined (blockNum : Nat) (opType : OpType) (toNamed : Bool) (named : TrxId)
    (trx : SignedTransaction H) (t : TransferIndex H) : Option (TransferIndex H) :=
  (t.find named).bind fun combine =>
    combine.relateTrxId.bind fun relate =>
      (t.find relate).bind fun withoutSign =>
        withoutSign.relateTrxId.bind fun original =>
          (t.find original).bind fun _ =>
            (t.close (setState .coldhotTransactionFail blockNum) named relate original).insert
              (record blockNum trx opType (some (if toNamed then named else relate))
                .coldhotTransactionFail [] withoutSign.symbol)

/-- The branches of `eths_coldhot_guard_sign_final_operation` and
    `eths_guard_coldhot_change_signer_operation`, which differ in what they set.  The
    operation is the first one of the transaction; `named` is named by the caller. -/
def adjustGuardSign (blockNum : Nat) (opType : OpType) (set : Text → TransferEdit H)
    (get : Operation H → Option EthsGuardSign) (named : TrxId) (trx : SignedTransaction H)
    (t : TransferIndex H) : Option (TransferIndex H) :=
  (t.find named).bind fun combine =>
    combine.relateTrxId.bind fun relate =>
      (t.find relate).bind fun withoutSign =>
        (trx.first.bind get).bind fun op =>
          withoutSign.relateTrxId.bind fun original =>
            (t.find original).bind fun _ =>
              let signedTrxid := afterBar op.signedCrosschainTrxId
              let signed := set signedTrxid
              let t₁ := ((t.modify named signed).modify relate signed).modify original signed
              let t₂ := t₁.modifyWhere (fun r => relatesTo relate r &&
                decide (r.curretTrxState = .coldhotEthGuardNeedSign)) signed
              t₂.insert (record blockNum trx opType (some relate) .coldhotEthGuardSign signedTrxid
                op.chainType)

end TransferIndex

end HyperExchange.Coldhot
