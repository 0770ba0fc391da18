/-
  **What a node's configuration decides** (`account_evaluator.cpp`,
  `crosschain_record_evaluate.cpp`).

  A node may have a handle for a chain or not, and its clock may be past the validation
  period of a block.  `NodeConfig` is that configuration, `ChainObjects` what all nodes
  share, and `outcome` what a node makes of an operation.

  The evaluator of a senator's signature is spelled out here: the account that the source is
  paid from comes from the handle, the senators of that account and their keys come from the
  database.  The evaluators of tunnel bindings ask the handle first.
-/
import HyperExchange.CrosschainRuns

namespace HyperExchange.Crosschain

open Keyed Fees

variable {H : Type} {reg : Registry}

/-! ### Configurations -/

/-- A configured `abstract_crosschain_interface` with the rest of its functions. -/
structure NodeHandle extends Handle where
  validateSignature : Text → Text → Text → Bool
  getFromAddress : VariantObject → Option Text
  validateTransaction : Text → Text → Text → Bool

structure NodeConfig where
  handle : Text → Option NodeHandle
  /-- `now() > head_block_time() + validate_time_period` -/
  late : Bool

/-- `multisig_address_object`, with the redeem scripts of its account pair. -/
structure SenatorKey where
  guardAccount : Nat
  newPubkeyHot : Text
  newPubkeyCold : Text
  redeemScripts : Option (Text × Text)

structure ChainObjects (reg : Registry) (H : Type) where
  ctx : Context reg H
  getMultiAccountSenator : Text → Text → Option (List SenatorKey)
  accountByAddress : Address H → Option Nat
  /-- `fc::json::to_string` -/
  toJson : VariantObject → Text

namespace ChainObjects

variable (v : ChainObjects reg H)

/-! ### The signature of a senator -/

def fromAccount (h : NodeHandle) (o : WithdrawWithSign H) : Option Text :=
  if isEthSeries o.assetSymbol then
    (h.turnTrxs .eth o.withdrawSourceTrx).bind fun c =>
      c.trxs.rows.head?.map fun p => p.2.fromAccount
  else h.getFromAddress o.withdrawSourceTrx

def senatorKey (o : WithdrawWithSign H) (account : Text) : Option SenatorKey := do
  let keys ← v.getMultiAccountSenator account o.assetSymbol
  fcAssert (0 < keys.length)
  let id ← v.accountByAddress o.guardAddress
  keys.find? fun k => decide (k.guardAccount = id)

def signedText (o : WithdrawWithSign H) (withoutTrx : SignedTransaction H) : Option Text :=
  if o.assetSymbol = bch then do
    fcAssert (withoutTrx.operations.length = 1)
    let op ← withoutTrx.first.bind Operation.getWithoutSign
    some (o.ccwTrxSignature ++ '|' :: v.toJson op.withdrawSourceTrx)
  else some o.ccwTrxSignature

def signedWith (h : NodeHandle) (k : SenatorKey) (scripts : Text × Text) (text : Text) : Prop :=
  h.validateTransaction k.newPubkeyHot scripts.1 text = true ∨
    h.validateTransaction k.newPubkeyCold scripts.2 text = true
deriving Decidable

/-- `crosschain_withdraw_with_sign_evaluate::do_evaluate` behind the early returns. -/
def checkSign (h : NodeHandle) (o : WithdrawWithSign H) (withoutTrx : SignedTransaction H) :
    Option Unit := do
  let account ← fromAccount h o
  let key ← v.senatorKey o account
  let scripts ← key.redeemScripts
  let text ← v.signedText o withoutTrx
  fcAssert (signedWith h key scripts text)

def contextOn (n : NodeConfig) : Context reg H :=
  { v.ctx with
    handle := fun symbol => (n.handle symbol).map NodeHandle.toHandle
    late := n.late
    validateSign := fun o withoutTrx =>
      (n.handle o.assetSymbol).all fun h => (v.checkSign h o withoutTrx).isSome }

end ChainObjects

/-! ### Tunnel bindings -/

/-- `account_bind_operation` and `account_unbind_operation` -/
structure AccountBind (H : Type) where
  addr : Address H
  crosschainType : Text
  tunnelAddress : Text
  tunnelSignature : Text

namespace AccountBind

/-- `find` in `by_tunnel_binding` -/
def ofTunnel (o : AccountBind H) (b : AccountBinding H) : Bool :=
  decide (b.bindAccount = o.tunnelAddress ∧ b.chainType = o.crosschainType)

/-- What both evaluators do before they look at the bindings; they skip the rest without a
    handle. -/
def withSignature (n : NodeConfig) (o : AccountBind H) (rest : Option Unit) : Option Unit :=
  match n.handle o.crosschainType with
  | none => some ()
  | some h => do
    if n.late then some ()
    else fcAssert (h.validateSignature o.tunnelAddress o.tunnelAddress o.tunnelSignature = true)
    rest

variable [DecidableEq H]

/-- `find` in `by_account_binding` -/
def ofAccount (o : AccountBind H) (b : AccountBinding H) : Bool :=
  decide (b.owner = o.addr ∧ b.chainType = o.crosschainType)

/-- `account_bind_evaluator::do_evaluate` -/
def evaluateBind (n : NodeConfig) (bindings : List (AccountBinding H)) (o : AccountBind H) :
    Option Unit :=
  o.withSignature n do
    fcAssert (bindings.any o.ofAccount = false)
    fcAssert (bindings.any o.ofTunnel = false)

/-- `account_bind_evaluator::do_apply`; both indices of the objects are unique. -/
def applyBind (bindings : List (AccountBinding H)) (o : AccountBind H) :
    Option (List (AccountBinding H)) :=
  if bindings.any o.ofAccount || bindings.any o.ofTunnel then none
  else some (bindings ++ [⟨o.addr, o.crosschainType, o.tunnelAddress⟩])

/-- `account_unbind_evaluator::do_evaluate` -/
def evaluateUnbind (n : NodeConfig) (bindings : List (AccountBinding H)) (o : AccountBind H) :
    Option Unit :=
  o.withSignature n do
    fcAssert (bindings.any o.ofAccount = true)
    fcAssert (bindings.any o.ofTunnel = true)

/-- `account_unbind_evaluator::do_apply`: the binding of the account is removed, whatever
    its tunnel is.  It is read without a check. -/
def applyUnbind (bindings : List (AccountBinding H)) (o : AccountBind H) :
    Option (List (AccountBinding H)) :=
  if bindings.any o.ofAccount then some (bindings.eraseP o.ofAccount) else none

end AccountBind

/-! ### Outcomes -/

/-- The operations whose evaluators ask for a handle of their chain. -/
inductive HandledOperation (H : Type) where
  | accountBind (o : AccountBind H)
  | accountUnbind (o : AccountBind H)
  | crosschainRecord (o : CrosschainRecord H)
  | crosschainWithdraw (o : CrosschainWithdraw H)
  | withdrawWithoutSign (o : WithdrawWithoutSign)
  | withdrawWithSign (o : WithdrawWithSign H)
  | withdrawResult (crossChainTrx : HdTrx)

def HandledOperation.symbol : HandledOperation H → Text
  | .accountBind o => o.crosschainType
  | .accountUnbind o => o.crosschainType
  | .crosschainRecord o => o.crossChainTrx.assetSymbol
  | .crosschainWithdraw o => o.assetSymbol
  | .withdrawWithoutSign o => o.assetSymbol
  | .withdrawWithSign o => o.assetSymbol
  | .withdrawResult trx => trx.assetSymbol

variable [DecidableEq H] [Inhabited H]

/-- The bindings and the records after the operation, or `none` when the node rejects it. -/
def outcome (v : ChainObjects reg H) (n : NodeConfig) (trx : SignedTransaction H) (s : State H) :
    HandledOperation H → Option (List (AccountBinding H) × State H)
  | .accountBind o =>
    (evaluateAbove v.ctx.headBlockNum false (o.evaluateBind n v.ctx.bindings)).bind fun _ =>
      (o.applyBind v.ctx.bindings).map (·, s)
  | .accountUnbind o =>
    (evaluateAbove v.ctx.headBlockNum false (o.evaluateUnbind n v.ctx.bindings)).bind fun _ =>
      (o.applyUnbind v.ctx.bindings).map (·, s)
  | .crosschainRecord o =>
    (applyOperation (v.contextOn n) trx s (.crosschainRecord o)).map (v.ctx.bindings, ·)
  | .crosschainWithdraw o =>
    (applyOperation (v.contextOn n) trx s (.crosschainWithdraw o)).map (v.ctx.bindings, ·)
  | .withdrawWithoutSign o =>
    (applyOperation (v.contextOn n) trx s (.withdrawWithoutSign o)).map (v.ctx.bindings, ·)
  | .withdrawWithSign o =>
    (applyOperation (v.contextOn n) trx s (.withdrawWithSign o)).map (v.ctx.bindings, ·)
  | .withdrawResult r =>
    (applyOperation (v.contextOn n) trx s (.withdrawResult r)).map (v.ctx.bindings, ·)

end HyperExchange.Crosschain
