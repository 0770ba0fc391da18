/-
  **Money that contracts move** (`contract_evaluate.cpp`, `native_contract.cpp`).

  While a contract runs the evaluator keeps maps of what each contract has been given and has
  given away, netted against each other, and of what addresses are to get; `do_apply_balance`
  pays all of it afterwards.  A native contract has maps of its own, which are copied to the
  evaluator for each transfer and at the end.  Amounts are unbounded while the contract runs
  (`share_type` throws on overflow, so fewer evaluations succeed).
-/
import Mathlib.Data.Prod.Lex
import HyperExchange.Ledger
import HyperExchange.OrderedMap

namespace HyperExchange.Transfers

open Fees OrderedMap

variable {H : Type} [LinearOrder (Address H)]

/-! ### The maps -/

/-- Address and asset, ordered by `comparator_for_contract_invoke_result_balance`. -/
abbrev Key (H : Type) : Type := Address H ×ₗ Nat

def key (addr : Address H) (asset : Nat) : Key H := toLex (addr, asset)

/-- The part of `contract_invoke_result` that is about money. -/
structure InvokeResult (H : Type) [LinearOrder (Address H)] where
  contractWithdraw : OMap (Key H) Int
  contractBalances : OMap (Key H) Int
  depositToAddress : OMap (Key H) Int
  depositContract : OMap (Key H) Int
  transferFees : OMap Nat Int
  execSucceed : Bool

def InvokeResult.empty : InvokeResult H := ⟨.empty, .empty, .empty, .empty, .empty, true⟩

/-- `set_failed` -/
def InvokeResult.failed : InvokeResult H := { InvokeResult.empty with execSucceed := false }

/-- An internal transfer, with the fee that is kept back.  It is made by a contract. -/
structure Transfer (H : Type) where
  contract : Address H
  toAddr : Address H
  asset : Nat
  amount : Int
  fee : Int
  contract_version : contract.version = Address.contract
  amount_pos : 0 < amount
  fee_nonneg : 0 ≤ fee
  fee_le : fee ≤ amount

/-- What a node knows while it evaluates. -/
structure Setting (H : Type) where
  ledger : Ledger H
  hasContract : Address H → Bool
  /-- the balance object with the hash has this address as its `owner` -/
  owns : Address H → Nat → Bool

/-- `get_balance` -/
def Setting.getBalance (env : Setting H) (addr : Address H) (asset : Nat) : Int :=
  if env.owns addr asset then env.ledger.spendable addr.addr asset else 0

/-! ### Calls of the evaluator -/

section Calls

variable (env : Setting H)

/-- The entry of `contract_balances`, made when it is first asked for. -/
def InvokeResult.readBalance (addr : Address H) (asset : Nat) (r : InvokeResult H) :
    InvokeResult H :=
  match r.contractBalances.find (key addr asset) with
  | some _ => r
  | none => { r with
      contractBalances := r.contractBalances.insert (key addr asset) (env.getBalance addr asset) }

/-- `deposit_to_contract` -/
def InvokeResult.depositToContract (contract : Address H) (x : Asset) (r : InvokeResult H) :
    Option (InvokeResult H) :=
  let index := key contract x.assetId
  if env.hasContract contract then
    match r.contractWithdraw.find index with
    | some w =>
      if x.amount ≤ w then
        some { r with contractWithdraw := r.contractWithdraw.insert index (w - x.amount) }
      else
        some { r with
          contractWithdraw := r.contractWithdraw.insert index 0
          depositContract :=
            r.depositContract.insert index (r.depositContract.amount index + (x.amount - w)) }
    | none =>
      if x.amount = 0 then some r
      else some { r with
        depositContract :=
          r.depositContract.insert index (r.depositContract.amount index + x.amount) }
  else none

def InvokeResult.available (r : InvokeResult H) (index : Key H) : Int :=
  r.contractBalances.amount index + r.depositContract.amount index -
    r.contractWithdraw.amount index

def InvokeResult.withdraw (index : Key H) (amount : Int) (r : InvokeResult H) : InvokeResult H :=
  match r.depositContract.find index with
  | some d =>
    if amount ≤ d then { r with
      depositContract := r.depositContract.insert index (d - amount)
      contractWithdraw := r.contractWithdraw.insert index (r.contractWithdraw.amount index + 0) }
    else { r with
      depositContract := r.depositContract.insert index 0
      contractWithdraw :=
        r.contractWithdraw.insert index (r.contractWithdraw.amount index + (amount - d)) }
  | none => { r with
      contractWithdraw :=
        r.contractWithdraw.insert index (r.contractWithdraw.amount index + amount) }

def InvokeResult.credit (toAddr : Address H) (asset : Nat) (amount : Int) (r : InvokeResult H) :
    InvokeResult H :=
  { r with
    depositToAddress := r.depositToAddress.insert (key toAddr asset)
      (r.depositToAddress.amount (key toAddr asset) + amount) }

def InvokeResult.addTransferFee (asset : Nat) (fee : Int) (r : InvokeResult H) : InvokeResult H :=
  if 0 < fee then
    { r with transferFees := r.transferFees.insert asset (r.transferFees.amount asset + fee) }
  else r

/-- The common part of the two transfers: `none` if the contract has not enough. -/
def InvokeResult.transfer (t : Transfer H) (fee : Int) (r : InvokeResult H) :
    Option (InvokeResult H) :=
  let index := key t.contract t.asset
  if r.available index < t.amount then none
  else some (((r.withdraw index t.amount).credit t.toAddr t.asset (t.amount - fee)).addTransferFee
    t.asset fee)

/-- What an address is paid in the end by a transfer. -/
structure Payment (H : Type) where
  toAddr : Address H
  asset : Nat
  amount : Int

/-- What the code of a contract calls. -/
inductive Call (H : Type) where
  | transfer (t : Transfer H)
  | getContractBalance (addr : Address H) (asset : Nat)

/-- `transfer_from_contract_to_address`: too little money is an error code for the contract,
    an unknown contract an exception.  The list has what was paid so far. -/
def uvmCall (c : Call H) (s : InvokeResult H × List (Payment H)) :
    Option (InvokeResult H × List (Payment H)) :=
  match c with
  | .transfer t =>
    if env.hasContract t.contract then
      let r := s.1.readBalance env t.contract t.asset
      match r.transfer t t.fee with
      | none => some (r, s.2)
      | some r => some (r, s.2 ++ [⟨t.toAddr, t.asset, t.amount - t.fee⟩])
    else none
  | .getContractBalance addr asset => some (s.1.readBalance env addr asset, s.2)

def runUvm (calls : List (Call H)) (s : InvokeResult H × List (Payment H)) :
    Option (InvokeResult H × List (Payment H)) :=
  match calls with
  | [] => some s
  | c :: l => (uvmCall env c s).bind (runUvm l)

/-- A native contract with its own result, and the evaluator's. -/
structure Native (H : Type) [LinearOrder (Address H)] where
  evaluator : InvokeResult H
  result : InvokeResult H

/-- `abstract_native_contract::transfer_to_address`; there is no fee. -/
def nativeTransfer (t : Transfer H) (n : Native H) : Option (Native H) :=
  let evaluator := n.result
  ((evaluator.readBalance env t.contract t.asset).transfer t 0).map fun r => ⟨r, r⟩

def runNative (transfers : List (Transfer H)) (n : Native H) : Option (Native H) :=
  match transfers with
  | [] => some n
  | t :: l => (nativeTransfer env t n).bind (runNative l)

end Calls

/-! ### Operations -/

/-- The operations that run contracts.  `transfer_contract_operation` pays `amount` to the
    contract; `validate` asks for a positive one. -/
inductive ContractOperation (H : Type) where
  | register
  | upgrade
  | invoke
  | transfer (callerAddr contractId : Address H) (amount : Asset)
      (contract_version : contractId.version = Address.contract) (amount_pos : 0 < amount.amount)

/-- The executed code: calls of a contract of the virtual machine, which may run out of gas,
    or transfers of a native contract. -/
inductive Code (H : Type) where
  | uvm (calls : List (Call H)) (outOfGas : Bool)
  | native (transfers : List (Transfer H))

def Code.isNative : Code H → Bool
  | .uvm _ _ => false
  | .native _ => true

def assetIs (a : Nat) (k : Key H) : Bool := (ofLex k).2 = a

/-- One of the loops of `validate` that add up the amounts of each asset. -/
def addTotals : List (Key H × Int) → OMap Nat Int → Option (OMap Nat Int)
  | [], totals => some totals
  | e :: es, totals =>
    if e.2 = 0 then addTotals es totals
    else (share (totals.amount (ofLex e.1).2 + e.2)).bind fun total =>
      addTotals es (totals.insert (ofLex e.1).2 total)

/-- `contract_invoke_result::validate` -/
def InvokeResult.validate (r : InvokeResult H) : Option (InvokeResult H) :=
  (addTotals r.contractWithdraw.entries .empty).bind fun inTotals =>
    (addTotals r.depositContract.entries .empty).bind fun outTotals =>
      (addTotals r.depositToAddress.entries outTotals).bind fun outTotals =>
        -- the sum with the fee is not kept, but throws when it overflows
        if (r.transferFees.entries.all fun p => (share (outTotals.amount p.1 + p.2)).isSome) ∧
          outTotals.entries.all fun p => p.2 = 0 || (inTotals.find p.1).any (p.2 ≤ ·)
        then some r else none

section Operations

variable (env : Setting H)

def evaluateUvm (calls : List (Call H)) (outOfGas : Bool) (r : InvokeResult H) :
    Option (InvokeResult H × List (Payment H)) :=
  if outOfGas then some (.failed, []) else runUvm env calls (r, [])

def evaluateNative (transfers : List (Transfer H)) (evaluator : InvokeResult H) :
    Option (InvokeResult H × List (Payment H)) :=
  (runNative env transfers ⟨evaluator, .empty⟩).map fun n =>
    (n.result, transfers.map fun t => ⟨t.toAddr, t.asset, t.amount⟩)

/-- `do_evaluate`: the result, and what it pays to addresses. -/
def evaluate (op : ContractOperation H) (code : Code H) :
    Option (InvokeResult H × List (Payment H)) :=
  match op, code with
  | .transfer _ contractId amount _ _, .uvm calls outOfGas =>
    (InvokeResult.empty.depositToContract env contractId amount).bind fun r =>
      evaluateUvm env calls outOfGas r
  | .transfer _ contractId amount _ _, .native transfers =>
    (InvokeResult.empty.depositToContract env contractId amount).bind fun r =>
      (evaluateNative env transfers r).bind fun s => s.1.validate.map fun r => (r, s.2)
  | _, .uvm calls outOfGas =>
    (evaluateUvm env calls outOfGas .empty).bind fun s => s.1.validate.map fun r => (r, s.2)
  | _, .native transfers =>
    (evaluateNative env transfers .empty).bind fun s => s.1.validate.map fun r => (r, s.2)

end Operations

section Apply

variable [DecidableEq H] [Inhabited H]

/-- One of the loops of `do_apply_balance`. -/
def adjustAll (sign : Int) : List (Key H × Int) → Ledger H → Option (Ledger H)
  | [], l => some l
  | e :: rest, l =>
    if e.2 = 0 then adjustAll sign rest l
    else (l.adjustBalance (ofLex e.1).1 ⟨sign * e.2, (ofLex e.1).2⟩).bind (adjustAll sign rest)

/-- `do_apply_balance` -/
def doApplyBalance (r : InvokeResult H) (l : Ledger H) : Option (Ledger H) :=
  (adjustAll 1 r.depositContract.entries l).bind fun l =>
    (adjustAll (-1) r.contractWithdraw.entries l).bind fun l =>
      adjustAll 1 r.depositToAddress.entries l

/-- `do_apply`; the one of `native_contract_register_evaluate` pays nothing. -/
def doApply (op : ContractOperation H) (native : Bool) (r : InvokeResult H) (l : Ledger H) :
    Option (Ledger H) :=
  if r.execSucceed then
    match op with
    | .register => if native then some l else doApplyBalance r l
    | .upgrade => doApplyBalance r l
    | .invoke => doApplyBalance r l
    | .transfer callerAddr _ amount _ _ =>
      (doApplyBalance r l).bind fun l => l.adjustBalance callerAddr amount.neg
  else some l

end Apply

end HyperExchange.Transfers
