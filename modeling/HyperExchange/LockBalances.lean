/-
  **Balances locked to citizens** (`db_lock_balance.cpp`, `lockbalance_evaluator.cpp`,
  `balance_evaluator.cpp` and `db_witness_schedule.cpp` in `libraries/chain/`).

  What an account has locked to a citizen in an asset is kept three times: as a lock-balance
  object, in the totals of the citizen, by the symbol of the asset, and in the record list,
  by the address of the account.  From block `LOCKBALANCE_CORRECT` on the totals are updated
  along with the objects; before, the evaluators did it and forgot some cases, which
  `correct_chain_data_operation` repairs.  A call that throws is `none`.
-/
import HyperExchange.KeyedSums
import HyperExchange.Ledger
import HyperExchange.OperationRuns
import HyperExchange.OrderedMap
import Mathlib.Data.String.Basic

namespace HyperExchange.Locks

open Fees Keyed OrderedMap Ops

/-! ### Objects -/

/-- `lockbalance_object` -/
structure LockBalance where
  locktoMinerAccount : Nat
  lockBalanceAccount : Nat
  lockAssetId : Nat
  lockAssetAmount : Int
deriving DecidableEq, Repr

namespace LockBalance

/-- The unique index `by_lock_miner_asset`. -/
def key (o : LockBalance) : Nat × Nat × Nat :=
  (o.locktoMinerAccount, o.lockBalanceAccount, o.lockAssetId)

def getLockBalance (o : LockBalance) : Asset := ⟨o.lockAssetAmount, o.lockAssetId⟩

end LockBalance

/-- `miner_object` -/
structure Miner where
  id : Nat
  minerAccount : Nat
  lockbalanceTotal : OMap String Asset

/-- `account_object` -/
structure Account (H : Type) where
  id : Nat
  addr : Address H
deriving DecidableEq, Repr

/-- What the operations read and none of them changes: the symbols of the assets (the index of
    the assets by symbol is unique), the accounts in the order of their addresses, the
    permanent senators, the addresses that are white for transfers, and whether the balance
    object under the hash of an address is that of the address. -/
structure Registry (H : Type) where
  symbol : Nat → Option String
  accounts : Table fun x : Account H => x.id
  permanentSenator : Nat → Bool
  isWhite : Address H → Bool
  owns : Address H → Nat → Bool
  symbol_unique : ∀ {a b : Nat} {sym : String}, symbol a = some sym → symbol b = some sym → a = b

structure State (H : Type) where
  headBlockNum : Nat
  ledger : Ledger H
  locks : Table LockBalance.key
  miners : Table Miner.id
  /-- `record_list`; what is not there is 0 to every access. -/
  records : H → Nat → Int
  currentSupply : Nat → Int

/-- `LOCKBALANCE_CORRECT` -/
def lockbalanceCorrect : Nat := 3000000

variable {H : Type} [DecidableEq H] [Inhabited H] (reg : Registry H)

def Registry.account (id : Nat) : Option (Account H) := reg.accounts.find id

/-- `by_address`: the index compares hashes. -/
def Registry.byAddress (a : Address H) : Option (Account H) :=
  reg.accounts.rows.find? fun x => x.addr.addr = a.addr

/-- `get_balance` -/
def getBalance (a : Address H) (assetId : Nat) (s : State H) : Int :=
  if reg.owns a assetId then s.ledger.spendable a.addr assetId else 0

/-- `get_lock_balance`, of one citizen. -/
def getLockBalance (owner miner assetId : Nat) (s : State H) : Asset :=
  ((s.locks.find (miner, owner, assetId)).map LockBalance.getLockBalance).getD ⟨0, coreAsset⟩

/-- `get_lock_balance`, of all citizens. -/
def lockBalances (owner assetId : Nat) (s : State H) : List LockBalance :=
  s.locks.rows.filter fun o =>
    o.lockBalanceAccount = owner && decide (0 < o.lockAssetAmount) && o.lockAssetId = assetId

/-! ### The three copies -/

/-- `map[symbol] += x`, or an entry of its own. -/
def addTo (sym : String) (x : Asset) (m : OMap String Asset) : Option (OMap String Asset) :=
  match m.find sym with
  | some t => (t.add x).map (m.insert sym)
  | none => some (m.insert sym x)

def setAmount (n : Int) : Edit LockBalance.key :=
  ⟨fun o => { o with lockAssetAmount := n }, fun _ => rfl⟩

def setTotal (m : OMap String Asset) : Edit Miner.id :=
  ⟨fun x => { x with lockbalanceTotal := m }, fun _ => rfl⟩

def State.addTotal (miner : Nat) (delta : Asset) (s : State H) : Option (State H) := do
  let sym ← reg.symbol delta.assetId
  let m ← s.miners.find miner
  let t ← addTo sym delta m.lockbalanceTotal
  some { s with miners := s.miners.modify miner (setTotal t) }

/-- The lock-balance object in `adjust_lock_balance`. -/
def State.adjustLock (miner account : Nat) (delta : Asset) (s : State H) : Option (State H) :=
  match s.locks.find (miner, account, delta.assetId) with
  | none =>
    if 0 < delta.amount then
      (s.locks.insert ⟨miner, account, delta.assetId, delta.amount⟩).map fun t =>
        { s with locks := t }
    else none
  | some o =>
    if delta.amount < 0 ∧ o.lockAssetAmount < -delta.amount then none
    else (share (o.lockAssetAmount + delta.amount)).map fun n =>
      if n = 0 then { s with locks := s.locks.erase (miner, account, delta.assetId) }
      else { s with locks := s.locks.modify (miner, account, delta.assetId) (setAmount n) }

/-- `adjust_lock_balance` -/
def State.adjustLockBalance (miner account : Nat) (delta : Asset) (s : State H) :
    Option (State H) :=
  if delta.amount = 0 then some s
  else (s.adjustLock miner account delta).bind fun s =>
    if lockbalanceCorrect ≤ s.headBlockNum then s.addTotal reg miner delta else some s

/-- `record_list[addr][asset_id] += amount` -/
def State.adjustRecord (addr : Address H) (delta : Asset) (s : State H) : Option (State H) :=
  (share (s.records addr.addr delta.assetId + delta.amount)).map fun n =>
    { s with records := fun x a => if x = addr.addr ∧ a = delta.assetId then n else s.records x a }

def State.adjustBalance (addr : Address H) (delta : Asset) (s : State H) : Option (State H) :=
  (s.ledger.adjustBalance addr delta).map fun l => { s with ledger := l }

/-- `if_evluate`, on the chain of the checkpoint. -/
def State.ifEvaluate (s : State H) (doEvaluate : Bool) : Bool :=
  !decide (checkPointBlock < s.headBlockNum) || doEvaluate

/-! ### Locking -/

structure LockBalanceOperation (H : Type) where
  lockAssetId : Nat
  lockAssetAmount : Int
  contractAddr : Address H
  lockBalanceAccount : Nat
  locktoMinerAccount : Nat
  lockBalanceAddr : Address H

def evaluateLockBalance (o : LockBalanceOperation H) (s : State H) : Bool :=
  decide (o.contractAddr ≠ .null) ||
    (reg.symbol o.lockAssetId).isSome && (s.miners.find o.locktoMinerAccount).isSome &&
    (reg.account o.lockBalanceAccount).any (fun x => x.addr = o.lockBalanceAddr) &&
    decide (o.lockAssetAmount ≤ getBalance reg o.lockBalanceAddr o.lockAssetId s)

/-- The totals before `LOCKBALANCE_CORRECT`. -/
def State.lockBefore (o : LockBalanceOperation H) (s : State H) : Option (State H) :=
  if s.headBlockNum < lockbalanceCorrect then
    s.addTotal reg o.locktoMinerAccount ⟨o.lockAssetAmount, o.lockAssetId⟩
  else some s

/-- `lockbalance_evaluator`, with `validate`. -/
def applyLockBalance (o : LockBalanceOperation H) (s : State H) : Option (State H) :=
  if 0 < o.lockAssetAmount ∧ s.ifEvaluate (evaluateLockBalance reg o s) = true then
    if o.contractAddr = .null then do
      let s ← s.adjustBalance o.lockBalanceAddr ⟨-o.lockAssetAmount, o.lockAssetId⟩
      let s ← s.adjustLockBalance reg o.locktoMinerAccount o.lockBalanceAccount
        ⟨o.lockAssetAmount, o.lockAssetId⟩
      let s ← s.lockBefore reg o
      s.adjustRecord o.lockBalanceAddr ⟨o.lockAssetAmount, o.lockAssetId⟩
    else some s
  else none

structure ForecloseBalanceOperation (H : Type) where
  forecloseAssetId : Nat
  forecloseAssetAmount : Int
  forecloseContractAddr : Address H
  forecloseAccount : Nat
  forecloseMinerAccount : Nat
  forecloseAddr : Address H

def evaluateForecloseBalance (o : ForecloseBalanceOperation H) (s : State H) : Bool :=
  decide (o.forecloseContractAddr ≠ .null) ||
    (reg.symbol o.forecloseAssetId).isSome && (s.miners.find o.forecloseMinerAccount).isSome &&
    (reg.account o.forecloseAccount).any (fun x => x.addr = o.forecloseAddr) &&
    decide (o.forecloseAssetAmount ≤
      (getLockBalance o.forecloseAccount o.forecloseMinerAccount o.forecloseAssetId s).amount)

/-- The totals before `LOCKBALANCE_CORRECT`: here a citizen without an entry keeps none. -/
def State.forecloseBefore (o : ForecloseBalanceOperation H) (s : State H) : Option (State H) :=
  if s.headBlockNum < lockbalanceCorrect then
    (reg.symbol o.forecloseAssetId).bind fun sym =>
    (s.miners.find o.forecloseMinerAccount).bind fun m =>
      match m.lockbalanceTotal.find sym with
      | none => some s
      | some t => (t.add ⟨-o.forecloseAssetAmount, o.forecloseAssetId⟩).map fun t =>
        { s with
          miners := s.miners.modify o.forecloseMinerAccount
            (setTotal (m.lockbalanceTotal.insert sym t)) }
  else some s

/-- `foreclose_balance_evaluator`, with `validate`. -/
def applyForecloseBalance (o : ForecloseBalanceOperation H) (s : State H) : Option (State H) :=
  if 0 < o.forecloseAssetAmount ∧ s.ifEvaluate (evaluateForecloseBalance reg o s) = true then
    if o.forecloseContractAddr = .null then do
      let s ← s.adjustLockBalance reg o.forecloseMinerAccount o.forecloseAccount
        ⟨-o.forecloseAssetAmount, o.forecloseAssetId⟩
      let s ← s.adjustBalance o.forecloseAddr ⟨o.forecloseAssetAmount, o.forecloseAssetId⟩
      let s ← s.forecloseBefore reg o
      s.adjustRecord o.forecloseAddr ⟨-o.forecloseAssetAmount, o.forecloseAssetId⟩
    else some s
  else none

/-! ### Setting a balance -/

structure SetBalanceOperation (H : Type) where
  addrFromClaim : Address H
  addrToDeposit : Address H
  claimed : Asset

/-- `set_balance_evaluator::do_evaluate`: the account, and its locks in the asset. -/
def evaluateSetBalance (o : SetBalanceOperation H) (s : State H) :
    Option (Account H × List LockBalance) := do
  let deposited ← reg.byAddress o.addrToDeposit
  let senator ← reg.byAddress o.addrFromClaim
  if reg.permanentSenator senator.id && reg.isWhite o.addrToDeposit then
    some (deposited, lockBalances deposited.id o.claimed.assetId s)
  else none

def State.pullBack (account : Nat) (addr : Address H) (o : LockBalance) (s : State H) :
    Option (State H) :=
  (s.adjustLockBalance reg o.locktoMinerAccount account ⟨-o.lockAssetAmount, o.lockAssetId⟩).bind
    fun s => s.adjustRecord addr ⟨-o.lockAssetAmount, o.lockAssetId⟩

def State.pullBackAll (account : Nat) (addr : Address H) (l : List LockBalance) (s : State H) :
    Option (State H) :=
  l.foldlM (fun s o => s.pullBack reg account addr o) s

def State.adjustSupply (delta : Asset) (s : State H) : Option (State H) :=
  if (reg.symbol delta.assetId).isSome then
    (share (s.currentSupply delta.assetId + delta.amount)).map fun n =>
      { s with currentSupply := fun a => if a = delta.assetId then n else s.currentSupply a }
  else none

/-- `set_balance_evaluator`, with `validate`. -/
def applySetBalance (o : SetBalanceOperation H) (s : State H) : Option (State H) :=
  if o.claimed.assetId ≠ coreAsset ∧ 0 ≤ o.claimed.amount then do
    let (deposited, locks) ← evaluateSetBalance reg o s
    let balance := getBalance reg o.addrToDeposit o.claimed.assetId s
    let lockbalance ← locks.foldlM (fun n x => share (n + x.lockAssetAmount)) 0
    let total ← share (balance + lockbalance)
    let missing ← share (o.claimed.amount - total)
    if total < o.claimed.amount then do
      let s ← s.adjustBalance o.addrToDeposit ⟨missing, o.claimed.assetId⟩
      s.adjustSupply reg ⟨missing, o.claimed.assetId⟩
    else if o.claimed.amount < total then do
      let s ← s.pullBackAll reg deposited.id o.addrToDeposit locks
      let s ← s.adjustBalance o.addrToDeposit ⟨-balance, o.claimed.assetId⟩
      let s ← s.adjustBalance o.addrToDeposit o.claimed
      s.adjustSupply reg ⟨missing, o.claimed.assetId⟩
    else some s
  else none

/-! ### Correcting the totals -/

structure CorrectChainDataOperation (H : Type) where
  payer : Address H
  correctors : List (Address H)

def State.citizenOf (account : Nat) (s : State H) : Option Miner :=
  s.miners.rows.find? fun m => m.minerAccount = account

def evaluateCorrectChainData (o : CorrectChainDataOperation H) (s : State H) : Bool :=
  (reg.byAddress o.payer).any (fun x => reg.permanentSenator x.id) &&
  o.correctors.all fun a => (reg.byAddress a).any fun x => (s.citizenOf x.id).isSome

/-- `get_citizen_lockbalance_info`, without the accounts, which nothing is done with here. -/
def getCitizenLockbalanceInfo (miner : Nat) (s : State H) : List Asset :=
  (s.locks.rows.filter fun o => o.locktoMinerAccount = miner).map LockBalance.getLockBalance

def countLocks (l : List Asset) : Option (OMap String Asset) :=
  l.foldlM (fun m x => (reg.symbol x.assetId).bind fun sym => addTo sym x m) OMap.empty

/-- One citizen in `correct_chain_data_evaluator::do_apply`. -/
def State.correct (miner : Nat) (s : State H) : Option (State H) := do
  let m ← s.miners.find miner
  let locks ← countLocks reg (getCitizenLockbalanceInfo miner s)
  if locks.entries = m.lockbalanceTotal.entries then some s
  else some { s with miners := s.miners.modify miner (setTotal locks) }

def toCorrect (o : CorrectChainDataOperation H) (s : State H) : Option (List Nat) :=
  if o.correctors.isEmpty then some (s.miners.rows.map Miner.id)
  else o.correctors.mapM fun a =>
    (reg.byAddress a).bind fun x => (s.citizenOf x.id).map Miner.id

def applyCorrectChainData (o : CorrectChainDataOperation H) (s : State H) : Option (State H) :=
  if s.ifEvaluate (evaluateCorrectChainData reg o s) = true then
    (toCorrect reg o s).bind fun l => l.foldlM (fun s miner => s.correct reg miner) s
  else none

/-! ### Runs -/

/-- One of the operations; or balances change by other means, or a block is added. -/
inductive Event (H : Type) where
  | lockBalance (o : LockBalanceOperation H)
  | forecloseBalance (o : ForecloseBalanceOperation H)
  | setBalance (o : SetBalanceOperation H)
  | correctChainData (o : CorrectChainDataOperation H)
  | balances (l : Ledger H)
  | block

def apply : Event H → State H → Option (State H)
  | .lockBalance o, s => applyLockBalance reg o s
  | .forecloseBalance o, s => applyForecloseBalance reg o s
  | .setBalance o, s => applySetBalance reg o s
  | .correctChainData o, s => applyCorrectChainData reg o s
  | .balances l, s => some { s with ledger := l }
  | .block, s => some { s with headBlockNum := s.headBlockNum + 1 }

def step (s : State H) (e : Event H) : State H := (apply reg e s).getD s

end HyperExchange.Locks
