/-
  **The money operations of the chain itself** (`transfer_evaluator.cpp`,
  `lockbalance_evaluator.cpp`, `guard_lock_balance_evaluator.cpp`, `pay_back_evaluator.cpp`,
  `db_lock_balance.cpp` and `db_pay_back.cpp` in `libraries/chain/`).

  Besides balances there are locks to citizens, locks of guards, pay-backs of the citizens
  one has locked to, and bonuses.  The seven operations move an amount between a record and
  a balance or between balances, and then pay their fee.  That a pay-back is not overdrawn is
  seen to by `do_evaluate`, under the names of the citizens; before block 4879000 it returned
  without a look if all pay-backs of the owner were zero.  A bonus in the core asset cannot
  be built.
-/
import HyperExchange.FeeProcessing
import HyperExchange.LockTotals

namespace HyperExchange.Money

open Fees Keyed OrderedMap Ops Option
open Locks

/-! ### Objects -/

/-- `guard_member_object` -/
structure Guard where
  id : Nat
  guardMemberAccount : Nat
  guardLockBalance : OMap String Asset

/-- `guard_lock_balance_object` -/
structure GuardLock where
  lockBalanceAccount : Nat
  lockAssetId : Nat
  lockAssetAmount : Int
deriving DecidableEq, Repr

/-- The unique index `by_guard_lock`. -/
def GuardLock.key (o : GuardLock) : Nat × Nat := (o.lockBalanceAccount, o.lockAssetId)

/-- `pay_back_object` -/
structure PayBack (H : Type) where
  payBackOwner : Address H
  minerId : Nat
  oneOwnerBalance : Asset
deriving DecidableEq, Repr

/-- The unique index `by_payback_address_miner`. -/
def PayBack.key {H : Type} (o : PayBack H) : H × Nat := (o.payBackOwner.addr, o.minerId)

/-- `bonus_object` -/
structure Bonus (H : Type) where
  owner : Address H
  bonus : OMap Nat Int
  noCore : bonus.find coreAsset = none

/-- The unique index `by_addr`. -/
def Bonus.key {H : Type} (o : Bonus H) : H := o.owner.addr

/-- What the operations read and none of them changes: besides what the lock operations
    read, the assets by symbol, the names of the accounts, which are unique as well, and the
    two global parameters of pay-backs. -/
structure Registry (H : Type) extends Locks.Registry H where
  bySymbol : String → Option Nat
  bySymbol_iff : ∀ sym a, bySymbol sym = some a ↔ symbol a = some sym
  name : Nat → String
  name_unique : ∀ x ∈ accounts.rows, ∀ y ∈ accounts.rows, name x.id = name y.id → x.id = y.id
  minPayBackBalance : Int
  minPayBackBalanceOtherAsset : OMap String Asset

/-- The index `by_account` of the citizens is unique. -/
structure State (H : Type) extends Locks.State H where
  guards : Table Guard.id
  guardLocks : Table GuardLock.key
  payBacks : Table (PayBack.key (H := H))
  bonuses : Table (Bonus.key (H := H))
  accountOnce : ∀ m ∈ miners.rows, ∀ m' ∈ miners.rows,
    m.minerAccount = m'.minerAccount → m.id = m'.id

/-! ### Citizens and money under locks -/

section SameCitizens

variable {H : Type} {reg : Locks.Registry H} {s s' s'' : Locks.State H} {miner : Nat}
  {delta : Asset}

def SameCitizens (s s' : Locks.State H) : Prop :=
  s'.miners.rows.map (fun m => (m.id, m.minerAccount)) =
    s.miners.rows.map fun m => (m.id, m.minerAccount)

theorem SameCitizens.trans (h : SameCitizens s s') (h' : SameCitizens s' s'') :
    SameCitizens s s'' := Eq.trans h' h

/-- An account stays that of one citizen at most. -/
theorem SameCitizens.accountOnce (h : SameCitizens s s')
    (hs : ∀ m ∈ s.miners.rows, ∀ m' ∈ s.miners.rows,
      m.minerAccount = m'.minerAccount → m.id = m'.id) :
    ∀ m ∈ s'.miners.rows, ∀ m' ∈ s'.miners.rows,
      m.minerAccount = m'.minerAccount → m.id = m'.id := by
  have hfrom : ∀ m ∈ s'.miners.rows, ∃ n ∈ s.miners.rows,
      n.id = m.id ∧ n.minerAccount = m.minerAccount := by
    intro m hm
    have hmem : (m.id, m.minerAccount) ∈ s.miners.rows.map fun m => (m.id, m.minerAccount) :=
      h ▸ List.mem_map_of_mem (f := fun m : Miner => (m.id, m.minerAccount)) hm
    obtain ⟨n, hn, heq⟩ := List.mem_map.mp hmem
    exact ⟨n, hn, congrArg Prod.fst heq, congrArg Prod.snd heq⟩
  intro m hm m' hm' heq
  obtain ⟨n, hn, hid, haccount⟩ := hfrom m hm
  obtain ⟨n', hn', hid', haccount'⟩ := hfrom m' hm'
  rw [← hid, ← hid']
  exact hs n hn n' hn' (haccount.trans (heq.trans haccount'.symm))

theorem sameCitizens_setTotal (s : Locks.State H) (miner : Nat) (t : OMap String Asset) :
    SameCitizens s { s with miners := s.miners.modify miner (setTotal t) } := by
  show (List.map _ (List.map _ s.miners.rows)) = _
  rw [List.map_map]
  refine List.map_congr_left fun m _ => ?_
  show (Miner.id (if _ then _ else _), Miner.minerAccount (if _ then _ else _)) = _
  split <;> rfl

theorem sameCitizens_addTotal (h : s.addTotal reg miner delta = some s') : SameCitizens s s' := by
  obtain ⟨_, _, t, _, _, _, rfl⟩ := addTotal_eq_some h
  exact sameCitizens_setTotal s miner t

theorem sameCitizens_adjustLockBalance {account : Nat}
    (h : s.adjustLockBalance reg miner account delta = some s') : SameCitizens s s' := by
  unfold Locks.State.adjustLockBalance at h
  split at h
  · cases h
    rfl
  · obtain ⟨s₁, hlock, h⟩ := bind_eq_some_iff.mp h
    obtain ⟨t, rfl, _⟩ := adjustLock_cases hlock
    have hsame : SameCitizens s { s with locks := t } := rfl
    split at h
    · exact hsame.trans (sameCitizens_addTotal h)
    · cases h
      rfl

/-- Totals and records apart, nothing has changed. -/
structure SameMoney (s s' : Locks.State H) : Prop where
  ledger : s'.ledger = s.ledger
  locks : s'.locks = s.locks
  citizens : SameCitizens s s'

theorem SameMoney.refl (s : Locks.State H) : SameMoney s s := ⟨rfl, rfl, rfl⟩

theorem SameMoney.trans (h : SameMoney s s') (h' : SameMoney s' s'') :
    SameMoney s s'' :=
  ⟨h'.ledger.trans h.ledger, h'.locks.trans h.locks, h.citizens.trans h'.citizens⟩

theorem sameMoney_addTotal (h : s.addTotal reg miner delta = some s') : SameMoney s s' := by
  refine ⟨?_, ?_, sameCitizens_addTotal h⟩
  all_goals
    obtain ⟨_, _, _, _, _, _, rfl⟩ := addTotal_eq_some h
    rfl

variable [DecidableEq H]

theorem sameMoney_adjustRecord {addr : Address H} (h : s.adjustRecord addr delta = some s') :
    SameMoney s s' := by
  obtain ⟨_, _, rfl⟩ := map_eq_some_iff.mp h
  exact ⟨rfl, rfl, rfl⟩

variable [Inhabited H]

theorem sameCitizens_adjustBalance {addr : Address H} (h : s.adjustBalance addr delta = some s') :
    SameCitizens s s' := by
  obtain ⟨_, _, rfl⟩ := map_eq_some_iff.mp h
  rfl

/-- Nothing happens, or the amount goes from the balance to the lock. -/
theorem lockBalance_steps {o : LockBalanceOperation H} (h : applyLockBalance reg o s = some s') :
    s' = s ∨ ∃ s₁ s₂,
      s.adjustBalance o.lockBalanceAddr ⟨-o.lockAssetAmount, o.lockAssetId⟩ = some s₁ ∧
      s₁.adjustLockBalance reg o.locktoMinerAccount o.lockBalanceAccount
        ⟨o.lockAssetAmount, o.lockAssetId⟩ = some s₂ ∧ SameMoney s₂ s' := by
  unfold applyLockBalance at h
  split at h
  · split at h
    · obtain ⟨s₁, s₂, h₁, h₂, h⟩ := bind_bind_eq_some h
      obtain ⟨s₃, h₃, h₄⟩ := bind_eq_some_iff.mp h
      refine .inr ⟨s₁, s₂, h₁, h₂, SameMoney.trans ?_ (sameMoney_adjustRecord h₄)⟩
      unfold Locks.State.lockBefore at h₃
      split at h₃
      · exact sameMoney_addTotal h₃
      · cases h₃
        exact .refl _
    · cases h
      exact .inl rfl
  · cases h

/-- What a foreclosure does: an amount goes from the lock to the balance. -/
theorem forecloseBalance_steps {o : ForecloseBalanceOperation H}
    (h : applyForecloseBalance reg o s = some s') :
    s' = s ∨ ∃ s₁ s₂,
      s.adjustLockBalance reg o.forecloseMinerAccount o.forecloseAccount
        ⟨-o.forecloseAssetAmount, o.forecloseAssetId⟩ = some s₁ ∧
      s₁.adjustBalance o.forecloseAddr ⟨o.forecloseAssetAmount, o.forecloseAssetId⟩ = some s₂ ∧
      SameMoney s₂ s' := by
  unfold applyForecloseBalance at h
  split at h
  · split at h
    · obtain ⟨s₁, s₂, h₁, h₂, h⟩ := bind_bind_eq_some h
      obtain ⟨s₃, h₃, h₄⟩ := bind_eq_some_iff.mp h
      refine .inr ⟨s₁, s₂, h₁, h₂, SameMoney.trans ?_ (sameMoney_adjustRecord h₄)⟩
      unfold Locks.State.forecloseBefore at h₃
      split at h₃
      · obtain ⟨_, _, _, _, h₃⟩ := bind_bind_eq_some h₃
        split at h₃
        · cases h₃
          exact .refl _
        · obtain ⟨_, _, rfl⟩ := map_eq_some_iff.mp h₃
          exact ⟨rfl, rfl, sameCitizens_setTotal s₂ _ _⟩
      · cases h₃
        exact .refl _
    · cases h
      exact .inl rfl
  · cases h

theorem sameCitizens_lockBalance {o : LockBalanceOperation H}
    (h : applyLockBalance reg o s = some s') : SameCitizens s s' := by
  obtain rfl | ⟨s₁, s₂, h₁, h₂, hsame⟩ := lockBalance_steps h
  · rfl
  · exact (sameCitizens_adjustBalance h₁).trans
      ((sameCitizens_adjustLockBalance h₂).trans hsame.citizens)

theorem sameCitizens_forecloseBalance {o : ForecloseBalanceOperation H}
    (h : applyForecloseBalance reg o s = some s') : SameCitizens s s' := by
  obtain rfl | ⟨s₁, s₂, h₁, h₂, hsame⟩ := forecloseBalance_steps h
  · rfl
  · exact (sameCitizens_adjustLockBalance h₁).trans
      ((sameCitizens_adjustBalance h₂).trans hsame.citizens)

end SameCitizens

variable {H : Type} [DecidableEq H] [Inhabited H] (reg : Registry H)

/-- `by_name` -/
def Registry.byName (name : String) : Option (Account H) :=
  reg.accounts.rows.find? fun x => reg.name x.id = name

namespace State

def setLedger (l : Ledger H) (s : State H) : State H :=
  { s with toState := { s.toState with ledger := l } }

def adjustBalance (addr : Address H) (delta : Asset) (s : State H) : Option (State H) :=
  (s.ledger.adjustBalance addr delta).map fun l => s.setLedger l

end State

/-! ### Transfers -/

structure TransferOperation (H : Type) where
  guaranteeId : Option Nat
  fromAddr : Address H
  toAddr : Address H
  amount : Asset

def evaluateTransfer (o : TransferOperation H) (s : State H) : Bool :=
  (reg.symbol o.amount.assetId).isSome &&
  (!(reg.isWhite o.fromAddr || reg.isWhite o.toAddr) || decide (o.amount.assetId = coreAsset)) &&
  decide (o.toAddr.version ≠ Address.contract) &&
  decide (o.amount.amount ≤ getBalance reg.toRegistry o.fromAddr o.amount.assetId s.toState)

/-- `transfer_evaluator`, with `validate`. -/
def applyTransfer (o : TransferOperation H) (s : State H) : Option (State H) :=
  if 0 < o.amount.amount ∧ s.ifEvaluate (evaluateTransfer reg o s) = true then
    (s.adjustBalance o.fromAddr o.amount.neg).bind fun s => s.adjustBalance o.toAddr o.amount
  else none

/-! ### Locks to citizens -/

def State.onLocks (f : Locks.State H → Option (Locks.State H))
    (hf : ∀ {s s'}, f s = some s' → SameCitizens s s') (s : State H) : Option (State H) :=
  (f s.toState).pbind fun t ht =>
    some { s with toState := t, accountOnce := (hf ht).accountOnce s.accountOnce }

/-! ### Locks of guards -/

structure GuardLockBalanceOperation (H : Type) where
  lockAssetId : Nat
  lockAssetAmount : Int
  lockBalanceAccount : Nat
  lockBalanceAccountId : Nat
  lockAddress : Address H

structure GuardForecloseBalanceOperation (H : Type) where
  forecloseAssetId : Nat
  forecloseAssetAmount : Int
  forecloseBalanceAccount : Nat
  forecloseBalanceAccountId : Nat
  forecloseAddress : Address H

def guardMatches (guard accountId : Nat) (addr : Address H) (s : State H) : Bool :=
  (s.guards.find guard).any fun g =>
    (reg.account g.guardMemberAccount).any (fun x => decide (x.addr = addr)) &&
    decide (g.guardMemberAccount = accountId)

/-- `get_guard_lock_balance` -/
def getGuardLockBalance (guard assetId : Nat) (s : State H) : Asset :=
  ((s.guardLocks.find (guard, assetId)).map fun o => ⟨o.lockAssetAmount, o.lockAssetId⟩).getD
    ⟨0, coreAsset⟩

def setGuardAmount (n : Int) : Edit GuardLock.key :=
  ⟨fun o => { o with lockAssetAmount := n }, fun _ => rfl⟩

def setGuardTotal (m : OMap String Asset) : Edit Guard.id :=
  ⟨fun x => { x with guardLockBalance := m }, fun _ => rfl⟩

namespace State

/-- `adjust_guard_lock_balance`; an object stays when nothing is locked any more. -/
def adjustGuardLockBalance (guard : Nat) (delta : Asset) (s : State H) : Option (State H) :=
  if delta.amount = 0 then some s
  else match s.guardLocks.find (guard, delta.assetId) with
    | none =>
      if 0 < delta.amount then
        (s.guardLocks.insert ⟨guard, delta.assetId, delta.amount⟩).map fun t =>
          { s with guardLocks := t }
      else none
    | some o =>
      if delta.amount < 0 ∧ o.lockAssetAmount < -delta.amount then none
      else (share (o.lockAssetAmount + delta.amount)).map fun n =>
        { s with guardLocks := s.guardLocks.modify (guard, delta.assetId) (setGuardAmount n) }

def addGuardTotal (guard : Nat) (delta : Asset) (s : State H) : Option (State H) := do
  let sym ← reg.symbol delta.assetId
  let g ← s.guards.find guard
  let t ← addTo sym delta g.guardLockBalance
  some { s with guards := s.guards.modify guard (setGuardTotal t) }

def subGuardTotal (guard : Nat) (delta : Asset) (s : State H) : Option (State H) := do
  let sym ← reg.symbol delta.assetId
  let g ← s.guards.find guard
  match g.guardLockBalance.find sym with
  | none => some s
  | some t =>
    let t ← t.add delta.neg
    some { s with
      guards := s.guards.modify guard (setGuardTotal (g.guardLockBalance.insert sym t)) }

end State

/-- `guard_lock_balance_evaluator`, with `validate`. -/
def applyGuardLockBalance (o : GuardLockBalanceOperation H) (s : State H) : Option (State H) :=
  let amount : Asset := ⟨o.lockAssetAmount, o.lockAssetId⟩
  if 0 < o.lockAssetAmount ∧ s.ifEvaluate ((reg.symbol o.lockAssetId).isSome &&
      guardMatches reg o.lockBalanceAccount o.lockBalanceAccountId o.lockAddress s &&
      decide (o.lockAssetAmount ≤
        getBalance reg.toRegistry o.lockAddress o.lockAssetId s.toState)) = true then do
    let s ← s.adjustBalance o.lockAddress amount.neg
    let s ← s.adjustGuardLockBalance o.lockBalanceAccount amount
    s.addGuardTotal reg o.lockBalanceAccount amount
  else none

/-- `guard_foreclose_balance_evaluator`, with `validate`. -/
def applyGuardForecloseBalance (o : GuardForecloseBalanceOperation H) (s : State H) :
    Option (State H) :=
  let amount : Asset := ⟨o.forecloseAssetAmount, o.forecloseAssetId⟩
  if 0 < o.forecloseAssetAmount ∧ s.ifEvaluate ((reg.symbol o.forecloseAssetId).isSome &&
      guardMatches reg o.forecloseBalanceAccount o.forecloseBalanceAccountId
        o.forecloseAddress s &&
      decide (o.forecloseAssetAmount ≤
        (getGuardLockBalance o.forecloseBalanceAccount o.forecloseAssetId s).amount)) = true then do
    let s ← s.adjustBalance o.forecloseAddress amount
    let s ← s.adjustGuardLockBalance o.forecloseBalanceAccount amount.neg
    s.subGuardTotal reg o.forecloseBalanceAccount amount
  else none

/-! ### Pay-backs -/

structure PayBackOperation (H : Type) where
  guaranteeId : Option Nat
  payBackOwner : Address H
  payBackBalance : OMap String Asset

variable (owner : Address H)

def payBacksOf (s : State H) : List (PayBack H) :=
  s.payBacks.rows.filter fun o => o.payBackOwner.addr = owner.addr

/-- `temp_payback_balance`: the pay-backs under the names of the citizens. -/
def byCitizenName (l : List (PayBack H)) (s : State H) : Option (OMap String Asset) :=
  l.foldlM (fun m o => do
    let miner ← s.miners.find o.minerId
    let account ← reg.account miner.minerAccount
    some (m.insert (reg.name account.id) o.oneOwnerBalance)) OMap.empty

def citizenNamed (name : String) (s : State H) : Option Nat :=
  (reg.byName name).bind fun x => (s.citizenOf x.id).map Miner.id

def checkEntry (there : OMap String Asset) (s : State H) (entry : String × Asset) : Bool :=
  (citizenNamed reg entry.1 s).isSome && decide (0 < entry.2.amount) &&
  (there.find entry.1).any fun x =>
    decide (entry.2.assetId = x.assetId) && decide (entry.2.amount ≤ x.amount)

def sumBySymbol (l : List (String × Asset)) : Option (OMap String Asset) :=
  l.foldlM (fun m entry => (reg.symbol entry.2.assetId).bind fun sym => addTo sym entry.2 m)
    OMap.empty

/-- `min_payback_balance` is lowered for one asset and stays so for the next ones. -/
def checkMinimum : Int → List (String × Asset) → Bool
  | _, [] => true
  | least, entry :: l =>
    let least := match reg.minPayBackBalanceOtherAsset.find entry.1 with
      | none => least
      | some x => min least x.amount
    decide (0 < entry.2.amount) && decide (least ≤ entry.2.amount) && checkMinimum least l

def payBackCheckedFrom : Nat := 4879000

/-- `pay_back_evaluator::do_evaluate` -/
def evaluatePayBack (o : PayBackOperation H) (s : State H) : Bool :=
  let l := payBacksOf o.payBackOwner s
  let noEffectBalance := l.all fun x => x.oneOwnerBalance.amount = 0
  !l.isEmpty && (byCitizenName reg l s).any fun there =>
    if noEffectBalance then decide (s.headBlockNum < payBackCheckedFrom)
    else o.payBackBalance.entries.all (checkEntry reg there s) &&
      (sumBySymbol reg o.payBackBalance.entries).any fun m =>
        checkMinimum reg reg.minPayBackBalance m.entries

def setPayBack (x : Asset) : Edit (PayBack.key (H := H)) :=
  ⟨fun o => { o with oneOwnerBalance := x }, fun _ => rfl⟩

/-- `adjust_pay_back_balance` -/
def State.adjustPayBackBalance (delta : Asset) (miner : Nat) (s : State H) : Option (State H) :=
  if delta.amount = 0 then some s
  else if (reg.symbol delta.assetId).isSome then
    match s.payBacks.find (owner.addr, miner) with
    | none =>
      if 0 < delta.amount then
        (s.payBacks.insert ⟨owner, miner, delta⟩).map fun t => { s with payBacks := t }
      else none
    | some o => (o.oneOwnerBalance.add delta).map fun x =>
      { s with payBacks := s.payBacks.modify (owner.addr, miner) (setPayBack x) }
  else none

/-- One entry in `do_apply`. -/
def State.payBack (s : State H) (entry : String × Asset) : Option (State H) :=
  (citizenNamed reg entry.1 s).bind fun miner =>
    (s.adjustPayBackBalance reg owner entry.2.neg miner).bind fun s =>
      s.adjustBalance owner entry.2

/-- `pay_back_evaluator`, with `validate`. -/
def applyPayBack (o : PayBackOperation H) (s : State H) : Option (State H) :=
  if (∀ entry ∈ o.payBackBalance.entries, 0 < entry.2.amount) ∧
      s.ifEvaluate (evaluatePayBack reg o s) = true then
    o.payBackBalance.entries.foldlM (State.payBack reg o.payBackOwner) s
  else none

/-! ### Bonuses -/

structure BonusOperation (H : Type) where
  guaranteeId : Option Nat
  bonusOwner : Address H
  bonusBalance : OMap String Int

/-- `get_bonus_balance`, of one asset. -/
def getBonusBalance (assetId : Nat) (s : State H) : Int :=
  max 0 (((s.bonuses.find owner.addr).bind fun o => o.bonus.find assetId).getD 0)

/-- All assets of a bonus exist: `get_bonus_balance` reads their symbols. -/
def bonusReadable (s : State H) : Bool :=
  (s.bonuses.find owner.addr).all fun o =>
    o.bonus.entries.all fun entry => (reg.symbol entry.1).isSome

/-- `bonus_evaluator::do_evaluate` -/
def evaluateBonus (o : BonusOperation H) (s : State H) : Bool :=
  bonusReadable reg o.bonusOwner s &&
  o.bonusBalance.entries.all fun entry => (reg.bySymbol entry.1).any fun a =>
    decide (0 < entry.2) && decide (entry.2 ≤ getBonusBalance o.bonusOwner a s)

def setBonus (a : Nat) (n : Int) (ha : a ≠ coreAsset) : Edit (Bonus.key (H := H)) where
  run o :=
    { o with
      bonus := o.bonus.insert a n
      noCore := by
        rw [OMap.find_insert, if_neg ha.symm]
        exact o.noCore }
  keeps _ := rfl

/-- The check of the entry in `adjust_bonus_balance`, if there is one. -/
def bonusCovers : Option Int → Int → Bool
  | none, amount => 0 < amount
  | some n, amount => -amount ≤ n

theorem bonusCovers_nonneg {entry : Option Int} {amount : Int}
    (h : bonusCovers entry amount = true) : 0 ≤ entry.getD 0 + amount := by
  cases entry with
  | none =>
    have hpos : 0 < amount := of_decide_eq_true h
    show 0 ≤ 0 + amount
    omega
  | some n =>
    have henough : -amount ≤ n := of_decide_eq_true h
    show 0 ≤ n + amount
    omega

/-- `adjust_bonus_balance` -/
def State.adjustBonusBalance (delta : Asset) (s : State H) : Option (State H) :=
  if hcore : delta.assetId = coreAsset then some s
  else if delta.amount = 0 then some s
  else if (reg.symbol delta.assetId).isSome then
    match s.bonuses.find owner.addr with
    | none =>
      if 0 < delta.amount then
        (s.bonuses.insert
          ((setBonus delta.assetId delta.amount hcore).run ⟨owner, OMap.empty, rfl⟩)).map
            fun t => { s with bonuses := t }
      else none
    | some o =>
      if bonusCovers (o.bonus.find delta.assetId) delta.amount then
        (share ((o.bonus.find delta.assetId).getD 0 + delta.amount)).map fun n =>
          { s with
            bonuses := s.bonuses.modify owner.addr (setBonus delta.assetId n hcore) }
      else none
  else none

/-- One entry in `do_apply`. -/
def State.takeBonus (s : State H) (entry : String × Int) : Option (State H) :=
  (reg.bySymbol entry.1).bind fun a =>
    (s.adjustBonusBalance reg owner ⟨-entry.2, a⟩).bind fun s =>
      s.adjustBalance owner ⟨entry.2, a⟩

/-- `bonus_evaluator`, with `validate`. -/
def applyBonus (o : BonusOperation H) (s : State H) : Option (State H) :=
  if (∀ entry ∈ o.bonusBalance.entries, 0 < entry.2) ∧
      s.ifEvaluate (evaluateBonus reg o s) = true then
    o.bonusBalance.entries.foldlM (State.takeBonus reg o.bonusOwner) s
  else none

/-! ### Operations with their fees -/

inductive Operation (H : Type) where
  | transfer (o : TransferOperation H)
  | lockBalance (o : LockBalanceOperation H)
  | forecloseBalance (o : ForecloseBalanceOperation H)
  | guardLockBalance (o : GuardLockBalanceOperation H)
  | guardForecloseBalance (o : GuardForecloseBalanceOperation H)
  | payBack (o : PayBackOperation H)
  | bonus (o : BonusOperation H)

namespace Operation

/-- `fee_payer` -/
def feePayer : Operation H → Address H
  | transfer o => o.fromAddr
  | lockBalance o => o.lockBalanceAddr
  | forecloseBalance o => o.forecloseAddr
  | guardLockBalance o => o.lockAddress
  | guardForecloseBalance o => o.forecloseAddress
  | payBack o => o.payBackOwner
  | bonus o => o.bonusOwner

/-- `get_guarantee_id` -/
def guaranteeId : Operation H → Option Nat
  | transfer o => o.guaranteeId
  | payBack o => o.guaranteeId
  | bonus o => o.guaranteeId
  | _ => none

/-- `validate`, `do_evaluate` and `do_apply` -/
def apply : Operation H → State H → Option (State H)
  | transfer o => applyTransfer reg o
  | lockBalance o => State.onLocks (applyLockBalance reg.toRegistry o) sameCitizens_lockBalance
  | forecloseBalance o =>
    State.onLocks (applyForecloseBalance reg.toRegistry o) sameCitizens_forecloseBalance
  | guardLockBalance o => applyGuardLockBalance reg o
  | guardForecloseBalance o => applyGuardForecloseBalance reg o
  | payBack o => applyPayBack reg o
  | bonus o => applyBonus reg o

end Operation

/-- An operation in a transaction, at some head block. -/
structure Event (H : Type) where
  headBlockNum : Nat
  op : Operation H
  /-- the field `fee` of the operation -/
  fee : Asset
  /-- none if `skip_fee_schedule_check` is set -/
  requiredFee : Option Int
  /-- `_trx != nullptr` -/
  inTrx : Bool
  testing : Bool

namespace Event

def charge (e : Event H) : FeeCharge H :=
  ⟨e.op.feePayer, e.fee, e.op.guaranteeId, e.inTrx, e.testing, none⟩

/-- `prepare_fee`, and the comparison with the fee schedule, which is one of numbers. -/
def feeAccepted (e : Event H) : Bool :=
  decide (0 ≤ e.fee.amount) && (reg.symbol e.fee.assetId).isSome &&
  e.requiredFee.all fun n => decide (n ≤ e.fee.amount)

def payFee (e : Event H) (s : State H) : Option (State H) :=
  if e.testing then some s
  else ((e.charge.debit s.ledger).bind e.charge.payFee).map fun l => s.setLedger l

/-- `none` if the operation is not accepted. -/
def apply (e : Event H) (s : State H) : Option (State H) :=
  if e.feeAccepted reg then
    (e.op.apply reg { s with toState := { s.toState with headBlockNum := e.headBlockNum } }).bind
      e.payFee
  else none

end Event

def run (events : List (Event H)) (s : State H) : Option (State H) :=
  events.foldlM (fun s e => e.apply reg s) s

end HyperExchange.Money
