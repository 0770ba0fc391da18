/-
  **Rounds of citizens, and what they are paid** (`update_miner_schedule` and `pay_miner` in
  `db_witness_schedule.cpp`).

  Every 25 blocks the active citizens are weighed by what is locked to them, 25 of them are
  drawn, and their locks and the prices are put aside.  The citizen of a block shares what
  the block pays with the owners of these locks.  The weight is reckoned from the totals in
  128 bits, the worth of the locks one by one in 256 bits; `pay_miner` asserts that the
  second does not exceed the first.  A call that throws is `none`, and so is signed overflow.
-/
import HyperExchange.LocalMoney
import HyperExchange.RoundedShares

namespace HyperExchange.Rounds

open Fees Keyed OrderedMap Locks
open Rounding

/-! ### Numbers -/

/-- `boost::multiprecision::uint128_t` of a signed number. -/
def u128 (n : Int) : Nat := (n % 2 ^ 128).toNat

def u256 (n : Int) : Nat := (n % 2 ^ 256).toNat

/-- A `uint64_t` as `int64_t`. -/
def signed (n : Nat) : Int := if n < 2 ^ 63 then n else n - 2 ^ 64

/-! ### State -/

/-- `price::is_null`: the amounts are compared with products of zero. -/
def isNull (p : Price) : Bool := p.base.assetId = coreAsset && p.quote.assetId = coreAsset

/-- `price_feed` -/
structure Feed where
  settlementPrice : Price
  valid : isNull settlementPrice = true ∨
    (0 < settlementPrice.base.amount ∧ settlementPrice.base.amount < 2 ^ 63) ∧
      0 < settlementPrice.quote.amount ∧ settlementPrice.quote.amount < 2 ^ 63

/-- `GRAPHENE_PRODUCT_PER_ROUND` -/
def productPerRound : Nat := 25

structure State (H : Type) extends toMoney : Money.State H where
  /-- a `flat_set` -/
  activeWitnesses : List Nat
  activeOnce : activeWitnesses.Nodup
  /-- the index `by_address` of the blocked addresses, so by hash -/
  blocked : H → Bool
  participationRate : Nat → Nat
  totalProduced : Nat → Nat
  pledgeWeight : Nat → Nat
  /-- an option of accounts, at most 20 -/
  minerPledgePayBack : Nat → Fin 21
  /-- the accounts of `get_guard_members` -/
  guardMembers : List Nat
  currentFeed : Nat → Feed
  currentShuffledMiners : List Nat
  currentRoundLockbalanceCache : OMap Nat (List LockBalance)
  currentPriceFeed : OMap Nat Feed

variable {H : Type} [DecidableEq H] [Inhabited H] (reg : Money.Registry H)

namespace State

/-! ### Weights -/

variable (s : State H)

/-- One entry of `lockbalance_total`. -/
def addWeight (weight : Nat) (x : Asset) : Option Nat :=
  if (reg.symbol x.assetId).isSome then
    if x.assetId = coreAsset then
      some (if 0 < x.amount then (weight + u128 x.amount) % 2 ^ 128 else weight)
    else
      let p := (s.currentFeed x.assetId).settlementPrice
      if isNull p then some weight
      else some ((weight +
        u128 x.amount * u128 p.quote.amount % 2 ^ 128 / u128 p.base.amount) % 2 ^ 128)
  else none

def weigh (m : Miner) : Option Nat :=
  m.lockbalanceTotal.entries.foldlM (fun weight entry => s.addWeight reg weight entry.2)
    (100 * (s.totalProduced m.id + 1) % 2 ^ 128)

def setPledgeWeight (miner weight : Nat) (s : State H) : State H :=
  { s with pledgeWeight := fun x => if x = miner then weight else s.pledgeWeight x }

def updateWeights : Option (State H) :=
  s.activeWitnesses.foldlM (fun s miner => do
    let m ← s.miners.find miner
    let weight ← s.weigh reg m
    some (s.setPledgeWeight miner weight)) s

/-! ### Drawing -/

/-- `caluate_slot` -/
def calculateSlot (value : Nat) : Nat → List Nat → Nat
  | _, [] => 0
  | _, [_] => 0
  | init, weight :: next :: l =>
    if value < init + weight then 0 else calculateSlot value (init + weight) (next :: l) + 1

/-- The drawing: each time the one that is drawn is put behind those still to be drawn, and
    nothing can be drawn by a total weight of zero. -/
def draw : Nat → (Nat → Nat) → List (Nat × Nat) → Nat → Option (List Nat)
  | 0, _, _, _ => some []
  | n + 1, random, l, totalWeight =>
    if totalWeight = 0 then none
    else
      let slot := calculateSlot (random 0 % totalWeight) 0 (l.map Prod.snd)
      l[slot]?.bind fun drawn =>
        (draw n (fun i => random (i + 1)) (pick l slot) (totalWeight - drawn.2)).map
          (drawn.1 :: ·)

def candidates : Option (List (Nat × Nat)) :=
  s.activeWitnesses.foldlM (fun l miner => do
    let m ← s.miners.find miner
    let account ← reg.account m.minerAccount
    some (if s.blocked account.addr.addr then l
      else l ++ [(miner, s.pledgeWeight miner * s.participationRate miner / 100)])) []

def shuffle (random : Nat → Nat) (s : State H) : Option (State H) := do
  let l ← s.candidates reg
  let miners ← draw productPerRound random l (l.map Prod.snd).sum
  some { s with currentShuffledMiners := miners }

/-! ### What is put aside -/

/-- The index `by_miner_account`. -/
def locksTo (miner : Nat) (s : State H) : List LockBalance :=
  s.locks.rows.filter fun o => o.locktoMinerAccount = miner

def addToCache (cache : OMap Nat (List LockBalance)) (miner : Nat) (s : State H) :
    OMap Nat (List LockBalance) :=
  if (s.locksTo miner).isEmpty then cache
  else cache.insert miner ((cache.find miner).getD [] ++ s.locksTo miner)

def putAside : Option (State H) := do
  let cache := s.currentShuffledMiners.foldl (fun cache miner => s.addToCache cache miner) .empty
  let assets := s.currentShuffledMiners.flatMap fun miner =>
    (s.locksTo miner).map LockBalance.lockAssetId
  let feeds ← assets.foldlM (fun feeds a =>
    if (reg.symbol a).isSome then some (feeds.insert a (s.currentFeed a)) else none) OMap.empty
  some { s with currentPriceFeed := feeds, currentRoundLockbalanceCache := cache }

/-- `update_miner_schedule`, at the last block of a round. -/
def updateMinerSchedule (random : Nat → Nat) (s : State H) : Option (State H) := do
  let s ← s.updateWeights reg
  let s ← s.shuffle reg random
  s.putAside reg

end State

/-! ### Paying a citizen -/

/-- What a block pays, and whom: the reward of its number, and its fees. -/
structure Pay where
  miner : Nat
  reward : Nat
  trxfee : Nat
deriving DecidableEq, Repr

def Pay.allPaid (p : Pay) : Option Nat :=
  if p.reward * 50 < 2 ^ 63 ∧ p.reward * 50 / 100 + p.trxfee < 2 ^ 63 then
    some (p.reward * 50 / 100 + p.trxfee)
  else none

def counts (o : LockBalance) (p : Price) : Bool :=
  o.lockAssetId = coreAsset || !isNull p && p.quote.assetId = coreAsset

/-- `cal_end` -/
def worth (o : LockBalance) (p : Price) : Nat :=
  if o.lockAssetId = coreAsset then u256 o.lockAssetAmount
  else u256 o.lockAssetAmount * u256 p.quote.amount % 2 ^ 256 / u256 p.base.amount

/-- `cal_cur_pledge`, `all_pledge_paid`, and who is paid how much. -/
structure Tally where
  curPledge : Nat
  allPledgePaid : Nat
  owners : List (Nat × Nat)

def payLock (feeds : OMap Nat Feed) (pledgePay allPledge : Nat) (t : Tally) (o : LockBalance) :
    Option Tally :=
  (feeds.find o.lockAssetId).bind fun feed =>
    if counts o feed.settlementPrice then
      if allPledge = 0 then none
      else
        let calEnd := worth o feed.settlementPrice
        let endValue := pledgePay * calEnd % 2 ^ 256 / allPledge % 2 ^ 64
        some ⟨(t.curPledge + calEnd) % 2 ^ 256, (t.allPledgePaid + endValue) % 2 ^ 64,
          t.owners ++ [(o.lockBalanceAccount, endValue)]⟩
    else some t

/-- What `pay_miner` finds out: the weighted sum, the payments to the owners of the locks,
    and what is left for the citizen. -/
structure Plan where
  curPledge : Nat
  owners : List (Nat × Nat)
  left : Int

namespace State

/-- `GRAPHENE_MINER_PLEDGE_PAY_RATIO` less the option of the citizen's account. -/
def pledgePay (allPaid : Nat) (m : Miner) (s : State H) : Nat :=
  allPaid * (100 - (s.minerPledgePayBack m.minerAccount).val) % 2 ^ 64 / 100

def payPlan (p : Pay) (m : Miner) (s : State H) : Option Plan :=
  p.allPaid.bind fun allPaid =>
    match s.currentRoundLockbalanceCache.find p.miner with
    | none => some ⟨0, [], allPaid⟩
    | some l =>
      (l.foldlM (payLock s.currentPriceFeed (s.pledgePay allPaid m)
        (s.pledgeWeight p.miner)) ⟨0, 0, []⟩).bind fun t =>
          -- the assertion of the source
          if t.curPledge ≤ s.pledgeWeight p.miner then
            some ⟨t.curPledge, t.owners, signed ((allPaid + 2 ^ 64 - t.allPledgePaid) % 2 ^ 64)⟩
          else none

def guardShares (p : Pay) (s : State H) : Option (List (Nat × Nat)) :=
  let all := p.reward * 30 / 100
  let count := s.guardMembers.length
  match s.guardMembers.getLast? with
  | none => none
  | some last => some (s.guardMembers.dropLast.map (fun account => (account, all / count)) ++
      [(last, all - (count - 1) * (all / count))])

def payAccount (miner : Nat) (s : Money.State H) (share : Nat × Int) : Option (Money.State H) :=
  (reg.account share.1).bind fun x =>
    s.adjustPayBackBalance reg x.addr ⟨share.2, coreAsset⟩ miner

/-- `pay_miner`; the development team is paid at the address of the first contract. -/
def payMiner (firstContract : Address H) (p : Pay) (s : State H) : Option (State H) := do
  let m ← s.miners.find p.miner
  let guards ← s.guardShares p
  let plan ← s.payPlan p m
  let develop := p.reward - p.reward * 30 / 100 - p.reward * 50 / 100
  let t ← s.toMoney.adjustBalance firstContract ⟨develop, coreAsset⟩
  let shares := (guards ++ plan.owners).map fun x => (x.1, (x.2 : Int))
  let t ← (shares ++ [(m.minerAccount, plan.left)]).foldlM (payAccount reg p.miner) t
  let supply ← share (t.currentSupply coreAsset + p.reward)
  some { s with
    toMoney := { t with
      currentSupply := fun a => if a = coreAsset then supply else t.currentSupply a } }

end State

/-! ### Blocks of a round -/

/-- A money operation, or a published price: the feed of the asset becomes the median of
    those published. -/
inductive Action (H : Type) where
  | money (e : Money.Event H)
  | feed (assetId : Nat) (f : Feed)

structure Block (H : Type) where
  actions : List (Action H)
  pay : Pay

namespace State

def act (s : State H) : Action H → State H
  | .money e => { s with toMoney := (e.apply reg s.toMoney).getD s.toMoney }
  | .feed a f => { s with currentFeed := fun x => if x = a then f else s.currentFeed x }

def beforePay (b : Block H) (s : State H) : State H :=
  let s := b.actions.foldl (act reg) s
  { s with
    totalProduced := fun x =>
      if x = b.pay.miner then s.totalProduced x + 1 else s.totalProduced x }

def applyBlock (firstContract : Address H) (s : State H) (b : Block H) : Option (State H) :=
  (s.beforePay reg b).payMiner reg firstContract b.pay

def run (firstContract : Address H) (blocks : List (Block H)) (s : State H) : Option (State H) :=
  blocks.foldlM (applyBlock reg firstContract) s

end State

end HyperExchange.Rounds
