/-
  **A node with its database** (`db_update.cpp`, `db_block.cpp`, `db_management.cpp`).

  `Replica` is the node of `ReversibleBlocks.lean` together with the contents of the object
  database.  The fields of `dynamic_global_property_object` that a block sets are spelled
  out; the two block numbers among them are those of the node.  The remaining steps of
  `_apply_block` (header checks, transactions, maintenance, schedules) are `Rules`: they
  read the database and the block, and nothing in them reads
  `last_irreversible_block_num`.

  An undo state is the snapshot that undoing brings back.
-/
import Mathlib.Data.Finset.Insert
import HyperExchange.ReversibleBlocks

namespace HyperExchange.Nodes

open Execution Db Db.UndoHistory Option

/-! ### The dynamic global properties -/

/-- The fields of `dynamic_global_property_object` that `update_global_dynamic_data` sets,
    the head number apart; `other` are the remaining ones. -/
structure Properties (O : Type) where
  headBlockId : Nat
  time : Nat
  currentWitness : Nat
  recentlyMissedCount : Nat
  currentAslot : Nat
  recentSlotsFilled : Nat
  roundProducedMiners : Finset Nat
  other : O
deriving DecidableEq

/-- The whole object. -/
structure DynamicGlobalProperties (O : Type) where
  headBlockNumber : Nat
  lastIrreversibleBlockNum : Nat
  properties : Properties O
deriving DecidableEq

structure Block (X : Type) where
  blockNum : Nat
  id : Nat
  timestamp : Nat
  miner : Nat
  body : X
deriving DecidableEq

/-- The object database without the two block numbers. -/
structure Contents (O D : Type) where
  properties : Properties O
  rest : D
deriving DecidableEq

/-- The rest of the chain's code, and the configuration. -/
structure Rules (X O D T : Type) where
  genesis : Contents O D
  /-- `_apply_block` up to `update_global_dynamic_data`, at this head number -/
  before : Nat → Contents O D → Block X → Option (Contents O D)
  /-- `_apply_block` after `update_last_irreversible_block` -/
  after : Nat → Contents O D → Block X → Option (Contents O D)
  applyTransaction : Nat → Contents O D → T → Option (Contents O D)
  blockInterval : D → Nat
  maintenanceSkipSlots : D → Nat
  /-- `dynamic_flags & maintenance_flag` -/
  maintenanceFlag : O → Bool
  currentShuffledMiners : D → List Nat
  /-- `total_missed++` of a miner -/
  missed : D → Nat → D
  /-- `_checkpoints.rbegin()->first` -/
  lastCheckpoint : Option Nat
  skipUndoHistoryCheck : Bool

/-- `GRAPHENE_PRODUCT_PER_ROUND` -/
def productPerRound : Nat := 25

/-- `GRAPHENE_BONUS_DISTRIBUTE_BLOCK_NUM` -/
def bonusDistributeBlockNum : Nat := 100000

/-- `GRAPHENE_MAX_UNDO_HISTORY` -/
def maxUndoHistory : Nat := 10000

namespace Rules

variable {X O D T : Type} (rules : Rules X O D T)

/-- `get_slot_time` of a positive slot. -/
def getSlotTime (head : Nat) (x : Contents O D) (slot : Nat) : Nat :=
  let interval := rules.blockInterval x.rest
  if head = 0 then x.properties.time + slot * interval
  else
    let headSlotTime := x.properties.time / interval * interval
    let skip := rules.maintenanceSkipSlots x.rest
    let slot := if rules.maintenanceFlag x.properties.other then slot + skip else slot
    let slot := if head % bonusDistributeBlockNum = 0 then slot + skip else slot
    headSlotTime + slot * interval

def getSlotAtTime (head : Nat) (x : Contents O D) (time : Nat) : Nat :=
  let first := rules.getSlotTime head x 1
  if time < first then 0 else (time - first) / rules.blockInterval x.rest + 1

def getScheduledMiner (aslot : Nat) (d : D) (slot : Nat) : Nat :=
  (rules.currentShuffledMiners d).getD ((aslot + slot) % productPerRound) 0

def countMissed (aslot : Nat) (miner : Nat) (d : D) (missedBlocks : Nat) : D :=
  (List.range missedBlocks).foldl
    (fun d i =>
      let w := rules.getScheduledMiner aslot d (i + 1)
      if w ≠ miner then rules.missed d w else d) d

def recentlyMissedCount (b : Block X) (missedBlocks count : Nat) : Nat :=
  if b.blockNum = 1 then 0
  else if (rules.lastCheckpoint.any fun last => decide (b.blockNum ≤ last)) then 0
  else if missedBlocks ≠ 0 then (count + 4 * missedBlocks) % 2 ^ 32
  else if 4 < count then count - 3
  else if 0 < count then count - 1
  else count

/-- `missed_blocks` after its decrement, an `uint32_t`. -/
def missedBlocks (head : Nat) (x : Contents O D) (b : Block X) : Nat :=
  (rules.getSlotAtTime head x b.timestamp + (2 ^ 32 - 1)) % 2 ^ 32

/-- What `update_global_dynamic_data` makes of the database. -/
def dynamicData (head : Nat) (x : Contents O D) (b : Block X) : Contents O D :=
  let missed := rules.missedBlocks head x b
  let p := x.properties
  let produced := if b.blockNum % productPerRound = 0 then ∅ else p.roundProducedMiners
  { properties :=
      { headBlockId := b.id
        time := b.timestamp
        currentWitness := b.miner
        recentlyMissedCount := rules.recentlyMissedCount b missed p.recentlyMissedCount
        currentAslot := (p.currentAslot + missed + 1) % 2 ^ 64
        recentSlotsFilled := (p.recentSlotsFilled * 2 + 1) * 2 ^ missed % 2 ^ 128
        roundProducedMiners := insert b.miner produced
        other := p.other }
    rest := rules.countMissed p.currentAslot b.miner x.rest missed }

/-- The check at the end of `update_global_dynamic_data`, on two `uint32_t`. -/
def passesUndoHistoryCheck (lastIrreversible : Nat) (b : Block X) : Bool :=
  rules.skipUndoHistoryCheck ||
    decide ((b.blockNum + 2 ^ 32 - lastIrreversible) % 2 ^ 32 < maxUndoHistory)

def updateGlobalDynamicData (head lastIrreversible : Nat) (x : Contents O D) (b : Block X) :
    Option (Contents O D) :=
  if rules.passesUndoHistoryCheck lastIrreversible b then some (rules.dynamicData head x b)
  else none

/-- `_apply_block`, but for the irreversible number.  The header check makes the block the
    successor of the head. -/
def applyBlock (head lastIrreversible : Nat) (x : Contents O D) (b : Block X) :
    Option (Contents O D) :=
  if b.blockNum = head + 1 then do
    let x ← rules.before head x b
    let x ← rules.updateGlobalDynamicData head lastIrreversible x b
    rules.after (head + 1) x b
  else none

def replay : List (Block X) → Option (Contents O D)
  | [] => some rules.genesis
  | b :: chain => do
    let x ← replay chain
    let x ← rules.before chain.length x b
    rules.after (chain.length + 1) (rules.dynamicData chain.length x b) b

variable {rules}

theorem replay_cons {chain : List (Block X)} {x y : Contents O D} {b : Block X} {lib : Nat}
    (hx : rules.replay chain = some x) (hy : rules.applyBlock chain.length lib x b = some y) :
    rules.replay (b :: chain) = some y := by
  simp only [applyBlock, updateGlobalDynamicData] at hy
  split at hy
  · simp only [bind_eq_bind, bind_eq_some_iff] at hy
    obtain ⟨x', hbefore, x'', hdata, hafter⟩ := hy
    split at hdata
    · cases hdata
      simp only [replay, hx, bind_eq_bind, bind_some, hbefore]
      exact hafter
    · cases hdata
  · cases hy

end Rules

/-! ### The node -/

/-- What an undo state brings back; `chain` are the blocks applied, newest first. -/
structure Snapshot (X O D : Type) where
  chain : List (Block X)
  contents : Contents O D
deriving DecidableEq

structure Replica (X O D Id : Type) where
  node : Node (Snapshot X O D) Id
  now : Snapshot X O D
  /-- the ids in the file of the undo stack -/
  stackFile : List Id

namespace Replica

variable {X O D T Id : Type}

def genesis (rules : Rules X O D T) : Replica X O D Id :=
  ⟨Node.genesis, ⟨[], rules.genesis⟩, []⟩

def dgp (r : Replica X O D Id) : DynamicGlobalProperties O :=
  ⟨r.node.headBlockNum, r.node.lastIrreversibleBlockNum, r.now.contents.properties⟩

def withNode (r : Replica X O D Id) (n : Node (Snapshot X O D) Id) : Replica X O D Id :=
  { r with node := n }

variable [DecidableEq Id] (c : ContentHash (Saved (Snapshot X O D)) Id)

/-! ### Sessions -/

def startSession (r : Replica X O D Id) : Exec (Replica X O D Id) :=
  (r.node.startSession c r.now).map r.withNode

def undoSession (r : Replica X O D Id) : Exec (Replica X O D Id) :=
  match r.node.undoDb.back.getLast? with
  | some s =>
    if r.node.undoDb.disabled = false ∧ 0 < r.node.undoDb.activeSessions then
      (r.node.undoSession c r.now).map fun n => { r with node := n, now := s.contents }
    else .thrown r
  | none => .thrown r

def abandon (r : Replica X O D Id) : Exec (Replica X O D Id) :=
  ((r.node.recordChange id).map r.withNode).andThen (undoSession c)

/-- `_pending_tx_session.reset()` -/
def resetPending (r : Replica X O D Id) : Exec (Replica X O D Id) :=
  if r.node.pendingTxSession then
    (r.undoSession c).map fun r => r.withNode { r.node with pendingTxSession := false }
  else .ok r

def startPending (r : Replica X O D Id) : Exec (Replica X O D Id) :=
  (r.startSession c).map fun r => r.withNode { r.node with pendingTxSession := true }

/-- `clear_pending` -/
def clearPending (r : Replica X O D Id) : Replica X O D Id := (r.resetPending c).state

/-! ### Blocks -/

variable (rules : Rules X O D T)

/-- `push_block` of a block on top of the head, and each push of a fork switch; `old` says
    that the block's timestamp is more than 7200 seconds behind the node's clock. -/
def pushBlock (old : Bool) (b : Block X) (r : Replica X O D Id) : Exec (Replica X O D Id) :=
  (r.resetPending c).andThen fun r =>
    ((r.withNode (r.node.updateMaxSize old)).startSession c).andThen fun r =>
      match rules.applyBlock r.node.headBlockNum r.node.lastIrreversibleBlockNum r.now.contents b
      with
      | some x =>
        ((r.node.applyBlock id).andThen fun n => n.undoDb.commit.map n.withUndoDb).map
          fun n => { r with node := n, now := ⟨b :: r.now.chain, x⟩ }
      | none => r.abandon c

def popUndo (r : Replica X O D Id) : Exec (Replica X O D Id) :=
  match r.node.undoDb.back.getLast? with
  | some s =>
    if r.node.undoDb.activeSessions = 0 then
      (r.node.popUndo c r.now).map fun n => { r with node := n, now := s.contents }
    else .thrown r
  | none => .thrown r

def popBlock (r : Replica X O D Id) : Exec (Replica X O D Id) :=
  (r.resetPending c).andThen (popUndo c)

/-! ### Transactions -/

def mergeSession (r : Replica X O D Id) : Exec (Replica X O D Id) :=
  (r.node.mergeSession c r.now fun p _ => p).map r.withNode

/-- `_push_transaction`, and one transaction of the loop in `_generate_block`. -/
def pushTransaction (t : T) (r : Replica X O D Id) : Exec (Replica X O D Id) :=
  (if r.node.pendingTxSession then .ok r else r.startPending c).andThen fun r =>
    (r.startSession c).andThen fun r =>
      match rules.applyTransaction r.node.headBlockNum r.now.contents t with
      | some x =>
        ((r.node.recordChange id).map fun n =>
          { r with node := n, now := { r.now with contents := x } }).andThen (mergeSession c)
      | none => r.abandon c

def validateTransaction (r : Replica X O D Id) : Exec (Replica X O D Id) :=
  (r.startSession c).andThen (abandon c)

/-! ### Restarts -/

/-- The loop of `close` that pops blocks; an exception ends it. -/
def rewind (cutoff : Nat) : Nat → Replica X O D Id → Replica X O D Id
  | 0, r => r
  | k + 1, r =>
    if cutoff < r.node.headBlockNum then
      match r.popBlock c with
      | .ok r => rewind cutoff k r
      | .thrown r => r
    else r

def reopen (r : Replica X O D Id) (h : UndoHistory (Saved (Snapshot X O D)) Id) :
    Replica X O D Id :=
  r.withNode { r.node with undoDb := h, pendingTxSession := false, discardCount := 0 }

/-- `close` and `open`.  With `rewind_on_close` the blocks that can be undone are popped
    and the files of the undo database removed; otherwise it is saved and read back. -/
def restart (rewindOnClose : Bool) (r : Replica X O D Id) : Exec (Replica X O D Id) :=
  (r.resetPending c).andThen fun r =>
    if rewindOnClose then
      let cutoff := (r.node.headBlockNum + 2 ^ 32 - r.node.undoDb.size) % 2 ^ 32
      let r := r.rewind c cutoff r.node.undoDb.size
      (r.resetPending c).andThen fun r =>
        .ok ({ r with stackFile := [] }.reopen (UndoHistory.fresh Node.minUndoHistory))
    else
      let file := r.node.undoDb.saveToFile c r.stackFile
      (fromFile c (r.node.saved r.now) Node.minUndoHistory file.1 file.2).map
        { r with stackFile := file.1 }.reopen

end Replica

/-- What happens to a node. -/
inductive Happening (X T : Type) where
  | pushBlock (old : Bool) (b : Block X)
  | popBlock
  | pushTransaction (t : T)
  | validateTransaction
  /-- `clear_pending` -/
  | clearPending
  /-- the first lines of `_generate_block` -/
  | rebuildPending
  | restart (rewindOnClose : Bool)

def Replica.step {X O D T Id : Type} [DecidableEq Id]
    (c : ContentHash (Saved (Snapshot X O D)) Id) (rules : Rules X O D T)
    (r : Replica X O D Id) : Happening X T → Replica X O D Id
  | .pushBlock old b => (r.pushBlock c rules old b).state
  | .popBlock => (r.popBlock c).state
  | .pushTransaction t => (r.pushTransaction c rules t).state
  | .validateTransaction => (r.validateTransaction c).state
  | .clearPending => r.clearPending c
  | .rebuildPending => ((r.resetPending c).andThen (startPending c)).state
  | .restart rewindOnClose => (r.restart c rewindOnClose).state

end HyperExchange.Nodes
