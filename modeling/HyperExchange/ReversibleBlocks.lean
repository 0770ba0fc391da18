/-
  **Reversible blocks can be popped** (`db_block.cpp`, `db_update.cpp`).

  Each time a block is applied the last irreversible block number is raised to
  `head_block_num() - _undo_db.size()`, so that what lies above it is what the undo database
  can take back.  Both numbers are restored by undo.  A session is started for a block, for
  the pending transactions, for each single transaction and for a validation; only that of
  an accepted block is followed by the computation of the number.

  So the number is right as long as the other sessions evict nothing and no pop takes back
  a block that raised it (`KeepsReversible`, `reversible_blocks_can_be_popped`).  A pop also
  needs a predecessor in the fork database, which the first block has not.
-/
import Mathlib.Data.List.Induction
import HyperExchange.ForkDatabase
import HyperExchange.UndoRetained

namespace HyperExchange.Nodes

open Execution Db Db.UndoHistory List Exec Blocks

variable {P δ C Id : Type}

/-! ### The node -/

/-- What an undo state restores: the two block numbers, and the rest. -/
structure Saved (C : Type) where
  contents : C
  headBlockNum : Nat
  lastIrreversibleBlockNum : Nat
deriving DecidableEq

structure Node (C Id : Type) where
  undoDb : UndoHistory (Saved C) Id
  headBlockNum : Nat
  lastIrreversibleBlockNum : Nat
  /-- `_pending_tx_session.valid()` -/
  pendingTxSession : Bool
  /-- `discard_count` of `_push_block` -/
  discardCount : Nat

namespace Node

/-- `GRAPHENE_MIN_UNDO_HISTORY` -/
def minUndoHistory : Nat := 1440

def genesis : Node C Id := ⟨UndoHistory.fresh minUndoHistory, 0, 0, false, 0⟩

def saved (blank : C) (n : Node C Id) : Saved C :=
  ⟨blank, n.headBlockNum, n.lastIrreversibleBlockNum⟩

def restore (s : Saved C) (n : Node C Id) : Node C Id :=
  { n with
    headBlockNum := s.headBlockNum
    lastIrreversibleBlockNum := s.lastIrreversibleBlockNum }

def withUndoDb (n : Node C Id) (h : UndoHistory (Saved C) Id) : Node C Id := { n with undoDb := h }

section Sessions

variable [DecidableEq Id] (c : ContentHash (Saved C) Id) (blank : C)

def startSession (n : Node C Id) : Exec (Node C Id) :=
  (n.undoDb.startUndoSession c (n.saved blank) false).map n.withUndoDb

def undoSession (n : Node C Id) : Exec (Node C Id) :=
  match n.undoDb.back.getLast? with
  | some s =>
    if n.undoDb.disabled = false ∧ 0 < n.undoDb.activeSessions then
      (n.undoDb.undo c (n.saved blank)).map (n.restore s).withUndoDb
    else .thrown n
  | none => .thrown n

def recordChange (f : C → C) (n : Node C Id) : Exec (Node C Id) :=
  (n.undoDb.record fun s => { s with contents := f s.contents }).map n.withUndoDb

/-- `_pending_tx_session.reset()` -/
def resetPending (n : Node C Id) : Exec (Node C Id) :=
  if n.pendingTxSession then
    (n.undoSession c blank).map fun n => { n with pendingTxSession := false }
  else .ok n

def startPending (n : Node C Id) : Exec (Node C Id) :=
  (n.startSession c blank).map fun n => { n with pendingTxSession := true }

end Sessions

/-! ### Blocks -/

/-- Blocks with a timestamp more than 7200 seconds back lower the maximum of the history
    from the tenth in a row on. -/
def updateMaxSize (old : Bool) (n : Node C Id) : Node C Id :=
  if old then
    if 10 ≤ n.discardCount + 1 then
      { n with discardCount := n.discardCount + 1, undoDb := n.undoDb.setMaxSize maxBackSize }
    else { n with discardCount := n.discardCount + 1 }
  else { n with discardCount := 0, undoDb := n.undoDb.setMaxSize minUndoHistory }

theorem updateMaxSize_lib (old : Bool) (n : Node C Id) :
    (n.updateMaxSize old).lastIrreversibleBlockNum = n.lastIrreversibleBlockNum := by
  unfold updateMaxSize
  split
  · split <;> rfl
  · rfl

theorem updateMaxSize_pending (old : Bool) (n : Node C Id) :
    (n.updateMaxSize old).pendingTxSession = n.pendingTxSession := by
  unfold updateMaxSize
  split
  · split <;> rfl
  · rfl

/-- `update_last_irreversible_block`; the difference is an `int64_t`. -/
def updateLastIrreversibleBlock (n : Node C Id) : Node C Id :=
  let newNum : Int := n.headBlockNum - n.undoDb.size
  if (n.lastIrreversibleBlockNum : Int) < newNum then
    { n with lastIrreversibleBlockNum := newNum.toNat }
  else n

/-- `apply_block` of a valid block. -/
def applyBlock (f : C → C) (n : Node C Id) : Exec (Node C Id) :=
  (n.recordChange f).map fun n =>
    updateLastIrreversibleBlock { n with headBlockNum := n.headBlockNum + 1 }

/-- With the history `h`, when a block was applied in the newest session. -/
def withBlock (n : Node C Id) (h : UndoHistory (Saved C) Id) : Node C Id :=
  { n with
    undoDb := h
    headBlockNum := n.headBlockNum + 1
    lastIrreversibleBlockNum :=
      max n.lastIrreversibleBlockNum (n.headBlockNum + 1 - n.undoDb.size) }

section Blocks

variable [DecidableEq Id] (c : ContentHash (Saved C) Id) (blank : C)

/-- `push_block` of a block on top of the head, and each push of a fork switch. -/
def pushBlock (old accepted : Bool) (f : C → C) (n : Node C Id) : Exec (Node C Id) :=
  (n.resetPending c blank).andThen fun n =>
    ((n.updateMaxSize old).startSession c blank).andThen fun n =>
      if accepted then
        (n.applyBlock f).andThen fun n => n.undoDb.commit.map n.withUndoDb
      else (n.recordChange f).andThen (undoSession c blank)

/-- `pop_undo` -/
def popUndo (n : Node C Id) : Exec (Node C Id) :=
  match n.undoDb.back.getLast? with
  | some s =>
    if n.undoDb.activeSessions = 0 then
      (n.undoDb.popCommit c (n.saved blank)).map (n.restore s).withUndoDb
    else .thrown n
  | none => .thrown n

/-! ### Transactions -/

/-- `combine` merges what a transaction changed into the state of the pending session. -/
def mergeSession (combine : C → C → C) (n : Node C Id) : Exec (Node C Id) :=
  (n.undoDb.merge c (n.saved blank) fun p s =>
    { p with contents := combine p.contents s.contents }).map n.withUndoDb

/-- `_push_transaction`, and one transaction of the loop in `_generate_block`. -/
def pushTransaction (combine : C → C → C) (accepted : Bool) (f : C → C) (n : Node C Id) :
    Exec (Node C Id) :=
  (if n.pendingTxSession then .ok n else n.startPending c blank).andThen fun n =>
    (n.startSession c blank).andThen fun n =>
      (n.recordChange f).andThen fun n =>
        if accepted then n.mergeSession c blank combine else n.undoSession c blank

def validateTransaction (f : C → C) (n : Node C Id) : Exec (Node C Id) :=
  (n.startSession c blank).andThen fun n => (n.recordChange f).andThen (undoSession c blank)

end Blocks

end Node

/-- A node and its fork database. -/
structure Host (P δ C Id : Type) where
  node : Node C Id
  forkDb : ForkDatabase P δ

namespace Host

def genesis : Host P δ C Id := ⟨.genesis, .empty⟩

def withNode (h : Host P δ C Id) (n : Node C Id) : Host P δ C Id := { h with node := n }

variable [DecidableEq Id] (c : ContentHash (Saved C) Id) (blank : C)

/-- `pop_block` without its first line.  The head block is found in the fork database or in
    the log, unless no block has been applied. -/
def popHead (h : Host P δ C Id) : Exec (Host P δ C Id) :=
  if h.node.headBlockNum = 0 then .thrown h
  else match h.forkDb.popBlock with
    | none => .thrown h
    | some f => (h.node.popUndo c blank).map fun n => ⟨n, f⟩

def popBlock (h : Host P δ C Id) : Exec (Host P δ C Id) :=
  ((h.node.resetPending c blank).map h.withNode).andThen (popHead c blank)

end Host

/-- What happens to a node. -/
inductive Input (P δ C : Type) where
  | pushBlock (old accepted : Bool) (f : C → C)
  | popBlock
  | pushTransaction (accepted : Bool) (f : C → C)
  | validateTransaction (f : C → C)
  /-- `clear_pending` -/
  | clearPending
  /-- the first lines of `_generate_block` -/
  | rebuildPending
  /-- a push, a removal or another head in the fork database -/
  | forkDb (f : ForkDatabase P δ)

def Host.step [DecidableEq Id] (c : ContentHash (Saved C) Id) (blank : C) (combine : C → C → C)
    (h : Host P δ C Id) : Input P δ C → Host P δ C Id
  | .pushBlock old accepted f => h.withNode (h.node.pushBlock c blank old accepted f).state
  | .popBlock => (h.popBlock c blank).state
  | .pushTransaction accepted f =>
    h.withNode (h.node.pushTransaction c blank combine accepted f).state
  | .validateTransaction f => h.withNode (h.node.validateTransaction c blank f).state
  | .clearPending => h.withNode (h.node.resetPending c blank).state
  | .rebuildPending =>
    h.withNode ((h.node.resetPending c blank).andThen (Node.startPending c blank)).state
  | .forkDb f => { h with forkDb := f }

/-! ### The invariant -/

/-- The history retains the states of the newest `blocks`, the oldest of them saved at
    head `base`, and above them those of the sessions that are active. -/
structure Standing (c : ContentHash (Saved C) Id) (n : Node C Id) (base : Nat)
    (blocks sessions : List (Saved C)) : Prop where
  retains : Retains c n.undoDb (blocks ++ sessions)
  numbered : blocks.map (·.headBlockNum) = List.range' base blocks.length
  head : n.headBlockNum = base + blocks.length
  unmoved : ∀ s ∈ sessions, s.headBlockNum = n.headBlockNum ∧
    s.lastIrreversibleBlockNum = n.lastIrreversibleBlockNum
  active : n.undoDb.activeSessions = sessions.length
  maximum : n.undoDb.maxSize = maxBackSize ∨ n.undoDb.maxSize = Node.minUndoHistory

theorem suffix_range' {l : List Nat} {a n : Nat} (h : l <:+ List.range' a n) :
    l = List.range' (a + (n - l.length)) l.length := by
  have hle := h.length_le
  rw [length_range'] at hle
  have hdrop := suffix_iff_eq_drop.mp h
  rw [length_range', drop_range', Nat.mul_one] at hdrop
  have hsub : n - (n - l.length) = l.length := by omega
  rwa [hsub] at hdrop

namespace Standing

variable {c : ContentHash (Saved C) Id} {n : Node C Id} {base : Nat}
  {blocks sessions : List (Saved C)} {s : Saved C} (hn : Standing c n base blocks sessions)
include hn

/-- Saved heads have different numbers, so no state is retained twice. -/
theorem nodup (hone : sessions.length ≤ 1) : (blocks ++ sessions).Nodup := by
  refine List.Nodup.of_map (·.headBlockNum) ?_
  rw [map_append, hn.numbered]
  rcases sessions with _ | ⟨s, _ | ⟨t, rest⟩⟩
  · rw [map_nil, append_nil]
    exact nodup_range'
  · have hs := (hn.unmoved s mem_cons_self).1
    rw [map_singleton, hs, hn.head]
    have hconcat : List.range' base blocks.length ++ [base + blocks.length] =
        List.range' base (blocks.length + 1) := by
      rw [List.range'_concat, Nat.one_mul]
    rw [hconcat]
    exact nodup_range'
  · simp only [length_cons] at hone
    omega

/-- Another history with the same blocks. -/
theorem withUndoDb {h : UndoHistory (Saved C) Id}
    {sessions' : List (Saved C)} (hr : Retains c h (blocks ++ sessions'))
    (hunmoved : ∀ s ∈ sessions', s.headBlockNum = n.headBlockNum ∧
      s.lastIrreversibleBlockNum = n.lastIrreversibleBlockNum)
    (hact : h.activeSessions = sessions'.length) (hmax : h.maxSize = n.undoDb.maxSize) :
    Standing c (n.withUndoDb h) base blocks sessions' := by
  refine ⟨hr, hn.numbered, hn.head, hunmoved, hact, ?_⟩
  show h.maxSize = _ ∨ h.maxSize = _
  rw [hmax]
  exact hn.maximum

omit hn

theorem updateMaxSize (old : Bool) (hn : Standing c n base blocks []) :
    Standing c (n.updateMaxSize old) base blocks [] := by
  have hkeep : ∀ k m, (m = maxBackSize ∨ m = Node.minUndoHistory) → Standing c
      { n with discardCount := k, undoDb := n.undoDb.setMaxSize m } base blocks [] := by
    intro k m hm
    exact ⟨hn.retains.setMaxSize m, hn.numbered, hn.head, hn.unmoved, hn.active, hm⟩
  unfold Node.updateMaxSize
  split
  · split
    · exact hkeep _ _ (Or.inl rfl)
    · exact ⟨hn.retains, hn.numbered, hn.head, hn.unmoved, hn.active, hn.maximum⟩
  · exact hkeep _ _ (Or.inr rfl)

variable [DecidableEq Id]

/-! ### Sessions -/

theorem recordChange (f : C → C) (hn : Standing c n base blocks (sessions ++ [s])) :
    ∃ h, n.recordChange f = .ok (n.withUndoDb h) ∧
      Standing c (n.withUndoDb h) base blocks
        (sessions ++ [{ s with contents := f s.contents }]) := by
  have hr := hn.retains
  rw [← append_assoc] at hr
  obtain ⟨h, hcall, hr', hact, hmax⟩ := hr.record fun s => { s with contents := f s.contents }
  rw [append_assoc] at hr'
  refine ⟨h, by rw [Node.recordChange, hcall]; rfl, hn.withUndoDb hr' ?_ ?_ hmax⟩
  · exact forall_mem_append.mpr ⟨fun t ht => hn.unmoved t (mem_append_left _ ht),
      forall_mem_singleton.mpr (hn.unmoved s (mem_append_right _ (mem_singleton.mpr rfl)))⟩
  · rw [hact, hn.active]
    simp only [length_append, length_singleton]

theorem applyBlock (f : C → C) (hn : Standing c n base blocks [s]) :
    ∃ h, ((n.applyBlock f).andThen fun n => n.undoDb.commit.map n.withUndoDb) =
        .ok (n.withBlock h) ∧
      Standing c (n.withBlock h) base (blocks ++ [{ s with contents := f s.contents }]) [] := by
  have hsize := hn.retains.size_eq
  have hhead := hn.head
  have hsaved := (hn.unmoved s mem_cons_self).1
  obtain ⟨h₁, hrec, hr₁, hact₁, hmax₁⟩ :=
    hn.retains.record fun s => { s with contents := f s.contents }
  obtain ⟨h₂, hcommit, hr₂, hact₂, hmax₂⟩ := hr₁.commit (hact₁.trans hn.active)
  have hsize₁ : h₁.size = n.undoDb.size := by
    rw [hr₁.size_eq, hsize, length_append, length_append]
    rfl
  rw [length_append, length_singleton] at hsize
  have happly : n.applyBlock f = .ok (n.withBlock h₁) := by
    have hrec' : n.recordChange f = .ok (n.withUndoDb h₁) := by
      rw [Node.recordChange, hrec]
      rfl
    rw [Node.applyBlock, hrec', map_ok, Node.updateLastIrreversibleBlock]
    simp only [Node.withUndoDb, Node.withBlock, hsize₁]
    split
    all_goals
      congr 2
      omega
  refine ⟨h₂, ?_, ⟨?_, ?_, ?_, ?_, hact₂, ?_⟩⟩
  · rw [happly, ok_andThen]
    show h₁.commit.map _ = _
    rw [hcommit]
    rfl
  · rw [append_nil]
    exact hr₂
  · rw [map_append, hn.numbered, length_append, length_singleton,
      List.range'_concat, Nat.one_mul, ← hn.head, ← hsaved]
    rfl
  · show n.headBlockNum + 1 = _
    rw [length_append, length_singleton]
    omega
  · rintro t ⟨⟩
  · show h₂.maxSize = _ ∨ h₂.maxSize = _
    rw [hmax₂, hmax₁]
    exact hn.maximum

variable (hc : c.CollisionFree) (blank : C)
include hc

section

variable (hn : Standing c n base blocks sessions)
include hn

/-- A session may push out the oldest blocks; it takes the place on top. -/
theorem start (hone : sessions.length ≤ 1) (hok : Ordered n.undoDb) :
    ∃ h base' kept, n.startSession c blank = .ok (n.withUndoDb h) ∧
      Standing c (n.withUndoDb h) base' kept (sessions ++ [n.saved blank]) ∧ kept <:+ blocks ∧
      h.size = min (pushState c (n.saved blank) n.undoDb).size n.undoDb.maxSize ∧
      h.maxSize = n.undoDb.maxSize := by
  have hmaximum : n.undoDb.maxSize = maxBackSize ∨ maxBackSize + 10 < n.undoDb.maxSize := by
    have := hn.maximum
    simp only [maxBackSize, Node.minUndoHistory] at this ⊢
    omega
  obtain ⟨h, kept, hcall, hr, hkept, hsize, hact, hmax⟩ :=
    hn.retains.start_ordered hc (n.saved blank) (hn.nodup hone) hn.active hone hmaximum hok
  have hpart : kept.map (·.headBlockNum) <:+ List.range' base blocks.length := by
    rw [← hn.numbered]
    exact hkept.map _
  have hnum := suffix_range' hpart
  rw [length_map] at hnum
  have hle := hkept.length_le
  refine ⟨h, _, kept, by rw [Node.startSession, hcall]; rfl, ⟨hr, hnum, ?_, ?_, ?_, ?_⟩, hkept,
    hsize, hmax⟩
  · have hhead := hn.head
    show n.headBlockNum = _
    omega
  · exact forall_mem_append.mpr ⟨hn.unmoved, forall_mem_singleton.mpr ⟨rfl, rfl⟩⟩
  · show h.activeSessions = _
    rw [hact, length_append, length_singleton]
  · show h.maxSize = _ ∨ h.maxSize = _
    rw [hmax]
    exact hn.maximum

/-- Below the maximum nothing is evicted. -/
theorem startSession (hone : sessions.length ≤ 1) (hroom : n.undoDb.size < n.undoDb.maxSize) : ∃ h,
    n.startSession c blank = .ok (n.withUndoDb h) ∧ Standing c (n.withUndoDb h) base blocks
    (sessions ++ [n.saved blank]) ∧ h.size = n.undoDb.size + 1 ∧ h.maxSize = n.undoDb.maxSize := by
  have hback : n.undoDb.back.length ≤ n.undoDb.size := Nat.le_add_left _ _
  have hmaximum := hn.maximum
  simp only [maxBackSize, Node.minUndoHistory] at hmaximum
  have hok : Ordered n.undoDb := by
    simp only [Ordered, maxBackSize]
    omega
  obtain ⟨h, base', kept, hcall, hn', hkept, hsize, hmax⟩ := hn.start hc blank hone hok
  have hpush : (pushState c (n.saved blank) n.undoDb).size = n.undoDb.size + 1 := by
    refine size_pushState c _ hn.retains.bounded ?_
    simp only [maxBackSize]
    omega
  rw [hpush, Nat.min_eq_left hroom] at hsize
  have hbefore := hn.retains.size_eq
  have hafter : h.size = _ := hn'.retains.size_eq
  have hhead := hn.head
  have hhead' : n.headBlockNum = _ := hn'.head
  simp only [length_append, length_singleton] at hbefore hafter
  obtain rfl : kept = blocks := hkept.eq_of_length (by omega)
  obtain rfl : base' = base := by omega
  exact ⟨h, hcall, hn', hsize, hmax⟩

omit hn in
theorem undoSession (hn : Standing c n base blocks (sessions ++ [s])) :
    ∃ h, n.undoSession c blank = .ok (n.withUndoDb h) ∧
      Standing c (n.withUndoDb h) base blocks sessions := by
  have hr := hn.retains
  rw [← append_assoc] at hr
  have hpos : 0 < n.undoDb.activeSessions := by
    rw [hn.active, length_append, length_singleton]
    exact Nat.succ_pos _
  obtain ⟨h, hcall, hr', hact, hmax⟩ := hr.undo hc (n.saved blank) hpos
  -- the session started at this head, so undoing it moves nothing
  have hs := hn.unmoved s (mem_append_right _ (mem_singleton.mpr rfl))
  have hsame : n.restore s = n := by
    rw [Node.restore, hs.1, hs.2]
  refine ⟨h, ?_, hn.withUndoDb hr' (fun t ht => hn.unmoved t (mem_append_left _ ht)) ?_ hmax⟩
  · simp only [Node.undoSession, hr.getLast_back, hr.enabled, hpos, and_self, if_true, hcall, hsame,
      map_ok]
  · have hactive := hn.active
    rw [length_append, length_singleton] at hactive
    omega

omit hn in
theorem mergeSession (combine : C → C → C) {p : Saved C}
    (hn : Standing c n base blocks ([p] ++ [s])) :
    ∃ h, n.mergeSession c blank combine = .ok (n.withUndoDb h) ∧
      Standing c (n.withUndoDb h) base blocks
        [{ p with contents := combine p.contents s.contents }] := by
  have hr := hn.retains
  rw [← append_assoc] at hr
  have hpos : 0 < n.undoDb.activeSessions := by
    rw [hn.active]
    exact Nat.succ_pos _
  obtain ⟨h, hcall, hr', hact, hmax⟩ := hr.merge hc (n.saved blank)
    (fun p s => { p with contents := combine p.contents s.contents }) hpos
  refine ⟨h, by rw [Node.mergeSession, hcall]; rfl, hn.withUndoDb hr' ?_ ?_ hmax⟩
  · exact forall_mem_singleton.mpr (hn.unmoved p mem_cons_self)
  · have hactive := hn.active
    simp only [length_append, length_singleton] at hactive
    show h.activeSessions = 1
    omega

omit hn in
/-- Undoing a block brings the head back by one. -/
theorem popUndo (hn : Standing c n base (blocks ++ [s]) []) :
    ∃ h, n.popUndo c blank = .ok ((n.restore s).withUndoDb h) ∧
      Standing c ((n.restore s).withUndoDb h) base blocks [] ∧
      s.headBlockNum + 1 = n.headBlockNum := by
  have hr := hn.retains
  rw [append_nil] at hr
  obtain ⟨h, hcall, hr', hact, hmax⟩ := hr.popCommit hc (n.saved blank) hn.active
  have hnumbers : blocks.map (·.headBlockNum) = List.range' base blocks.length ∧
      s.headBlockNum = base + blocks.length := by
    have hnum := hn.numbered
    rw [map_append, length_append, length_singleton, List.range'_concat,
      Nat.one_mul] at hnum
    obtain ⟨hinit, hlast⟩ := append_inj' hnum rfl
    exact ⟨hinit, head_eq_of_cons_eq hlast⟩
  refine ⟨h, ?_, ⟨?_, hnumbers.1, hnumbers.2, ?_, hact, ?_⟩, ?_⟩
  · simp only [Node.popUndo, hr.getLast_back, hn.active, length_nil, if_true, hcall,
      map_ok]
  · rw [append_nil]
    exact hr'
  · rintro t ⟨⟩
  · show h.maxSize = _ ∨ h.maxSize = _
    rw [hmax]
    exact hn.maximum
  · have hhead := hn.head
    rw [length_append, length_singleton] at hhead
    omega

/-- What is tried and given up leaves no trace. -/
theorem discard (f : C → C)
    (hone : sessions.length ≤ 1)
    (hroom : n.undoDb.size < n.undoDb.maxSize) :
    ∃ h, ((n.startSession c blank).andThen fun n =>
        (n.recordChange f).andThen (Node.undoSession c blank)) = .ok (n.withUndoDb h) ∧
      Standing c (n.withUndoDb h) base blocks sessions := by
  obtain ⟨h₁, hstart, hn₁, _⟩ := hn.startSession hc blank hone hroom
  obtain ⟨h₂, hrec, hn₂⟩ := hn₁.recordChange f
  obtain ⟨h₃, hundo, hn₃⟩ := hn₂.undoSession hc blank
  refine ⟨h₃, ?_, hn₃⟩
  rw [hstart, ok_andThen, hrec, ok_andThen, hundo]
  rfl

end

/-- Applying a block makes the number below the oldest retained state irreversible. -/
theorem acceptBlock (f : C → C)
    (hn : Standing c n n.lastIrreversibleBlockNum blocks []) (hok : Ordered n.undoDb) :
    ∃ n' blocks', ((n.startSession c blank).andThen fun n =>
        (n.applyBlock f).andThen fun n => n.undoDb.commit.map n.withUndoDb) = .ok n' ∧
      Standing c n' n'.lastIrreversibleBlockNum blocks' [] ∧
      n'.pendingTxSession = n.pendingTxSession := by
  obtain ⟨h, base, kept, hstart, hn₁, hkept, _⟩ := hn.start hc blank (Nat.zero_le _) hok
  obtain ⟨h', happly, hn₂⟩ := hn₁.applyBlock f
  -- the states that stay are those of the blocks above the new number
  have hbase : base = max n.lastIrreversibleBlockNum (n.headBlockNum + 1 - h.size) := by
    have hsize : h.size = _ := hn₁.retains.size_eq
    have hhead := hn.head
    have hhead₁ : n.headBlockNum = _ := hn₁.head
    have hle := hkept.length_le
    simp only [nil_append, length_append, length_singleton] at hsize
    omega
  rw [hbase] at hn₂
  refine ⟨_, _, ?_, hn₂, rfl⟩
  rw [hstart]
  exact happly

end Standing

/-! ### Runs -/

/-- Between two calls: the oldest retained state is that of the first reversible block,
    and a session is active exactly while transactions are pending. -/
def Steady (c : ContentHash (Saved C) Id) (n : Node C Id) : Prop :=
  ∃ blocks sessions, Standing c n n.lastIrreversibleBlockNum blocks sessions ∧
    sessions.length = if n.pendingTxSession then 1 else 0

/-- The condition on a call in the state it is made in.  The session of an accepted block
    does not fill `back` under the lower maximum while older states are in the stack; every
    other session finds room below the maximum; a block that is popped did not raise the
    irreversible number. -/
def KeepsReversible [DecidableEq Id] (c : ContentHash (Saved C) Id) (blank : C) (n : Node C Id) :
    Input P δ C → Prop
  | .pushBlock old true _ =>
    let h := ((n.resetPending c blank).state.updateMaxSize old).undoDb
    h.stack = [] ∨ h.back.length + 1 < maxBackSize + 10 ∨ maxBackSize < h.maxSize
  | .pushBlock old false _ =>
    let h := ((n.resetPending c blank).state.updateMaxSize old).undoDb
    h.size < h.maxSize
  | .popBlock =>
    ∀ s ∈ (n.resetPending c blank).state.undoDb.back.getLast?,
      s.lastIrreversibleBlockNum = n.lastIrreversibleBlockNum
  | .pushTransaction _ _ =>
    n.undoDb.size + (if n.pendingTxSession then 0 else 1) < n.undoDb.maxSize
  | .validateTransaction _ => n.undoDb.size < n.undoDb.maxSize
  | .clearPending | .forkDb _ => True
  | .rebuildPending =>
    (n.resetPending c blank).state.undoDb.size < (n.resetPending c blank).state.undoDb.maxSize

theorem Steady.genesis (c : ContentHash (Saved C) Id) : Steady c (Node.genesis : Node C Id) := by
  refine ⟨[], [], ⟨Retains.fresh _, rfl, rfl, ?_, rfl, Or.inr rfl⟩, rfl⟩
  rintro s ⟨⟩

namespace Steady

variable {c : ContentHash (Saved C) Id} {n : Node C Id}

theorem of_standing {base : Nat} {blocks : List (Saved C)} (hstand : Standing c n base blocks [])
    (hbase : n.lastIrreversibleBlockNum = base) (hpending : n.pendingTxSession = false) :
    Steady c n := by
  subst hbase
  exact ⟨blocks, [], hstand, by rw [hpending]; rfl⟩

variable [DecidableEq Id] (hc : c.CollisionFree)
include hc

variable (blank : C)

variable (hn : Steady c n)
include hn

/-- Without the pending transactions only the blocks are retained. -/
theorem resetPending :
    ∃ h blocks, n.resetPending c blank = .ok { n.withUndoDb h with pendingTxSession := false } ∧
      Standing c { n.withUndoDb h with pendingTxSession := false } n.lastIrreversibleBlockNum
        blocks [] := by
  obtain ⟨blocks, sessions, hstand, hlen⟩ := hn
  cases hpending : n.pendingTxSession with
  | false =>
    rw [hpending] at hlen
    have hnil := eq_nil_of_length_eq_zero hlen
    subst hnil
    have hsame : { n.withUndoDb n.undoDb with pendingTxSession := false } = n := by
      rw [← hpending]
      rfl
    refine ⟨n.undoDb, blocks, ?_, by rw [hsame]; exact hstand⟩
    rw [Node.resetPending, hpending, hsame]
    rfl
  | true =>
    rw [hpending] at hlen
    obtain ⟨s, rfl⟩ := length_eq_one_iff.mp hlen
    have hconcat : Standing c n n.lastIrreversibleBlockNum blocks ([] ++ [s]) := hstand
    obtain ⟨h, hundo, hstand'⟩ := hconcat.undoSession hc blank
    refine ⟨h, blocks, ?_, ⟨hstand'.retains, hstand'.numbered, hstand'.head, hstand'.unmoved,
      hstand'.active, hstand'.maximum⟩⟩
    rw [Node.resetPending, if_pos hpending, hundo, map_ok]

/-- A block that is refused is undone with its session. -/
theorem pushBlock (old accepted : Bool) (f : C → C)
    (hok : KeepsReversible c blank n (.pushBlock old accepted f : Input P δ C)) :
    Steady c (n.pushBlock c blank old accepted f).state := by
  obtain ⟨h, blocks, hreset, hstand⟩ := hn.resetPending hc blank
  have hstand' := hstand.updateMaxSize old
  have hlib := Node.updateMaxSize_lib old { n.withUndoDb h with pendingTxSession := false }
  have hpending := Node.updateMaxSize_pending old { n.withUndoDb h with pendingTxSession := false }
  rw [Node.pushBlock, hreset, ok_andThen]
  generalize hm : Node.updateMaxSize old { n.withUndoDb h with pendingTxSession := false } = m
    at hstand' hlib hpending ⊢
  cases accepted with
  | true =>
    have horder : Ordered m.undoDb := by
      simp only [KeepsReversible, hreset, state_ok, hm] at hok
      exact hok
    have hm' : Standing c m m.lastIrreversibleBlockNum blocks [] := by
      rw [hlib]
      exact hstand'
    obtain ⟨n', blocks', hcall, hn', hpend⟩ := hm'.acceptBlock hc blank f horder
    simp only [if_true, hcall, state_ok]
    exact of_standing hn' rfl (hpend.trans hpending)
  | false =>
    have hroom : m.undoDb.size < m.undoDb.maxSize := by
      simp only [KeepsReversible, hreset, state_ok, hm] at hok
      exact hok
    obtain ⟨h', hcall, hn'⟩ := hstand'.discard hc blank f (Nat.zero_le _) hroom
    simp only [Bool.false_eq_true, if_false, hcall, state_ok]
    exact of_standing hn' hlib hpending

omit hn in
theorem popHead {h : Host P δ C Id} {blocks : List (Saved C)}
    (hn : Standing c h.node h.node.lastIrreversibleBlockNum blocks [])
    (hpending : h.node.pendingTxSession = false)
    (hok : ∀ s ∈ h.node.undoDb.back.getLast?,
      s.lastIrreversibleBlockNum = h.node.lastIrreversibleBlockNum) :
    Steady c (h.popHead c blank).state.node := by
  have hsame := of_standing hn rfl hpending
  unfold Host.popHead
  split
  · exact hsame
  cases h.forkDb.popBlock with
  | none => exact hsame
  | some f =>
    rcases eq_nil_or_concat blocks with rfl | ⟨older, s, rfl⟩
    · -- nothing is retained, and nothing changes
      have hback := (append_eq_nil_iff.mp hn.retains.readable).2
      simp only [Node.popUndo, hback, getLast?_nil]
      exact hsame
    · rw [concat_eq_append] at hn
      obtain ⟨u, hpop, hn', _⟩ := hn.popUndo hc blank
      have hr := hn.retains
      rw [append_nil] at hr
      simp only [hpop]
      exact of_standing hn' (hok s hr.getLast_back) hpending

omit hn in
theorem popBlock {h : Host P δ C Id} (hn : Steady c h.node)
    (hok : KeepsReversible c blank h.node (.popBlock : Input P δ C)) :
    Steady c (h.popBlock c blank).state.node := by
  obtain ⟨u, blocks, hreset, hstand⟩ := hn.resetPending hc blank
  simp only [KeepsReversible, hreset, state_ok] at hok
  rw [Host.popBlock, hreset, map_ok, ok_andThen]
  exact popHead hc blank (h := h.withNode _) hstand rfl hok

theorem validateTransaction (f : C → C)
    (hok : KeepsReversible c blank n (.validateTransaction f : Input P δ C)) :
    Steady c (n.validateTransaction c blank f).state := by
  obtain ⟨blocks, sessions, hstand, hlen⟩ := hn
  have hone : sessions.length ≤ 1 := by
    rw [hlen]
    split <;> omega
  obtain ⟨h, hcall, hn'⟩ := hstand.discard hc blank f hone hok
  rw [Node.validateTransaction, hcall]
  exact ⟨blocks, sessions, hn', hlen⟩

theorem rebuildPending (hok : KeepsReversible c blank n (.rebuildPending : Input P δ C)) :
    Steady c ((n.resetPending c blank).andThen (Node.startPending c blank)).state := by
  obtain ⟨h, blocks, hreset, hstand⟩ := hn.resetPending hc blank
  simp only [KeepsReversible, hreset, state_ok] at hok
  obtain ⟨h', hstart, hn', _⟩ := hstand.startSession hc blank (Nat.zero_le _) hok
  rw [hreset, ok_andThen, Node.startPending, hstart]
  exact ⟨blocks, _,
    ⟨hn'.retains, hn'.numbered, hn'.head, hn'.unmoved, hn'.active, hn'.maximum⟩, rfl⟩

theorem ensurePending
    (hroom : n.undoDb.size + (if n.pendingTxSession then 0 else 1) < n.undoDb.maxSize) :
    ∃ m blocks p, (if n.pendingTxSession then .ok n else n.startPending c blank) = .ok m ∧
      Standing c m m.lastIrreversibleBlockNum blocks [p] ∧ m.pendingTxSession = true ∧
      m.undoDb.size < m.undoDb.maxSize := by
  obtain ⟨blocks, sessions, hstand, hlen⟩ := hn
  cases hpending : n.pendingTxSession with
  | true =>
    rw [hpending] at hlen hroom
    obtain ⟨p, rfl⟩ := length_eq_one_iff.mp hlen
    exact ⟨n, blocks, p, rfl, hstand, hpending, hroom⟩
  | false =>
    rw [hpending] at hlen hroom
    have hnil := eq_nil_of_length_eq_zero hlen
    subst hnil
    obtain ⟨h, hstart, hn', hsize, hmax⟩ :=
      hstand.startSession hc blank (Nat.zero_le _) (Nat.lt_of_succ_lt hroom)
    refine ⟨{ n.withUndoDb h with pendingTxSession := true }, blocks, n.saved blank, ?_,
      ⟨hn'.retains, hn'.numbered, hn'.head, hn'.unmoved, hn'.active, hn'.maximum⟩, rfl, ?_⟩
    · simp only [Bool.false_eq_true, if_false, Node.startPending, hstart, map_ok]
    · show h.size < h.maxSize
      rw [hsize, hmax]
      exact hroom

variable (combine : C → C → C)

theorem pushTransaction (accepted : Bool) (f : C → C)
    (hok : KeepsReversible c blank n (.pushTransaction accepted f : Input P δ C)) :
    Steady c (n.pushTransaction c blank combine accepted f).state := by
  obtain ⟨m, blocks, p, hpend, hstand, hpending, hroom⟩ := hn.ensurePending hc blank hok
  have hdone : ∀ h q, Standing c (m.withUndoDb h) m.lastIrreversibleBlockNum blocks [q] →
      Steady c (m.withUndoDb h) := by
    intro h q hq
    refine ⟨blocks, [q], hq, ?_⟩
    show 1 = if m.pendingTxSession then 1 else 0
    rw [hpending]
    rfl
  rw [Node.pushTransaction, hpend, ok_andThen]
  obtain ⟨h₁, hstart, hn₁, _⟩ := hstand.startSession hc blank (Nat.le_refl 1) hroom
  obtain ⟨h₂, hrec, hn₂⟩ := hn₁.recordChange f
  rw [hstart, ok_andThen, hrec, ok_andThen]
  cases accepted with
  | true =>
    obtain ⟨h₃, hmerge, hn₃⟩ := hn₂.mergeSession hc blank combine
    rw [if_pos rfl, hmerge]
    exact hdone h₃ _ hn₃
  | false =>
    obtain ⟨h₃, hundo, hn₃⟩ := hn₂.undoSession hc blank
    rw [if_neg Bool.false_ne_true, hundo]
    exact hdone h₃ _ hn₃

omit hn in
/-- **Step lemma.** -/
theorem step {h : Host P δ C Id} (hn : Steady c h.node) (i : Input P δ C)
    (hok : KeepsReversible c blank h.node i) : Steady c (h.step c blank combine i).node := by
  cases i with
  | pushBlock old accepted f => exact hn.pushBlock hc blank old accepted f hok
  | popBlock => exact popBlock hc blank hn hok
  | pushTransaction accepted f => exact hn.pushTransaction hc blank combine accepted f hok
  | validateTransaction f => exact hn.validateTransaction hc blank f hok
  | clearPending =>
    obtain ⟨u, blocks, hreset, hstand⟩ := hn.resetPending hc blank
    simp only [Host.step, hreset]
    exact of_standing hstand rfl rfl
  | rebuildPending => exact hn.rebuildPending hc blank hok
  | forkDb f => exact hn

end Steady

/-! ### Popping down to the irreversible block -/

section Pops

variable [DecidableEq Id] (c : ContentHash (Saved C) Id) (blank : C)

/-- `pop_block` called `k` times. -/
def Host.popBlocks : Nat → Host P δ C Id → Exec (Host P δ C Id)
  | 0, h => .ok h
  | k + 1, h => (h.popBlock c blank).andThen (popBlocks k)

/-- The head of the fork database has `k` predecessors there. -/
def hasPredecessors : Nat → ForkDatabase P δ → Bool
  | 0, _ => true
  | k + 1, f => f.popBlock.any (hasPredecessors k)

def Node.undoStates (n : Node C Id) : List (Saved C) :=
  n.undoDb.stack.filterMap n.undoDb.storage ++ n.undoDb.back

/-- Each block above the irreversible number has its undo state.  If the fork database has
    as many predecessors of its head, `pop_block` can be called until the head is the
    irreversible block. -/
def Host.Reversible (h : Host P δ C Id) : Prop :=
  (∀ k, h.node.lastIrreversibleBlockNum < k → k ≤ h.node.headBlockNum →
    ∃ s ∈ h.node.undoStates, s.headBlockNum + 1 = k) ∧
  (hasPredecessors (h.node.headBlockNum - h.node.lastIrreversibleBlockNum) h.forkDb = true →
    ∃ m, h.popBlocks c blank (h.node.headBlockNum - h.node.lastIrreversibleBlockNum) = .ok m ∧
      m.node.headBlockNum = h.node.lastIrreversibleBlockNum)

variable {c blank} {h : Host P δ C Id} {blocks : List (Saved C)}

theorem Standing.popBlock {base : Nat} {s : Saved C} {f : ForkDatabase P δ}
    (hc : c.CollisionFree) (blank : C) (hn : Standing c h.node base (blocks ++ [s]) [])
    (hpending : h.node.pendingTxSession = false) (hf : h.forkDb.popBlock = some f) :
    ∃ h', h.popBlock c blank = .ok h' ∧ Standing c h'.node base blocks [] ∧
      h'.node.pendingTxSession = false ∧ h'.forkDb = f := by
  obtain ⟨u, hpop, hn', hhead⟩ := hn.popUndo hc blank
  refine ⟨⟨_, f⟩, ?_, hn', hpending, rfl⟩
  have hreset : h.node.resetPending c blank = .ok h.node := by
    rw [Node.resetPending, hpending]
    rfl
  rw [Host.popBlock, hreset, map_ok, ok_andThen]
  show h.popHead c blank = _
  rw [Host.popHead, if_neg (by omega), hf, hpop]
  rfl

/-- As many blocks can be popped as there are states, if the fork database goes along. -/
theorem Standing.popBlocks {base : Nat} (hc : c.CollisionFree) (blank : C)
    (hn : Standing c h.node base blocks []) (hpending : h.node.pendingTxSession = false)
    (hfork : hasPredecessors blocks.length h.forkDb = true) :
    ∃ m, h.popBlocks c blank blocks.length = .ok m ∧ m.node.headBlockNum = base := by
  induction blocks using List.reverseRecOn generalizing h with
  | nil => exact ⟨h, rfl, hn.head⟩
  | append_singleton older s ih =>
    rw [length_append, length_singleton, hasPredecessors, Option.any_eq_true] at hfork
    obtain ⟨f, hf, hrest⟩ := hfork
    obtain ⟨h', hpop, hn', hpending', rfl⟩ := hn.popBlock hc blank hpending hf
    obtain ⟨m, hm, hbase⟩ := ih hn' hpending' hrest
    refine ⟨m, ?_, hbase⟩
    rw [length_append, length_singleton, Host.popBlocks, hpop]
    exact hm

theorem Steady.reversible (hc : c.CollisionFree) (hn : Steady c h.node)
    (hidle : h.node.undoDb.activeSessions = 0) : h.Reversible c blank := by
  obtain ⟨blocks, sessions, hstand, hlen⟩ := hn
  have hnil : sessions = [] := eq_nil_of_length_eq_zero (hstand.active.symm.trans hidle)
  subst hnil
  have hpending : h.node.pendingTxSession = false := by
    cases hp : h.node.pendingTxSession with
    | false => rfl
    | true =>
      rw [hp] at hlen
      cases hlen
  have hhead := hstand.head
  constructor
  · intro k hlow hhigh
    have hmem : k - 1 ∈ blocks.map (·.headBlockNum) := by
      rw [hstand.numbered, mem_range'_1]
      omega
    obtain ⟨s, hs, hk⟩ := mem_map.mp hmem
    have hread := hstand.retains.readable
    rw [append_nil] at hread
    refine ⟨s, ?_, by omega⟩
    rw [Node.undoStates, hread]
    exact hs
  · have hcount : h.node.headBlockNum - h.node.lastIrreversibleBlockNum = blocks.length := by omega
    rw [hcount]
    exact hstand.popBlocks hc blank hpending

/-- **Reversible blocks can be undone.** In every run from genesis whose calls meet the
    condition, whenever no session is active the undo states of all blocks above the
    irreversible number are there, and the blocks can be popped as far down as the fork
    database has predecessors. -/
theorem reversible_blocks_can_be_popped (c : ContentHash (Saved C) Id) (hc : c.CollisionFree)
    (blank : C) (combine : C → C → C) (h : Host P δ C Id)
    (hr : ReachableUnder (· = Host.genesis) (fun h i => KeepsReversible c blank h.node i)
      (Host.step c blank combine) h)
    (hidle : h.node.undoDb.activeSessions = 0) : h.Reversible c blank := by
  have hsteady : Steady c h.node := by
    refine hr.invariant (fun h => Steady c h.node) ?_ ?_
    · rintro h rfl
      exact Steady.genesis c
    · intro h i hn hok
      exact hn.step hc blank combine i hok
  exact hsteady.reversible hc hidle

end Pops

/-! ### Two runs

Blocks have no contents, and their id is their number. -/

def runHost (inputs : List (Input Unit Unit Nat)) : Host Unit Unit Nat (Option (Saved Nat)) :=
  inputs.foldl (Host.step (.itself _) 0 (· + ·)) Host.genesis

/-- The fork database after the blocks up to number `k`. -/
def forkChain : Nat → ForkDatabase Unit Unit
  | 0 => .empty
  | k + 1 => ((forkChain k).pushBlock ⟨fun _ => (), ()⟩ ⟨⟨k, ()⟩, 0, ()⟩).getD .empty

def oldBlocks (k : Nat) : List (Input Unit Unit Nat) :=
  .forkDb (forkChain k) :: List.replicate k (.pushBlock true true (· + 1))

instance (n : Node Nat (Option (Saved Nat))) (i : Input Unit Unit Nat) :
    Decidable (KeepsReversible (.itself _) 0 n i) := by
  unfold KeepsReversible
  split <;> infer_instance

/-- After twenty-five old blocks twenty are reversible. -/
theorem old_chain_is_reversible :
    (runHost (oldBlocks 25)).node.lastIrreversibleBlockNum = 5 ∧
      ∃ m, (runHost (oldBlocks 25)).popBlocks (.itself _) 0 20 = .ok m ∧
        m.node.headBlockNum = 5 := by
  have h := reversible_blocks_can_be_popped (.itself _) (ContentHash.itself_collisionFree _) 0
    (· + ·) (runHost (oldBlocks 25)) (ReachableUnder.of_checkRun (.start rfl) (by decide +kernel))
    (by decide +kernel)
  have hlib : (runHost (oldBlocks 25)).node.lastIrreversibleBlockNum = 5 := by decide +kernel
  have hhead : (runHost (oldBlocks 25)).node.headBlockNum = 25 := by decide +kernel
  have hpops := h.2
  rw [hlib, hhead] at hpops
  exact ⟨hlib, hpops (by decide +kernel)⟩

/-- Twenty old blocks fill the history; a transaction then evicts two of their states.  And
    the only block of a chain is reversible, but cannot be popped. -/
theorem pending_transaction_evicts_reversible :
    let h := runHost (oldBlocks 20 ++ [.pushTransaction true id, .clearPending])
    let first := runHost (oldBlocks 1)
    (h.node.undoDb.activeSessions = 0 ∧ h.node.lastIrreversibleBlockNum = 0 ∧
      h.node.headBlockNum = 20 ∧ (∀ s ∈ h.node.undoStates, s.headBlockNum + 1 ≠ 1) ∧
      ¬ h.Reversible (.itself _) 0) ∧
    first.node.lastIrreversibleBlockNum = 0 ∧ first.node.headBlockNum = 1 ∧
      (first.popBlock (.itself _) 0).returned = false := by
  intro h first
  have hlost : ∀ s ∈ h.node.undoStates, s.headBlockNum + 1 ≠ 1 := by decide +kernel
  have hlib : h.node.lastIrreversibleBlockNum = 0 := by decide +kernel
  have hhead : h.node.headBlockNum = 20 := by decide +kernel
  refine ⟨⟨by decide +kernel, hlib, hhead, hlost, ?_⟩, by decide +kernel⟩
  rintro ⟨hstates, _⟩
  obtain ⟨s, hs, hone⟩ := hstates 1 (by omega) (by omega)
  exact hlost s hs hone

end HyperExchange.Nodes
