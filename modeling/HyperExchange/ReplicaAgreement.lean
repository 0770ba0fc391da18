/-
  **Nodes with the same main chain** (`db_update.cpp`, `undo_database.cpp`, `db_block.cpp`).

  `last_irreversible_block_num` is a field of the replicated database, but it is computed
  from the size of the local undo history, which depends on the clock, on the sessions of
  pending transactions, on blocks popped, and on restarts.  Nodes agree as long as each
  block is applied to a history that has lost nothing it could keep: the maximum is 1440,
  and the states of the newest 1439 blocks are there (`KeepsHistory`).  Every snapshot is then
  that of a replay of its chain (`Canonical`), and so is what a pop brings back.
-/
import HyperExchange.NodeReplicas

namespace HyperExchange.Nodes

open Execution Db Db.UndoHistory List Exec Node

/-! ### Canonical snapshots -/

variable {X O D T Id : Type}

/-- A snapshot that is a function of its chain of blocks. -/
structure Canonical (rules : Rules X O D T) (s : Saved (Snapshot X O D)) : Prop where
  head : s.headBlockNum = s.contents.chain.length
  irreversible : s.lastIrreversibleBlockNum = s.headBlockNum - minUndoHistory
  replayed : rules.replay s.contents.chain = some s.contents.contents

/-- The states of `blocks` are canonical, and so is the one below the active sessions: the
    oldest session's, or that of the node if there is none. -/
structure Kept (c : ContentHash (Saved (Snapshot X O D)) Id) (rules : Rules X O D T)
    (r : Replica X O D Id) (blocks sessions : List (Saved (Snapshot X O D))) : Prop where
  standing : ∃ base, Standing c r.node base blocks sessions
  canonical : ∀ s ∈ blocks, Canonical rules s
  below : ∀ s ∈ (sessions ++ [r.node.saved r.now]).head?, Canonical rules s

namespace Kept

variable {c : ContentHash (Saved (Snapshot X O D)) Id} {rules : Rules X O D T}
  {r : Replica X O D Id} {blocks sessions : List (Saved (Snapshot X O D))}
  {s : Saved (Snapshot X O D)}

variable [DecidableEq Id]

theorem start (hc : c.CollisionFree) (hk : Kept c rules r blocks sessions)
    (hone : sessions.length ≤ 1) (hok : Ordered r.node.undoDb) :
    ∃ h kept, r.startSession c = .ok (r.withNode (r.node.withUndoDb h)) ∧
      Kept c rules (r.withNode (r.node.withUndoDb h)) kept (sessions ++ [r.node.saved r.now]) ∧
      h.size = min (pushState c (r.node.saved r.now) r.node.undoDb).size r.node.undoDb.maxSize := by
  obtain ⟨base, hstand⟩ := hk.standing
  obtain ⟨h, base', kept, hcall, hstand', hsuf, hsize, _⟩ := hstand.start hc r.now hone hok
  refine ⟨h, kept, ?_, ⟨⟨base', hstand'⟩, ?_, ?_⟩, hsize⟩
  · rw [Replica.startSession, hcall]
    rfl
  · intro s hs
    exact hk.canonical s (hsuf.subset hs)
  · have hbelow := hk.below
    intro x hx
    refine hbelow x ?_
    cases sessions with
    | nil | cons => exact hx

/-- The contents are again those saved by the session. -/
theorem undoSession (hc : c.CollisionFree) (hk : Kept c rules r blocks (sessions ++ [s])) :
    ∃ h, r.undoSession c =
        .ok { r with node := r.node.withUndoDb h, now := s.contents } ∧
      Kept c rules { r with node := r.node.withUndoDb h, now := s.contents } blocks sessions := by
  obtain ⟨base, hstand⟩ := hk.standing
  obtain ⟨h, hcall, hstand'⟩ := hstand.undoSession hc r.now
  have hr := hstand.retains
  rw [← append_assoc] at hr
  have hpos : 0 < r.node.undoDb.activeSessions := by
    rw [hstand.active, length_append, length_singleton]
    exact Nat.succ_pos _
  have hs := hstand.unmoved s (mem_append_right _ (mem_singleton.mpr rfl))
  have hsame : (r.node.withUndoDb h).saved s.contents = s := by
    rw [saved, withUndoDb, ← hs.1, ← hs.2]
  refine ⟨h, ?_, ⟨⟨base, hstand'⟩, hk.canonical, ?_⟩⟩
  · simp only [Replica.undoSession, hr.getLast_back, hr.enabled, hpos, and_self, if_true, hcall,
      map_ok]
  · rw [hsame]
    intro x hx
    refine hk.below x ?_
    cases sessions with
    | nil | cons => exact hx

theorem recordChange (now : Snapshot X O D) (hk : Kept c rules r blocks (sessions ++ [s])) :
    ∃ h, r.node.recordChange id = .ok (r.node.withUndoDb h) ∧
      Kept c rules { r with node := r.node.withUndoDb h, now := now } blocks (sessions ++ [s]) := by
  obtain ⟨base, hstand⟩ := hk.standing
  obtain ⟨h, hcall, hstand'⟩ := hstand.recordChange id
  refine ⟨h, hcall, ⟨⟨base, hstand'⟩, hk.canonical, ?_⟩⟩
  have hbelow := hk.below
  cases sessions with
  | nil | cons => exact hbelow

variable (hc : c.CollisionFree)
include hc

theorem abandon (hk : Kept c rules r blocks (sessions ++ [s])) :
    ∃ h, r.abandon c = .ok { r with node := r.node.withUndoDb h, now := s.contents } ∧
      Kept c rules { r with node := r.node.withUndoDb h, now := s.contents } blocks sessions := by
  obtain ⟨h₁, hrec, hk₁⟩ := hk.recordChange r.now
  obtain ⟨h₂, hundo, hk₂⟩ := hk₁.undoSession hc
  refine ⟨h₂, ?_, hk₂⟩
  rw [Replica.abandon, hrec]
  exact hundo

theorem mergeSession {p : Saved (Snapshot X O D)} (hk : Kept c rules r blocks ([p] ++ [s])) :
    ∃ h, r.mergeSession c = .ok (r.withNode (r.node.withUndoDb h)) ∧
      Kept c rules (r.withNode (r.node.withUndoDb h)) blocks [p] := by
  obtain ⟨base, hstand⟩ := hk.standing
  obtain ⟨h, hcall, hstand'⟩ := hstand.mergeSession hc r.now fun p _ => p
  refine ⟨h, ?_, ⟨⟨base, hstand'⟩, hk.canonical, hk.below⟩⟩
  rw [Replica.mergeSession, hcall]
  rfl

/-- The state after an accepted block is canonical if the one before was. -/
theorem acceptBlock (hk : Kept c rules r blocks []) {b : Block X}
    {x : Contents O D} (hmax : r.node.undoDb.maxSize = minUndoHistory)
    (hfull : min r.node.headBlockNum (minUndoHistory - 1) ≤ r.node.undoDb.size)
    (hx : rules.applyBlock r.node.headBlockNum r.node.lastIrreversibleBlockNum r.now.contents b =
      some x) :
    ∃ h₁ r' blocks', r.startSession c = .ok (r.withNode (r.node.withUndoDb h₁)) ∧
      ((((r.node.withUndoDb h₁).applyBlock id).andThen fun n =>
        n.undoDb.commit.map n.withUndoDb).map fun n =>
          { r with node := n, now := ⟨b :: r.now.chain, x⟩ }) = .ok r' ∧
      Kept c rules r' blocks' [] ∧ r'.node.pendingTxSession = r.node.pendingTxSession := by
  have hok : Ordered r.node.undoDb := by
    refine Or.inr (Or.inr ?_)
    rw [hmax]
    decide
  obtain ⟨h₁, kept, hstart, hk₁, hsize₁⟩ := hk.start hc (Nat.zero_le _) hok
  obtain ⟨base, hstand⟩ := hk.standing
  have hnow : Canonical rules (r.node.saved r.now) := hk.below _ rfl
  -- the history holds as many states as there can be
  have hfilled : h₁.size = min (r.node.headBlockNum + 1) minUndoHistory := by
    have hpush :
        (pushState c (r.node.saved r.now) r.node.undoDb).size = r.node.undoDb.size + 1 := by
      refine size_pushState c _ hstand.retains.bounded ?_
      intro _
      rw [hmax]
      decide
    have hcount := hstand.retains.size_eq
    have hhead := hstand.head
    rw [append_nil] at hcount
    rw [hsize₁, hpush, hmax]
    simp only [minUndoHistory] at hfull ⊢
    omega
  obtain ⟨base₁, hstand₁⟩ := hk₁.standing
  obtain ⟨h₂, happly, hstand₂⟩ := hstand₁.applyBlock id
  refine ⟨h₁, _, _, hstart, congrArg _ happly, ⟨⟨base₁, hstand₂⟩, ?_, ?_⟩, rfl⟩
  · exact forall_mem_append.mpr ⟨hk₁.canonical, forall_mem_singleton.mpr hnow⟩
  · rintro s ⟨⟩
    have hlib : r.node.lastIrreversibleBlockNum = r.node.headBlockNum - minUndoHistory :=
      hnow.irreversible
    have hchain : r.node.headBlockNum = r.now.chain.length := hnow.head
    refine ⟨congrArg (· + 1) hchain, ?_, ?_⟩
    · show max r.node.lastIrreversibleBlockNum (r.node.headBlockNum + 1 - h₁.size) =
        r.node.headBlockNum + 1 - minUndoHistory
      rw [hlib, hfilled]
      simp only [minUndoHistory]
      omega
    · rw [hchain] at hx
      exact Rules.replay_cons hnow.replayed hx

/-- The popped block leaves the canonical state of its parent. -/
theorem popUndo (hk : Kept c rules r (blocks ++ [s]) []) :
    ∃ r', r.popUndo c = .ok r' ∧ Kept c rules r' blocks [] ∧
      r'.node.pendingTxSession = r.node.pendingTxSession := by
  obtain ⟨base, hstand⟩ := hk.standing
  obtain ⟨h, hcall, hstand', _⟩ := hstand.popUndo hc r.now
  have hr := hstand.retains
  rw [append_nil] at hr
  refine ⟨{ r with node := (r.node.restore s).withUndoDb h, now := s.contents }, ?_,
    ⟨⟨base, hstand'⟩, ?_, ?_⟩, rfl⟩
  · simp only [Replica.popUndo, hr.getLast_back, hstand.active, length_nil, if_true, hcall,
      map_ok]
  · intro t ht
    exact hk.canonical t (mem_append_left _ ht)
  · rintro t ⟨⟩
    exact hk.canonical s (mem_append_right _ (mem_singleton.mpr rfl))

end Kept

/-! ### Calls -/

/-- Between two calls a session is active exactly while transactions are pending. -/
def Aligned (c : ContentHash (Saved (Snapshot X O D)) Id) (rules : Rules X O D T)
    (r : Replica X O D Id) : Prop :=
  ∃ blocks sessions, Kept c rules r blocks sessions ∧
    sessions.length = if r.node.pendingTxSession then 1 else 0

/-- The condition on a call in the state it is made in.  An accepted block is applied under
    the maximum of 1440, with the undo states of the newest 1439 blocks retained.  A session
    does not fill `back` under the lower maximum while older states are in the stack, and a
    node that saves an empty history has no file of an earlier one. -/
def KeepsHistory [DecidableEq Id] (c : ContentHash (Saved (Snapshot X O D)) Id)
    (rules : Rules X O D T) (r : Replica X O D Id) : Happening X T → Prop
  | .pushBlock old b =>
    let r := r.clearPending c
    let h := (r.node.updateMaxSize old).undoDb
    Ordered h ∧
      ((rules.applyBlock r.node.headBlockNum r.node.lastIrreversibleBlockNum r.now.contents
          b).isSome →
        h.maxSize = minUndoHistory ∧
          min r.node.headBlockNum (minUndoHistory - 1) ≤ h.size)
  | .popBlock => True
  | .pushTransaction _ =>
    Ordered r.node.undoDb ∧
      (r.node.pendingTxSession = false → Ordered (r.startPending c).state.node.undoDb)
  | .validateTransaction => Ordered r.node.undoDb
  | .clearPending => True
  | .rebuildPending => Ordered (r.clearPending c).node.undoDb
  | .restart true => True
  | .restart false => (r.clearPending c).node.undoDb.size = 0 → r.stackFile = []

namespace Aligned

variable {c : ContentHash (Saved (Snapshot X O D)) Id} {rules : Rules X O D T}
  {r : Replica X O D Id} {blocks : List (Saved (Snapshot X O D))}

theorem genesis : Aligned c rules (Replica.genesis rules) := by
  refine ⟨[], [], ⟨⟨0, ⟨Retains.fresh _, rfl, rfl, ?_, rfl, Or.inr rfl⟩⟩, ?_, ?_⟩, rfl⟩
  · rintro s ⟨⟩
  · rintro s ⟨⟩
  · rintro s ⟨⟩
    exact ⟨rfl, (Nat.zero_sub _).symm, rfl⟩

theorem of_kept (hk : Kept c rules r blocks []) (hpending : r.node.pendingTxSession = false) :
    Aligned c rules r :=
  ⟨blocks, [], hk, by rw [hpending]; rfl⟩

theorem of_pending {p : Saved (Snapshot X O D)} (hk : Kept c rules r blocks [p])
    (hpending : r.node.pendingTxSession = true) : Aligned c rules r :=
  ⟨blocks, [p], hk, by rw [hpending]; rfl⟩

variable [DecidableEq Id]

variable (hr : Aligned c rules r)
include hr

/-- `_pending_tx_session.reset()` returns and leaves the head's database. -/
theorem resetPending (hc : c.CollisionFree) : ∃ r' blocks, r.resetPending c = .ok r' ∧ Kept c rules
    r' blocks [] ∧ r'.node.pendingTxSession = false ∧ r'.stackFile = r.stackFile := by
  obtain ⟨blocks, sessions, hk, hlen⟩ := hr
  cases hpending : r.node.pendingTxSession with
  | false =>
    rw [hpending] at hlen
    have hnil := eq_nil_of_length_eq_zero hlen
    subst hnil
    refine ⟨r, blocks, ?_, hk, hpending, rfl⟩
    rw [Replica.resetPending, hpending]
    rfl
  | true =>
    rw [hpending] at hlen
    obtain ⟨s, rfl⟩ := length_eq_one_iff.mp hlen
    have hconcat : Kept c rules r blocks ([] ++ [s]) := hk
    obtain ⟨h, hundo, ⟨base, hstand⟩, hcanon, hbelow⟩ := hconcat.undoSession hc
    refine ⟨{ r with
      node := { r.node.withUndoDb h with pendingTxSession := false }
      now := s.contents }, blocks, ?_, ⟨⟨base, ?_⟩, hcanon, hbelow⟩, rfl, rfl⟩
    · rw [Replica.resetPending, if_pos hpending, hundo, map_ok]
      rfl
    · exact ⟨hstand.retains, hstand.numbered, hstand.head, hstand.unmoved, hstand.active,
        hstand.maximum⟩

omit hr in
theorem clearPending_eq {r' : Replica X O D Id} (hreset : r.resetPending c = .ok r') :
    r.clearPending c = r' := by
  rw [Replica.clearPending, hreset]
  rfl

variable (hc : c.CollisionFree)
include hc

theorem pushBlock (old : Bool) (b : Block X) (hok : KeepsHistory c rules r (.pushBlock old b)) :
    Aligned c rules (r.pushBlock c rules old b).state := by
  obtain ⟨r', blocks, hreset, hk, hpending, _⟩ := hr.resetPending hc
  simp only [KeepsHistory, clearPending_eq hreset] at hok
  obtain ⟨hordered, hfull⟩ := hok
  rw [Replica.pushBlock, hreset, ok_andThen]
  -- the maximum is set before the session is started
  have hm : Kept c rules (r'.withNode (r'.node.updateMaxSize old)) blocks [] := by
    obtain ⟨base, hstand⟩ := hk.standing
    refine ⟨⟨base, hstand.updateMaxSize old⟩, hk.canonical, ?_⟩
    have hsame : (r'.node.updateMaxSize old).saved r'.now = r'.node.saved r'.now := by
      unfold updateMaxSize
      split
      · split <;> rfl
      · rfl
    intro s hs
    refine hk.below s ?_
    rw [← hsame]
    exact hs
  have hpend : (r'.withNode (r'.node.updateMaxSize old)).node.pendingTxSession = false :=
    (updateMaxSize_pending old r'.node).trans hpending
  have hnums : (r'.node.updateMaxSize old).headBlockNum = r'.node.headBlockNum ∧
      (r'.node.updateMaxSize old).lastIrreversibleBlockNum = r'.node.lastIrreversibleBlockNum := by
    refine ⟨?_, updateMaxSize_lib old r'.node⟩
    unfold updateMaxSize
    split
    · split <;> rfl
    · rfl
  rw [← hnums.1, ← hnums.2] at hfull
  cases hx : rules.applyBlock (r'.node.updateMaxSize old).headBlockNum
      (r'.node.updateMaxSize old).lastIrreversibleBlockNum r'.now.contents b with
  | some x =>
    rw [hx] at hfull
    obtain ⟨hmax, hroom⟩ := hfull rfl
    obtain ⟨h₁, r₂, blocks', hstart, happly, hk', hpend'⟩ := hm.acceptBlock hc hmax hroom hx
    rw [hstart, ok_andThen]
    simp only [Replica.withNode, withUndoDb] at hx happly ⊢
    simp only [hx, happly]
    exact of_kept hk' (hpend'.trans hpend)
  | none =>
    obtain ⟨h₁, kept, hstart, hk₁, _⟩ := hm.start hc (Nat.zero_le _) hordered
    obtain ⟨h₂, habandon, hk₂⟩ := hk₁.abandon hc
    rw [hstart, ok_andThen]
    simp only [Replica.withNode, withUndoDb] at hx habandon ⊢
    simp only [hx, habandon]
    exact of_kept hk₂ hpend

theorem popBlock : Aligned c rules (r.popBlock c).state := by
  obtain ⟨r', blocks, hreset, hk, hpending, _⟩ := hr.resetPending hc
  rw [Replica.popBlock, hreset, ok_andThen]
  rcases eq_nil_or_concat blocks with rfl | ⟨older, s, rfl⟩
  · -- nothing is retained, and nothing changes
    obtain ⟨base, hstand⟩ := hk.standing
    have hback := (append_eq_nil_iff.mp hstand.retains.readable).2
    rw [Replica.popUndo, hback]
    exact of_kept hk hpending
  · rw [concat_eq_append] at hk
    obtain ⟨r₂, hpop, hk', hpend⟩ := hk.popUndo hc
    rw [hpop]
    exact of_kept hk' (hpend.trans hpending)

omit hr in
theorem startPending (hk : Kept c rules r blocks []) (hok : Ordered r.node.undoDb) :
    ∃ r' blocks' p, r.startPending c = .ok r' ∧ Kept c rules r' blocks' [p] ∧
      r'.node.pendingTxSession = true := by
  obtain ⟨h, kept, hstart, hk', _⟩ := hk.start hc (Nat.zero_le _) hok
  obtain ⟨base, hstand⟩ := hk'.standing
  refine ⟨r.withNode { r.node.withUndoDb h with pendingTxSession := true }, kept,
    r.node.saved r.now, ?_, ⟨⟨base, ?_⟩, hk'.canonical, hk'.below⟩, rfl⟩
  · rw [Replica.startPending, hstart]
    rfl
  · exact ⟨hstand.retains, hstand.numbered, hstand.head, hstand.unmoved, hstand.active,
      hstand.maximum⟩

theorem ensurePending (t : T)
    (hok : KeepsHistory c rules r (.pushTransaction t)) :
    ∃ r' blocks p, (if r.node.pendingTxSession then .ok r else r.startPending c) = .ok r' ∧
      Kept c rules r' blocks [p] ∧ r'.node.pendingTxSession = true ∧ Ordered r'.node.undoDb := by
  obtain ⟨blocks, sessions, hk, hlen⟩ := hr
  cases hpending : r.node.pendingTxSession with
  | true =>
    rw [hpending] at hlen
    obtain ⟨p, rfl⟩ := length_eq_one_iff.mp hlen
    exact ⟨r, blocks, p, rfl, hk, hpending, hok.1⟩
  | false =>
    rw [hpending] at hlen
    have hnil := eq_nil_of_length_eq_zero hlen
    subst hnil
    obtain ⟨r', blocks', p, hstart, hk', hpend⟩ := startPending hc hk hok.1
    have hsecond := hok.2 hpending
    rw [hstart] at hsecond
    exact ⟨r', blocks', p, hstart, hk', hpend, hsecond⟩

/-- What pending transactions do is above the canonical state, never in it. -/
theorem pushTransaction (t : T) (hok : KeepsHistory c rules r (.pushTransaction t)) : Aligned c
    rules (r.pushTransaction c rules t).state := by
  obtain ⟨r', blocks, p, hpend, hk, hpending, hordered⟩ := hr.ensurePending hc t hok
  rw [Replica.pushTransaction, hpend, ok_andThen]
  obtain ⟨h₁, kept, hstart, hk₁, _⟩ := hk.start hc (Nat.le_refl 1) hordered
  rw [hstart, ok_andThen]
  split
  · next x hx =>
    obtain ⟨h₂, hrec, hk₂⟩ := hk₁.recordChange { r'.now with contents := x }
    obtain ⟨h₃, hmerge, hk₃⟩ := hk₂.mergeSession hc
    simp only [Replica.withNode] at hrec hmerge ⊢
    rw [hrec, map_ok, ok_andThen, hmerge]
    exact of_pending hk₃ hpending
  · obtain ⟨h₂, habandon, hk₂⟩ := hk₁.abandon hc
    rw [habandon]
    exact of_pending hk₂ hpending

theorem validateTransaction (hok : Ordered r.node.undoDb) : Aligned c rules
    (r.validateTransaction c).state := by
  obtain ⟨blocks, sessions, hk, hlen⟩ := hr
  have hone : sessions.length ≤ 1 := by
    rw [hlen]
    split <;> omega
  obtain ⟨h₁, kept, hstart, hk₁, _⟩ := hk.start hc hone hok
  obtain ⟨h₂, habandon, hk₂⟩ := hk₁.abandon hc
  rw [Replica.validateTransaction, hstart, ok_andThen, habandon]
  exact ⟨kept, sessions, hk₂, hlen⟩

/-! ### Restarts -/

/-- **Loop lemma.** -/
theorem rewind (cutoff k : Nat) : Aligned c rules (r.rewind c cutoff k) := by
  induction k generalizing r with
  | zero => exact hr
  | succ k ih =>
    rw [Replica.rewind]
    split
    · have hpop := hr.popBlock hc
      split
      · next r' hcall =>
        rw [hcall] at hpop
        exact ih hpop
      · next r' hcall =>
        rw [hcall] at hpop
        exact hpop
    · exact hr

/-- A restart goes back to a state that was canonical. -/
theorem restart (rewindOnClose : Bool) (hok : KeepsHistory c rules r (.restart rewindOnClose)) :
    Aligned c rules (r.restart c rewindOnClose).state := by
  obtain ⟨r₁, blocks, hreset, hk, hpending, hfile⟩ := hr.resetPending hc
  rw [Replica.restart, hreset, ok_andThen]
  cases rewindOnClose with
  | true =>
    rw [if_pos rfl]
    obtain ⟨r₂, blocks₂, hreset₂, ⟨⟨base, hstand⟩, _, hbelow⟩, _, _⟩ :=
      ((of_kept hk hpending).rewind hc
        ((r₁.node.headBlockNum + 2 ^ 32 - r₁.node.undoDb.size) % 2 ^ 32)
        r₁.node.undoDb.size).resetPending hc
    simp only [hreset₂, ok_andThen, state_ok]
    -- every undo state is gone, and the head's database is kept
    refine ⟨[], [], ⟨⟨r₂.node.headBlockNum, ⟨Retains.fresh _, rfl, rfl, ?_, rfl, Or.inr rfl⟩⟩, ?_,
      hbelow⟩, rfl⟩
    all_goals rintro s ⟨⟩
  | false =>
    rw [if_neg Bool.false_ne_true]
    obtain ⟨base, hstand⟩ := hk.standing
    have hnodup := hstand.nodup (Nat.zero_le _)
    have hretains := hstand.retains
    rw [append_nil] at hnodup hretains
    have hstale : blocks = [] → r₁.stackFile = [] := by
      rintro rfl
      rw [hfile]
      refine hok ?_
      rw [clearPending_eq hreset]
      exact hretains.size_eq
    obtain ⟨h', hload, hr', hact, hmax⟩ := hretains.restart hc (r₁.node.saved r₁.now)
      minUndoHistory r₁.stackFile hnodup hstale
    simp only [hload, map_ok, state_ok]
    refine ⟨blocks, [], ⟨⟨base, ⟨?_, hstand.numbered, hstand.head, hstand.unmoved, hact,
      Or.inr hmax⟩⟩, hk.canonical, hk.below⟩, rfl⟩
    rw [append_nil]
    exact hr'

/-- **Step lemma.** -/
theorem step (i : Happening X T) (hok : KeepsHistory c rules r i) : Aligned c rules
    (r.step c rules i) := by
  cases i with
  | pushBlock old b => exact hr.pushBlock hc old b hok
  | popBlock => exact hr.popBlock hc
  | pushTransaction t => exact hr.pushTransaction hc t hok
  | validateTransaction => exact hr.validateTransaction hc hok
  | clearPending =>
    obtain ⟨r', blocks, hreset, hk, hpending, _⟩ := hr.resetPending hc
    rw [Replica.step, clearPending_eq hreset]
    exact of_kept hk hpending
  | rebuildPending =>
    obtain ⟨r', blocks, hreset, hk, _, _⟩ := hr.resetPending hc
    simp only [KeepsHistory, clearPending_eq hreset] at hok
    obtain ⟨r₂, blocks', p, hstart, hk', hpending⟩ := startPending hc hk hok
    rw [Replica.step, hreset, ok_andThen, hstart]
    exact of_pending hk' hpending
  | restart rewindOnClose => exact hr.restart hc rewindOnClose hok

end Aligned

/-! ### Two nodes -/

section Agreement

variable {c : ContentHash (Saved (Snapshot X O D)) Id} {rules : Rules X O D T}

/-- The global properties follow from the chain. -/
theorem Canonical.dgp_eq {a b : Replica X O D Id} (ha : Canonical rules (a.node.saved a.now))
    (hb : Canonical rules (b.node.saved b.now)) (hchain : a.now.chain = b.now.chain) :
    a.dgp = b.dgp := by
  have hhead : a.node.headBlockNum = b.node.headBlockNum :=
    ha.head.trans ((congrArg List.length hchain).trans hb.head.symm)
  have hlib : a.node.lastIrreversibleBlockNum = b.node.lastIrreversibleBlockNum := by
    have hla : a.node.lastIrreversibleBlockNum = a.node.headBlockNum - _ := ha.irreversible
    have hlb : b.node.lastIrreversibleBlockNum = b.node.headBlockNum - _ := hb.irreversible
    rw [hla, hlb, hhead]
  have hcontents : a.now.contents = b.now.contents := by
    have hra : rules.replay a.now.chain = some a.now.contents := ha.replayed
    have hrb : rules.replay b.now.chain = some b.now.contents := hb.replayed
    rw [hchain, hrb] at hra
    exact (Option.some.inj hra).symm
  rw [Replica.dgp, Replica.dgp, hhead, hlib, hcontents]

variable [DecidableEq Id]

/-- **Consensus state does not depend on the node.** If in the runs of two nodes every call
    meets the condition, and without their pending transactions they have the same main
    chain, then they have the same dynamic global properties and the undo history check
    lets the same blocks pass. -/
theorem dynamic_properties_agree (c : ContentHash (Saved (Snapshot X O D)) Id)
    (hc : c.CollisionFree) (rules : Rules X O D T) (a b : Replica X O D Id)
    (ha : ReachableUnder (· = Replica.genesis rules) (KeepsHistory c rules)
      (Replica.step c rules) a)
    (hb : ReachableUnder (· = Replica.genesis rules) (KeepsHistory c rules)
      (Replica.step c rules) b)
    (hchain : (a.clearPending c).now.chain = (b.clearPending c).now.chain) :
    (a.clearPending c).dgp = (b.clearPending c).dgp ∧
      ∀ next : Block X,
        rules.passesUndoHistoryCheck (a.clearPending c).node.lastIrreversibleBlockNum next =
          rules.passesUndoHistoryCheck (b.clearPending c).node.lastIrreversibleBlockNum next := by
  have hcanon : ∀ r : Replica X O D Id, ReachableUnder (· = Replica.genesis rules)
      (KeepsHistory c rules) (Replica.step c rules) r →
      Canonical rules ((r.clearPending c).node.saved (r.clearPending c).now) := by
    intro r hr
    have haligned : Aligned c rules r := by
      refine hr.invariant (Aligned c rules) ?_ ?_
      · rintro r rfl
        exact Aligned.genesis
      · intro r i hr hok
        exact hr.step hc i hok
    obtain ⟨r', blocks, hreset, hk, _, _⟩ := haligned.resetPending hc
    rw [Aligned.clearPending_eq hreset]
    exact hk.below _ rfl
  have hdgp := (hcanon a ha).dgp_eq (hcanon b hb) hchain
  refine ⟨hdgp, ?_⟩
  intro next
  have hlib := congrArg DynamicGlobalProperties.lastIrreversibleBlockNum hdgp
  simp only [Replica.dgp] at hlib
  rw [hlib]

end Agreement

/-! ### Two runs -/

/-- Blocks and transactions without contents, one slot every six seconds. -/
def plainRules : Rules Unit Unit Unit Unit where
  genesis := ⟨⟨0, 0, 0, 0, 0, 0, ∅, ()⟩, ()⟩
  before _ x _ := some x
  after _ x _ := some x
  applyTransaction _ x _ := some x
  blockInterval _ := 6
  maintenanceSkipSlots _ := 0
  maintenanceFlag _ := false
  currentShuffledMiners _ := []
  missed _ _ := ()
  lastCheckpoint := none
  skipUndoHistoryCheck := false

abbrev PlainSaved := Saved (Snapshot Unit Unit Unit)

def plainBlock (n miner : Nat) : Block Unit := ⟨n, 10 * n + miner, 6 * n, miner, ()⟩

def runReplica (happenings : List (Happening Unit Unit)) :
    Replica Unit Unit Unit (Option PlainSaved) :=
  happenings.foldl (Replica.step (.itself _) plainRules) (Replica.genesis plainRules)

instance (r : Replica Unit Unit Unit (Option PlainSaved)) (i : Happening Unit Unit) :
    Decidable (KeepsHistory (.itself _) plainRules r i) := by
  unfold KeepsHistory
  split <;> infer_instance

/-- One node follows the chain; the other pops a block of a fork, is restarted, and has a
    pending transaction. -/
theorem forked_node_agrees :
    let a := runReplica [.pushBlock false (plainBlock 1 3), .pushBlock false (plainBlock 2 4)]
    let b := runReplica [.pushBlock false (plainBlock 1 3), .pushBlock false (plainBlock 2 7),
      .popBlock, .restart false, .pushTransaction (), .pushBlock false (plainBlock 2 4),
      .pushTransaction ()]
    (a.clearPending (.itself _)).now.chain = [plainBlock 2 4, plainBlock 1 3] ∧
      (a.clearPending (.itself _)).dgp = (b.clearPending (.itself _)).dgp := by
  refine ⟨by decide +kernel, (dynamic_properties_agree (.itself _)
    (ContentHash.itself_collisionFree _) plainRules _ _ ?_ ?_ (by decide +kernel)).1⟩
  all_goals exact ReachableUnder.of_checkRun (.start rfl) (by decide +kernel)

/-- Twenty-one blocks, received in time by one node and more than two hours late by another. -/
theorem late_node_differs :
    let inTime := runReplica ((List.range 21).map fun i => .pushBlock false (plainBlock (i + 1) 3))
    let late := runReplica ((List.range 21).map fun i => .pushBlock true (plainBlock (i + 1) 3))
    inTime.now = late.now ∧ inTime.dgp.lastIrreversibleBlockNum = 0 ∧
      late.dgp.lastIrreversibleBlockNum = 1 ∧ inTime.dgp ≠ late.dgp := by
  decide +kernel

end HyperExchange.Nodes
