/-
  **`database::push_block`** (`libraries/chain/db_block.cpp`).

  A chain is the object database with its undo database, the block log and the fork
  database.  `apply_block` is a parameter (`Rules`): it takes a block only on top of the head
  it names, makes it the head, and leaves an undo state in its session.  `pop_block` plays
  back the newest state that the undo database has, whichever it is, so that the history
  below the head matters (`UndoSpill.lean`).

  Two fields are not part of the program: `applied`, the blocks from the head down, and
  `ordered`, which says that no session so far filled `back` under the lower maximum while
  older states were in the stack.
-/
import HyperExchange.ForkDatabase
import HyperExchange.UndoRetained

namespace HyperExchange.Blocks

open Execution Db UndoHistory

variable {P δ β D U Id : Type}

/-- `apply_block`, which may throw, `head_block_id()`, and the undo states. -/
structure Rules (P δ D U : Type) where
  /-- The database after the block, and what its session has recorded.  The number of undo
      states goes into the last irreversible block number. -/
  applyBlock : Block P δ → Nat → D → Option (D × U)
  headId : D → BlockId δ
  /-- The loops of `pop_commit` over the objects of a state; `get_object` may throw. -/
  playBack : U → D → Exec D
  /-- a state in which nothing is recorded -/
  blank : U

/-- `validate_block_header` compares `previous` with the head, and
    `update_global_dynamic_data` sets the head, whose old value is in the undo state.
    Played back where it was recorded, a state is exact. -/
structure Rules.Sound (r : Rules P δ D U) (h : Hash P δ) : Prop where
  previous_eq : ∀ {b n d d' u}, r.applyBlock b n d = some (d', u) → b.previous = r.headId d
  headId_eq : ∀ {b n d d' u}, r.applyBlock b n d = some (d', u) → r.headId d' = h.id b
  playBack_eq : ∀ {b n d d' u}, r.applyBlock b n d = some (d', u) → r.playBack u d' = .ok d
  headId_playBack : ∀ {b n d d' u}, r.applyBlock b n d = some (d', u) →
    ∀ {e e'}, r.playBack u e = .ok e' → r.headId e' = r.headId d

/-- The parameters of a chain. -/
structure Params (P δ β D U Id : Type) where
  hash : Hash P δ
  codec : Codec P δ β
  rules : Rules P δ D U
  states : ContentHash U Id

structure Params.Sound (p : Params P δ β D U Id) : Prop where
  hash : p.hash.CollisionFree
  codec : p.codec.Sound
  rules : p.rules.Sound p.hash
  states : p.states.CollisionFree

structure Chain (P δ β D U Id : Type) where
  db : D
  undoDb : UndoHistory U Id
  /-- the static `discard_count` of `_push_block` -/
  discardCount : Nat
  log : BlockLog δ β
  fork : ForkDatabase P δ
  applied : List (Block P δ)
  ordered : Bool

namespace Chain

def genesis (d : D) : Chain P δ β D U Id := ⟨d, .fresh 1440, 0, .empty, .empty, [], true⟩

variable (p : Params P δ β D U Id)

def headId (s : Chain P δ β D U Id) : BlockId δ := p.rules.headId s.db

/-- The counter and `set_max_size` before a session. -/
def tunedUndo (now : Nat) (b : Block P δ) (s : Chain P δ β D U Id) : Nat × UndoHistory U Id :=
  if b.timestamp + 7200 < now then
    (s.discardCount + 1,
      if 10 ≤ s.discardCount + 1 then s.undoDb.setMaxSize maxBackSize else s.undoDb)
  else (0, s.undoDb.setMaxSize 1440)

def tuneUndo (now : Nat) (b : Block P δ) (s : Chain P δ β D U Id) : Chain P δ β D U Id :=
  { s with
    discardCount := (s.tunedUndo now b).1
    undoDb := (s.tunedUndo now b).2
    ordered := s.ordered && decide (Ordered (s.tunedUndo now b).2) }

variable [DecidableEq δ]

def fetchBlockById (s : Chain P δ β D U Id) (id : BlockId δ) : Option (Block P δ) :=
  match s.fork.findId p.hash id with
  | some x => some x.block
  | none => s.log.fetchOptional p.hash p.codec id

variable [DecidableEq Id]

/-- `pop_undo()` -/
def popUndo (s : Chain P δ β D U Id) : Exec (Chain P δ β D U Id) :=
  match s.undoDb.back.getLast? with
  | none => .thrown s
  | some u =>
    if s.undoDb.activeSessions = 0 then
      match p.rules.playBack u s.db with
      | .thrown d => .thrown { s with db := d, undoDb := { s.undoDb with disabled := false } }
      | .ok d => (s.undoDb.popCommit p.states p.rules.blank).map fun h => { s with
          db := d
          undoDb := h
          applied := s.applied.dropWhile fun b => p.hash.id b ≠ p.rules.headId d }
    else .thrown s

def popBlock (s : Chain P δ β D U Id) : Exec (Chain P δ β D U Id) :=
  match s.fetchBlockById p (s.headId p) with
  | none => .thrown s
  | some _ =>
    match s.fork.popBlock with
    | none => .thrown s
    | some fork =>
      match s.log.remove (s.headId p) with
      | none => .thrown { s with fork := fork }
      | some log => popUndo p { s with fork := fork, log := log }

/-- `while( head_block_id() != id ) pop_block();`, with more fuel than there are
    sessions to pop. -/
def popUntil (id : BlockId δ) : Nat → Chain P δ β D U Id → Exec (Chain P δ β D U Id)
  | 0, s => .thrown s
  | n + 1, s =>
    if s.headId p = id then .ok s else (s.popBlock p).andThen fun s => popUntil id n s

/-- `apply_block` and `commit` in a session that was started with the history `h`.  A block
    that is refused undoes the session and leaves the database as it was. -/
def applyIn (id : BlockId δ) (b : Block P δ) (s : Chain P δ β D U Id) (h : UndoHistory U Id) :
    Exec (Chain P δ β D U Id) :=
  match p.rules.applyBlock b h.size s.db with
  | none => .thrown { s with undoDb := (h.undo p.states p.rules.blank).state }
  | some (d, u) =>
    match (h.record fun _ => u).andThen UndoHistory.commit with
    | .thrown h => .thrown { s with undoDb := h }
    | .ok h => .ok { s with
        db := d
        undoDb := h
        log := s.log.store p.hash p.codec id b
        applied := b :: s.applied }

/-- A session around `apply_block`, the block stored in the log under `id`. -/
def applyStored (now : Nat) (id : BlockId δ) (b : Block P δ) (s : Chain P δ β D U Id) :
    Exec (Chain P δ β D U Id) :=
  let s := s.tuneUndo now b
  match s.undoDb.startUndoSession p.states p.rules.blank false with
  | .thrown h => .thrown { s with undoDb := h }
  | .ok h => s.applyIn p id b h

/-- The handler of a failed fork switch: the blocks of the new branch that are `left` go
    out of the fork database, and the old branch comes back.  The log gets the old blocks
    under the id of the block that was pushed. -/
def restoreBranch (now : Nat) (newBlock : Block P δ) (left second : List (ForkItem P δ))
    (forkPoint : BlockId δ) (s : Chain P δ β D U Id) : Exec (Chain P δ β D U Id) :=
  let fork := left.foldl (fun f x => f.remove p.hash (p.hash.id x.block)) s.fork
  let s := { s with fork := fork.setHead second.head? }
  (popUntil p forkPoint (s.undoDb.size + 1) s).andThen fun s =>
    Exec.forEach (fun s x => s.applyStored p now (p.hash.id newBlock) x.block) second.reverse s

/-- The blocks of the new branch; after a failed switch the exception goes on. -/
def pushBranch (now : Nat) (newBlock : Block P δ) (second : List (ForkItem P δ))
    (forkPoint : BlockId δ) : List (ForkItem P δ) → Chain P δ β D U Id →
    Exec (Chain P δ β D U Id)
  | [], s => .ok s
  | x :: left, s =>
    match s.applyStored p now (p.hash.id x.block) x.block with
    | .ok s => pushBranch now newBlock second forkPoint left s
    | .thrown s => .thrown (s.restoreBranch p now newBlock (x :: left) second forkPoint).state

def switchForks (now : Nat) (newBlock : Block P δ) (newHead : ForkItem P δ)
    (s : Chain P δ β D U Id) : Exec (Chain P δ β D U Id) :=
  match s.fork.fetchBranchFrom p.hash (p.hash.id newHead.block) (s.headId p) with
  | none => .thrown s
  | some (first, second) =>
    match second.getLast? with
    | none => .thrown s
    | some last =>
      (popUntil p last.block.previous (s.undoDb.size + 1) s).andThen fun s =>
        s.pushBranch p now newBlock second last.block.previous first.reverse

def pushLinear (now : Nat) (newBlock : Block P δ) (s : Chain P δ β D U Id) :
    Exec (Chain P δ β D U Id) :=
  match s.applyStored p now (p.hash.id newBlock) newBlock with
  | .ok s => .ok s
  | .thrown s => .thrown { s with fork := s.fork.remove p.hash (p.hash.id newBlock) }

/-- `_push_block`; `skipForkDb` is the flag `skip_fork_db`. -/
def pushBlock (now : Nat) (skipForkDb : Bool) (newBlock : Block P δ) (s : Chain P δ β D U Id) :
    Exec (Chain P δ β D U Id) :=
  if skipForkDb then s.pushLinear p now newBlock
  else match s.fork.pushBlock p.hash newBlock with
    | none => .thrown s
    | some fork =>
      let s := { s with fork := fork }
      match fork.head with
      | none => .thrown s
      | some newHead =>
        if newHead.block.previous = s.headId p then s.pushLinear p now newBlock
        else if (s.headId p).num < newHead.block.num then s.switchForks p now newBlock newHead
        else .ok s

end Chain

/-- The arguments of `push_block`, and the time it is called at. -/
structure PushCall (P δ : Type) where
  now : Nat
  skipForkDb : Bool
  block : Block P δ

variable [DecidableEq δ] [DecidableEq Id]

def Chain.push (p : Params P δ β D U Id) (s : Chain P δ β D U Id) (i : PushCall P δ) :
    Exec (Chain P δ β D U Id) :=
  s.pushBlock p i.now i.skipForkDb i.block

/-- The ways a push can go. -/
inductive PushOutcome (p : Params P δ β D U Id) (s : Chain P δ β D U Id) (i : PushCall P δ) :
    Exec (Chain P δ β D U Id) → Prop
  | skip : i.skipForkDb = true → PushOutcome p s i (s.pushLinear p i.now i.block)
  | rejected : i.skipForkDb = false → s.fork.pushBlock p.hash i.block = none →
      PushOutcome p s i (.thrown s)
  | headless {fork : ForkDatabase P δ} : i.skipForkDb = false →
      s.fork.pushBlock p.hash i.block = some fork → fork.head = none →
      PushOutcome p s i (.thrown { s with fork := fork })
  | linear {fork : ForkDatabase P δ} {newHead : ForkItem P δ} : i.skipForkDb = false →
      s.fork.pushBlock p.hash i.block = some fork → fork.head = some newHead →
      newHead.block.previous = s.headId p →
      PushOutcome p s i (Chain.pushLinear p i.now i.block { s with fork := fork })
  | kept {fork : ForkDatabase P δ} {newHead : ForkItem P δ} : i.skipForkDb = false →
      s.fork.pushBlock p.hash i.block = some fork → fork.head = some newHead →
      newHead.block.previous ≠ s.headId p → newHead.block.num ≤ (s.headId p).num →
      PushOutcome p s i (.ok { s with fork := fork })
  | lost {fork : ForkDatabase P δ} {newHead : ForkItem P δ} : i.skipForkDb = false →
      s.fork.pushBlock p.hash i.block = some fork → fork.head = some newHead →
      newHead.block.previous ≠ s.headId p → (s.headId p).num < newHead.block.num →
      fork.fetchBranchFrom p.hash (p.hash.id newHead.block) (s.headId p) = none →
      PushOutcome p s i (.thrown { s with fork := fork })
  | switch {fork : ForkDatabase P δ} {newHead : ForkItem P δ} {first second : List (ForkItem P δ)} :
      i.skipForkDb = false →
      s.fork.pushBlock p.hash i.block = some fork → fork.head = some newHead →
      newHead.block.previous ≠ s.headId p → (s.headId p).num < newHead.block.num →
      fork.fetchBranchFrom p.hash (p.hash.id newHead.block) (s.headId p) = some (first, second) →
      PushOutcome p s i (Chain.switchForks p i.now i.block newHead { s with fork := fork })

theorem Chain.push_outcome (p : Params P δ β D U Id) (s : Chain P δ β D U Id)
    (i : PushCall P δ) : PushOutcome p s i (s.push p i) := by
  unfold Chain.push Chain.pushBlock
  cases hskip : i.skipForkDb with
  | true => exact .skip hskip
  | false =>
    cases hfork : s.fork.pushBlock p.hash i.block with
    | none => exact .rejected hskip hfork
    | some fork =>
      simp only [Bool.false_eq_true, if_false]
      cases hhead : fork.head with
      | none => exact .headless hskip hfork hhead
      | some newHead =>
        simp only
        split
        · next heq => exact .linear hskip hfork hhead heq
        next hne =>
        split
        · next hlt =>
          cases hbranch : fork.fetchBranchFrom p.hash (p.hash.id newHead.block) (s.headId p) with
          | none =>
            simp only [Chain.switchForks, Chain.headId] at hbranch ⊢
            rw [hbranch]
            exact .lost hskip hfork hhead hne hlt hbranch
          | some r => exact .switch hskip hfork hhead hne hlt hbranch
        · next hle => exact .kept hskip hfork hhead hne (Nat.not_lt.mp hle)

/-! ### What a push keeps

A push changes the fork database, pops blocks and applies blocks; so it keeps what these
three keep. -/

namespace Chain

/-- What holds after the first call and is kept by the second holds after both. -/
theorem state_andThen_of {σ : Type} {C : σ → Prop} {x : Exec σ} {f : σ → Exec σ} (hx : C x.state)
    (hf : ∀ t, C t → C (f t).state) : C (x.andThen f).state := by
  cases x with
  | ok t => exact hf t hx
  | thrown t => exact hx

variable {p : Params P δ β D U Id} {C : Chain P δ β D U Id → Prop} {s : Chain P δ β D U Id}

theorem popUntil_keeps (hpop : ∀ {s}, C s → C (s.popBlock p).state) (id : BlockId δ) (n : Nat)
    (h : C s) : C (popUntil p id n s).state := by
  induction n generalizing s with
  | zero => exact h
  | succ n ih =>
    unfold popUntil
    split
    · exact h
    · exact state_andThen_of (hpop h) fun t ht => ih ht

section

variable (happly : ∀ {s} now id b, C s → C (s.applyStored p now id b).state)
include happly

theorem forEach_keeps (now : Nat) (id : BlockId δ) (l : List (ForkItem P δ)) (h : C s) :
    C (Exec.forEach (fun s x => s.applyStored p now id x.block) l s).state := by
  induction l generalizing s with
  | nil => exact h
  | cons x l ih => exact state_andThen_of (happly now id x.block h) fun t ht => ih ht

variable (hfork : ∀ {s} f, C s → C { s with fork := f })
include hfork

theorem pushLinear_keeps (now : Nat) (b : Block P δ) (h : C s) :
    C (s.pushLinear p now b).state := by
  have hb := happly now (p.hash.id b) b h
  unfold pushLinear
  cases hr : s.applyStored p now (p.hash.id b) b with
  | ok t =>
    rw [hr] at hb
    exact hb
  | thrown t =>
    rw [hr] at hb
    exact hfork _ hb

variable (hpop : ∀ {s}, C s → C (s.popBlock p).state)
include hpop

theorem restoreBranch_keeps (now : Nat) (b : Block P δ) (left second : List (ForkItem P δ))
    (forkPoint : BlockId δ) (h : C s) :
    C (s.restoreBranch p now b left second forkPoint).state :=
  state_andThen_of (popUntil_keeps hpop _ _ (hfork _ h))
    fun _ ht => forEach_keeps happly now _ _ ht

theorem pushBranch_keeps (now : Nat) (b : Block P δ) (second : List (ForkItem P δ))
    (forkPoint : BlockId δ) (l : List (ForkItem P δ)) (h : C s) :
    C (s.pushBranch p now b second forkPoint l).state := by
  induction l generalizing s with
  | nil => exact h
  | cons x l ih =>
    have hx := happly now (p.hash.id x.block) x.block h
    unfold pushBranch
    cases hr : s.applyStored p now (p.hash.id x.block) x.block with
    | ok t =>
      rw [hr] at hx
      exact ih hx
    | thrown t =>
      rw [hr] at hx
      exact restoreBranch_keeps happly hfork hpop now b _ second forkPoint hx

/-- **What a push keeps.** -/
theorem push_keeps (i : PushCall P δ) (h : C s) : C (s.push p i).state := by
  generalize hr : s.push p i = r
  cases hr ▸ push_outcome p s i with
  | skip => exact pushLinear_keeps happly hfork i.now i.block h
  | rejected => exact h
  | headless | kept | lost => exact hfork _ h
  | linear => exact pushLinear_keeps happly hfork i.now i.block (hfork _ h)
  | switch =>
    unfold switchForks
    split
    · exact hfork _ h
    split
    · exact hfork _ h
    exact state_andThen_of (popUntil_keeps hpop _ _ (hfork _ h))
      fun t ht => pushBranch_keeps happly hfork hpop i.now i.block _ _ _ ht

end

/-! ### One block -/

variable {s' : Chain P δ β D U Id} {now : Nat} {id : BlockId δ} {b : Block P δ}

/-- Another undo history, and what is not part of the program. -/
structure SameButUndo (s s' : Chain P δ β D U Id) : Prop where
  db : s'.db = s.db
  log : s'.log = s.log
  fork : s'.fork = s.fork
  applied : s'.applied = s.applied

/-- A block that is taken. -/
structure Taken (p : Params P δ β D U Id) (id : BlockId δ) (b : Block P δ)
    (s s' : Chain P δ β D U Id) : Prop where
  apply : ∃ n u, p.rules.applyBlock b n s.db = some (s'.db, u)
  log : s'.log = s.log.store p.hash p.codec id b
  fork : s'.fork = s.fork
  applied : s'.applied = b :: s.applied

theorem applyIn_cases (id : BlockId δ) (b : Block P δ) (s : Chain P δ β D U Id)
    (h : UndoHistory U Id) : (s.applyIn p id b h).state.ordered = s.ordered ∧
    ((∃ s', s.applyIn p id b h = .ok s' ∧ Taken p id b s s') ∨
      ∃ s', s.applyIn p id b h = .thrown s' ∧ SameButUndo s s') := by
  unfold applyIn
  cases happly : p.rules.applyBlock b h.size s.db with
  | none => exact ⟨rfl, .inr ⟨_, rfl, rfl, rfl, rfl, rfl⟩⟩
  | some r =>
    simp only
    cases (h.record fun _ => r.2).andThen UndoHistory.commit with
    | thrown h => exact ⟨rfl, .inr ⟨_, rfl, rfl, rfl, rfl, rfl⟩⟩
    | ok h => exact ⟨rfl, .inl ⟨_, rfl, ⟨_, r.2, happly⟩, rfl, rfl, rfl⟩⟩

/-- A block is taken, or the undo history is all that changes.  Whether the session was
    started in order is all that `ordered` takes up. -/
theorem applyStored_cases (now : Nat) (id : BlockId δ) (b : Block P δ) (s : Chain P δ β D U Id) :
    (s.applyStored p now id b).state.ordered =
      (s.ordered && decide (Ordered (s.tuneUndo now b).undoDb)) ∧
    ((∃ s', s.applyStored p now id b = .ok s' ∧ Taken p id b s s') ∨
      ∃ s', s.applyStored p now id b = .thrown s' ∧ SameButUndo s s') := by
  unfold applyStored
  simp only
  cases UndoHistory.startUndoSession p.states p.rules.blank false (s.tuneUndo now b).undoDb with
  | thrown h => exact ⟨rfl, .inr ⟨_, rfl, rfl, rfl, rfl, rfl⟩⟩
  | ok h =>
    obtain ⟨hord, ⟨s', hs', htaken⟩ | ⟨s', hs', hsame⟩⟩ :=
      applyIn_cases (p := p) id b (s.tuneUndo now b) h
    · exact ⟨hord, .inl ⟨s', hs', htaken.1, htaken.2, htaken.3, htaken.4⟩⟩
    · exact ⟨hord, .inr ⟨s', hs', hsame.1, hsame.2, hsame.3, hsame.4⟩⟩

theorem applyStored_ok (h : s.applyStored p now id b = .ok s') : Taken p id b s s' := by
  rcases (applyStored_cases (p := p) now id b s).2 with ⟨t, ht, htaken⟩ | ⟨t, ht, _⟩
  · cases ht.symm.trans h
    exact htaken
  · cases ht.symm.trans h

theorem applyStored_thrown (h : s.applyStored p now id b = .thrown s') : SameButUndo s s' := by
  rcases (applyStored_cases (p := p) now id b s).2 with ⟨t, ht, _⟩ | ⟨t, ht, hsame⟩
  · cases ht.symm.trans h
  · cases ht.symm.trans h
    exact hsame

theorem popBlock_ordered (s : Chain P δ β D U Id) :
    (s.popBlock p).state.ordered = s.ordered := by
  unfold popBlock
  split
  · rfl
  split
  · rfl
  split
  · rfl
  unfold popUndo
  split
  · rfl
  split
  · split
    · rfl
    · cases UndoHistory.popCommit p.states p.rules.blank s.undoDb <;> rfl
  · rfl

/-- The history variable never recovers. -/
theorem ordered_of_apply {id : BlockId δ}
    (h : (s.applyStored p now id b).state.ordered = true) : s.ordered = true := by
  rw [(applyStored_cases now id b s).1, Bool.and_eq_true] at h
  exact h.1

theorem ordered_of_pushBranch {second : List (ForkItem P δ)} {forkPoint : BlockId δ}
    {l : List (ForkItem P δ)}
    (h : (s.pushBranch p now b second forkPoint l).state.ordered = true) : s.ordered = true := by
  refine pushBranch_keeps (p := p) (C := fun t => t.ordered = true → s.ordered = true)
    (fun _ _ _ ht hord => ht (ordered_of_apply hord)) (fun _ ht hord => ht hord) ?_
    now b second forkPoint l id h
  intro t ht hord
  rw [popBlock_ordered] at hord
  exact ht hord

theorem ordered_of_push {i : PushCall P δ} (h : (s.push p i).state.ordered = true) :
    s.ordered = true := by
  refine push_keeps (p := p) (C := fun t => t.ordered = true → s.ordered = true)
    (fun _ _ _ ht hord => ht (ordered_of_apply hord)) (fun _ ht hord => ht hord) ?_ i id h
  intro t ht hord
  rw [popBlock_ordered] at hord
  exact ht hord

end Chain

end HyperExchange.Blocks
