/-
  **No transaction is applied twice** (`_apply_transaction` and `_apply_block` in
  `db_block.cpp`, `clear_expired_transactions` in `db_update.cpp`, `transaction_object.hpp`).

  A transaction leaves a `transaction_object` with its id, of which there is only one.  The
  end of a block sweeps out those that have expired by its time, and from then on the
  transaction is turned away because it has expired: `<` in the one is `≤` in the other.
  What else decides is a parameter, also `fetch_trx`, which can only turn away more.

  A pop brings back the records that the popped block swept out.  If the undo history has a
  gap, the records swept out in it stay lost while the head goes back behind it, and a
  transaction can be applied again (`transaction_applied_twice`).
-/
import Mathlib.Data.Finset.Filter
import Mathlib.Data.Finset.SDiff
import Mathlib.Data.Finset.Lattice.Basic
import HyperExchange.ChainHistory

namespace HyperExchange.Dedupe

open Blocks Execution List Option

variable {P δ T I R V β Id : Type}

/-! ### Applying transactions and blocks -/

structure TransactionObject (I : Type) where
  trxId : I
  expiration : Nat
deriving DecidableEq, Repr

/-- The object database: the head, the index of the transaction objects, and the rest. -/
structure Database (δ I R : Type) where
  headBlockId : BlockId δ
  headBlockTime : Nat
  dedupe : Finset (TransactionObject I)
  rest : R

/-- What a block leaves in its undo state: the old head, the transaction objects that are
    new and those that are removed, and the rest. -/
structure Undo (δ I V : Type) where
  headBlockId : BlockId δ
  headBlockTime : Nat
  newIds : Finset (TransactionObject I)
  removed : Finset (TransactionObject I)
  rest : V
deriving DecidableEq

structure Environment (P δ T I R V : Type) where
  transactions : P → List T
  /-- `transaction::id()`, without the signatures. -/
  trxId : T → I
  expiration : T → Nat
  fetchTrx : Database δ I R → I → Bool
  maximumTimeUntilExpiration : R → Nat
  /-- Validation, authorities, TaPoS and the operations. -/
  evaluate : T → Database δ I R → Option R
  /-- Miner, signature and slot. -/
  validHeader : Block P δ → Database δ I R → Bool
  /-- Everything else that is done to a block after its transactions, with the number of
      undo states. -/
  finish : Block P δ → Nat → Database δ I R → Option R
  /-- What is recorded of the rest between two databases, and its playback. -/
  record : R → R → V
  playBack : V → R → Exec R
  blank : V

namespace Environment

variable (env : Environment P δ T I R V)

def transactionsOf (b : Block P δ) : List T := env.transactions b.payload

def current (t : T) (d : Database δ I R) : Bool :=
  decide (d.headBlockId.num = 0) ||
    decide (env.expiration t ≤ d.headBlockTime + env.maximumTimeUntilExpiration d.rest) &&
    decide (d.headBlockTime ≤ env.expiration t)

/-- `clear_expired_transactions` -/
def clearExpiredTransactions (d : Database δ I R) : Database δ I R :=
  { d with dedupe := d.dedupe.filter fun o => ¬ o.expiration < d.headBlockTime }

variable [DecidableEq I]

/-- `create<transaction_object>` -/
def remember (t : T) (d : Database δ I R) : Database δ I R :=
  { d with dedupe := insert ⟨env.trxId t, env.expiration t⟩ d.dedupe }

/-- `_apply_transaction`; the index by `trx_id` is unique. -/
def applyTransaction (t : T) (d : Database δ I R) : Option (Database δ I R) :=
  if env.fetchTrx d (env.trxId t) = false ∧ env.current t d = true ∧
      ∀ o ∈ d.dedupe, o.trxId ≠ env.trxId t then
    (env.evaluate t (env.remember t d)).map fun r => { env.remember t d with rest := r }
  else none

def applyTransactions : List T → Database δ I R → Option (Database δ I R)
  | [], d => some d
  | t :: l, d => (env.applyTransaction t d).bind (applyTransactions l)

variable [DecidableEq δ]

/-- `_apply_block` -/
def applyBlock (hash : Hash P δ) (b : Block P δ) (undoSize : Nat) (d : Database δ I R) :
    Option (Database δ I R) :=
  if d.headBlockId = b.previous ∧ d.headBlockTime < b.timestamp ∧ env.validHeader b d = true then
    (env.applyTransactions (env.transactionsOf b) d).bind fun d =>
      (env.finish b undoSize d).map fun r =>
        clearExpiredTransactions
          { d with headBlockId := hash.id b, headBlockTime := b.timestamp, rest := r }
  else none

/-- The undo state of the session in which `d` became `d'`. -/
def undoState (d d' : Database δ I R) : Undo δ I V where
  headBlockId := d.headBlockId
  headBlockTime := d.headBlockTime
  newIds := d'.dedupe \ d.dedupe
  removed := d.dedupe \ d'.dedupe
  rest := env.record d.rest d'.rest

/-- The playback of an undo state.  An object that is to be removed has to be there. -/
def playBackState (u : Undo δ I V) (d : Database δ I R) : Exec (Database δ I R) :=
  if u.newIds ⊆ d.dedupe then
    (env.playBack u.rest d.rest).map fun r =>
      ⟨u.headBlockId, u.headBlockTime, (d.dedupe \ u.newIds) ∪ u.removed, r⟩
  else .thrown d

def params (hash : Hash P δ) (codec : Codec P δ β) (states : Db.ContentHash (Undo δ I V) Id) :
    Params P δ β (Database δ I R) (Undo δ I V) Id where
  hash := hash
  codec := codec
  rules :=
    { applyBlock := fun b n d =>
        (env.applyBlock hash b n d).map fun d' => (d', env.undoState d d')
      headId := fun d => d.headBlockId
      playBack := env.playBackState
      blank := ⟨hash.nullId, 0, ∅, ∅, env.blank⟩ }
  states := states

end Environment

/-! ### The two windows -/

section Windows

variable [DecidableEq I] [DecidableEq δ] {env : Environment P δ T I R V} {d d' : Database δ I R}

def Barred (env : Environment P δ T I R V) (d : Database δ I R) (t : T) : Prop :=
  ⟨env.trxId t, env.expiration t⟩ ∈ d.dedupe ∨
    (env.expiration t < d.headBlockTime ∧ 0 < d.headBlockId.num)

/-- The transactions have different ids, and none of them could come again. -/
structure Unrepeated (env : Environment P δ T I R V) (d : Database δ I R) (seen : List T) :
    Prop where
  nodup : (seen.map env.trxId).Nodup
  barred : ∀ t ∈ seen, Barred env d t

variable (hid : ∀ t t', env.trxId t = env.trxId t' → env.expiration t = env.expiration t')
include hid

omit [DecidableEq δ] in
theorem Unrepeated.applyTransaction {seen : List T} {t : T} (hs : Unrepeated env d seen)
    (h : env.applyTransaction t d = some d') : Unrepeated env d' (t :: seen) := by
  unfold Environment.applyTransaction at h
  split at h
  case isFalse => cases h
  rename_i hok
  obtain ⟨-, hcurrent, hnew⟩ := hok
  obtain ⟨r, -, rfl⟩ := map_eq_some_iff.1 h
  constructor
  · rw [map_cons, nodup_cons]
    refine ⟨?_, hs.nodup⟩
    intro hmem
    obtain ⟨t', ht', heq⟩ := List.mem_map.1 hmem
    rcases hs.barred t' ht' with hrecord | ⟨hexpired, hnum⟩
    · exact hnew _ hrecord heq
    · -- it has expired, and the first block is over
      rw [hid t' t heq] at hexpired
      unfold Environment.current at hcurrent
      have hzero : ¬ d.headBlockId.num = 0 := Nat.ne_of_gt hnum
      have hlate : ¬ d.headBlockTime ≤ env.expiration t := Nat.not_le.2 hexpired
      simp [hzero, hlate] at hcurrent
  · intro t' ht'
    rcases mem_cons.1 ht' with rfl | ht'
    · exact .inl (Finset.mem_insert_self _ _)
    · exact (hs.barred t' ht').imp Finset.mem_insert_of_mem id

omit [DecidableEq δ] in
theorem Unrepeated.applyTransactions {l seen : List T} (hs : Unrepeated env d seen)
    (h : env.applyTransactions l d = some d') : Unrepeated env d' (l.reverse ++ seen) := by
  induction l generalizing d seen with
  | nil =>
    cases h
    exact hs
  | cons t l ih =>
    obtain ⟨d₁, hone, hrest⟩ := bind_eq_some_iff.1 h
    rw [reverse_cons, append_assoc]
    exact ih (hs.applyTransaction hid hone) hrest

omit hid [DecidableEq δ] in
theorem head_applyTransactions {l : List T} (h : env.applyTransactions l d = some d') :
    d'.headBlockTime = d.headBlockTime := by
  induction l generalizing d with
  | nil =>
    cases h
    rfl
  | cons t l ih =>
    obtain ⟨d₁, hone, hrest⟩ := bind_eq_some_iff.1 h
    rw [ih hrest]
    unfold Environment.applyTransaction at hone
    split at hone
    · obtain ⟨r, -, rfl⟩ := map_eq_some_iff.1 hone
      rfl
    · cases hone

/-- The sweep at the end of a block takes the records of those that have expired. -/
theorem Unrepeated.applyBlock {hash : Hash P δ} {b : Block P δ} {n : Nat} {l : List (Block P δ)}
    (hs : Unrepeated env d (l.flatMap env.transactionsOf))
    (h : env.applyBlock hash b n d = some d') :
    Unrepeated env d' ((b :: l).flatMap env.transactionsOf) := by
  unfold Environment.applyBlock at h
  split at h
  case isFalse => cases h
  rename_i hheader
  obtain ⟨d₁, htxs, hfinish⟩ := bind_eq_some_iff.1 h
  obtain ⟨r, -, rfl⟩ := map_eq_some_iff.1 hfinish
  have htime : d₁.headBlockTime < b.timestamp := by
    rw [head_applyTransactions htxs]
    exact hheader.2.1
  have hs₁ := hs.applyTransactions hid htxs
  rw [flatMap_cons]
  constructor
  · refine (List.Perm.nodup_iff ?_).1 hs₁.nodup
    exact ((reverse_perm _).append_right _).map _
  · intro t ht
    have ht₁ : t ∈ (env.transactionsOf b).reverse ++ l.flatMap env.transactionsOf := by
      rw [mem_append, mem_reverse, ← mem_append]
      exact ht
    have hnum : 0 < (hash.id b).num := Nat.succ_pos _
    by_cases hexpired : env.expiration t < b.timestamp
    · exact .inr ⟨hexpired, hnum⟩
    · rcases hs₁.barred t ht₁ with hrecord | ⟨hold, -⟩
      · exact .inl (Finset.mem_filter.2 ⟨hrecord, hexpired⟩)
      · exact absurd (Nat.lt_trans hold htime) hexpired

end Windows

section Main

variable [DecidableEq I] [DecidableEq δ] [DecidableEq Id] (env : Environment P δ T I R V)
  (hash : Hash P δ) (codec : Codec P δ β) (states : Db.ContentHash (Undo δ I V) Id)

omit [DecidableEq Id] in
/-- Undo is exact, if it is for the rest. -/
theorem rules_sound (hrest : ∀ r r', env.playBack (env.record r r') r' = .ok r) :
    (env.params hash codec states).rules.Sound hash := by
  have hsome : ∀ {b n d d' u},
      (env.params hash codec states).rules.applyBlock b n d = some (d', u) →
      env.applyBlock hash b n d = some d' ∧ u = env.undoState d d' := by
    intro b n d d' u h
    obtain ⟨e, he, heq⟩ := map_eq_some_iff.1 h
    cases heq
    exact ⟨he, rfl⟩
  constructor
  · intro b n d d' u h
    have happly := (hsome h).1
    unfold Environment.applyBlock at happly
    split at happly
    · next hheader => exact hheader.1.symm
    · cases happly
  · intro b n d d' u h
    have happly := (hsome h).1
    unfold Environment.applyBlock at happly
    split at happly
    · obtain ⟨d₁, -, hfinish⟩ := bind_eq_some_iff.1 happly
      obtain ⟨r, -, rfl⟩ := map_eq_some_iff.1 hfinish
      rfl
    · cases happly
  · intro b n d d' u h
    have hback : d'.dedupe \ (d'.dedupe \ d.dedupe) ∪ d.dedupe \ d'.dedupe = d.dedupe := by
      ext o
      simp only [Finset.mem_union, Finset.mem_sdiff]
      tauto
    rw [(hsome h).2]
    show env.playBackState (env.undoState d d') d' = .ok d
    simp only [Environment.playBackState, Environment.undoState, Finset.sdiff_subset, if_true,
      hrest, Exec.map_ok, hback]
  · intro b n d d' u h e e' hplay
    rw [(hsome h).2] at hplay
    have hplay : env.playBackState (env.undoState d d') e = .ok e' := hplay
    unfold Environment.playBackState at hplay
    split at hplay
    · cases hr : env.playBack (env.undoState d d').rest e.rest with
      | ok r =>
        rw [hr] at hplay
        cases hplay
        rfl
      | thrown r =>
        rw [hr] at hplay
        cases hplay
    · cases hplay

/-- **No transaction is applied twice.**  After every run of pushes, fork switches and pops
    whose sessions were all started in order, the ids of the transactions on the main chain
    are pairwise different. -/
theorem no_transaction_twice
    (hid : ∀ t t', env.trxId t = env.trxId t' → env.expiration t = env.expiration t')
    (hrest : ∀ r r', env.playBack (env.record r r') r' = .ok r) (hstates : states.CollisionFree)
    (d : Database δ I R) (hd : d.headBlockId = hash.nullId)
    (s : Chain P δ β (Database δ I R) (Undo δ I V) Id)
    (h : ReachableUnder (· = Chain.genesis d) (fun _ _ => True)
      (Chain.step (env.params hash codec states)) s) (hord : s.ordered = true) :
    ((s.applied.flatMap env.transactionsOf).map env.trxId).Nodup := by
  have hs : Unrepeated env s.db (s.applied.flatMap env.transactionsOf) := by
    refine Traced.related (p := env.params hash codec states)
      (Q := fun d l => Unrepeated env d (l.flatMap env.transactionsOf))
      (rules_sound env hash codec states hrest) hstates ?_ hd ⟨nodup_nil, nofun⟩ hord h
    intro b n d d' u l hl happly
    obtain ⟨e, he, heq⟩ := map_eq_some_iff.1 happly
    cases heq
    exact hl.applyBlock hid he
  exact hs.nodup

end Main

/-! ### Two runs

A transaction is an id and its expiration, a block a list of them, and there is nothing
else in the database. -/

abbrev SampleBlock := Block (List (Nat × Nat)) (List Nat)

def sampleEnvironment :
    Environment (List (Nat × Nat)) (List Nat) (Nat × Nat) (Nat × Nat) Unit Unit where
  transactions l := l
  trxId t := t
  expiration t := t.2
  fetchTrx _ _ := false
  maximumTimeUntilExpiration _ := 86400
  evaluate _ _ := some ()
  validHeader _ _ := true
  finish _ _ _ := some ()
  record _ _ := ()
  playBack _ _ := .ok ()
  blank := ()

def sampleHash : Hash (List (Nat × Nat)) (List Nat) :=
  ⟨fun b => b.timestamp :: b.previous.digest, []⟩

abbrev SampleUndo := Undo (List Nat) (Nat × Nat) Unit

def sampleParams : Params (List (Nat × Nat)) (List Nat) SampleBlock
    (Database (List Nat) (Nat × Nat) Unit) SampleUndo (Option SampleUndo) :=
  sampleEnvironment.params sampleHash ⟨fun b => [b], fun l => l.head?⟩ (.itself _)

def runChain (calls : List (PushCall (List (Nat × Nat)) (List Nat))) :
    Chain (List (Nat × Nat)) (List Nat) SampleBlock (Database (List Nat) (Nat × Nat) Unit)
      SampleUndo (Option SampleUndo) :=
  (calls.map .push).foldl (Chain.step sampleParams)
    (Chain.genesis ⟨sampleHash.nullId, 0, ∅, ()⟩)

def inTime (b : SampleBlock) : PushCall (List (Nat × Nat)) (List Nat) := ⟨b.timestamp, false, b⟩

def first : SampleBlock := ⟨sampleHash.nullId, 10, [(1, 100)]⟩
def repeated : SampleBlock := ⟨sampleHash.id first, 50, [(2, 100), (1, 100)]⟩
def second : SampleBlock := ⟨sampleHash.id first, 120, [(2, 110)]⟩
def late : SampleBlock := ⟨sampleHash.id second, 130, [(1, 100)]⟩

/-- Transaction 1, which expires at 100, is sent again at 50, when it is on record, and at 130. -/
theorem sample_not_repeated :
    let s := runChain ([first, repeated, second, late].map inTime)
    s.applied = [second, first] ∧ s.db.dedupe = ∅ ∧
      ((s.applied.flatMap sampleEnvironment.transactionsOf).map
        sampleEnvironment.trxId).Nodup := by
  refine ⟨by decide +kernel, by decide +kernel, ?_⟩
  refine no_transaction_twice sampleEnvironment sampleHash _ (.itself _) ?_ (fun _ _ => rfl)
    (Db.ContentHash.itself_collisionFree _) _ rfl _
    (.of_checkRun (.start rfl) (by decide +kernel)) (by decide +kernel)
  rintro t t' h
  exact congrArg Prod.snd h

/-- `k` blocks on top of `id`, ten seconds apart from `time` on, with the transactions. -/
def blocksOn (transactions : Nat → List (Nat × Nat)) :
    Nat → BlockId (List Nat) → Nat → List SampleBlock
  | 0, _, _ => []
  | k + 1, id, time =>
    let b : SampleBlock := ⟨id, time, transactions (id.num + 1)⟩
    b :: blocksOn transactions k (sampleHash.id b) (time + 10)

/-- Block 5 has transaction 1, which expires at 115; block 12, at 120, sweeps it out. -/
def mainBranch : List SampleBlock :=
  blocksOn (fun n => if n = 5 then [(1, 115)] else []) 41 sampleHash.nullId 10

/-- From block 10 on, with transaction 1 in block 11. -/
def sideBranch : List SampleBlock :=
  blocksOn (fun n => if n = 11 then [(1, 115)] else []) 32
    ((mainBranch[9]?.map sampleHash.id).getD sampleHash.nullId) 111

/-- Thirty-one blocks in time and ten that are more than two hours late leave the undo states
    of blocks 11 and 23 to 41.  The switch to a branch from block 10 pops twenty blocks, the
    last one with the state of block 11, and the record that block 12 swept out does not come
    back. -/
theorem transaction_applied_twice :
    let calls := (mainBranch.take 31).map inTime ++
      (mainBranch.drop 31).map (fun b => ⟨b.timestamp + 7201, false, b⟩)
    let s := runChain (calls ++ sideBranch.map inTime)
    (runChain calls).undoDb.stack.length = 1 ∧ (runChain calls).undoDb.back.length = 19 ∧
      s.ordered = false ∧ s.applied = sideBranch.reverse ++ (mainBranch.take 10).reverse ∧
      s.applied.flatMap sampleEnvironment.transactionsOf = [(1, 115), (1, 115)] := by
  decide +kernel

end HyperExchange.Dedupe
