/-
  **The two-level undo history** (`libraries/db/undo_database.cpp`).

  The undo states of all live sessions form one list, oldest first.  Its newest part is in
  memory, in the deque `back`; older states are in a key-value store under the hash of their
  contents, and only their ids are kept, in the deque `_stack`.  A state is deleted from the
  store when it is reloaded or dropped.  `pop_front()` on an empty deque throws here, and
  `record f` stands for `on_create`, `on_modify` and `on_remove`.

  As long as the ids in the stack are pairwise different every position owns its key
  (`Sound`, `readable_of_reachable`).  Two positions with equal contents share one, and
  reloading the one makes the other unreadable (`equal_states_share_one_key`).
-/
import Mathlib.Logic.Function.Basic
import HyperExchange.Execution
import Mathlib.Data.List.Nodup

namespace HyperExchange.Db

open Execution List

/-- `serializable_undo_state::undo_id()` and `undo_state_id_type()`.  Objects are stored as
    `to_variant()`, without the members that are not reflected: `stored s` is what is read
    back of `s`.  The hash is that of the stored form. -/
structure ContentHash (St Id : Type) where
  undoId : St → Id
  nullId : Id
  stored : St → St
  undoId_stored : ∀ s, undoId (stored s) = undoId s

/-- No two states have the same hash, and none hashes to the null id. -/
structure ContentHash.CollisionFree {St Id : Type} (c : ContentHash St Id) : Prop where
  injective : Function.Injective c.undoId
  ne_null : ∀ s, c.undoId s ≠ c.nullId

/-- Then nothing is lost in the store either. -/
theorem ContentHash.CollisionFree.stored_eq {St Id : Type} {c : ContentHash St Id}
    (hc : c.CollisionFree) (s : St) : c.stored s = s :=
  hc.injective (c.undoId_stored s)

/-- Every state is stored under itself. -/
def ContentHash.itself (St : Type) : ContentHash St (Option St) := ⟨some, none, id, fun _ => rfl⟩

theorem ContentHash.itself_collisionFree (St : Type) : (ContentHash.itself St).CollisionFree where
  injective _ _ h := Option.some.inj h
  ne_null _ h := Option.some_ne_none _ h

/-- `GRAPHENE_UNDO_BUFF_MAX_SIZE` -/
def maxBackSize : Nat := 20

structure UndoHistory (St Id : Type) where
  back : List St
  stack : List Id
  storage : Id → Option St
  activeSessions : Nat
  disabled : Bool
  maxSize : Nat

namespace UndoHistory

variable {St Id : Type}

/-- An enabled database without history. -/
def fresh (maxSize : Nat) : UndoHistory St Id := ⟨[], [], fun _ => none, 0, false, maxSize⟩

def size (h : UndoHistory St Id) : Nat := h.stack.length + h.back.length

variable [DecidableEq Id] (c : ContentHash St Id)

/-! ### `start_undo_session` -/

/-- `store_undo_state` of a state, and its id at the end of the stack. -/
def store (h : UndoHistory St Id) (s : St) : UndoHistory St Id :=
  { h with
    storage := Function.update h.storage (c.undoId s) (some (c.stored s))
    stack := h.stack ++ [c.undoId s] }

/-- `undo_storage::remove` -/
def removeStored (h : UndoHistory St Id) (id : Id) : Exec (UndoHistory St Id) :=
  if id = c.nullId then .thrown h
  else .ok { h with storage := Function.update h.storage id none }

/-- The loop `while (back.size() >= max_back_size)`: the oldest states leave `back`;
    one that leaves while the deque is shorter than `max_size()` is stored. -/
def spill : List St → UndoHistory St Id → UndoHistory St Id
  | [], h => { h with back := [] }
  | s :: back, h =>
    if maxBackSize ≤ back.length + 1 then
      if back.length + 1 < h.maxSize then spill back (h.store c s) else spill back h
    else { h with back := s :: back }

/-- The loop `while (size() > max_size())`, with the number of states as fuel. -/
def evict : Nat → UndoHistory St Id → Exec (UndoHistory St Id)
  | 0, h => .ok h
  | n + 1, h =>
    if h.maxSize < h.size then
      match h.stack with
      | id :: stack =>
        if maxBackSize < h.size then
          (h.removeStored c id).andThen fun h => evict n { h with stack := stack }
        else match h.back with
          | [] => .thrown h
          | _ :: back => evict n { h with back := back }
      | [] => match h.back with
        | [] => .thrown h
        | _ :: back => evict n { h with back := back }
    else .ok h

variable (empty : St)

def startUndoSession (forceEnable : Bool) (h : UndoHistory St Id) : Exec (UndoHistory St Id) :=
  if h.disabled && !forceEnable then .ok h
  else
    let h := { h with disabled := false, back := h.back ++ [empty] }
    -- after the inner loop the outer one is left: `back` is shorter than `max_back_size`
    let h := if maxBackSize + 10 ≤ h.back.length then spill c h.back h else h
    (evict c h.size h).andThen fun h => .ok { h with activeSessions := h.activeSessions + 1 }

/-! ### `undo`, `merge`, `commit`, `pop_commit`, `set_max_size` -/

/-- The loop that reloads spilled states into `back`, with the length of the stack as
    fuel.  `emplace_front` comes first, so a failed read leaves an empty state behind. -/
def reload (empty : St) : Nat → UndoHistory St Id → Exec (UndoHistory St Id)
  | 0, h => .ok h
  | n + 1, h =>
    match h.stack.getLast? with
    | none => .ok h
    | some id =>
      if h.back.length < maxBackSize then
        match h.storage id with
        | none => .thrown { h with back := empty :: h.back }
        | some s =>
          (removeStored c { h with back := s :: h.back } id).andThen fun h =>
            reload empty n { h with stack := h.stack.dropLast }
      else .ok h

/-- `back.pop_back()` and what follows it in `undo`, `merge` and `pop_commit`. -/
def popBack (h : UndoHistory St Id) : Exec (UndoHistory St Id) :=
  let h := { h with back := h.back.dropLast }
  if h.stack ≠ [] ∧ h.back.length ≤ 5 then reload c empty h.stack.length h else .ok h

/-- `undo`, when the replay into the object database returns. -/
def undo (h : UndoHistory St Id) : Exec (UndoHistory St Id) :=
  if h.disabled = false ∧ h.back ≠ [] ∧ 0 < h.activeSessions then
    (popBack c empty { h with disabled := true }).andThen fun h =>
      .ok { h with disabled := false, activeSessions := h.activeSessions - 1 }
  else .thrown h

/-- `merge`; `combine` merges the newest state into the one below it. -/
def merge (combine : St → St → St) (h : UndoHistory St Id) : Exec (UndoHistory St Id) :=
  if 0 < h.activeSessions then
    match h.back.reverse with
    | state :: prev :: older =>
      (popBack c empty { h with back := older.reverse ++ [combine prev state, state] }).andThen
        fun h => .ok { h with activeSessions := h.activeSessions - 1 }
    | _ => .thrown h
  else .thrown h

def commit (h : UndoHistory St Id) : Exec (UndoHistory St Id) :=
  if h.disabled then .ok h
  else if 0 < h.activeSessions then .ok { h with activeSessions := h.activeSessions - 1 }
  else .thrown h

/-- `pop_commit`, when the replay into the object database returns.  It enables the
    database again also when a state cannot be reloaded. -/
def popCommit (h : UndoHistory St Id) : Exec (UndoHistory St Id) :=
  if h.activeSessions = 0 ∧ h.back ≠ [] then
    match popBack c empty { h with disabled := true } with
    | .ok h => .ok { h with disabled := false }
    | .thrown h => .thrown { h with disabled := false }
  else .thrown h

def setMaxSize (n : Nat) (h : UndoHistory St Id) : UndoHistory St Id := { h with maxSize := n }

/-- `on_create`, `on_modify`, `on_remove`: the newest state is changed in place. -/
def record (f : St → St) (h : UndoHistory St Id) : Exec (UndoHistory St Id) :=
  if h.disabled then .ok h
  else match h.back.getLast? with
    | none => .thrown h
    | some s => .ok { h with back := h.back.dropLast ++ [f s] }

end UndoHistory

/-- The calls on the undo database. -/
inductive HistoryCall (St : Type) where
  | start (forceEnable : Bool)
  | record (f : St → St)
  | commit
  | undo
  | merge
  | popCommit
  | setMaxSize (n : Nat)

def UndoHistory.call {St Id : Type} [DecidableEq Id] (c : ContentHash St Id) (empty : St)
    (combine : St → St → St) (h : UndoHistory St Id) : HistoryCall St → Exec (UndoHistory St Id)
  | .start force => h.startUndoSession c empty force
  | .record f => h.record f
  | .commit => h.commit
  | .undo => h.undo c empty
  | .merge => h.merge c empty combine
  | .popCommit => h.popCommit c empty
  | .setMaxSize n => .ok (h.setMaxSize n)

namespace UndoHistory

variable {St Id : Type} [DecidableEq Id] (c : ContentHash St Id)

/-! ### The spilling loop in closed form -/

def spilledStates (maxSize : Nat) : List St → List St
  | [] => []
  | s :: back =>
    if maxBackSize ≤ back.length + 1 then
      if back.length + 1 < maxSize then s :: spilledStates maxSize back
      else spilledStates maxSize back
    else []

/-- The states the spilling loop leaves in `back`. -/
def keptStates : List St → List St
  | [] => []
  | s :: back => if maxBackSize ≤ back.length + 1 then keptStates back else s :: back

def storeAll (l : List St) (h : UndoHistory St Id) : UndoHistory St Id :=
  l.foldl (fun h s => h.store c s) h

/-- The oldest states go to the storage and the newest stay, in one step. -/
theorem spill_eq (l : List St) (h : UndoHistory St Id) :
    spill c l h = { storeAll c (spilledStates h.maxSize l) h with back := keptStates l } := by
  induction l generalizing h with
  | nil => rfl
  | cons s back ih =>
    simp only [spill, spilledStates, keptStates]
    split
    · split
      · exact ih (h.store c s)
      · exact ih h
    · rfl

theorem storeAll_stack (l : List St) (h : UndoHistory St Id) :
    (storeAll c l h).stack = h.stack ++ l.map c.undoId := by
  induction l generalizing h with
  | nil => simp [storeAll]
  | cons s l ih =>
    have hcons : storeAll c (s :: l) h = storeAll c l (h.store c s) := rfl
    rw [hcons, ih]
    simp [store]

theorem storeAll_frame (l : List St) (h : UndoHistory St Id) :
    (storeAll c l h).maxSize = h.maxSize ∧ (storeAll c l h).disabled = h.disabled ∧
      (storeAll c l h).activeSessions = h.activeSessions := by
  induction l generalizing h with
  | nil => exact ⟨rfl, rfl, rfl⟩
  | cons s l ih => exact ih (h.store c s)

/-! ### Positions that own their key -/

/-- Every spilled position can be read, and what is read is the state that was written
    there: the only one with that hash. -/
def Readable (h : UndoHistory St Id) : Prop :=
  ∀ id ∈ h.stack, ∃ s, h.storage id = some s ∧ ∀ s', c.undoId s' = id ↔ s' = s

/-- No id is twice in the stack, and each of them can be read. -/
def Sound (h : UndoHistory St Id) : Prop := h.stack.Nodup ∧ Readable c h

variable {c} {h : UndoHistory St Id}

omit [DecidableEq Id] in
theorem Sound.of_eq {h' : UndoHistory St Id} (hs : Sound c h) (hstack : h'.stack = h.stack)
    (hstorage : h'.storage = h.storage) : Sound c h' := by
  refine ⟨hstack ▸ hs.1, ?_⟩
  intro id hid
  rw [hstorage]
  exact hs.2 id (hstack ▸ hid)

/-- A state is written under an id that is not in use. -/
theorem Sound.store (hs : Sound c h) (hc : c.CollisionFree) {s : St}
    (hnew : c.undoId s ∉ h.stack) : Sound c (h.store c s) := by
  refine ⟨?_, ?_⟩
  · simp only [UndoHistory.store]
    rw [nodup_append]
    refine ⟨hs.1, nodup_singleton _, ?_⟩
    intro a ha b hb
    rw [mem_singleton] at hb
    subst hb
    exact fun e => hnew (e ▸ ha)
  · intro id hid
    simp only [UndoHistory.store, mem_append, mem_singleton] at hid
    simp only [UndoHistory.store, Function.update_apply]
    by_cases he : id = c.undoId s
    · refine ⟨s, by rw [if_pos he, hc.stored_eq], ?_⟩
      intro s'
      rw [he]
      exact hc.injective.eq_iff
    · rw [if_neg he]
      rcases hid with hid | hid
      · exact hs.2 id hid
      · exact absurd hid he

theorem Sound.storeAll (hs : Sound c h) (hc : c.CollisionFree) {l : List St}
    (hl : (h.stack ++ l.map c.undoId).Nodup) : Sound c (storeAll c l h) := by
  induction l generalizing h with
  | nil => exact hs
  | cons s l ih =>
    have hcons : UndoHistory.storeAll c (s :: l) h = UndoHistory.storeAll c l (h.store c s) := rfl
    rw [hcons]
    refine ih (hs.store hc ?_) ?_
    · intro hmem
      rw [map_cons, nodup_append] at hl
      exact hl.2.2 _ hmem _ mem_cons_self rfl
    · simpa [UndoHistory.store] using hl

/-- Taking one id out of the stack, at either end, and its key out of the store. -/
theorem Sound.forget (hs : Sound c h) {id : Id} {stack : List Id}
    (hstack : h.stack.Perm (id :: stack)) :
    Sound c { h with stack := stack, storage := Function.update h.storage id none } := by
  have hnodup := hstack.nodup_iff.mp hs.1
  rw [nodup_cons] at hnodup
  refine ⟨hnodup.2, ?_⟩
  intro k hk
  have hne : k ≠ id := fun e => hnodup.1 (e ▸ hk)
  simp only [Function.update_apply, if_neg hne]
  exact hs.2 k (hstack.mem_iff.mpr (mem_cons_of_mem _ hk))

/-! ### The loops and the calls -/

/-- What is taken from the bottom of the stack leaves the rest readable. -/
theorem Sound.evict (hs : Sound c h) (n : Nat) : Sound c (evict c n h).state := by
  induction n generalizing h with
  | zero => exact hs
  | succ n ih =>
    simp only [UndoHistory.evict]
    split
    · cases hstack : h.stack with
      | cons id stack =>
        simp only
        split
        · simp only [removeStored]
          split
          · exact hs
          · exact ih (hs.forget (by rw [hstack]))
        · cases hback : h.back with
          | nil => exact hs
          | cons s back => exact ih (hs.of_eq hstack.symm rfl)
      | nil =>
        cases hback : h.back with
        | nil => exact hs
        | cons s back => exact ih (hs.of_eq hstack.symm rfl)
    · exact hs

theorem Sound.reload (hs : Sound c h) (empty : St) (n : Nat) :
    Sound c (reload c empty n h).state := by
  induction n generalizing h with
  | zero => exact hs
  | succ n ih =>
    simp only [UndoHistory.reload]
    cases hlast : h.stack.getLast? with
    | none => exact hs
    | some id =>
      simp only
      split
      · cases hread : h.storage id with
        | none => exact hs.of_eq rfl rfl
        | some s =>
          simp only [removeStored]
          split
          · exact hs.of_eq rfl rfl
          have hsplit : h.stack = h.stack.dropLast ++ [id] :=
            (dropLast_append_getLast? id hlast).symm
          have hperm : h.stack.Perm (id :: h.stack.dropLast) := by
            nth_rewrite 1 [hsplit]
            exact perm_append_singleton id h.stack.dropLast
          exact ih ((hs.forget hperm).of_eq rfl rfl)
      · exact hs

theorem Sound.popBack (hs : Sound c h) (empty : St) : Sound c (popBack c empty h).state := by
  simp only [UndoHistory.popBack]
  split
  · refine Sound.reload ?_ empty _
    exact hs.of_eq rfl rfl
  · exact hs.of_eq rfl rfl

theorem Sound.startUndoSession (hs : Sound c h) (hc : c.CollisionFree) (empty : St) (force : Bool)
    (hspill : maxBackSize + 10 ≤ h.back.length + 1 →
      (h.stack ++ (spilledStates h.maxSize (h.back ++ [empty])).map c.undoId).Nodup) :
    Sound c (startUndoSession c empty force h).state := by
  have hstep : ∀ h' : UndoHistory St Id, Sound c h' →
      Sound c ((UndoHistory.evict c h'.size h').andThen fun h =>
        .ok { h with activeSessions := h.activeSessions + 1 }).state := by
    intro h' hs'
    have he := hs'.evict h'.size
    cases hev : UndoHistory.evict c h'.size h' with
    | ok h₁ => rw [hev] at he; exact he.of_eq rfl rfl
    | thrown h₁ => rw [hev] at he; exact he
  have hpush : Sound c { h with disabled := false, back := h.back ++ [empty] } := hs.of_eq rfl rfl
  simp only [UndoHistory.startUndoSession]
  split
  · exact hs
  refine hstep _ ?_
  split
  · next hlen =>
    rw [spill_eq]
    simp only [length_append, length_singleton] at hlen
    exact (hpush.storeAll hc (hspill hlen)).of_eq rfl rfl
  · exact hpush

/-- The side condition on a call: what a start spills differs from what is in the
    stack already, and pairwise. -/
def SpillsDistinct (c : ContentHash St Id) (empty : St) (h : UndoHistory St Id) :
    HistoryCall St → Prop
  | .start _ => maxBackSize + 10 ≤ h.back.length + 1 →
      (h.stack ++ (spilledStates h.maxSize (h.back ++ [empty])).map c.undoId).Nodup
  | _ => True

instance (empty : St) (h : UndoHistory St Id) :
    ∀ i : HistoryCall St, Decidable (SpillsDistinct c empty h i) := by
  rintro ⟨⟩ <;> unfold SpillsDistinct <;> infer_instance

/-- **Step lemma.** -/
theorem Sound.call (hs : Sound c h) (hc : c.CollisionFree) (empty : St) (combine : St → St → St)
    (i : HistoryCall St) (hi : SpillsDistinct c empty h i) :
    Sound c (h.call c empty combine i).state := by
  have hpop : ∀ (h' : UndoHistory St Id) (g : UndoHistory St Id → UndoHistory St Id),
      Sound c h' → (∀ h, (g h).stack = h.stack ∧ (g h).storage = h.storage) →
      Sound c ((UndoHistory.popBack c empty h').andThen fun h => .ok (g h)).state := by
    intro h' g hs' hg
    have hp := hs'.popBack empty
    cases hpb : UndoHistory.popBack c empty h' with
    | ok h₁ => rw [hpb] at hp; exact hp.of_eq (hg h₁).1 (hg h₁).2
    | thrown h₁ => rw [hpb] at hp; exact hp
  cases i with
  | start force => exact hs.startUndoSession hc empty force hi
  | record f =>
    simp only [UndoHistory.call, record]
    split
    · exact hs
    · split
      · exact hs
      · exact hs.of_eq rfl rfl
  | commit =>
    simp only [UndoHistory.call, commit]
    split
    · exact hs
    · split
      · exact hs.of_eq rfl rfl
      · exact hs
  | undo =>
    simp only [UndoHistory.call, undo]
    split
    · exact hpop _ _ (hs.of_eq rfl rfl) fun _ => ⟨rfl, rfl⟩
    · exact hs
  | merge =>
    simp only [UndoHistory.call, merge]
    split
    · split
      · exact hpop _ _ (hs.of_eq rfl rfl) fun _ => ⟨rfl, rfl⟩
      · exact hs
    · exact hs
  | popCommit =>
    simp only [UndoHistory.call, popCommit]
    split
    · have hoff : Sound c { h with disabled := true } := hs.of_eq rfl rfl
      have hp := hoff.popBack empty
      cases hpb : UndoHistory.popBack c empty { h with disabled := true } with
      | ok | thrown => rw [hpb] at hp; exact hp.of_eq rfl rfl
    · exact hs
  | setMaxSize n => exact hs.of_eq rfl rfl

/-- **Spilled states are independent.** In every run of calls in which no start spills
    a state that equals one spilled already, every position of the stack can be read
    back as it was written. -/
theorem readable_of_reachable (c : ContentHash St Id) (hc : c.CollisionFree) (empty : St)
    (combine : St → St → St) (maxSize : Nat) (h : UndoHistory St Id)
    (hr : ReachableUnder (· = fresh maxSize) (SpillsDistinct c empty)
      (fun h i => (h.call c empty combine i).state) h) : Readable c h := by
  refine (hr.invariant (Sound c) ?_ ?_).2
  · rintro h rfl
    exact ⟨nodup_nil, fun id hid => by cases hid⟩
  · intro h i hs hi
    exact hs.call hc empty combine i hi

/-! ### Runs of numbered states

States are numbers with `0` as the empty one, and a number is stored under its
successor. -/

def numbered : ContentHash Nat Nat := ⟨Nat.succ, 0, id, fun _ => rfl⟩

theorem numbered_collisionFree : numbered.CollisionFree :=
  ⟨fun _ _ h => Nat.succ.inj h, fun s => Nat.succ_ne_zero s⟩

def runCalls (h : UndoHistory Nat Nat) (calls : List (HistoryCall Nat)) : UndoHistory Nat Nat :=
  calls.foldl (fun h i => (h.call numbered 0 (· + ·) i).state) h

/-- A session that leaves state `n` and is committed. -/
def session (n : Nat) : List (HistoryCall Nat) := [.start false, .record fun _ => n, .commit]

/-- `n` committed sessions with the states `1` to `n`. -/
def sessions (n : Nat) : List (HistoryCall Nat) := (List.range n).flatMap fun i => session (i + 1)

/-- The thirtieth start has spilled eleven states, and they are all there. -/
theorem readable_after_thirty_sessions :
    (runCalls (fresh 1440) (sessions 30)).stack.length = 11 ∧
      Readable numbered (runCalls (fresh 1440) (sessions 30)) := by
  refine ⟨by decide +kernel, ?_⟩
  refine readable_of_reachable numbered numbered_collisionFree 0 (· + ·) 1440 _ ?_
  exact ReachableUnder.of_checkRun (.start rfl) (by decide +kernel)

/-- Thirty sessions without changes, all committed.  The last start spills eleven equal
    states under one key; all positions are readable until the fourteenth `pop_commit`
    reloads the newest of them.  That deletes the key, the next reload throws, and none
    of the ten positions left can be read. -/
theorem equal_states_share_one_key :
    let h := runCalls (fresh 1440) ((List.replicate 30 (session 0)).flatten ++
      List.replicate 13 .popCommit)
    (h.stack.length = 11 ∧ ∀ id ∈ h.stack, h.storage id = some 0) ∧
      (h.popCommit numbered 0).returned = false ∧
      (h.popCommit numbered 0).state.stack.length = 10 ∧
      ∀ id ∈ (h.popCommit numbered 0).state.stack,
        (h.popCommit numbered 0).state.storage id = none := by
  decide +kernel

end UndoHistory

end HyperExchange.Db
