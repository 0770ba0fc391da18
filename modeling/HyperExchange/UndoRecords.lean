/-
  **What one undo session records** (`libraries/db/undo_database.cpp`).

  The index classes call `on_create` after an object came into being and `on_modify`,
  `on_remove` before an object changes or goes; `merge()` folds the newest state into the
  one below it; `undo()` and `pop_commit()` play a state back.  The comment in `merge()`
  classifies an object's relationship to a state as `new`, `upd(was=X)`, `del(was=X)` or
  `nop`, with a table for merging.  Here these are `Entry` and `Entry.merge`.

  `Records s d₀ d` is the meaning of a state: for every object its entry relates the value at
  the start of the session to the present one.  It says nothing about the present value of a
  `new` or `upd` object, which a refused modify may have thrown out of its index.
-/
import Std.Data.ExtTreeSet.Lemmas
import HyperExchange.ObjectDatabase

namespace HyperExchange.Db

open Std Execution OrderedFold Option ExtTreeMap ObjectDatabase

section

/-- `undo_state` -/
structure UndoState (α : Type) where
  oldValues : ExtTreeMap ObjectId α
  /-- by index, the instance number its next id had -/
  oldIndexNextIds : ExtTreeMap Nat Nat
  newIds : ExtTreeSet ObjectId
  removed : ExtTreeMap ObjectId α

variable {α κ : Type} [DecidableEq κ]

namespace UndoState

/-- `undo_state()` -/
def empty : UndoState α := ⟨∅, ∅, ∅, ∅⟩

/-- `undo_database::on_create`, on the newest state. -/
def onCreate (s : UndoState α) (id : ObjectId) : UndoState α :=
  { s with
    oldIndexNextIds := s.oldIndexNextIds.insertIfNew id.spaceType id.inst
    newIds := s.newIds.insert id }

/-- `undo_database::on_modify`; `v` is the value before the change. -/
def onModify (s : UndoState α) (id : ObjectId) (v : α) : UndoState α :=
  if s.newIds.contains id then s
  else if s.oldValues.contains id then s
  else { s with oldValues := s.oldValues.insert id v }

/-- `undo_database::on_remove`; `v` is the value the object had. -/
def onRemove (s : UndoState α) (id : ObjectId) (v : α) : UndoState α :=
  if s.newIds.contains id then { s with newIds := s.newIds.erase id }
  else match s.oldValues[id]? with
    | some x => { s with removed := s.removed.insert id x, oldValues := s.oldValues.erase id }
    | none => if s.removed.contains id then s else { s with removed := s.removed.insert id v }

/-! ### `merge()`: the four loops over the newest state -/

/-- `*+upd` -/
def mergeOldValue (prev : UndoState α) (p : ObjectId × α) : UndoState α :=
  if prev.newIds.contains p.1 then prev
  else if prev.oldValues.contains p.1 then prev
  else { prev with oldValues := prev.oldValues.insert p.1 p.2 }

/-- `*+new` -/
def mergeNewIds (prev state : UndoState α) : UndoState α :=
  { prev with newIds := prev.newIds ∪ state.newIds }

def mergeNextId (prev : UndoState α) (p : Nat × Nat) : UndoState α :=
  { prev with oldIndexNextIds := prev.oldIndexNextIds.insertIfNew p.1 p.2 }

/-- `*+del` -/
def mergeRemoved (prev : UndoState α) (p : ObjectId × α) : UndoState α :=
  if prev.newIds.contains p.1 then { prev with newIds := prev.newIds.erase p.1 }
  else match prev.oldValues[p.1]? with
    | some x =>
      { prev with removed := prev.removed.insert p.1 x, oldValues := prev.oldValues.erase p.1 }
    | none => { prev with removed := prev.removed.insert p.1 p.2 }

/-- The state `merge()` leaves in the place of `prev_state` when `state` is the one
    above it. -/
def merge (prev state : UndoState α) : UndoState α :=
  let prev := state.oldValues.toList.foldl mergeOldValue prev
  let prev := prev.mergeNewIds state
  let prev := state.oldIndexNextIds.toList.foldl mergeNextId prev
  state.removed.toList.foldl mergeRemoved prev

/-- The body that `undo()` and `pop_commit()` share: put the old values back, remove
    what was created, reset the next ids, insert what was removed. -/
def replay (sch : Schema α κ) (s : UndoState α) (d : ObjectDatabase α) :
    Exec (ObjectDatabase α) :=
  (Exec.forEach (fun d p => d.modify sch p.1 fun _ => p.2) s.oldValues.toList d).andThen fun d =>
  (Exec.forEach (fun d id => d.remove sch id) s.newIds.toList d).andThen fun d =>
  Exec.forEach (fun d p => d.insert sch p.1 p.2) s.removed.toList
    (s.oldIndexNextIds.toList.foldl (fun d p => d.setNextId p.1 p.2) d)

end UndoState

/-! ### The recording calls of a primary index -/

/-- A database together with the undo state that changes to it are recorded in. -/
structure Tracked (α : Type) where
  db : ObjectDatabase α
  state : UndoState α

namespace Tracked

/-- `primary_index::create` -/
def create (sch : Schema α κ) (t : Tracked α) (idx : Nat) (v : α) : Exec (Tracked α) :=
  match t.db.create sch idx v with
  | .ok d => .ok ⟨d, t.state.onCreate (t.db.newId idx)⟩
  | .thrown d => .thrown ⟨d, t.state⟩

/-- `primary_index::modify`: the old value is saved before the index is asked to
    modify, so a refused modify has been recorded. -/
def modify (sch : Schema α κ) (t : Tracked α) (id : ObjectId) (f : α → α) : Exec (Tracked α) :=
  match t.db.find id with
  | none => .thrown t
  | some v => (t.db.modify sch id f).map fun d => ⟨d, t.state.onModify id v⟩

/-- `primary_index::remove` -/
def remove (sch : Schema α κ) (t : Tracked α) (id : ObjectId) : Exec (Tracked α) :=
  match t.db.find id with
  | none => .thrown t
  | some v => (t.db.remove sch id).map fun d => ⟨d, t.state.onRemove id v⟩

end Tracked

end

variable {α κ : Type} [DecidableEq κ]

/-- In `new_ids`, in `old_values` with its value, in `removed` with its value. -/
abbrev Cells (α : Type) := Bool × Option α × Option α

inductive Entry (α : Type) where
  | nop
  | new
  | upd (was : α)
  | del (was : α)

def Entry.cells : Entry α → Cells α
  | .nop => (false, none, none)
  | .new => (true, none, none)
  | .upd x => (false, some x, none)
  | .del x => (false, none, some x)

/-- What an entry says about the value of its object at the start of the session and
    now. -/
def Entry.Relates : Entry α → Option α → Option α → Prop
  | .nop, v₀, v => v₀ = v
  | .new, v₀, _ => v₀ = none
  | .upd x, v₀, _ => v₀ = some x
  | .del x, v₀, v => v₀ = some x ∧ v = none

/-- The table of `merge()`; rows and columns as in the source, `N/A` cases arbitrary. -/
def Entry.merge : Entry α → Entry α → Entry α
  | .new, .del _ => .nop
  | .new, _ => .new
  | .upd x, .del _ => .del x
  | .upd x, _ => .upd x
  | .del x, _ => .del x
  | .nop, b => b

namespace UndoState

variable (s : UndoState α)

def cells (id : ObjectId) : Cells α :=
  (s.newIds.contains id, s.oldValues[id]?, s.removed[id]?)

/-! ### The containers after each recording call -/

def createCells (c : Cells α) : Cells α := (true, c.2)

def modifyCells (v : α) : Cells α → Cells α
  | (true, c) => (true, c)
  | (false, some x, r) => (false, some x, r)
  | (false, none, r) => (false, some v, r)

def removeCells (v : α) : Cells α → Cells α
  | (true, c) => (false, c)
  | (false, some x, _) => (false, none, some x)
  | (false, none, some y) => (false, none, some y)
  | (false, none, none) => (false, none, some v)

def mergeRemovedCells (v : α) : Cells α → Cells α
  | (true, c) => (false, c)
  | (false, some x, _) => (false, none, some x)
  | (false, none, _) => (false, none, some v)

variable (id : ObjectId)

theorem cells_empty : (empty : UndoState α).cells id = (Entry.nop).cells := by
  simp [cells, empty, Entry.cells]

theorem cells_onCreate (id k : ObjectId) :
    (s.onCreate id).cells k = if k = id then createCells (s.cells k) else s.cells k := by
  by_cases hk : k = id
  · subst hk
    simp [cells, onCreate, createCells, ExtTreeSet.contains_insert]
  · simp [cells, onCreate, hk, Ne.symm hk, ExtTreeSet.contains_insert]

theorem cells_onModify (id k : ObjectId) (v : α) :
    (s.onModify id v).cells k = if k = id then modifyCells v (s.cells k) else s.cells k := by
  by_cases hk : k = id
  · subst hk
    rw [if_pos rfl]
    cases hn : s.newIds.contains k with
    | true => simp [onModify, cells, hn, modifyCells]
    | false =>
      cases ho : s.oldValues[k]? with
      | some | none => simp [onModify, cells, hn, contains_eq_isSome_getElem?, ho, modifyCells]
  · rw [if_neg hk, onModify]
    split
    · rfl
    · split
      · rfl
      · simp [cells, getElem?_insert, Ne.symm hk]

theorem cells_onRemove (id k : ObjectId) (v : α) :
    (s.onRemove id v).cells k = if k = id then removeCells v (s.cells k) else s.cells k := by
  by_cases hk : k = id
  · subst hk
    rw [if_pos rfl]
    cases hn : s.newIds.contains k with
    | true => simp [onRemove, cells, hn, removeCells, ExtTreeSet.contains_erase]
    | false =>
      cases ho : s.oldValues[k]? with
      | some x => simp [onRemove, cells, hn, ho, removeCells]
      | none =>
        cases hr : s.removed[k]? with
        | some y => simp [onRemove, cells, hn, ho, contains_eq_isSome_getElem?, hr, removeCells]
        | none => simp [onRemove, cells, hn, ho, contains_eq_isSome_getElem?, hr, removeCells]
  · rw [if_neg hk, onRemove]
    split
    · simp [cells, Ne.symm hk, ExtTreeSet.contains_erase]
    split
    · simp [cells, getElem?_insert, getElem?_erase, Ne.symm hk]
    · split
      · rfl
      · simp [cells, getElem?_insert, Ne.symm hk]

/-! ### The containers after `merge()` -/

def mergeCells (c e : Cells α) : Cells α :=
  let c := e.2.1.elim c fun v => modifyCells v c
  let c := (c.1 || e.1, c.2)
  e.2.2.elim c fun v => mergeRemovedCells v c

theorem cells_mergeRemoved (id k : ObjectId) (v : α) : (s.mergeRemoved (id, v)).cells k =
      if k = id then mergeRemovedCells v (s.cells k) else s.cells k := by
  by_cases hk : k = id
  · subst hk
    rw [if_pos rfl]
    cases hn : s.newIds.contains k with
    | true => simp [mergeRemoved, cells, hn, mergeRemovedCells, ExtTreeSet.contains_erase]
    | false =>
      cases ho : s.oldValues[k]? with
      | some | none => simp [mergeRemoved, cells, hn, ho, mergeRemovedCells]
  · rw [if_neg hk, mergeRemoved]
    split
    · simp [cells, Ne.symm hk, ExtTreeSet.contains_erase]
    · split
      · simp [cells, getElem?_insert, getElem?_erase, Ne.symm hk]
      · simp [cells, getElem?_insert, Ne.symm hk]

theorem cells_foldl_mergeNextId (l : List (Nat × Nat)) (s : UndoState α) (id : ObjectId) :
    (l.foldl mergeNextId s).cells id = s.cells id := by
  induction l generalizing s with
  | nil => rfl
  | cons p l ih => rw [List.foldl_cons, ih]; rfl

theorem cells_merge (prev state : UndoState α) (id : ObjectId) :
    (prev.merge state).cells id = mergeCells (prev.cells id) (state.cells id) := by
  have hupd : (state.oldValues.toList.foldl mergeOldValue prev).cells id =
      state.oldValues[id]?.elim (prev.cells id) fun v => modifyCells v (prev.cells id) := by
    refine slice_foldl_toList cells (fun _ v c => modifyCells v c) ?_ ?_ _ _ _
    · intro s k v
      exact (cells_onModify s k k v).trans (if_pos rfl)
    · intro s k v k' hne
      exact (cells_onModify s k k' v).trans (if_neg hne)
  have hnew : ∀ s : UndoState α, (s.mergeNewIds state).cells id =
      ((s.cells id).1 || (state.cells id).1, (s.cells id).2) := by
    intro s
    simp [mergeNewIds, cells, ExtTreeSet.contains_union]
  have hdel : ∀ s : UndoState α, (state.removed.toList.foldl mergeRemoved s).cells id =
      state.removed[id]?.elim (s.cells id) fun v => mergeRemovedCells v (s.cells id) := by
    intro s
    refine slice_foldl_toList cells (fun _ v c => mergeRemovedCells v c) ?_ ?_ _ _ _
    · intro s k v
      rw [cells_mergeRemoved, if_pos rfl]
    · intro s k v k' hne
      rw [cells_mergeRemoved, if_neg hne]
  simp only [merge, hdel, cells_foldl_mergeNextId, hnew, hupd]
  rfl

theorem nextIds_foldl_of_frame {f : UndoState α → ObjectId × α → UndoState α}
    (hf : ∀ s p, (f s p).oldIndexNextIds = s.oldIndexNextIds) (l : List (ObjectId × α))
    (s : UndoState α) : (l.foldl f s).oldIndexNextIds = s.oldIndexNextIds := by
  induction l generalizing s with
  | nil => rfl
  | cons p l ih => rw [List.foldl_cons, ih, hf]

theorem nextIds_onModify (v : α) : (s.onModify id v).oldIndexNextIds = s.oldIndexNextIds := by
  unfold onModify
  repeat' split
  all_goals rfl

theorem nextIds_onRemove (v : α) : (s.onRemove id v).oldIndexNextIds = s.oldIndexNextIds := by
  unfold onRemove
  repeat' split
  all_goals rfl

theorem nextIds_mergeRemoved (p : ObjectId × α) :
    (s.mergeRemoved p).oldIndexNextIds = s.oldIndexNextIds := by
  unfold mergeRemoved
  repeat' split
  all_goals rfl

/-- The older state's next id wins: `upd(was=X)+upd(was=Y) -> upd(was=X)`. -/
theorem nextIds_merge (prev state : UndoState α) (idx : Nat) :
    (prev.merge state).oldIndexNextIds[idx]? =
      prev.oldIndexNextIds[idx]?.or state.oldIndexNextIds[idx]? := by
  have hloop : ∀ s : UndoState α,
      (state.oldIndexNextIds.toList.foldl mergeNextId s).oldIndexNextIds[idx]? =
        state.oldIndexNextIds[idx]?.elim s.oldIndexNextIds[idx]?
          fun n => s.oldIndexNextIds[idx]?.or (some n) := by
    intro s
    refine slice_foldl_toList (fun (s : UndoState α) (idx : Nat) => s.oldIndexNextIds[idx]?)
      (fun _ n c => c.or (some n)) ?_ ?_ state.oldIndexNextIds s idx
    · intro s k n
      cases hk : s.oldIndexNextIds[k]? with
      | some m =>
        have hmem : k ∈ s.oldIndexNextIds := by
          rw [mem_iff_isSome_getElem?, hk]; rfl
        simp only [mergeNextId, getElem?_insertIfNew, hmem, hk]
        simp
      | none =>
        have hmem : k ∉ s.oldIndexNextIds := by
          rw [mem_iff_isSome_getElem?, hk]; simp
        simp only [mergeNextId, getElem?_insertIfNew, hmem]
        simp
    · intro s k n k' hne
      simp [mergeNextId, getElem?_insertIfNew, Ne.symm hne]
  have hupd : (state.oldValues.toList.foldl mergeOldValue prev).oldIndexNextIds =
      prev.oldIndexNextIds :=
    nextIds_foldl_of_frame (fun s p => nextIds_onModify s p.1 p.2) _ _
  simp only [merge, nextIds_foldl_of_frame nextIds_mergeRemoved, hloop, mergeNewIds, hupd]
  cases state.oldIndexNextIds[idx]? with
  | some n => rfl
  | none => simp

end UndoState

/-! ### What a state records -/

/-- The state `s` leads from the database `d` back to `d₀`. -/
structure Records (s : UndoState α) (d₀ d : ObjectDatabase α) : Prop where
  entries : ∀ id, ∃ e : Entry α, s.cells id = e.cells ∧ e.Relates (d₀.find id) (d.find id)
  created : ∀ id, s.newIds.contains id = true →
    d₀.nextId id.spaceType ≤ id.inst ∧ id.inst < d.nextId id.spaceType
  nextIds : ∀ idx, d₀.nextId idx = s.oldIndexNextIds[idx]?.getD (d.nextId idx)
  mono : ∀ idx, d₀.nextId idx ≤ d.nextId idx

namespace Records

variable {s : UndoState α} {d₀ d : ObjectDatabase α} {sch : Schema α κ} {id : ObjectId}
  {a b : Entry α}

theorem start (d : ObjectDatabase α) : Records UndoState.empty d d where
  entries id := ⟨.nop, UndoState.cells_empty id, rfl⟩
  created id h := by simp [UndoState.empty] at h
  nextIds idx := by simp [UndoState.empty]
  mono idx := Nat.le_refl _

section

variable (h : Records s d₀ d)
include h

/-- One object changes: its new entry relates its start value to its new value, and
    the next ids stay. -/
theorem change {s' : UndoState α} {d' : ObjectDatabase α}
    {f : Cells α → Cells α} {b : Entry α}
    (hcells : ∀ k, s'.cells k = if k = id then f (s.cells k) else s.cells k)
    (hentry : f (s.cells id) = b.cells) (hfind : ∀ k, k ≠ id → d'.find k = d.find k)
    (hrel : b.Relates (d₀.find id) (d'.find id))
    (hnew : b.cells.1 = true → s.newIds.contains id = true)
    (hids : s'.oldIndexNextIds = s.oldIndexNextIds) (hnext : d'.nextId = d.nextId) :
    Records s' d₀ d' where
  entries k := by
    by_cases hk : k = id
    · subst hk
      exact ⟨b, by rw [hcells, if_pos rfl, hentry], hrel⟩
    · rw [hcells, if_neg hk, hfind k hk]
      exact h.entries k
  created k hk := by
    rw [hnext]
    apply h.created
    have hcell : (s'.cells k).1 = true := hk
    rw [hcells] at hcell
    by_cases hki : k = id
    · subst hki
      rw [if_pos rfl, hentry] at hcell
      exact hnew hcell
    · rw [if_neg hki] at hcell
      exact hcell
  nextIds idx := by rw [hids, hnext]; exact h.nextIds idx
  mono idx := by rw [hnext]; exact h.mono idx

/-- `on_create` for the object a successful create added. -/
theorem create (hwf : d₀.WellFormed) (idx : Nat) (v : α) : Records (s.onCreate (d.newId idx)) d₀
    ((d.put (d.newId idx) v).setNextId idx (d.nextId idx + 1)) where
  entries k := by
    by_cases hk : k = d.newId idx
    · subst hk
      -- the id is past everything `d₀` held and everything created since
      have hnone : d₀.find (d.newId idx) = none := by
        cases hf : d₀.find (d.newId idx) with
        | none => rfl
        | some w =>
          have hlt : d.nextId idx < d₀.nextId idx := hwf _ _ hf
          have hle := h.mono idx
          omega
      obtain ⟨e, hcells, hrel⟩ := h.entries (d.newId idx)
      rw [hnone] at hrel
      cases e with
      | nop =>
        refine ⟨.new, ?_, hnone⟩
        rw [UndoState.cells_onCreate, if_pos rfl, hcells]
        rfl
      | new =>
        have hlt : d.nextId idx < d.nextId idx := (h.created _ (congrArg Prod.fst hcells)).2
        omega
      | upd x => cases hrel
      | del x => cases hrel.1
    · obtain ⟨e, hcells, hrel⟩ := h.entries k
      refine ⟨e, ?_, ?_⟩
      · rw [UndoState.cells_onCreate, if_neg hk, hcells]
      · simpa [hk] using hrel
  created k hk := by
    simp only [UndoState.onCreate, ExtTreeSet.contains_insert, Bool.or_eq_true, beq_iff_eq,
      Std.compare_eq_iff_eq] at hk
    simp only [nextId_setNextId, nextId_put, Function.update_apply]
    rcases hk with rfl | hk
    · have hle := h.mono idx
      simp only [newId, if_pos]
      omega
    · have hr := h.created k hk
      split
      · next heq => rw [heq] at hr ⊢; omega
      · exact hr
  nextIds i := by
    simp only [UndoState.onCreate, newId, getElem?_insertIfNew,
      Std.compare_eq_iff_eq, nextId_setNextId, nextId_put,
      Function.update_apply]
    have hi := h.nextIds i
    by_cases hidx : idx = i
    · subst hidx
      by_cases hmem : idx ∈ s.oldIndexNextIds
      · obtain ⟨n, hn⟩ := isSome_iff_exists.mp
          (mem_iff_isSome_getElem?.mp hmem)
        simpa [hmem] using hi
      · have hn : s.oldIndexNextIds[idx]? = none := by
          rwa [mem_iff_isSome_getElem?, not_isSome_iff_eq_none] at hmem
        simpa [hmem] using hi
    · have hne : ¬ i = idx := fun e => hidx e.symm
      simpa [hidx, hne] using hi
  mono i := by
    have hle := h.mono i
    simp only [nextId_setNextId, nextId_put, Function.update_apply]
    split
    · next heq => subst heq; omega
    · exact hle

/-- `on_modify` for an object that is then changed, or thrown out by a refused modify. -/
theorem modify {v : α} (hv : d.find id = some v) {d' : ObjectDatabase α}
    (hfind : ∀ k, k ≠ id → d'.find k = d.find k) (hnext : d'.nextId = d.nextId) : Records
    (s.onModify id v) d₀ d' := by
  obtain ⟨e, hcells, hrel⟩ := h.entries id
  have hmod := fun k => UndoState.cells_onModify s id k v
  have hids := UndoState.nextIds_onModify s id v
  cases e with
  | nop =>
    refine h.change (b := .upd v) hmod (by rw [hcells]; rfl) hfind ?_ (by nofun) hids hnext
    exact hrel.trans hv
  | new =>
    refine h.change (b := .new) hmod (by rw [hcells]; rfl) hfind hrel ?_ hids hnext
    intro _
    exact congrArg Prod.fst hcells
  | upd x =>
    exact h.change (b := .upd x) hmod (by rw [hcells]; rfl) hfind hrel (by nofun) hids hnext
  | del x =>
    -- a removed object is not there to be modified
    rw [hrel.2] at hv
    cases hv

/-- `on_remove` for an object that is then removed. -/
theorem remove {v : α} (hv : d.find id = some v) : Records (s.onRemove id v) d₀ (d.drop id) := by
  obtain ⟨e, hcells, hrel⟩ := h.entries id
  have hrem := fun k => UndoState.cells_onRemove s id k v
  have hfind : ∀ k, k ≠ id → (d.drop id).find k = d.find k := by
    intro k hk; simp [hk]
  have hgone : (d.drop id).find id = none := by simp
  have hids := UndoState.nextIds_onRemove s id v
  cases e with
  | nop =>
    exact h.change (b := .del v) hrem (by rw [hcells]; rfl) hfind ⟨hrel.trans hv, hgone⟩ (by nofun)
      hids rfl
  | new =>
    -- created and removed within the session: nothing happened
    exact h.change (b := .nop) hrem (by rw [hcells]; rfl) hfind (hrel.trans hgone.symm) (by nofun)
      hids rfl
  | upd x =>
    exact h.change (b := .del x) hrem (by rw [hcells]; rfl) hfind ⟨hrel, hgone⟩ (by nofun) hids rfl
  | del x =>
    rw [hrel.2] at hv
    cases hv

end

/-! ### Merging -/

/-- The cells of the table that are not `N/A`. -/
def Causal : Entry α → Entry α → Prop
  | .nop, _ => True
  | .new, .new => False
  | .new, _ => True
  | .upd _, .new => False
  | .upd _, _ => True
  | .del _, .nop => True
  | .del _, _ => False

/-- On entries that can follow each other, merging cells is merging entries. -/
theorem mergeCells_of_causal (h : Causal a b) :
    UndoState.mergeCells a.cells b.cells = (a.merge b).cells := by
  cases a <;> cases b <;> first | rfl | exact absurd h id

/-- The merged entry leads back over both changes. -/
theorem relates_merge {v₀ v₁ v₂ : Option α} (h : Causal a b) (ha : a.Relates v₀ v₁)
    (hb : b.Relates v₁ v₂) : (a.merge b).Relates v₀ v₂ := by
  cases a with
  | nop =>
    have hv : v₀ = v₁ := ha
    subst hv
    exact hb
  | new =>
    cases b with
    | nop | upd => exact ha
    | new => exact absurd h id
    | del y =>
      -- new + del -> nop: absent before, absent now
      exact Eq.trans ha hb.2.symm
  | upd x =>
    cases b with
    | nop | upd => exact ha
    | new => exact absurd h id
    | del y => exact ⟨ha, hb.2⟩
  | del x =>
    cases b with
    | nop => exact ⟨ha.1, hb.symm.trans ha.2⟩
    | new | upd | del => exact absurd h id

variable {t : UndoState α} {d₁ d₂ : ObjectDatabase α}

/-- Ids are handed out once: what `d₀` held or `s` created, `t` cannot create again. -/
theorem causal (hs : Records s d₀ d₁) (ht : Records t d₁ d₂) (hwf : d₀.WellFormed)
    (ha : s.cells id = a.cells) (hb : t.cells id = b.cells)
    (hra : a.Relates (d₀.find id) (d₁.find id)) (hrb : b.Relates (d₁.find id) (d₂.find id)) :
    Causal a b := by
  have hold : ∀ x, d₀.find id = some x → b ≠ .new := by
    intro x hx hnew
    subst hnew
    have hlt := hwf id x hx
    have hle := hs.mono id.spaceType
    have hge := (ht.created id (congrArg Prod.fst hb)).1
    omega
  cases a with
  | nop => trivial
  | new =>
    cases b with
    | new =>
      have hlt := (hs.created id (congrArg Prod.fst ha)).2
      have hge := (ht.created id (congrArg Prod.fst hb)).1
      omega
    | nop | upd | del => trivial
  | upd x =>
    cases b with
    | new => exact absurd rfl (hold x hra)
    | nop | upd | del => trivial
  | del x =>
    have hgone : d₁.find id = none := hra.2
    rw [hgone] at hrb
    cases b with
    | new => exact absurd rfl (hold x hra.1)
    | nop => trivial
    | upd y => cases hrb
    | del y => cases hrb.1

/-- **Merge composes.** If `s` leads from `d₁` back to `d₀` and `t` from `d₂` back to
    `d₁`, the merged state leads from `d₂` back to `d₀`. -/
theorem merge (hs : Records s d₀ d₁) (ht : Records t d₁ d₂) (hwf : d₀.WellFormed) :
    Records (s.merge t) d₀ d₂ where
  entries id := by
    obtain ⟨a, ha, hra⟩ := hs.entries id
    obtain ⟨b, hb, hrb⟩ := ht.entries id
    have hc := causal hs ht hwf ha hb hra hrb
    refine ⟨a.merge b, ?_, relates_merge hc hra hrb⟩
    rw [UndoState.cells_merge, ha, hb, mergeCells_of_causal hc]
  created id hid := by
    obtain ⟨a, ha, hra⟩ := hs.entries id
    obtain ⟨b, hb, hrb⟩ := ht.entries id
    have hc := causal hs ht hwf ha hb hra hrb
    have hcell : ((s.merge t).cells id).1 = true := hid
    rw [UndoState.cells_merge, ha, hb, mergeCells_of_causal hc] at hcell
    have hmono₁ := hs.mono id.spaceType
    have hmono₂ := ht.mono id.spaceType
    have hcases : a.cells.1 = true ∨ b.cells.1 = true := by
      cases a <;> cases b <;> simp_all [Entry.merge, Entry.cells]
    rcases hcases with hnew | hnew
    · have hr := hs.created id (by rw [← ha] at hnew; exact hnew)
      omega
    · have hr := ht.created id (by rw [← hb] at hnew; exact hnew)
      omega
  nextIds idx := by
    rw [UndoState.nextIds_merge]
    have h₁ := hs.nextIds idx
    have h₂ := ht.nextIds idx
    cases hn : s.oldIndexNextIds[idx]? with
    | some n => rw [hn] at h₁; simpa using h₁
    | none =>
      rw [hn] at h₁
      simp only [getD_none] at h₁
      rw [h₁, h₂, none_or]
  mono idx := Nat.le_trans (hs.mono idx) (ht.mono idx)

end Records

end HyperExchange.Db
