/-
  **The object database** (`libraries/db`: `object_id.hpp`, `generic_index.hpp`,
  `simple_index.hpp`, `flat_index.hpp`, `object_database.cpp`).

  Every object lives in one index, named by the space and type of its id, and has an
  instance number there, handed out in sequence.  A `generic_index` is unique by id and
  possibly by secondary keys: an insert that violates a key is refused, a modify that
  violates one *erases the element* and then throws.  A `simple_index` and a `flat_index`
  are keyed by id only; the `remove` of the latter leaves a default object in the slot.
-/
import HyperExchange.Execution
import HyperExchange.OrderedFold

namespace HyperExchange.Db

open Std Execution ExtTreeMap

/-- `object_id_type`: the index (`space_type()`) and the instance in it.  Ids are
    ordered by index first, as the packed 64-bit number of the source is. -/
structure ObjectId where
  spaceType : Nat
  inst : Nat
deriving DecidableEq, Repr

instance : Ord ObjectId := ⟨compareLex (compareOn ObjectId.spaceType) (compareOn ObjectId.inst)⟩

instance : TransOrd ObjectId :=
  inferInstanceAs (TransCmp (compareLex (compareOn ObjectId.spaceType) (compareOn ObjectId.inst)))

instance : LawfulEqOrd ObjectId where
  eq_of_compare := by
    rintro ⟨s, i⟩ ⟨s', i'⟩ h
    simp only [compare, compareLex, Ordering.then_eq_eq, compareOn] at h
    have hs : s = s' := Nat.compare_eq_eq.mp h.1
    have hi : i = i' := Nat.compare_eq_eq.mp h.2
    rw [hs, hi]

/-- The three index classes. -/
inductive IndexKind where
  | generic
  | simple
  | flat
deriving DecidableEq, Repr

/-- What is fixed about the indexes of a database: the class of each, the unique
    secondary keys of the generic ones, and the default constructed object. -/
structure Schema (α κ : Type) where
  kind : Nat → IndexKind
  uniqueKeys : Nat → List (α → κ)
  blank : α

/-- The objects by id, and for every index the instance number of its next id. -/
structure ObjectDatabase (α : Type) where
  objects : ExtTreeMap ObjectId α
  nextId : Nat → Nat

variable {α κ : Type} [DecidableEq κ] (sch : Schema α κ)

/-- Two objects of index `idx` share a unique secondary key; only generic indexes
    have such keys. -/
def Schema.clash (idx : Nat) (v w : α) : Bool :=
  sch.kind idx = .generic && (sch.uniqueKeys idx).any fun key => key v = key w

theorem Schema.clash_comm (idx : Nat) (v w : α) : sch.clash idx v w = sch.clash idx w v := by
  simp only [Schema.clash, eq_comm]

def Schema.NoFlat : Prop := ∀ idx, sch.kind idx ≠ .flat

namespace ObjectDatabase

variable (d : ObjectDatabase α)

/-- `find_object` -/
def find (id : ObjectId) : Option α := d.objects[id]?

def put (id : ObjectId) (v : α) : ObjectDatabase α :=
  { d with objects := d.objects.insert id v }

def drop (id : ObjectId) : ObjectDatabase α :=
  { d with objects := d.objects.erase id }

/-- `set_next_id` -/
def setNextId (idx n : Nat) : ObjectDatabase α :=
  { d with nextId := Function.update d.nextId idx n }

/-- The value `v`, stored under `id`, violates a unique key against another object
    of the index. -/
def collides (id : ObjectId) (v : α) : Bool :=
  d.objects.toList.any fun p =>
    p.1.spaceType = id.spaceType && p.1 ≠ id && sch.clash id.spaceType v p.2

/-- `_objects.resize( instance + 1 )` of a flat index: missing slots below the
    instance come into being default constructed. -/
def resize (id : ObjectId) : ObjectDatabase α :=
  (List.range id.inst).foldl (fun d i =>
    if (d.find ⟨id.spaceType, i⟩).isNone then d.put ⟨id.spaceType, i⟩ sch.blank else d) d

/-- `index::insert` -/
def insert (id : ObjectId) (v : α) : Exec (ObjectDatabase α) :=
  match sch.kind id.spaceType with
  | .generic =>
    if (d.find id).isSome || d.collides sch id v then .thrown d else .ok (d.put id v)
  | .simple => .ok (d.put id v)
  | .flat => .ok ((d.resize sch id).put id v)

/-- The id `index::create` gives to the next object of index `idx`. -/
def newId (idx : Nat) : ObjectId := ⟨idx, d.nextId idx⟩

/-- `index::create`; `v` is the object the constructor callback leaves. -/
def create (idx : Nat) (v : α) : Exec (ObjectDatabase α) :=
  (d.insert sch (d.newId idx) v).andThen fun d' => .ok (d'.setNextId idx (d.nextId idx + 1))

/-- `index::modify` on the object `get_object( id )` returns. -/
def modify (id : ObjectId) (f : α → α) : Exec (ObjectDatabase α) :=
  match d.find id with
  | none => .thrown d
  | some v =>
    match sch.kind id.spaceType with
    -- a refused modify has already taken the element out of the container
    | .generic => if d.collides sch id (f v) then .thrown (d.drop id) else .ok (d.put id (f v))
    | .simple => .ok (d.put id (f v))
    | .flat => .ok (d.put id (f v))

/-- `index::remove` on the object `get_object( id )` returns. -/
def remove (id : ObjectId) : Exec (ObjectDatabase α) :=
  match d.find id with
  | none => .thrown d
  | some _ =>
    match sch.kind id.spaceType with
    | .generic => .ok (d.drop id)
    | .simple => .ok (d.drop id)
    | .flat => .ok (d.put id sch.blank)

/-! ### Lookups after the elementary updates -/

@[simp] theorem find_put (id k : ObjectId) (v : α) :
    (d.put id v).find k = if k = id then some v else d.find k := by
  simp only [find, put, getElem?_insert, Std.compare_eq_iff_eq, eq_comm (a := id)]

@[simp] theorem find_drop (id k : ObjectId) :
    (d.drop id).find k = if k = id then none else d.find k := by
  simp only [find, drop, getElem?_erase, Std.compare_eq_iff_eq, eq_comm (a := id)]

@[simp] theorem find_setNextId (idx n : Nat) (k : ObjectId) :
    (d.setNextId idx n).find k = d.find k := rfl

@[simp] theorem nextId_put (id : ObjectId) (v : α) : (d.put id v).nextId = d.nextId := rfl

@[simp] theorem nextId_drop (id : ObjectId) : (d.drop id).nextId = d.nextId := rfl

@[simp] theorem nextId_setNextId (idx n : Nat) :
    (d.setNextId idx n).nextId = Function.update d.nextId idx n := rfl

variable {d : ObjectDatabase α} {sch : Schema α κ} {v : α}

/-- Two databases with the same objects and the same next ids are the same. -/
theorem ext_find {d' : ObjectDatabase α} (hfind : ∀ id, d.find id = d'.find id)
    (hnext : ∀ idx, d.nextId idx = d'.nextId idx) : d = d' := by
  obtain ⟨o, n⟩ := d
  obtain ⟨o', n'⟩ := d'
  have ho : o = o' := ext_getElem? hfind
  have hn : n = n' := funext hnext
  rw [ho, hn]

theorem collides_eq_false {id : ObjectId} : d.collides sch id v = false ↔
    ∀ id' w, id'.spaceType = id.spaceType → id' ≠ id → d.find id' = some w →
      sch.clash id.spaceType v w = false := by
  simp only [collides, List.any_eq_false, Prod.forall, Bool.and_eq_true, decide_eq_true_eq,
    mem_toList_iff_getElem?_eq_some, find, not_and, Bool.not_eq_true]
  constructor
  · intro h id' w hidx hne hmem
    exact h id' w hmem ⟨hidx, hne⟩
  · intro h id' w hmem hother
    exact h id' w hother.1 hother.2 hmem

theorem collides_eq_false_of_not_generic {id : ObjectId} (hk : sch.kind id.spaceType ≠ .generic) :
    d.collides sch id v = false :=
  collides_eq_false.mpr fun _ _ _ _ _ => by simp [Schema.clash, hk]

/-! ### One equation per operation

On an index that is not flat, the three operations on objects differ between the
index classes only in whether a unique key can be violated. -/

section Equations

variable {sch : Schema α κ} {d : ObjectDatabase α} {id : ObjectId} {v : α}

section

variable (hk : sch.kind id.spaceType ≠ .flat)
include hk

theorem insert_eq (hnone : d.find id = none) :
    d.insert sch id v = if d.collides sch id v then .thrown d else .ok (d.put id v) := by
  cases hkind : sch.kind id.spaceType with
  | generic => simp [insert, hkind, hnone]
  | simple =>
    have := collides_eq_false_of_not_generic (d := d) (v := v) (by rw [hkind]; decide)
    simp [insert, hkind, this]
  | flat => exact absurd hkind hk

theorem modify_eq {f : α → α} (hsome : d.find id = some v) :
    d.modify sch id f =
      if d.collides sch id (f v) then .thrown (d.drop id) else .ok (d.put id (f v)) := by
  cases hkind : sch.kind id.spaceType with
  | generic => simp [modify, hkind, hsome]
  | simple =>
    have := collides_eq_false_of_not_generic (d := d) (v := f v) (by rw [hkind]; decide)
    simp [modify, hkind, hsome, this]
  | flat => exact absurd hkind hk

omit hk in
theorem modify_of_find_none {f : α → α} (hnone : d.find id = none) :
    d.modify sch id f = .thrown d := by
  simp [modify, hnone]

omit [DecidableEq κ] in
theorem remove_eq (hsome : d.find id = some v) : d.remove sch id = .ok (d.drop id) := by
  cases hkind : sch.kind id.spaceType with
  | generic | simple => simp [remove, hkind, hsome]
  | flat => exact absurd hkind hk

end

omit [DecidableEq κ] in
theorem remove_of_find_none (hnone : d.find id = none) : d.remove sch id = .thrown d := by
  simp [remove, hnone]

end Equations

/-! ### The two invariants of a database

`WellFormed`: an index has handed out every id it holds.  `Consistent`: no two
objects of an index share a unique key. -/

def WellFormed (d : ObjectDatabase α) : Prop :=
  ∀ id v, d.find id = some v → id.inst < d.nextId id.spaceType

def Consistent (sch : Schema α κ) (d : ObjectDatabase α) : Prop :=
  ∀ id v, d.find id = some v → d.collides sch id v = false

theorem WellFormed.find_newId (hwf : d.WellFormed) (idx : Nat) : d.find (d.newId idx) = none := by
  cases h : d.find (d.newId idx) with
  | none => rfl
  | some v =>
    have hlt : d.nextId idx < d.nextId idx := hwf _ _ h
    omega

theorem Consistent.clash_eq_false (hc : d.Consistent sch) {id id' : ObjectId} {w : α}
    (hv : d.find id = some v) (hw : d.find id' = some w) (hidx : id'.spaceType = id.spaceType)
    (hne : id' ≠ id) : sch.clash id.spaceType v w = false :=
  collides_eq_false.mp (hc id v hv) id' w hidx hne hw

/-- The index `idx` really gives its new object the next id: what a successful
    create leaves. -/
theorem create_eq {idx : Nat} (hk : sch.kind idx ≠ .flat) (hwf : d.WellFormed) :
    d.create sch idx v = if d.collides sch (d.newId idx) v then .thrown d
      else .ok ((d.put (d.newId idx) v).setNextId idx (d.nextId idx + 1)) := by
  have hins : d.insert sch (d.newId idx) v = if d.collides sch (d.newId idx) v then .thrown d
      else .ok (d.put (d.newId idx) v) := insert_eq hk (hwf.find_newId idx)
  rw [create, hins]
  by_cases hc : d.collides sch (d.newId idx) v = true <;> simp [hc]

/-! ### The operations keep the invariants -/

section Preservation

variable {sch : Schema α κ} {d : ObjectDatabase α} {id : ObjectId} {v : α}

theorem Consistent.put (hc : d.Consistent sch) (hv : d.collides sch id v = false) :
    (d.put id v).Consistent sch := by
  intro k w hw
  refine collides_eq_false.mpr fun k' w' hidx hne hw' => ?_
  rw [find_put] at hw hw'
  by_cases hk : k = id
  · subst hk
    rw [if_pos rfl] at hw
    rw [if_neg hne] at hw'
    cases hw
    exact collides_eq_false.mp hv k' w' hidx hne hw'
  · rw [if_neg hk] at hw
    by_cases hk' : k' = id
    · subst hk'
      rw [if_pos rfl] at hw'
      cases hw'
      rw [← hidx, sch.clash_comm]
      exact collides_eq_false.mp hv k w hidx.symm hne.symm hw
    · rw [if_neg hk'] at hw'
      exact hc.clash_eq_false hw hw' hidx hne

theorem Consistent.drop (hc : d.Consistent sch) : (d.drop id).Consistent sch := by
  intro k w hw
  refine collides_eq_false.mpr fun k' w' hidx hne hw' => ?_
  rw [find_drop] at hw hw'
  split at hw
  · cases hw
  split at hw'
  · cases hw'
  · exact hc.clash_eq_false hw hw' hidx hne

variable (hwf : d.WellFormed)
include hwf

theorem WellFormed.put {w : α} (hw : d.find id = some w) : (d.put id v).WellFormed := by
  intro k x hx
  rw [find_put] at hx
  by_cases hk : k = id
  · subst hk
    exact hwf k w hw
  · rw [if_neg hk] at hx
    exact hwf k x hx

theorem WellFormed.drop : (d.drop id).WellFormed := by
  intro k x hx
  rw [find_drop] at hx
  split at hx
  · cases hx
  · exact hwf k x hx

theorem WellFormed.putNew (idx : Nat) :
    ((d.put (d.newId idx) v).setNextId idx (d.nextId idx + 1)).WellFormed := by
  intro k x hx
  rw [find_setNextId, find_put] at hx
  simp only [nextId_setNextId, nextId_put, Function.update_apply]
  by_cases hk : k = d.newId idx
  · subst hk
    simp [newId]
  · rw [if_neg hk] at hx
    have hlt := hwf k x hx
    split
    · next heq => rw [heq] at hlt; omega
    · exact hlt

end Preservation

end ObjectDatabase

/-- A call on the objects of a database. -/
inductive ObjectOp (α : Type) where
  | create (idx : Nat) (v : α)
  | modify (id : ObjectId) (f : α → α)
  | remove (id : ObjectId)

def ObjectDatabase.step (d : ObjectDatabase α) : ObjectOp α → Exec (ObjectDatabase α)
  | .create idx v => d.create sch idx v
  | .modify id f => d.modify sch id f
  | .remove id => d.remove sch id

/-- A database in which every index has handed out the ids it holds and no unique key
    is violated. -/
structure ValidDatabase (sch : Schema α κ) where
  db : ObjectDatabase α
  wellFormed : db.WellFormed
  consistent : db.Consistent sch

namespace ValidDatabase

variable {sch : Schema α κ}

def empty (sch : Schema α κ) : ValidDatabase sch where
  db := ⟨∅, fun _ => 0⟩
  wellFormed id v h := by simp [ObjectDatabase.find] at h
  consistent id v h := by simp [ObjectDatabase.find] at h

theorem valid_step (hk : sch.NoFlat) {d : ObjectDatabase α} (hwf : d.WellFormed)
    (op : ObjectOp α) : (d.step sch op).state.WellFormed ∧
      (d.Consistent sch → (d.step sch op).state.Consistent sch) := by
  cases op with
  | create idx v =>
    simp only [ObjectDatabase.step, ObjectDatabase.create_eq (hk idx) hwf]
    split
    · exact ⟨hwf, id⟩
    · next hcol => exact ⟨hwf.putNew idx, fun hc => hc.put (by simpa using hcol)⟩
  | modify id f =>
    cases hv : d.find id with
    | none => simpa [ObjectDatabase.step, ObjectDatabase.modify_of_find_none hv] using hwf
    | some v =>
      simp only [ObjectDatabase.step, ObjectDatabase.modify_eq (hk id.spaceType) hv]
      split
      · exact ⟨hwf.drop, fun hc => hc.drop⟩
      · next hcol => exact ⟨hwf.put hv, fun hc => hc.put (by simpa using hcol)⟩
  | remove id =>
    cases hv : d.find id with
    | none => simpa [ObjectDatabase.step, ObjectDatabase.remove_of_find_none hv] using hwf
    | some v =>
      simp only [ObjectDatabase.step, ObjectDatabase.remove_eq (hk id.spaceType) hv]
      exact ⟨hwf.drop, fun hc => hc.drop⟩

def apply (hk : sch.NoFlat) (d : ValidDatabase sch) (op : ObjectOp α) : ValidDatabase sch where
  db := (d.db.step sch op).state
  wellFormed := (valid_step hk d.wellFormed op).1
  consistent := (valid_step hk d.wellFormed op).2 d.consistent

end ValidDatabase

end HyperExchange.Db
