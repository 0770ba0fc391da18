/-
  **Tables of rows with a unique key.**

  A table is a list of rows whose keys are pairwise different.  It is read by key (`find`)
  and changed by adding a row with a new key, by removing a row, and by editing rows in ways
  that keep their keys (`Edit`): one row, the rows that meet a condition, or the rows of a
  list of keys one after the other.

  Every change is described by what each key reads as afterwards, so that a proof about a
  sequence of changes never looks at the list.
-/
import Mathlib.Algebra.Order.Ring.Int
import Mathlib.Data.List.Nodup

namespace HyperExchange.Keyed

open List

variable {K R : Type} [DecidableEq K]

@[ext]
structure Table (key : R → K) where
  rows : List R
  nodup : (rows.map key).Nodup

/-- A change of a row that keeps its key. -/
structure Edit (key : R → K) where
  run : R → R
  keeps : ∀ r, key (run r) = key r

namespace Table

variable {key : R → K} {t : Table key} {k : K} {r : R} {e : Edit key}

def empty : Table key := ⟨[], nodup_nil⟩

variable (t)

def find (k : K) : Option R := t.rows.find? fun r => decide (key r = k)

def update (e : Edit key) : Table key where
  rows := t.rows.map e.run
  nodup := by
    have hkeys : key ∘ e.run = key := funext e.keeps
    rw [List.map_map, hkeys]
    exact t.nodup

/-- Edits the rows that meet `p`. -/
def modifyWhere (p : R → Bool) (e : Edit key) : Table key :=
  t.update
    { run := fun r => if p r then e.run r else r
      keeps := by
        intro r
        split
        · exact e.keeps r
        · rfl }

/-- Edits the row with key `k`, if there is one. -/
def modify (k : K) (e : Edit key) : Table key :=
  t.modifyWhere (fun r => decide (key r = k)) e

def modifyEach (ks : List K) (e : Edit key) : Table key :=
  ks.foldl (fun t k => t.modify k e) t

/-! ### Reading -/

variable {t}

theorem key_of_find (h : t.find k = some r) : key r = k := by
  have := List.find?_some h
  simpa using this

theorem mem_of_find (h : t.find k = some r) : r ∈ t.rows :=
  mem_of_find?_eq_some h

theorem find_eq_none_iff : t.find k = none ↔ ∀ r ∈ t.rows, key r ≠ k := by
  unfold find
  rw [List.find?_eq_none]
  simp

theorem find_of_mem (h : r ∈ t.rows) : t.find (key r) = some r := by
  cases hf : t.find (key r) with
  | none => exact absurd rfl (find_eq_none_iff.1 hf r h)
  | some r' =>
    have hkey : key r' = key r := key_of_find hf
    rw [inj_on_of_nodup_map t.nodup (mem_of_find hf) h hkey]

theorem mem_rows_iff : r ∈ t.rows ↔ t.find (key r) = some r :=
  ⟨find_of_mem, mem_of_find⟩

@[simp] theorem find_empty (k : K) : (empty : Table key).find k = none := rfl

/-! ### Adding and removing rows -/

def insert (t : Table key) (r : R) : Option (Table key) :=
  if h : t.find (key r) = none then
    some
      { rows := t.rows ++ [r]
        nodup := by
          rw [map_append, map_singleton, nodup_append]
          refine ⟨t.nodup, nodup_singleton _, ?_⟩
          intro a ha b hb
          obtain ⟨r', hr', rfl⟩ := mem_map.1 ha
          rw [mem_singleton.1 hb]
          exact find_eq_none_iff.1 h r' hr' }
  else none

/-- Removes the row with key `k`. -/
def erase (t : Table key) (k : K) : Table key where
  rows := t.rows.filter fun r => decide (key r ≠ k)
  nodup := t.nodup.sublist (filter_sublist.map key)

variable {t' : Table key}

section

variable (h : t.insert r = some t')
include h

theorem insert_eq_some :
    t.find (key r) = none ∧ ∀ k, t'.find k = if k = key r then some r else t.find k := by
  unfold insert at h
  split at h
  · rename_i hnone
    refine ⟨hnone, ?_⟩
    intro k
    cases h
    unfold find
    rw [List.find?_append]
    by_cases hk : k = key r
    · subst hk
      have hnone' : (t.rows.find? fun r' => decide (key r' = key r)) = none := hnone
      simp [hnone']
    · have hk' : ¬ key r = k := fun h => hk h.symm
      simp [hk, hk']
  · cases h

theorem find_insert_old {r' : R} (hr' : t.find k = some r') : t'.find k = some r' := by
  obtain ⟨hnone, hfind⟩ := insert_eq_some h
  rw [hfind, if_neg]
  · exact hr'
  · rintro rfl
    rw [hnone] at hr'
    cases hr'

theorem find_insert_cases {r' : R} (hr' : t'.find k = some r') : (k = key r ∧ r' = r) ∨ t.find k =
    some r' := by
  obtain ⟨_, hfind⟩ := insert_eq_some h
  rw [hfind] at hr'
  split at hr'
  · rename_i hk
    exact .inl ⟨hk, (Option.some.inj hr').symm⟩
  · exact .inr hr'

end

theorem find_erase (k' : K) : (t.erase k).find k' = if k' = k then none else t.find k' := by
  unfold find erase
  rw [List.find?_filter]
  split
  · rename_i h
    subst h
    rw [List.find?_eq_none]
    intro r _
    simp
  · rename_i h
    congr 1
    funext r
    by_cases hr : key r = k'
    · simp [hr, h]
    · simp [hr]

/-! ### Editing rows -/

theorem find_update (k : K) : (t.update e).find k = (t.find k).map e.run := by
  unfold find update
  rw [List.find?_map]
  congr 2
  funext r
  simp [Function.comp, e.keeps]

theorem find_modifyWhere {p : R → Bool} (k : K) :
    (t.modifyWhere p e).find k = (t.find k).map fun r => if p r then e.run r else r :=
  find_update k

theorem find_modify (k' : K) :
    (t.modify k e).find k' = (t.find k').map fun r => if k' = k then e.run r else r := by
  unfold modify
  rw [find_modifyWhere]
  cases h : t.find k' with
  | none => rfl
  | some r =>
    have hkey : key r = k' := key_of_find h
    simp [hkey]

/-! Removing a row before or after an edit comes to the same. -/

theorem erase_modifyWhere {p : R → Bool} :
    (t.modifyWhere p e).erase k = (t.erase k).modifyWhere p e := by
  have hkeys : ∀ r, key (if p r then e.run r else r) = key r := by
    intro r
    split
    · exact e.keeps r
    · rfl
  apply Table.ext
  simp only [erase, modifyWhere, update, List.filter_map]
  congr 2
  funext r
  simp only [Function.comp, hkeys]

theorem erase_modify {k' : K} : (t.modify k' e).erase k = (t.erase k).modify k' e :=
  erase_modifyWhere

theorem erase_modifyEach (ks : List K) :
    (t.modifyEach ks e).erase k = (t.erase k).modifyEach ks e := by
  induction ks generalizing t with
  | nil => rfl
  | cons k' ks ih => exact ih.trans (congrArg (·.modifyEach ks e) erase_modify)

/-- Editing the rows of a list of keys, with an edit that does nothing the second time. -/
theorem find_modifyEach (hidem : ∀ r, e.run (e.run r) = e.run r) (ks : List K) (t : Table key)
    (k : K) :
    (t.modifyEach ks e).find k = (t.find k).map fun r => if k ∈ ks then e.run r else r := by
  induction ks generalizing t with
  | nil =>
    unfold modifyEach
    simp
  | cons k₁ ks ih =>
    have hstep : t.modifyEach (k₁ :: ks) e = (t.modify k₁ e).modifyEach ks e := rfl
    rw [hstep, ih, find_modify, Option.map_map]
    congr 1
    funext r
    by_cases h₁ : k = k₁ <;> by_cases hks : k ∈ ks <;> simp [h₁, hks, hidem]

end Table

end HyperExchange.Keyed
