/-
  **Sums over the rows of a keyed table.**

  `total` adds up an amount over all rows.  A table changes by one row at a time, and since
  the keys are pairwise different that row enters the sum exactly once: each lemma says what
  the sum was before, what it is after, and which row makes the difference.  For changes of
  many rows the sum is one over keys (`total_eq_sum`), so only what each key reads as counts.
-/
import Mathlib.Algebra.BigOperators.Group.Finset.Basic
import Mathlib.Algebra.BigOperators.Group.List.Basic
import HyperExchange.KeyedTable

namespace HyperExchange.Keyed.Table

open List

variable {K R : Type} [DecidableEq K] {key : R → K} {t t' : Table key} {f : R → Int} {r : R} {k : K}

def total (t : Table key) (f : R → Int) : Int := (t.rows.map f).sum

theorem total_insert (h : t.insert r = some t') (f : R → Int) : t'.total f = t.total f + f r := by
  unfold insert at h
  split at h
  · cases h
    simp [total]
  · cases h

theorem rows_around (h : t.find k = some r) :
    ∃ l l' : List R, t.rows = l ++ r :: l' ∧ (∀ x ∈ l, key x ≠ k) ∧ ∀ x ∈ l', key x ≠ k := by
  obtain ⟨l, l', hrows⟩ := append_of_mem (mem_of_find h)
  have hnodup := t.nodup
  rw [hrows, map_append, map_cons, nodup_append, nodup_cons] at hnodup
  obtain ⟨-, ⟨hr, -⟩, hdisjoint⟩ := hnodup
  rw [← key_of_find h]
  refine ⟨l, l', hrows, ?_, ?_⟩
  · intro x hx
    exact hdisjoint _ (mem_map_of_mem hx) _ mem_cons_self
  · intro x hx hkey
    exact hr (hkey ▸ mem_map_of_mem hx)

theorem total_erase (h : t.find k = some r) (f : R → Int) :
    (t.erase k).total f + f r = t.total f := by
  obtain ⟨l, l', hrows, hl, hl'⟩ := rows_around h
  have hleft : (l.filter fun x => decide (key x ≠ k)) = l :=
    filter_eq_self.2 fun x hx => decide_eq_true (hl x hx)
  have hright : (l'.filter fun x => decide (key x ≠ k)) = l' :=
    filter_eq_self.2 fun x hx => decide_eq_true (hl' x hx)
  have hr : decide (key r ≠ k) = false := by simp [key_of_find h]
  show ((t.rows.filter fun x => decide (key x ≠ k)).map f).sum + f r = (t.rows.map f).sum
  rw [hrows, filter_append, filter_cons_of_neg (by simp [hr]), hleft, hright]
  simp only [map_append, map_cons, sum_append, sum_cons]
  omega

theorem total_modify (e : Edit key) (h : t.find k = some r) (f : R → Int) :
    (t.modify k e).total f + f r = t.total f + f (e.run r) := by
  obtain ⟨l, l', hrows, hl, hl'⟩ := rows_around h
  have hother : ∀ m : List R, (∀ x ∈ m, key x ≠ k) →
      (m.map fun x => if decide (key x = k) then e.run x else x) = m := by
    intro m hm
    conv_rhs => rw [← map_id m]
    exact map_congr_left fun x hx => by simp [hm x hx]
  have hr : (if decide (key r = k) then e.run r else r) = e.run r := by simp [key_of_find h]
  show ((t.rows.map fun x => if decide (key x = k) then e.run x else x).map f).sum + f r =
    (t.rows.map f).sum + f (e.run r)
  rw [hrows]
  simp only [map_append, map_cons, hother l hl, hother l' hl', hr, sum_append,
    sum_cons]
  omega

/-! ### Sums over keys -/

/-- What the row with key `k` adds to the sum. -/
def valueAt (t : Table key) (f : R → Int) (k : K) : Int := ((t.find k).map f).getD 0

theorem valueAt_of_find (h : t.find k = some r) (f : R → Int) : t.valueAt f k = f r := by
  unfold valueAt
  rw [h]
  rfl

theorem valueAt_of_none (h : t.find k = none) (f : R → Int) : t.valueAt f k = 0 := by
  unfold valueAt
  rw [h]
  rfl

theorem total_eq_sum (t : Table key) (f : R → Int) {s : Finset K}
    (hs : ∀ r ∈ t.rows, key r ∈ s) : t.total f = ∑ k ∈ s, t.valueAt f k := by
  have hrows : t.rows.map f = (t.rows.map key).map (t.valueAt f) := by
    rw [List.map_map]
    exact map_congr_left fun r hr => (valueAt_of_find (find_of_mem hr) f).symm
  have hkeys : (t.rows.map key).toFinset ⊆ s := by
    intro k hk
    obtain ⟨r, hr, rfl⟩ := mem_map.1 (mem_toFinset.1 hk)
    exact hs r hr
  unfold total
  rw [hrows, ← sum_toFinset _ t.nodup]
  refine Finset.sum_subset hkeys ?_
  intro k _ hk
  apply valueAt_of_none
  rw [find_eq_none_iff]
  rintro r hr rfl
  exact hk (mem_toFinset.2 (mem_map_of_mem hr))

/-- If only one key changes its value, the total changes by the difference. -/
theorem total_change (k : K) (h : ∀ k', k' ≠ k → t'.valueAt f k' = t.valueAt f k') :
    t'.total f + t.valueAt f k = t.total f + t'.valueAt f k := by
  let s := (k :: (t.rows ++ t'.rows).map key).toFinset
  have hmem : ∀ {r}, r ∈ t.rows ++ t'.rows → key r ∈ s := fun hr =>
    mem_toFinset.2 (mem_cons_of_mem _ (mem_map_of_mem hr))
  have hs : ∀ r ∈ t.rows, key r ∈ s := fun r hr => hmem (mem_append_left _ hr)
  have hs' : ∀ r ∈ t'.rows, key r ∈ s := fun r hr => hmem (mem_append_right _ hr)
  have hk : k ∈ s := mem_toFinset.2 mem_cons_self
  have hrest : ∑ k' ∈ s.erase k, t'.valueAt f k' = ∑ k' ∈ s.erase k, t.valueAt f k' :=
    Finset.sum_congr rfl fun k' hk' => h k' (Finset.ne_of_mem_erase hk')
  have hsplit := Finset.add_sum_erase s (t.valueAt f) hk
  have hsplit' := Finset.add_sum_erase s (t'.valueAt f) hk
  rw [t.total_eq_sum f hs, t'.total_eq_sum f hs', ← hsplit, ← hsplit', hrest]
  omega

/-! ### Adjusting one row -/

/-- The row with key `k` adds `d` more than before, and every other row the same. -/
structure Adjusts (f : R → Int) (k : K) (d : Int) (t t' : Table key) : Prop where
  others : ∀ k', k' ≠ k → t'.valueAt f k' = t.valueAt f k'
  value : t'.valueAt f k = t.valueAt f k + d

def Kept (f : R → Int) (t t' : Table key) : Prop := ∀ k, 0 ≤ t.valueAt f k → 0 ≤ t'.valueAt f k

section Adjusts

variable {t t' : Table key} {f : R → Int} {k : K} {d : Int} {r : R}

theorem Adjusts.total (h : Adjusts f k d t t') : t'.total f = t.total f + d := by
  have hchange := total_change k h.others
  rw [h.value] at hchange
  omega

theorem Adjusts.kept (h : Adjusts f k d t t') (hd : 0 ≤ t.valueAt f k → 0 ≤ t.valueAt f k + d) :
    Kept f t t' := by
  intro k' hk'
  by_cases heq : k' = k
  · rw [heq] at hk' ⊢
    rw [h.value]
    exact hd hk'
  · rw [h.others k' heq]
    exact hk'

theorem adjusts_insert (h : t.insert r = some t') (f : R → Int) : Adjusts f (key r) (f r) t t' := by
  obtain ⟨hnone, hfind⟩ := insert_eq_some h
  refine ⟨fun k' hk' => ?_, ?_⟩
  · unfold valueAt
    rw [hfind, if_neg hk']
  · rw [valueAt_of_none hnone, valueAt_of_find (r := r), Int.zero_add]
    rw [hfind, if_pos rfl]

theorem adjusts_erase (h : t.find k = some r) (hd : f r + d = 0) :
    Adjusts f k d t (t.erase k) := by
  refine ⟨fun k' hk' => ?_, ?_⟩
  · unfold valueAt
    rw [find_erase, if_neg hk']
  · rw [valueAt_of_find h, hd, valueAt_of_none]
    rw [find_erase, if_pos rfl]

theorem adjusts_modify (e : Edit key) (h : t.find k = some r) (hd : f (e.run r) = f r + d) :
    Adjusts f k d t (t.modify k e) := by
  refine ⟨fun k' hk' => ?_, ?_⟩
  · unfold valueAt
    rw [find_modify]
    cases hr : t.find k' with
    | none => rfl
    | some r' =>
      show f (if _ then _ else _) = f r'
      rw [if_neg hk']
  · rw [valueAt_of_find h, ← hd]
    refine valueAt_of_find ?_ f
    rw [find_modify, h]
    exact congrArg some (if_pos rfl)

end Adjusts

end HyperExchange.Keyed.Table
