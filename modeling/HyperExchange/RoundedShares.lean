/-
  **Sums of rounded shares, and picking from a list.**

  Rounding down each part of a sum gives at most the rounded sum.  So the parts of what is
  split in proportion to weights never add up to more than there is (`sum_shares_le`), and
  values that are rounded one by one, and grouped by a key, stay below the values of the
  groups (`sum_le_of_groups`).

  `pick` takes an element out of a list by putting the last one in its place, as a shuffle in
  place does.
-/
import Mathlib.Algebra.Order.Ring.Int
import Mathlib.Algebra.BigOperators.Group.Finset.Basic
import Mathlib.Algebra.BigOperators.Group.Finset.Piecewise
import Mathlib.Algebra.BigOperators.Group.List.Basic
import Mathlib.Algebra.Order.BigOperators.Group.Finset
import Mathlib.Algebra.Order.BigOperators.Group.List
import Mathlib.Data.List.Perm.Basic
import Mathlib.Data.Nat.Basic

namespace HyperExchange.Rounding

open List

/-! ### Rounding down -/

theorem sum_div_le {α : Type} (l : List α) (f : α → Nat) (q b : Nat) :
    (l.map fun x => f x * q / b).sum ≤ (l.map f).sum * q / b := by
  induction l with
  | nil => simp
  | cons x l ih =>
    calc f x * q / b + (l.map fun x => f x * q / b).sum
        ≤ f x * q / b + (l.map f).sum * q / b := Nat.add_le_add_left ih _
      _ ≤ (f x * q + (l.map f).sum * q) / b := Nat.div_add_div_le_add_div
      _ = (f x + (l.map f).sum) * q / b := by rw [Nat.add_mul]

/-- Shares of `p` in proportion to weights that add up to at most `total`. -/
theorem sum_shares_le {α : Type} (l : List α) (weight : α → Nat) (p : Nat) {total : Nat}
    (h : (l.map weight).sum ≤ total) : (l.map fun x => p * weight x / total).sum ≤ p := by
  have hcomm : (l.map fun x => p * weight x / total) = l.map fun x => weight x * p / total :=
    map_congr_left fun x _ => by rw [Nat.mul_comm]
  rw [hcomm]
  calc (l.map fun x => weight x * p / total).sum
      ≤ (l.map weight).sum * p / total := sum_div_le l weight p total
    _ ≤ total * p / total := Nat.div_le_div_right (Nat.mul_le_mul_right p h)
    _ ≤ p := Nat.div_le_of_le_mul (Nat.le_refl _)

/-! ### Groups -/

section Groups

variable {α K : Type} [DecidableEq K] (l : List α) (key : α → K) (f : α → Nat)

theorem sum_by_key {s : Finset K} (hs : ∀ x ∈ l, key x ∈ s) :
    (l.map f).sum = ∑ k ∈ s, ((l.filter fun x => decide (key x = k)).map f).sum := by
  induction l with
  | nil => simp
  | cons x l ih =>
    have hcons : ∀ k, (((x :: l).filter fun x => decide (key x = k)).map f).sum =
        (if key x = k then f x else 0) +
          ((l.filter fun x => decide (key x = k)).map f).sum := by
      intro k
      by_cases hk : key x = k <;> simp [hk]
    rw [Finset.sum_congr rfl fun k _ => hcons k, Finset.sum_add_distrib, Finset.sum_ite_eq,
      if_pos (hs x mem_cons_self), ← ih fun y hy => hs y (mem_cons_of_mem x hy)]
    rfl

theorem sum_le_of_groups (v : K → Nat) {s : Finset K} (hs : ∀ x ∈ l, key x ∈ s)
    (hv : ∀ k ∈ s, ((l.filter fun x => decide (key x = k)).map f).sum ≤ v k) :
    (l.map f).sum ≤ ∑ k ∈ s, v k := by
  rw [sum_by_key l key f hs]
  exact Finset.sum_le_sum hv

/-- Values that are found in a list under different keys add up to no more than the list. -/
theorem sum_le_of_entries (v : K → Nat) (s : Finset K)
    (h : ∀ k ∈ s, v k = 0 ∨ ∃ x ∈ l, key x = k ∧ f x = v k) : ∑ k ∈ s, v k ≤ (l.map f).sum := by
  have hall : ∀ x ∈ l, key x ∈ s ∪ (l.map key).toFinset := fun x hx =>
    Finset.mem_union_right s (mem_toFinset.mpr (mem_map_of_mem hx))
  rw [sum_by_key l key f hall]
  refine (Finset.sum_le_sum fun k hk => ?_).trans
    (Finset.sum_le_sum_of_subset Finset.subset_union_left)
  rcases h k hk with hzero | ⟨x, hx, hkey, hvalue⟩
  · rw [hzero]
    exact Nat.zero_le _
  · rw [← hvalue]
    refine single_le_sum (fun _ _ => Nat.zero_le _) _ ?_
    exact mem_map_of_mem (mem_filter.mpr ⟨hx, decide_eq_true hkey⟩)

end Groups

/-! ### Picking -/

section Pick

variable {α : Type}

/-- The list without its element `i`: the last one takes its place. -/
def pick (l : List α) (i : Nat) : List α :=
  match l.getLast? with
  | none => []
  | some last => (l.set i last).dropLast

theorem perm_pick {l : List α} {i : Nat} {x : α} (h : l[i]? = some x) : (x :: pick l i).Perm l := by
  obtain ⟨a, b, rfl, rfl⟩ : ∃ a b, l = a ++ x :: b ∧ a.length = i := by
    obtain ⟨hi, rfl⟩ := List.getElem?_eq_some_iff.mp h
    refine ⟨l.take i, l.drop (i + 1), ?_, length_take_of_le (Nat.le_of_lt hi)⟩
    rw [← drop_eq_getElem_cons hi, take_append_drop]
  rcases eq_nil_or_concat b with rfl | ⟨c, last, rfl⟩
  · have hpick : pick (a ++ [x]) a.length = a := by simp [pick]
    rw [hpick]
    exact (perm_append_singleton x a).symm
  · have hpick : pick (a ++ x :: c.concat last) a.length = a ++ last :: c := by
      unfold pick
      rw [concat_eq_append, ← cons_append, ← append_assoc, List.getLast?_concat]
      show ((a ++ x :: c ++ [last]).set a.length last).dropLast = _
      rw [append_assoc, set_append_right _ _ (Nat.le_refl _), Nat.sub_self,
        cons_append, set_cons_zero, ← cons_append, ← append_assoc,
        dropLast_concat]
    rw [hpick]
    have hlast : (x :: last :: c).Perm (x :: c.concat last) := by
      rw [concat_eq_append]
      exact (perm_append_singleton last c).symm.cons x
    exact perm_middle.symm.trans (hlast.append_left a)

end Pick

end HyperExchange.Rounding
