/-
  **Loops over an ordered map whose iterations touch disjoint slices.**

  A loop `for (k, v) in m` often changes, in the iteration of `k`, only what the
  state holds under `k`.  If `slice s k` is that part of the state, the whole loop
  then does to each slice what the one iteration of its key does, and nothing to
  the slices of other keys (`slice_foldl_toList`).  The order of the iterations is
  immaterial; the distinctness of a map's keys is what is used.
-/
import Std.Data.ExtTreeMap.Lemmas
import Mathlib.Algebra.Order.Ring.Int

namespace HyperExchange.OrderedFold

open Std List

section Slices

variable {S K V X : Type} {f : S → K × V → S} {slice : S → K → X} {F : K → V → X → X}

theorem slice_foldl_of_forall_ne
    (hother : ∀ s k v k', k' ≠ k → slice (f s (k, v)) k' = slice s k')
    {k : K} : ∀ (l : List (K × V)) (s : S), (∀ p ∈ l, p.1 ≠ k) → slice (l.foldl f s) k = slice s k
  | [], _, _ => rfl
  | (k₁, v₁) :: l, s, h => by
    have hne : k ≠ k₁ := fun e => h (k₁, v₁) mem_cons_self e.symm
    have htail := slice_foldl_of_forall_ne hother l (f s (k₁, v₁))
      (fun p hp => h p (mem_cons_of_mem _ hp))
    rw [foldl_cons, htail, hother s k₁ v₁ k hne]

theorem slice_foldl_of_mem
    (hself : ∀ s k v, slice (f s (k, v)) k = F k v (slice s k))
    (hother : ∀ s k v k', k' ≠ k → slice (f s (k, v)) k' = slice s k')
    {k : K} {v : V} : ∀ (l : List (K × V)) (s : S), l.Pairwise (fun a b => a.1 ≠ b.1) →
      (k, v) ∈ l → slice (l.foldl f s) k = F k v (slice s k)
  | [], _, _, hmem => by cases hmem
  | (k₁, v₁) :: l, s, hd, hmem => by
    rw [pairwise_cons] at hd
    rw [foldl_cons]
    rcases mem_cons.mp hmem with heq | hmem
    · cases heq
      rw [slice_foldl_of_forall_ne hother l _ (fun p hp => (hd.1 p hp).symm), hself]
    · have hne : k ≠ k₁ := (hd.1 (k, v) hmem).symm
      rw [slice_foldl_of_mem hself hother l _ hd.2 hmem, hother s k₁ v₁ k hne]

variable {cmp : K → K → Ordering} [TransCmp cmp] [LawfulEqCmp cmp]

theorem pairwise_ne_toList (m : ExtTreeMap K V cmp) :
    m.toList.Pairwise (fun a b => a.1 ≠ b.1) := by
  refine m.distinct_keys_toList.imp ?_
  intro a b h e
  exact h (by rw [e]; exact ReflCmp.compare_self)

/-- **Slice rule.** After the loop over `m` a slice is what the iteration of its key
    makes of it, or unchanged when `m` has no such key. -/
theorem slice_foldl_toList (slice : S → K → X) (F : K → V → X → X)
    (hself : ∀ s k v, slice (f s (k, v)) k = F k v (slice s k))
    (hother : ∀ s k v k', k' ≠ k → slice (f s (k, v)) k' = slice s k')
    (m : ExtTreeMap K V cmp) (s : S) (k : K) :
    slice (m.toList.foldl f s) k = m[k]?.elim (slice s k) fun v => F k v (slice s k) := by
  cases hk : m[k]? with
  | some v =>
    have hmem : (k, v) ∈ m.toList := ExtTreeMap.mem_toList_iff_getElem?_eq_some.mpr hk
    exact slice_foldl_of_mem hself hother _ _ (pairwise_ne_toList m) hmem
  | none =>
    refine slice_foldl_of_forall_ne hother _ _ ?_
    rintro ⟨k', v⟩ hmem rfl
    have hsome := ExtTreeMap.mem_toList_iff_getElem?_eq_some.mp hmem
    simp only at hsome hk
    rw [hk] at hsome
    cases hsome

end Slices

end HyperExchange.OrderedFold
