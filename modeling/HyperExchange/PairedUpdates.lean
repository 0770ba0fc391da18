/-
  **Updates of a table in pairs of keys.**

  A list of pairs is gone through; the value of the first key of each pair is changed by
  one function and that of the second by another one.  If no key is both a first and a
  second one, and both functions are idempotent, the order does not matter, and every key
  has its value changed once (`updateAll_apply`).

  `card_switch` counts the keys with a flag after it was cleared on some and set on others.
-/
import Mathlib.Algebra.Order.Ring.Int
import Mathlib.Algebra.BigOperators.Group.Finset.Piecewise

namespace HyperExchange.PairedUpdates

open List

variable {K V : Type} [DecidableEq K]

def updatePair (f g : V → V) (p : K × K) (m : K → V) : K → V :=
  fun x => if x = p.1 then f (m x) else if x = p.2 then g (m x) else m x

def updateAll (f g : V → V) (l : List (K × K)) (m : K → V) : K → V :=
  l.foldl (fun m p => updatePair f g p m) m

def Separate (l : List (K × K)) : Prop := ∀ p ∈ l, ∀ q ∈ l, p.1 ≠ q.2

omit [DecidableEq K] in
theorem Separate.mono {l l' : List (K × K)} (h : Separate l) (hsub : l' ⊆ l) : Separate l' :=
  fun p hp q hq => h p (hsub hp) q (hsub hq)

omit [DecidableEq K] in
theorem Separate.ne {l : List (K × K)} (h : Separate l) {x : K} (hx : x ∈ l.map Prod.snd) :
    x ∉ l.map Prod.fst := by
  intro hfirst
  obtain ⟨p, hp, hpx⟩ := mem_map.mp hfirst
  obtain ⟨q, hq, hqx⟩ := mem_map.mp hx
  exact h p hp q hq (hpx.trans hqx.symm)

theorem Separate.disjoint {l : List (K × K)} (h : Separate l) :
    Disjoint (l.map Prod.snd).toFinset (l.map Prod.fst).toFinset := by
  rw [Finset.disjoint_left]
  intro x hx hx'
  exact h.ne (mem_toFinset.mp hx) (mem_toFinset.mp hx')

/-- **Every key is changed once.** -/
theorem updateAll_apply {f g : V → V} (hf : ∀ v, f (f v) = f v) (hg : ∀ v, g (g v) = g v)
    {l : List (K × K)} (hl : Separate l) (m : K → V) (x : K) :
    updateAll f g l m x = if x ∈ l.map Prod.fst then f (m x)
      else if x ∈ l.map Prod.snd then g (m x) else m x := by
  induction l generalizing m with
  | nil => rfl
  | cons p l ih =>
    have hstep : updateAll f g (p :: l) m = updateAll f g l (updatePair f g p m) := rfl
    rw [hstep, ih (hl.mono (subset_cons_self p l))]
    by_cases hfirst : x = p.1
    · -- a first key is not a second one, neither here nor later
      have hnot : x ∉ (p :: l).map Prod.snd :=
        fun hx => hl.ne hx (hfirst ▸ mem_cons_self)
      have hlater : x ∉ l.map Prod.snd := fun hx => hnot (mem_cons_of_mem _ hx)
      have hhere : x ∈ (p :: l).map Prod.fst := hfirst ▸ mem_cons_self
      rw [updatePair, if_pos hfirst, if_neg hlater, if_pos hhere, hf, ite_self]
    · have hfst : (x ∈ (p :: l).map Prod.fst) ↔ x ∈ l.map Prod.fst := by
        rw [map_cons, mem_cons, or_iff_right hfirst]
      rw [updatePair, if_neg hfirst]
      by_cases hsecond : x = p.2
      · have hhere : x ∈ (p :: l).map Prod.snd := hsecond ▸ mem_cons_self
        have hnot : x ∉ l.map Prod.fst := fun hx => hl.ne hhere (hfst.mpr hx)
        rw [if_pos hsecond, if_neg hnot, if_neg (fun hx => hnot (hfst.mp hx)), if_pos hhere, hg,
          ite_self]
      · have hsnd : (x ∈ (p :: l).map Prod.snd) ↔ x ∈ l.map Prod.snd := by
          rw [map_cons, mem_cons, or_iff_right hsecond]
        rw [if_neg hsecond]
        simp only [hfst, hsnd]

/-- A flag is cleared on `x` and set on `y`. -/
theorem card_switch {a x y : Finset K} (hx : x ⊆ a) (hy : y ⊆ a) (hxy : Disjoint x y)
    {p p' : K → Bool} (h : ∀ k, p' k = if k ∈ y then true else if k ∈ x then false else p k) :
    (a.filter (p' ·)).card + (x.filter (p ·)).card =
      (a.filter (p ·)).card + (y.filter (!p ·)).card := by
  rw [← Finset.inter_eq_right.mpr hx, ← Finset.inter_eq_right.mpr hy, ← Finset.filter_mem_eq_inter,
    ← Finset.filter_mem_eq_inter, Finset.filter_filter, Finset.filter_filter]
  simp only [Finset.card_filter, ← Finset.sum_add_distrib]
  refine Finset.sum_congr rfl fun k _ => ?_
  have hboth : ¬ (k ∈ x ∧ k ∈ y) := fun hk => Finset.disjoint_left.mp hxy hk.1 hk.2
  rw [h k]
  by_cases hkx : k ∈ x <;> by_cases hky : k ∈ y <;> cases p k <;> simp_all

end HyperExchange.PairedUpdates
