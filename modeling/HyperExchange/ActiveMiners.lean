/-
  **The active citizens** (`sort_pledge_objects` and `update_active_miners` in `db_maint.cpp`).

  The citizens are sorted by their weight, and those that reach the line are counted off from
  the top.  The loop counts a citizen before it looks at its weight, so the first one below
  the line is counted too.  With fewer than 25 above the line this does not show, since 25 are
  taken at least; otherwise one citizen too many is active.

  `std::sort` is a parameter: nothing is known of the order of equal weights.
-/
import HyperExchange.MinerPay
import Mathlib.Data.List.Sort

namespace HyperExchange.Rounds

open Keyed Locks List

/-- `GRAPHENE_MIN_PLEDGE_WEIGHT_LINE` -/
def minPledgeWeightLine : Nat := 50

/-- What is known of `std::sort` with the comparison by weights. -/
structure Sorts (weight : Nat → Nat) (sort : List Nat → List Nat) : Prop where
  perm : ∀ l, (sort l).Perm l
  sorted : ∀ l, (sort l).Pairwise fun a b => weight b ≤ weight a

/-- The loop of `sort_pledge_objects`, with its `break`. -/
def countPledges (weight : Nat → Nat) (minPledge : Nat) : List Nat → Nat
  | [] => 0
  | miner :: refs => if weight miner < minPledge then 1 else countPledges weight minPledge refs + 1

/-- `vector::resize` with the first element to fill up. -/
def resize (count : Nat) (refs : List Nat) : List Nat :=
  refs.take count ++ List.replicate (count - refs.length) (refs.headD 0)

namespace State

variable {H : Type}

def minerIds (s : State H) : List Nat := s.miners.rows.map Miner.id

def sortPledgeObjects (sort : List Nat → List Nat) (minPledge : Nat) (s : State H) : List Nat :=
  let minPledge := max minPledge minPledgeWeightLine
  let refs := sort s.minerIds
  let count := countPledges s.pledgeWeight minPledge refs
  resize (max count productPerRound) refs

def updateActiveMiners (sort : List Nat → List Nat) (minimumPledgeWeightLine : Nat)
    (s : State H) : State H :=
  { s with
    activeWitnesses :=
      (s.sortPledgeObjects sort minimumPledgeWeightLine).dedup.insertionSort (· ≤ ·)
    activeOnce := (perm_insertionSort _ _).nodup_iff.mpr (nodup_dedup _) }

/-- The citizens that reach the line. -/
def reaching (line : Nat) (s : State H) : List Nat :=
  s.minerIds.filter fun miner => line ≤ s.pledgeWeight miner

/-- The active citizens are those that reach the line, or, if these are too few, 25 of the
    largest weights. -/
def ByLine (line : Nat) (s : State H) (active : List Nat) : Prop :=
  if productPerRound ≤ (s.reaching line).length then
    ∀ miner, miner ∈ active ↔ miner ∈ s.reaching line
  else
    active.length = productPerRound ∧ (∀ miner ∈ active, miner ∈ s.minerIds) ∧
      ∀ miner ∈ active, ∀ other ∈ s.minerIds, other ∉ active →
        s.pledgeWeight other ≤ s.pledgeWeight miner

end State

/-! ### Counting off a sorted list -/

section Counting

variable {weight : Nat → Nat} {line : Nat} {refs : List Nat}

theorem countPledges_eq (h : refs.Pairwise fun a b => weight b ≤ weight a) :
    countPledges weight line refs =
      min (refs.countP (fun miner => line ≤ weight miner) + 1) refs.length := by
  induction refs with
  | nil => rfl
  | cons miner refs ih =>
    obtain ⟨hfirst, hrest⟩ := pairwise_cons.mp h
    rw [countPledges, length_cons, countP_cons]
    by_cases hbelow : weight miner < line
    · -- all that follow are below the line too
      have hnone : refs.countP (fun miner => line ≤ weight miner) = 0 := by
        rw [countP_eq_zero]
        intro other hother hline
        have hle := hfirst other hother
        have hreach := of_decide_eq_true hline
        omega
      rw [if_pos hbelow, hnone, if_neg (by simpa using hbelow)]
      omega
    · rw [if_neg hbelow, ih hrest, if_pos (by simpa using hbelow)]
      omega

end Counting

namespace State

variable {H : Type} {s : State H} {sort : List Nat → List Nat}

theorem nodup_minerIds (s : State H) : s.minerIds.Nodup := s.miners.nodup

theorem length_sorted (hsort : Sorts s.pledgeWeight sort) :
    (sort s.minerIds).length = s.miners.rows.length := by
  rw [(hsort.perm _).length_eq, minerIds, length_map]

/-- As many as there are above the line and one more, if there is one, but 25 at least. -/
theorem mem_updateActiveMiners (hsort : Sorts s.pledgeWeight sort)
    (hmany : productPerRound ≤ s.miners.rows.length) (minLine miner : Nat) :
    miner ∈ (s.updateActiveMiners sort minLine).activeWitnesses ↔
      miner ∈ (sort s.minerIds).take (max (min ((s.reaching
        (max minLine minPledgeWeightLine)).length + 1) s.miners.rows.length) productPerRound) := by
  unfold updateActiveMiners sortPledgeObjects
  dsimp only
  rw [mem_insertionSort, mem_dedup, countPledges_eq (hsort.sorted _),
    (hsort.perm _).countP_eq, length_sorted hsort, countP_eq_length_filter]
  unfold resize
  rw [length_sorted hsort, Nat.sub_eq_zero_of_le (by omega), replicate_zero, append_nil]
  rfl

/-- **When the active citizens are those that the line defines**: unless at least 25 reach it
    and some do not. -/
theorem active_by_line_iff (sort : List Nat → List Nat) (minLine : Nat) (s : State H)
    (hsort : Sorts s.pledgeWeight sort) (hmany : productPerRound ≤ s.miners.rows.length) :
    s.ByLine (max minLine minPledgeWeightLine)
        (s.updateActiveMiners sort minLine).activeWitnesses ↔
      ((s.reaching (max minLine minPledgeWeightLine)).length < productPerRound ∨
        (s.reaching (max minLine minPledgeWeightLine)).length = s.miners.rows.length) := by
  have hmem := mem_updateActiveMiners hsort hmany minLine
  have honce := (s.updateActiveMiners sort minLine).activeOnce
  generalize (s.updateActiveMiners sort minLine).activeWitnesses = active at hmem honce ⊢
  generalize max minLine minPledgeWeightLine = line at hmem ⊢
  have hids : ∀ miner, miner ∈ sort s.minerIds ↔ miner ∈ s.minerIds := fun miner =>
    (hsort.perm _).mem_iff
  have hnodup : (sort s.minerIds).Nodup := (hsort.perm _).nodup_iff.mpr s.nodup_minerIds
  have hlength := length_sorted hsort
  have hreaching : (s.reaching line).length ≤ s.miners.rows.length := by
    have hle := length_filter_le (fun miner => line ≤ s.pledgeWeight miner) s.minerIds
    rwa [minerIds, length_map] at hle
  -- the active citizens are as many as were counted off
  have hactive : active.length = max (min ((s.reaching line).length + 1) s.miners.rows.length)
      productPerRound := by
    have hperm := (perm_ext_iff_of_nodup honce (hnodup.sublist (take_sublist _ _))).mpr
      hmem
    rw [hperm.length_eq, length_take, hlength]
    omega
  unfold ByLine
  split
  · rename_i henough
    constructor
    · intro hline
      have hperm := (perm_ext_iff_of_nodup honce
        (s.nodup_minerIds.sublist filter_sublist)).mpr hline
      have heq : active.length = (s.reaching line).length := hperm.length_eq
      omega
    · intro hall miner
      have heq : (s.reaching line).length = s.miners.rows.length := by omega
      have hevery : s.reaching line = s.minerIds :=
        filter_sublist.eq_of_length (by rw [minerIds, length_map]; exact heq)
      rw [hmem, take_of_length_le (by omega), hids, hevery]
  · rename_i hfew
    constructor
    · intro _
      omega
    · intro _
      refine ⟨by omega, fun miner hminer => ?_, fun miner hminer other hother hout => ?_⟩
      · exact (hids miner).mp (mem_of_mem_take ((hmem miner).mp hminer))
      · have hsorted := hsort.sorted s.minerIds
        have hlater := (hids other).mpr hother
        rw [← take_append_drop (max _ _) (sort s.minerIds)] at hsorted hlater
        exact (pairwise_append.mp hsorted).2.2 miner ((hmem miner).mp hminer) other
          ((mem_append.mp hlater).resolve_left fun h => hout ((hmem other).mpr h))

end State

/-! ### Twenty-seven citizens -/

/-- A sort by weights. -/
def sortByWeight (weight : Nat → Nat) : List Nat → List Nat :=
  List.insertionSort fun a b => weight b ≤ weight a

theorem sorts_sortByWeight (weight : Nat → Nat) : Sorts weight (sortByWeight weight) where
  perm _ := perm_insertionSort _ _
  sorted l := by
    have : Std.Total fun a b => weight b ≤ weight a := ⟨fun a b => Nat.le_total _ _⟩
    have : IsTrans Nat fun a b => weight b ≤ weight a := ⟨fun a b c h h' => Nat.le_trans h' h⟩
    exact pairwise_insertionSort _ _

/-- Twenty-seven citizens of different weights, of whom the given number reach the line. -/
def crowdedRound (reaching : Nat) : State Nat :=
  { smallRound with
    miners := ⟨(List.range 27).map fun i => ⟨i, i, .empty⟩, by
      rw [List.map_map]
      exact nodup_range.map fun _ _ h => h⟩
    accountOnce := by
      intro m hm m' hm' hsame
      obtain ⟨i, _, rfl⟩ := mem_map.mp hm
      obtain ⟨j, _, rfl⟩ := mem_map.mp hm'
      exact hsame
    pledgeWeight := fun miner => if miner < reaching then 50 + miner else miner }

/-- The active citizens with the sort by weights. -/
def crowdedActive (reaching : Nat) : List Nat :=
  ((crowdedRound reaching).updateActiveMiners
    (sortByWeight (crowdedRound reaching).pledgeWeight) 0).activeWitnesses

/-- Twenty reach the line; five of the others are active, and the two smallest weights, those
    of citizens 20 and 21, are left out. -/
theorem small_round_active_by_line :
    (crowdedRound 20).ByLine minPledgeWeightLine (crowdedActive 20) ∧
      crowdedActive 20 = List.range 20 ++ [22, 23, 24, 25, 26] :=
  ⟨(State.active_by_line_iff (sortByWeight (crowdedRound 20).pledgeWeight) 0 (crowdedRound 20)
    (sorts_sortByWeight _) (by decide +kernel)).mpr (.inl (by decide +kernel)), by decide +kernel⟩

/-- Twenty-five reach the line, and citizen 26, who does not, is active. -/
theorem crowded_round_not_by_line :
    Sorts (crowdedRound 25).pledgeWeight (sortByWeight (crowdedRound 25).pledgeWeight) ∧
      ¬ (crowdedRound 25).ByLine minPledgeWeightLine (crowdedActive 25) := by
  refine ⟨sorts_sortByWeight _, fun h => ?_⟩
  have hnot : 26 ∈ crowdedActive 25 := by decide +kernel
  exact absurd ((h 26).mp hnot) (by decide +kernel)

end HyperExchange.Rounds
