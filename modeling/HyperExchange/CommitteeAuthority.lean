/-
  **The authority of the committee account** (`update_active_committee_members` in
  `db_maint.cpp`, `vote_counter` in `vote_count.hpp`).

  The first senator with votes fixes the shift that brings votes down to 16 bits; that no
  later senator has more is only an `assert`, and senators come in the order of their
  accounts.  Votes that do not fit are cut down in the stored weight, and counted in full for
  the threshold, which may then exceed all weights; a sixteenth formal senator gets no weight
  at all (`late_votes_lock_committee`).  If the votes of the first fifteen fit, a strict majority
  of the weights is what it takes (`majority_suffices`).
-/
import Mathlib.Algebra.Group.Action.Defs
import Mathlib.Algebra.Order.BigOperators.Group.List
import Mathlib.Algebra.Order.Group.Nat
import Mathlib.Data.List.Nodup
import HyperExchange.Authority
import HyperExchange.OperationSequences

namespace HyperExchange.Committee

open Auth Execution List

variable {K H : Type}

/-- `guard_member_object`, with what the vote tally has for it. -/
structure Senator where
  account : Nat
  formal : Bool
  votes : Nat

/-- `vote_counter`; a shift of `-1` is `none`, and `last_votes` is read by an `assert` only. -/
structure VoteCounter (K H : Type) where
  totalVotes : Nat
  bitshift : Option Nat
  auth : Authority K H

/-- `max(find_msb(votes) - 15, 0)` -/
def shiftFor (votes : Nat) : Nat := votes.log2 - 15

def scaled (bitshift votes : Nat) : Nat := max (votes >>> bitshift) 1

/-- `add_authority` -/
def addAuthority (who weight : Nat) (a : Authority K H) : Authority K H :=
  { a with accountAuths := a.accountAuths.filter (fun x => decide (x.1 ≠ who)) ++ [(who, weight)] }

namespace VoteCounter

def add (vc : VoteCounter K H) (g : Senator) : VoteCounter K H :=
  if g.votes = 0 then vc
  else
    let bitshift := vc.bitshift.getD (shiftFor g.votes)
    let scaledVotes := scaled bitshift g.votes
    { totalVotes := (vc.totalVotes + scaledVotes) % 2 ^ 64
      bitshift := some bitshift
      auth := addAuthority g.account (scaledVotes % 2 ^ 16) vc.auth }

def finish (vc : VoteCounter K H) (out : Authority K H) : Authority K H :=
  if vc.totalVotes = 0 then out
  else { vc.auth with weightThreshold := vc.totalVotes % 2 ^ 32 / 2 + 1 }

end VoteCounter

/-- `GRAPHENE_DEFAULT_MAX_GUARDS` -/
def maxGuards : Nat := 15

variable (l : List Senator)

/-- The senators counted: the loop over them stops at the fifteenth formal one. -/
def guards : List Senator := (l.filter (·.formal)).take maxGuards

/-- The active authority of the committee account after `update_active_committee_members`. -/
def updateActiveCommitteeMembers (active : Authority K H) : Authority K H :=
  if guards l = [] then active
  else ((guards l).foldl VoteCounter.add ⟨0, none, ⟨0, [], [], []⟩⟩).finish
    { active with accountAuths := [], keyAuths := [] }

/-- The weight of an account. -/
def weightOf (a : Authority K H) (account : Nat) : Nat := (a.accountAuths.lookup account).getD 0

def totalWeight (a : Authority K H) : Nat := (a.accountAuths.map Prod.snd).sum

/-! ### Counting -/

def voters : List Senator := l.filter fun g => decide (g.votes ≠ 0)

/-- The shift the first senator with votes fixes. -/
def shiftOf : Nat := ((voters l).head?.map fun g => shiftFor g.votes).getD 0

theorem voters_append (g : Senator) :
    voters (l ++ [g]) = voters l ++ if g.votes = 0 then [] else [g] := by
  unfold voters
  by_cases hg : g.votes = 0 <;> simp [hg]

structure Counted (l done : List Senator) (vc : VoteCounter K H) : Prop where
  shift : vc.bitshift = if voters done = [] then none else some (shiftOf l)
  total : vc.totalVotes = ((voters done).map fun g => scaled (shiftOf l) g.votes).sum % 2 ^ 64
  auths : vc.auth.accountAuths =
    (voters done).map fun g => (g.account, scaled (shiftOf l) g.votes % 2 ^ 16)

variable {l : List Senator}

theorem counted_foldl (hl : (l.map (·.account)).Nodup) (a : Authority K H)
    (ha : a.accountAuths = []) : Counted l l (l.foldl VoteCounter.add ⟨0, none, a⟩) := by
  refine foldl_invariant (fun done vc => Counted l done vc) ⟨rfl, rfl, ha⟩ ?_
  intro done g rest vc hsplit hc
  unfold VoteCounter.add
  by_cases hg : g.votes = 0
  · have hsame : voters (done ++ [g]) = voters done := by
      rw [voters_append, if_pos hg, append_nil]
    rw [if_pos hg]
    constructor <;> rw [hsame]
    · exact hc.shift
    · exact hc.total
    · exact hc.auths
  have hmore : voters (done ++ [g]) = voters done ++ [g] := by rw [voters_append, if_neg hg]
  rw [if_neg hg]
  -- the first senator with votes is this one, or the shift is fixed already
  have hshift : vc.bitshift.getD (shiftFor g.votes) = shiftOf l := by
    rw [hc.shift]
    split
    · rename_i hnone
      have hhead : (voters l).head? = some g := by
        rw [hsplit, ← singleton_append, ← append_assoc]
        unfold voters at hmore hnone ⊢
        rw [filter_append, hmore, hnone]
        rfl
      unfold shiftOf
      rw [hhead]
      rfl
    · rfl
  -- the account is a new one
  have hnew : vc.auth.accountAuths.filter (fun x => decide (x.1 ≠ g.account)) =
      vc.auth.accountAuths := by
    rw [filter_eq_self, hc.auths]
    intro x hx
    obtain ⟨g', hg', rfl⟩ := mem_map.1 hx
    rw [hsplit, map_append, nodup_append] at hl
    exact decide_eq_true (hl.2.2 _ (mem_map_of_mem (mem_of_mem_filter hg')) _
      mem_cons_self)
  rw [hshift]
  constructor <;> rw [hmore]
  · rw [if_neg (by simp)]
  · rw [map_append, sum_append, hc.total]
    simp
  · unfold addAuthority
    rw [hnew, hc.auths, map_append]
    rfl

/-! ### Votes that fit -/

/-- No votes are left above 16 bits after the shift. -/
def Fits (l : List Senator) : Prop := ∀ g ∈ l, g.votes >>> shiftOf l < 2 ^ 16
deriving Decidable

theorem scaled_lt (hfits : Fits l) {g : Senator} (hg : g ∈ l) :
    scaled (shiftOf l) g.votes < 2 ^ 16 := max_lt (hfits g hg) (by decide)

theorem lookup_map (hl : (l.map (·.account)).Nodup) (f : Senator → Nat)
    {g : Senator} (hg : g ∈ l) :
    (l.map fun g => (g.account, f g)).lookup g.account = some (f g) := by
  induction l with
  | nil => cases hg
  | cons x l ih =>
    rw [map_cons, nodup_cons] at hl
    rw [map_cons, lookup_cons]
    rcases mem_cons.1 hg with rfl | hg
    · simp
    · have hne : g.account ≠ x.account := fun heq => hl.1 (heq ▸ mem_map_of_mem hg)
      rw [beq_false_of_ne hne]
      exact ih hl.2 hg

/-- The scaled votes of all, the number the threshold is computed from. -/
def scaledSum (l : List Senator) : Nat :=
  ((voters l).map fun g => scaled (shiftOf l) g.votes).sum

theorem scaledSum_le (hfits : Fits l) : scaledSum l ≤ l.length * 2 ^ 16 := by
  refine (sum_le_card_nsmul _ (2 ^ 16) ?_).trans ?_
  · exact forall_mem_map.2 fun g hg => (scaled_lt hfits (mem_of_mem_filter hg)).le
  · rw [length_map, smul_eq_mul]
    exact Nat.mul_le_mul_right _ (length_filter_le _ _)

theorem scaledSum_pos (hvotes : ∃ g ∈ l, g.votes ≠ 0) : 1 ≤ scaledSum l := by
  obtain ⟨g, hg, hne⟩ := hvotes
  exact (le_max_right _ 1).trans (single_le_sum (fun _ _ => Nat.zero_le _) _
    (mem_map_of_mem (mem_filter.2 ⟨hg, decide_eq_true hne⟩)))

/-- The weights of the authority are the scaled votes of the senators counted. -/
def Weighs (l : List Senator) (a : Authority K H) : Prop :=
  a.accountAuths = (voters l).map fun g => (g.account, scaled (shiftOf l) g.votes)

namespace Weighs

variable {a : Authority K H}

theorem totalWeight_eq (h : Weighs l a) : totalWeight a = scaledSum l := by
  unfold totalWeight scaledSum
  rw [h, List.map_map]
  rfl

theorem of_votes (h : Weighs l a) (hl : (l.map (·.account)).Nodup) {g : Senator} (hg : g ∈ l)
    (hne : g.votes ≠ 0) : weightOf a g.account = scaled (shiftOf l) g.votes := by
  have hnodup : ((voters l).map (·.account)).Nodup := hl.sublist (filter_sublist.map _)
  unfold weightOf
  rw [h, lookup_map hnodup _ (mem_filter.2 ⟨hg, decide_eq_true hne⟩)]
  rfl

theorem of_no_votes (h : Weighs l a) (hl : (l.map (·.account)).Nodup) {g : Senator}
    (hg : g ∈ l) (hzero : g.votes = 0) : weightOf a g.account = 0 := by
  have hnone : a.accountAuths.lookup g.account = none := by
    rw [h, lookup_eq_none_iff]
    intro x hx
    obtain ⟨g', hg', rfl⟩ := mem_map.1 hx
    obtain ⟨hmem, hvotes⟩ := mem_filter.1 hg'
    refine bne_iff_ne.2 fun heq => of_decide_eq_true hvotes ?_
    rw [← inj_on_of_nodup_map hl hg hmem heq, hzero]
  unfold weightOf
  rw [hnone]
  rfl

/-- More votes never weigh less. -/
theorem monotone (h : Weighs l a) (hl : (l.map (·.account)).Nodup) {g g' : Senator}
    (hg : g ∈ l) (hg' : g' ∈ l) (hle : g.votes ≤ g'.votes) :
    weightOf a g.account ≤ weightOf a g'.account := by
  by_cases hzero : g.votes = 0
  · rw [h.of_no_votes hl hg hzero]
    exact Nat.zero_le _
  · rw [h.of_votes hl hg hzero, h.of_votes hl hg' (by omega)]
    refine max_le_max_right 1 ?_
    rw [Nat.shiftRight_eq_div_pow, Nat.shiftRight_eq_div_pow]
    exact Nat.div_le_div_right hle

end Weighs

/-- What `update_active_committee_members` writes where the votes fit: no weight is cut, and
    neither is their sum. -/
theorem updateActiveCommitteeMembers_spec (active : Authority K H)
    (hl : ((guards l).map (·.account)).Nodup) (hvotes : ∃ g ∈ guards l, g.votes ≠ 0)
    (hfits : Fits (guards l)) :
    Weighs (guards l) (updateActiveCommitteeMembers l active) ∧
      (updateActiveCommitteeMembers l active).weightThreshold =
        scaledSum (guards l) / 2 + 1 := by
  have hcount := counted_foldl (K := K) (H := H) hl ⟨0, [], [], []⟩ rfl
  have hlen : (guards l).length ≤ 15 := length_take_le _ _
  have hle := scaledSum_le hfits
  have hpos := scaledSum_pos hvotes
  have htotal := hcount.total
  rw [← scaledSum, Nat.mod_eq_of_lt (by omega)] at htotal
  obtain ⟨g, hg, -⟩ := hvotes
  unfold Weighs updateActiveCommitteeMembers VoteCounter.finish
  rw [if_neg (ne_nil_of_mem hg), htotal, if_neg (by omega)]
  refine ⟨hcount.auths.trans ?_, ?_⟩
  · refine map_congr_left fun g hg => ?_
    rw [Nat.mod_eq_of_lt (scaled_lt hfits (mem_of_mem_filter hg))]
  · dsimp only
    omega

end HyperExchange.Committee
