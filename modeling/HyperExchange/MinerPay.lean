/-
  **Paying the citizen of a block does not fail in a round** whose weights fit.

  `exactWeight` is the weight of a citizen without a bound on numbers.  If it fits into 128
  bits, the weight of the source is the exact one (`weigh_exact`).  The locks to a citizen add
  up to its totals, asset by asset, and the worth of a total is at least the worth of its
  locks one by one, so what the locks put aside are worth never exceeds the weight
  (`worth_le_weight`).  The shares of the owners then stay below what there is to share.

  Nothing that happens in a round touches what was put aside at its beginning.
-/
import HyperExchange.MinerSchedule

namespace HyperExchange.Rounds

open Execution Fees Keyed OrderedMap List Option Table
open Locks Rounding

variable {H : Type} {n : Int}

/-! ### Numbers -/

theorem u128_of (h : 0 ≤ n) (h' : n < 2 ^ 63) : u128 n = n.toNat := by
  unfold u128
  rw [Int.emod_eq_of_lt h (by omega)]

theorem u256_le (h : 0 ≤ n) : u256 n ≤ n.toNat := by
  unfold u256
  omega

theorem u256_of (h : 0 ≤ n) (h' : n < 2 ^ 63) : u256 n = n.toNat := by
  unfold u256
  rw [Int.emod_eq_of_lt h (by omega)]

/-! ### Exact weights -/

namespace State

def value (s : State H) (x : Asset) : Nat :=
  let p := (s.currentFeed x.assetId).settlementPrice
  if x.assetId = coreAsset then x.amount.toNat
  else if isNull p then 0
  else x.amount.toNat * p.quote.amount.toNat / p.base.amount.toNat

def exactWeight (s : State H) (m : Miner) : Nat :=
  100 * (s.totalProduced m.id + 1) +
    (m.lockbalanceTotal.entries.map fun entry => s.value entry.2).sum

/-- The weights of the active citizens fit into 128 bits, and the totals into 64. -/
structure Fits (s : State H) : Prop where
  totals : ∀ miner ∈ s.activeWitnesses, ∀ m, s.miners.find miner = some m →
    ∀ entry ∈ m.lockbalanceTotal.entries, 0 ≤ entry.2.amount ∧ entry.2.amount < 2 ^ 63
  weights : ∀ miner ∈ s.activeWitnesses, ∀ m, s.miners.find miner = some m →
    s.exactWeight m < 2 ^ 128

variable {reg : Money.Registry H} {s s' : State H} {random : Nat → Nat} {feeds : OMap Nat Feed}

/-- In range, the arithmetic of 128 bits is exact. -/
theorem addWeight_exact {weight weight' : Nat} {x : Asset} (hx : 0 ≤ x.amount ∧ x.amount < 2 ^ 63)
    (hfits : weight + s.value x < 2 ^ 128) (h : s.addWeight reg weight x = some weight') :
    weight' = weight + s.value x := by
  unfold addWeight at h
  unfold value at hfits ⊢
  dsimp only at h hfits ⊢
  split at h
  · split at h
    · rename_i hcore
      rw [if_pos hcore] at hfits ⊢
      cases h
      split
      · rw [u128_of hx.1 hx.2, Nat.mod_eq_of_lt hfits]
      · omega
    · rename_i hcore
      rw [if_neg hcore] at hfits ⊢
      split at h
      · rename_i hnull
        rw [if_pos hnull]
        exact (Option.some.inj h).symm
      · rename_i hnull
        rw [if_neg hnull] at hfits ⊢
        cases h
        obtain ⟨⟨hbase, hbase'⟩, hquote, hquote'⟩ :=
          (s.currentFeed x.assetId).valid.resolve_left hnull
        rw [u128_of hx.1 hx.2, u128_of hquote.le hquote', u128_of hbase.le hbase']
        have hproduct : x.amount.toNat *
            (s.currentFeed x.assetId).settlementPrice.quote.amount.toNat < 2 ^ 128 := by
          have hle := Nat.mul_le_mul (show x.amount.toNat ≤ 2 ^ 63 by omega)
            (show (s.currentFeed x.assetId).settlementPrice.quote.amount.toNat ≤ 2 ^ 63 by omega)
          omega
        rw [Nat.mod_eq_of_lt hproduct, Nat.mod_eq_of_lt hfits]
  · cases h

theorem weigh_exact {m : Miner} {weight : Nat}
    (htotals : ∀ entry ∈ m.lockbalanceTotal.entries,
      0 ≤ entry.2.amount ∧ entry.2.amount < 2 ^ 63)
    (hfits : s.exactWeight m < 2 ^ 128) (h : s.weigh reg m = some weight) :
    weight = s.exactWeight m := by
  unfold exactWeight at hfits ⊢
  have hstart : 100 * (s.totalProduced m.id + 1) % 2 ^ 128 = 100 * (s.totalProduced m.id + 1) :=
    Nat.mod_eq_of_lt (by omega)
  refine foldlM_invariant (fun done weight => weight = 100 * (s.totalProduced m.id + 1) +
    (done.map fun entry => s.value entry.2).sum) hstart ?_ h
  intro done entry rest weight next hl hweight hnext
  have hmem := mem_of_split hl
  rw [hl, map_append, sum_append, map_cons, sum_cons] at hfits
  rw [addWeight_exact (htotals entry hmem) (by omega) hnext, map_append, sum_append,
    map_singleton, sum_singleton]
  omega

/-! ### The weights of all active citizens -/

theorem updateWeights_spec (h : s.updateWeights reg = some s') :
    ∃ f, s' = { s with pledgeWeight := f } ∧ ∀ miner ∈ s.activeWitnesses, ∃ m,
      s.miners.find miner = some m ∧ s.weigh reg m = some (f miner) := by
  refine foldlM_invariant (fun done (t : State H) => ∃ f, t = { s with pledgeWeight := f } ∧
    ∀ miner ∈ done, ∃ m, s.miners.find miner = some m ∧ s.weigh reg m = some (f miner))
    ⟨s.pledgeWeight, rfl, nofun⟩ ?_ h
  rintro done miner rest _ t' hl ⟨f, rfl, hdone⟩ ht'
  obtain ⟨m, weight, hm, hweight, ht'⟩ := bind_bind_eq_some ht'
  cases ht'
  refine ⟨_, rfl, fun miner' hminer' => ?_⟩
  by_cases hsame : miner' = miner
  · rw [if_pos hsame, hsame]
    exact ⟨m, hm, hweight⟩
  · rw [if_neg hsame]
    exact hdone miner' ((mem_append.mp hminer').resolve_right fun h =>
      hsame (mem_singleton.mp h))

/-! ### The drawing -/

variable {l : List (Nat × Nat)}

/-- The candidates are active citizens, in the order of the schedule. -/
theorem candidates_sublist (h : s.candidates reg = some l) :
    (l.map Prod.fst).Sublist s.activeWitnesses := by
  refine foldlM_invariant (fun done (l : List (Nat × Nat)) => (l.map Prod.fst).Sublist done)
    (List.Sublist.refl _) ?_ h
  intro done miner rest l l' hl hsublist hl'
  obtain ⟨m, account, _, _, hl'⟩ := bind_bind_eq_some hl'
  split at hl'
  · cases hl'
    exact hsublist.trans (sublist_append_left _ _)
  · cases hl'
    rw [map_append]
    exact hsublist.append_right [miner]

/-- Nobody is drawn twice. -/
theorem draw_subperm {n : Nat} {totalWeight : Nat} {miners : List Nat}
    (h : draw n random l totalWeight = some miners) : miners.Subperm (l.map Prod.fst) := by
  induction n generalizing random l totalWeight miners with
  | zero =>
    cases h
    exact nil_subperm
  | succ n ih =>
    unfold draw at h
    split at h
    · cases h
    · obtain ⟨drawn, hdrawn, h⟩ := bind_eq_some_iff.mp h
      obtain ⟨rest, hrest, rfl⟩ := map_eq_some_iff.mp h
      have hperm := (perm_pick hdrawn).map Prod.fst
      exact ((subperm_cons drawn.1).mpr (ih hrest)).trans hperm.subperm

theorem shuffle_spec (h : s.shuffle reg random = some s') :
    ∃ miners, s' = { s with currentShuffledMiners := miners } ∧ miners.Nodup ∧
      ∀ miner ∈ miners, miner ∈ s.activeWitnesses := by
  obtain ⟨l, miners, hl, hminers, h⟩ := bind_bind_eq_some h
  cases h
  obtain ⟨m, hperm, hsublist⟩ := (draw_subperm hminers).trans (candidates_sublist hl).subperm
  refine ⟨miners, rfl, hperm.nodup_iff.mp (s.activeOnce.sublist hsublist), fun miner hminer => ?_⟩
  exact hsublist.subset (hperm.mem_iff.mpr hminer)

/-! ### What is put aside -/

variable {l : List LockBalance}

theorem find_cache {miners : List Nat} (hminers : miners.Nodup) {miner : Nat}
    (h : (miners.foldl (fun cache miner => s.addToCache cache miner)
      OMap.empty).find miner = some l) : miner ∈ miners ∧ l = s.locksTo miner := by
  refine foldl_invariant (fun done (cache : OMap Nat (List LockBalance)) => ∀ miner l,
    cache.find miner = some l → miner ∈ done ∧ l = s.locksTo miner) ?_ ?_ miner l h
  · intro miner l hl
    cases hl
  intro done first rest cache hl hcache miner l hfind
  unfold addToCache at hfind
  split at hfind
  · obtain ⟨hmem, heq⟩ := hcache miner l hfind
    exact ⟨mem_append_left _ hmem, heq⟩
  rw [OMap.find_insert] at hfind
  split at hfind
  · -- it was not there before
    rename_i hsame
    have hnew : cache.find first = none := by
      rw [eq_none_iff_forall_ne_some]
      intro l' hl'
      rw [hl, nodup_append] at hminers
      exact hminers.2.2 first (hcache first l' hl').1 first mem_cons_self rfl
    rw [hnew] at hfind
    cases hfind
    rw [hsame]
    exact ⟨mem_append_right _ (mem_singleton_self _), rfl⟩
  · obtain ⟨hmem, heq⟩ := hcache miner l hfind
    exact ⟨mem_append_left _ hmem, heq⟩

theorem find_feeds {assets : List Nat} (h : assets.foldlM (fun feeds a =>
      if (reg.symbol a).isSome then some (feeds.insert a (s.currentFeed a)) else none)
      OMap.empty = some feeds) {a : Nat} (ha : a ∈ assets) :
    (reg.symbol a).isSome = true ∧ feeds.find a = some (s.currentFeed a) := by
  refine foldlM_invariant (fun done (feeds : OMap Nat Feed) => ∀ a ∈ done,
    (reg.symbol a).isSome = true ∧ feeds.find a = some (s.currentFeed a)) nofun ?_ h a ha
  intro done first rest feeds feeds' _ hdone hfeeds' a ha
  rw [ite_none_right_eq_some] at hfeeds'
  obtain ⟨hsymbol, heq⟩ := hfeeds'
  cases heq
  rw [OMap.find_insert]
  by_cases hsame : a = first
  · rw [if_pos hsame, hsame]
    exact ⟨hsymbol, rfl⟩
  · rw [if_neg hsame]
    exact hdone a ((mem_append.mp ha).resolve_right fun h => hsame (mem_singleton.mp h))

/-! ### What the locks are worth -/

/-- What a lock adds to the weighted sum of `pay_miner`. -/
def countedWorth (feeds : OMap Nat Feed) (o : LockBalance) : Nat :=
  match feeds.find o.lockAssetId with
  | none => 0
  | some feed => if counts o feed.settlementPrice then worth o feed.settlementPrice else 0

/-- A lock counts for its worth at the current price, or for less. -/
theorem countedWorth_le {o : LockBalance}
    (hfeed : feeds.find o.lockAssetId = some (s.currentFeed o.lockAssetId))
    (ho : 0 ≤ o.lockAssetAmount) : countedWorth feeds o ≤ s.value o.getLockBalance := by
  unfold countedWorth
  rw [hfeed]
  dsimp only
  split
  · rename_i hcounts
    unfold worth value
    show _ ≤ if o.lockAssetId = coreAsset then o.lockAssetAmount.toNat
      else if isNull (s.currentFeed o.lockAssetId).settlementPrice then 0
      else o.lockAssetAmount.toNat * _ / _
    by_cases hcore : o.lockAssetId = coreAsset
    · rw [if_pos hcore, if_pos hcore]
      exact u256_le ho
    · have hnull : ¬ isNull (s.currentFeed o.lockAssetId).settlementPrice = true := by
        unfold counts at hcounts
        rw [decide_eq_false hcore, Bool.false_or, Bool.and_eq_true, Bool.not_eq_true'] at hcounts
        rw [hcounts.1]
        exact Bool.false_ne_true
      obtain ⟨⟨hbase, hbase'⟩, hquote, hquote'⟩ :=
        (s.currentFeed o.lockAssetId).valid.resolve_left hnull
      rw [if_neg hcore, if_neg hcore, if_neg hnull, u256_of hquote.le hquote',
        u256_of hbase.le hbase']
      exact Nat.div_le_div_right ((Nat.mod_le _ _).trans (Nat.mul_le_mul_right _ (u256_le ho)))
  · exact Nat.zero_le _

theorem sum_value_le (l : List LockBalance) {a : Nat} {n : Int}
    (hl : ∀ o ∈ l, o.lockAssetId = a)
    (hn : (l.map fun o => o.lockAssetAmount.toNat).sum = n.toNat) :
    (l.map fun o => s.value o.getLockBalance).sum ≤ s.value ⟨n, a⟩ := by
  have hvalue : (l.map fun o => s.value o.getLockBalance) =
      l.map fun o => s.value ⟨o.lockAssetAmount, a⟩ :=
    map_congr_left fun o ho => by rw [← hl o ho]; rfl
  rw [hvalue]
  unfold value
  by_cases hcore : a = coreAsset
  · simp only [if_pos hcore]
    exact hn.le
  · simp only [if_neg hcore]
    split
    · simp
    · rw [← hn]
      exact sum_div_le l _ _ _

omit reg s' in
theorem sum_amounts (l : List LockBalance) (hl : ∀ o ∈ l, 0 ≤ o.lockAssetAmount) (a : Nat) :
    ((l.filter fun o => decide (o.lockAssetId = a)).map fun o => o.lockAssetAmount.toNat).sum =
      (l.map fun o : LockBalance => o.getLockBalance.of a).sum.toNat := by
  have hcast : ((((l.filter fun o => decide (o.lockAssetId = a)).map
      fun o => o.lockAssetAmount.toNat).sum : Nat) : Int) =
        (l.map fun o => o.getLockBalance.of a).sum := by
    induction l with
    | nil => rfl
    | cons o l ih =>
      have ho := hl o mem_cons_self
      have hrest := ih fun x hx => hl x (mem_cons_of_mem o hx)
      have hof : o.getLockBalance.of a = if a = o.lockAssetId then o.lockAssetAmount else 0 := rfl
      rw [map_cons, sum_cons, ← hrest, hof]
      by_cases ha : o.lockAssetId = a
      · rw [filter_cons_of_pos (by simp [ha]), if_pos ha.symm, map_cons, sum_cons]
        push_cast
        omega
      · rw [filter_cons_of_neg (by simp [ha]), if_neg fun h => ha h.symm]
        omega
  omega

/-- **The locks to a citizen are worth at most its totals.** -/
theorem worth_le_totals {miner : Nat} {m : Miner}
    (htotals : Shows reg.toRegistry m.lockbalanceTotal fun a => lockedTo miner a s.toState)
    (hnonneg : NonNegative s.toState)
    (hfeeds : ∀ o ∈ s.locksTo miner, (reg.symbol o.lockAssetId).isSome = true ∧
      feeds.find o.lockAssetId = some (s.currentFeed o.lockAssetId)) :
    ((s.locksTo miner).map (countedWorth feeds)).sum ≤
      (m.lockbalanceTotal.entries.map fun entry => s.value entry.2).sum := by
  have hpositive : ∀ o ∈ s.locksTo miner, 0 ≤ o.lockAssetAmount := fun o ho =>
    hnonneg o (mem_filter.mp ho).1
  have hlocked : ∀ a, ((s.locksTo miner).map fun o => o.getLockBalance.of a).sum =
      lockedTo miner a s.toState := by
    intro a
    have hinfo := sum_lockbalanceInfo miner a s.toState
    unfold getCitizenLockbalanceInfo at hinfo
    rw [List.map_map] at hinfo
    exact hinfo
  -- each asset for itself
  have hgroups := sum_le_of_groups (s.locksTo miner) LockBalance.lockAssetId (countedWorth feeds)
    (fun a => s.value ⟨lockedTo miner a s.toState, a⟩)
    (s := ((s.locksTo miner).map LockBalance.lockAssetId).toFinset)
    (fun o ho => List.mem_toFinset.mpr (List.mem_map_of_mem ho)) (by
      intro a _
      refine (sum_le_sum fun o ho => ?_).trans (sum_value_le _ ?_ ?_)
      · have hmem := (mem_filter.mp ho).1
        exact countedWorth_le (hfeeds o hmem).2 (hpositive o hmem)
      · intro o ho
        exact of_decide_eq_true (mem_filter.mp ho).2
      · rw [sum_amounts _ hpositive, hlocked])
  -- the totals have an entry for each of them
  refine hgroups.trans (sum_le_of_entries m.lockbalanceTotal.entries (fun entry => entry.2.assetId)
    (fun entry => s.value entry.2) _ _ ?_)
  intro a ha
  obtain ⟨o, ho, rfl⟩ := List.mem_map.mp (List.mem_toFinset.mp ha)
  obtain ⟨sym, hsym⟩ := isSome_iff_exists.mp (hfeeds o ho).1
  have hshows := htotals o.lockAssetId sym hsym
  cases hfind : m.lockbalanceTotal.find sym with
  | none =>
    rw [hfind] at hshows
    have hzero : lockedTo miner o.lockAssetId s.toState = 0 := hshows
    left
    unfold value
    simp [hzero]
  | some t =>
    rw [hfind] at hshows
    have ht : t = ⟨lockedTo miner o.lockAssetId s.toState, o.lockAssetId⟩ := hshows
    right
    refine ⟨(sym, t), (OMap.mem_entries_iff _ _ _).mpr hfind, ?_, ?_⟩
    · rw [ht]
    · rw [ht]

/-! ### Sharing -/

/-- What a tally has paid so far: the sum of the payments, each to an owner of one of the
    locks. -/
structure Paid (l : List LockBalance) (t : Tally) : Prop where
  sum : (t.owners.map Prod.snd).sum = t.allPledgePaid
  owners : ∀ x ∈ t.owners, ∃ o ∈ l, o.lockBalanceAccount = x.1

variable {pledgePay allPledge : Nat}

theorem payLock_spec {t : Tally} {o : LockBalance}
    (hpay : pledgePay < 2 ^ 64) (hpledge : allPledge < 2 ^ 128)
    (hpositive : 0 < allPledge) (ho : o ∈ l) (ht : Paid l t)
    (hfeed : (feeds.find o.lockAssetId).isSome = true)
    (hcur : t.curPledge + countedWorth feeds o ≤ allPledge)
    (hpaid : t.allPledgePaid + pledgePay * countedWorth feeds o / allPledge ≤ pledgePay) :
    ∃ t', payLock feeds pledgePay allPledge t o = some t' ∧ Paid l t' ∧
      t'.curPledge = t.curPledge + countedWorth feeds o ∧
      t'.allPledgePaid = t.allPledgePaid + pledgePay * countedWorth feeds o / allPledge := by
  obtain ⟨feed, hfeed⟩ := isSome_iff_exists.mp hfeed
  unfold payLock
  unfold countedWorth at hcur hpaid ⊢
  rw [hfeed] at hcur hpaid ⊢
  dsimp only [bind_some] at hcur hpaid ⊢
  by_cases hcounts : counts o feed.settlementPrice = true
  · rw [if_pos hcounts] at hcur hpaid ⊢
    rw [if_pos hcounts, if_neg hpositive.ne']
    generalize worth o feed.settlementPrice = w at hcur hpaid ⊢
    have hproduct : pledgePay * w < 2 ^ 256 := by
      have hle := Nat.mul_le_mul hpay.le (show w ≤ 2 ^ 128 by omega)
      omega
    rw [Nat.mod_eq_of_lt hproduct,
      Nat.mod_eq_of_lt (show pledgePay * w / allPledge < 2 ^ 64 by omega),
      Nat.mod_eq_of_lt (show t.allPledgePaid + pledgePay * w / allPledge < 2 ^ 64 by omega),
      Nat.mod_eq_of_lt (show t.curPledge + w < 2 ^ 256 by omega)]
    refine ⟨_, rfl, ⟨?_, ?_⟩, rfl, rfl⟩
    · rw [map_append, sum_append, ht.sum]
      rfl
    · exact forall_mem_append.mpr ⟨ht.owners, forall_mem_singleton.mpr ⟨o, ho, rfl⟩⟩
  · rw [if_neg hcounts, if_neg hcounts]
    refine ⟨t, rfl, ht, rfl, ?_⟩
    rw [Nat.mul_zero, Nat.zero_div, Nat.add_zero]

/-- All locks of a citizen together are paid no more than the part for pledges. -/
theorem payLocks_spec (hpay : pledgePay < 2 ^ 64)
    (hpledge : allPledge < 2 ^ 128) (hpositive : 0 < allPledge)
    (hfeeds : ∀ o ∈ l, (feeds.find o.lockAssetId).isSome = true)
    (hworth : (l.map (countedWorth feeds)).sum ≤ allPledge) :
    ∃ t, l.foldlM (payLock feeds pledgePay allPledge) ⟨0, 0, []⟩ = some t ∧ Paid l t ∧
      t.curPledge ≤ allPledge ∧ t.allPledgePaid ≤ pledgePay := by
  have hshares := sum_shares_le l (countedWorth feeds) pledgePay hworth
  obtain ⟨t, ht, hpaid, hcur, hsum⟩ := foldlM_some (f := payLock feeds pledgePay allPledge)
    (fun done t => Paid l t ∧ t.curPledge = (done.map (countedWorth feeds)).sum ∧
      t.allPledgePaid = (done.map fun o => pledgePay * countedWorth feeds o / allPledge).sum)
    (l := l) (s := ⟨0, 0, []⟩) ⟨⟨rfl, nofun⟩, rfl, rfl⟩ (by
      rintro done o rest t hl ⟨hpaid, hcur, hsum⟩
      have ho := mem_of_split hl
      rw [hl, map_append, sum_append, map_cons, sum_cons] at hworth hshares
      obtain ⟨next, hnext, hnextPaid, hcurNext, hsumNext⟩ :=
        payLock_spec hpay hpledge hpositive ho hpaid (hfeeds o ho) (by omega) (by omega)
      refine ⟨next, hnext, hnextPaid, ?_, ?_⟩
      · rw [hcurNext, hcur, map_append, sum_append, map_singleton,
          sum_singleton]
      · rw [hsumNext, hsum, map_append, sum_append, map_singleton,
          sum_singleton])
  exact ⟨t, ht, hpaid, hcur.trans_le hworth, hsum.trans_le hshares⟩

/-! ### A round -/

/-- What was put aside can be paid: every cached lock has a price, and the locks of a citizen
    are worth no more than its weight. -/
structure Sound (s : State H) : Prop where
  feeds : ∀ miner l, s.currentRoundLockbalanceCache.find miner = some l →
    ∀ o ∈ l, (s.currentPriceFeed.find o.lockAssetId).isSome = true
  weights : ∀ miner l, s.currentRoundLockbalanceCache.find miner = some l →
    (0 < s.pledgeWeight miner ∧ s.pledgeWeight miner < 2 ^ 128) ∧
      (l.map (countedWorth s.currentPriceFeed)).sum ≤ s.pledgeWeight miner

/-- The weighted sum stays below the weight, and what the owners do not get is left for the
    citizen. -/
structure PlanOk (p : Pay) (s : State H) (plan : Plan) : Prop where
  weighted : plan.curPledge ≤ s.pledgeWeight p.miner
  left : 0 ≤ plan.left
  sum : ((plan.owners.map Prod.snd).sum : Int) + plan.left = p.reward * 50 / 100 + p.trxfee
  owners : ∀ x ∈ plan.owners, ∃ l, s.currentRoundLockbalanceCache.find p.miner = some l ∧
    ∃ o ∈ l, o.lockBalanceAccount = x.1

theorem allPaid_eq {p : Pay} {allPaid : Nat} (h : p.allPaid = some allPaid) :
    allPaid < 2 ^ 63 ∧ allPaid = p.reward * 50 / 100 + p.trxfee := by
  unfold Pay.allPaid at h
  split at h
  · rename_i hrange
    cases h
    exact ⟨hrange.2, rfl⟩
  · cases h

/-- The part of the citizen itself is taken out of what is paid. -/
theorem pledgePay_le (s : State H) (allPaid : Nat) (m : Miner) :
    s.pledgePay allPaid m ≤ allPaid := by
  refine Nat.div_le_of_le_mul ((Nat.mod_le _ _).trans ?_)
  rw [Nat.mul_comm 100]
  exact Nat.mul_le_mul_left allPaid (Nat.sub_le _ _)

theorem Sound.payPlan {p : Pay} (hs : s.Sound) (hp : p.allPaid.isSome = true) (m : Miner) :
    ∃ plan, s.payPlan p m = some plan ∧ PlanOk p s plan := by
  obtain ⟨allPaid, hp⟩ := isSome_iff_exists.mp hp
  obtain ⟨hallPaid, hsum⟩ := allPaid_eq hp
  have hpledgePay := pledgePay_le s allPaid m
  unfold State.payPlan
  rw [hp, bind_some]
  cases hcache : s.currentRoundLockbalanceCache.find p.miner with
  | none =>
    refine ⟨_, rfl, Nat.zero_le _, Int.natCast_nonneg _, ?_, nofun⟩
    rw [hsum]
    simp
  | some l =>
    obtain ⟨⟨hpositive, hfits⟩, hworth⟩ := hs.weights p.miner l hcache
    obtain ⟨t, ht, hpaid, hcur, hle⟩ :=
      payLocks_spec (show s.pledgePay allPaid m < 2 ^ 64 by omega) hfits hpositive
        (hs.feeds p.miner l hcache) hworth
    -- the owners get no more than what there is to share
    have hleft : signed ((allPaid + 2 ^ 64 - t.allPledgePaid) % 2 ^ 64) =
        allPaid - t.allPledgePaid := by
      unfold signed
      rw [if_pos (by omega)]
      omega
    dsimp only
    rw [ht, bind_some, if_pos hcur, hleft]
    refine ⟨_, rfl, hcur, ?_, ?_, ?_⟩
    · dsimp only
      omega
    · dsimp only
      rw [hpaid.sum]
      omega
    · intro x hx
      exact ⟨l, hcache, hpaid.owners x hx⟩

/-! ### Nothing in a round touches what was put aside -/

structure SameRound (s s' : State H) : Prop where
  cache : s'.currentRoundLockbalanceCache = s.currentRoundLockbalanceCache
  feeds : s'.currentPriceFeed = s.currentPriceFeed
  weights : s'.pledgeWeight = s.pledgeWeight

theorem SameRound.refl (s : State H) : SameRound s s := ⟨rfl, rfl, rfl⟩

theorem SameRound.trans {s₁ s₂ s₃ : State H} (h : SameRound s₁ s₂) (h' : SameRound s₂ s₃) :
    SameRound s₁ s₃ :=
  ⟨h'.cache.trans h.cache, h'.feeds.trans h.feeds, h'.weights.trans h.weights⟩

theorem Sound.of_sameRound (hs : s.Sound) (h : SameRound s s') : s'.Sound := by
  refine ⟨?_, ?_⟩
  · rw [h.cache, h.feeds]
    exact hs.feeds
  · rw [h.cache, h.feeds, h.weights]
    exact hs.weights

section Steps

variable [DecidableEq H] [Inhabited H]

theorem act_sameRound (a : Action H) : SameRound s (s.act reg a) := by
  cases a with
  | money | feed => exact ⟨rfl, rfl, rfl⟩

theorem beforePay_sameRound (b : Block H) : SameRound s (s.beforePay reg b) := by
  have h : SameRound s (b.actions.foldl (act reg) s) :=
    foldl_invariant (fun _ t => SameRound s t) (.refl s) fun _ h => h.trans (act_sameRound _)
  exact ⟨h.cache, h.feeds, h.weights⟩

variable {firstContract : Address H}

theorem payMiner_sameRound {p : Pay}
    (h : s.payMiner reg firstContract p = some s') : SameRound s s' := by
  obtain ⟨m, guards, _, _, h⟩ := bind_bind_eq_some h
  obtain ⟨plan, t, _, _, h⟩ := bind_bind_eq_some h
  obtain ⟨t', supply, _, _, h⟩ := bind_bind_eq_some h
  cases h
  exact ⟨rfl, rfl, rfl⟩

/-- Until the next schedule no block changes what payments are computed from. -/
theorem run_sameRound (blocks : List (Block H))
    (h : s.run reg firstContract blocks = some s') : SameRound s s' := by
  refine foldlM_invariant (fun _ t => SameRound s t) (.refl s) ?_ h
  intro done b rest t t' _ hsame ht'
  exact hsame.trans ((beforePay_sameRound b).trans (payMiner_sameRound ht'))

end Steps

/-! ### The beginning of a round -/

/-- **What the schedule puts aside can be paid.** -/
theorem updateMinerSchedule_sound (htotals : TotalsAgree reg.toRegistry s.toMoney.toState)
    (hnonneg : NonNegative s.toMoney.toState) (hfits : s.Fits)
    (h : s.updateMinerSchedule reg random = some s') : s'.Sound := by
  obtain ⟨s₁, s₂, h₁, h₂, h⟩ := bind_bind_eq_some h
  obtain ⟨f, rfl, hweights⟩ := updateWeights_spec h₁
  obtain ⟨miners, rfl, hnodup, hactive⟩ := shuffle_spec h₂
  obtain ⟨feeds, hfeeds, h⟩ := bind_eq_some_iff.mp h
  cases h
  have hfound : ∀ miner ∈ miners, ∀ o ∈ s.locksTo miner,
      (reg.symbol o.lockAssetId).isSome = true ∧
        feeds.find o.lockAssetId = some (s.currentFeed o.lockAssetId) := by
    intro miner hminer o ho
    exact find_feeds hfeeds (mem_flatMap.mpr ⟨miner, hminer, List.mem_map_of_mem ho⟩)
  refine ⟨?_, ?_⟩
  · intro miner l hl o ho
    obtain ⟨hminer, rfl⟩ := find_cache hnodup hl
    exact isSome_iff_exists.mpr ⟨_, (hfound miner hminer o ho).2⟩
  · intro miner l hl
    obtain ⟨hminer, rfl⟩ := find_cache hnodup hl
    obtain ⟨m, hm, hweight⟩ := hweights miner (hactive miner hminer)
    have hexact : f miner = s.exactWeight m :=
      weigh_exact (hfits.totals miner (hactive miner hminer) m hm)
        (hfits.weights miner (hactive miner hminer) m hm) hweight
    have hfitsWeight := hfits.weights miner (hactive miner hminer) m hm
    have hworth := worth_le_totals (s := s) (htotals miner m hm) hnonneg (hfound miner hminer)
    refine ⟨⟨?_, ?_⟩, ?_⟩
    · show 0 < f miner
      rw [hexact]
      unfold exactWeight
      omega
    · show f miner < 2 ^ 128
      rw [hexact]
      exact hfitsWeight
    · show _ ≤ f miner
      rw [hexact]
      exact hworth.trans (Nat.le_add_left _ _)

/-! ### The payments -/

/-- Every pay-back can take `n` more. -/
structure Room (n : Int) (t : Money.State H) : Prop where
  within : n < 2 ^ 63
  payBacks : ∀ o ∈ t.payBacks.rows, o.oneOwnerBalance.assetId = coreAsset ∧
    0 ≤ o.oneOwnerBalance.amount ∧ o.oneOwnerBalance.amount + n < 2 ^ 63

section Payments

variable {n : Int} {t : Money.State H}

theorem sum_cast (l : List (Nat × Nat)) :
    ((l.map fun x => (x.1, (x.2 : Int))).map Prod.snd).sum = ((l.map Prod.snd).sum : Nat) := by
  rw [List.map_map, Nat.cast_list_sum, List.map_map]
  rfl

theorem guardShares_spec {p : Pay} (hguards : s.guardMembers ≠ []) :
    ∃ guards, s.guardShares p = some guards ∧ (guards.map Prod.snd).sum = p.reward * 30 / 100 ∧
      ∀ x ∈ guards, x.1 ∈ s.guardMembers := by
  unfold guardShares
  rw [List.getLast?_eq_some_getLast hguards]
  refine ⟨_, rfl, ?_, ?_⟩
  · rw [map_append, sum_append, List.map_map]
    have hconst : (Prod.snd ∘ fun account : Nat =>
        (account, p.reward * 30 / 100 / s.guardMembers.length)) =
          Function.const Nat (p.reward * 30 / 100 / s.guardMembers.length) := rfl
    rw [hconst, map_const, sum_replicate_nat, length_dropLast]
    have hle : (s.guardMembers.length - 1) * (p.reward * 30 / 100 / s.guardMembers.length) ≤
        p.reward * 30 / 100 :=
      (Nat.mul_le_mul_right _ (Nat.sub_le _ 1)).trans (Nat.mul_div_le _ _)
    exact Nat.add_sub_of_le hle
  · exact forall_mem_append.mpr ⟨forall_mem_map.mpr fun _ => mem_of_mem_dropLast,
      forall_mem_singleton.mpr (getLast_mem hguards)⟩

variable [DecidableEq H]

theorem adjustPayBackBalance_room (hcore : (reg.symbol coreAsset).isSome = true)
    (hroom : Room n t) {amount : Int} (hamount : 0 ≤ amount) (hle : amount ≤ n)
    (owner : Address H) (miner : Nat) :
    ∃ t', t.adjustPayBackBalance reg owner ⟨amount, coreAsset⟩ miner = some t' ∧
      Room (n - amount) t' ∧ t'.currentSupply = t.currentSupply := by
  have hwithin := hroom.within
  unfold Money.State.adjustPayBackBalance
  by_cases hzero : amount = 0
  · rw [if_pos hzero, hzero, Int.sub_zero]
    exact ⟨t, rfl, hroom, rfl⟩
  · rw [if_neg hzero, if_pos hcore]
    cases hfind : t.payBacks.find (owner.addr, miner) with
    | none =>
      dsimp only
      rw [if_pos (by omega)]
      have hnone : t.payBacks.find (Money.PayBack.key ⟨owner, miner, ⟨amount, coreAsset⟩⟩) = none :=
        hfind
      unfold Table.insert
      rw [dif_pos hnone]
      refine ⟨_, rfl, ⟨by omega, ?_⟩, rfl⟩
      intro o ho
      rcases mem_append.mp ho with ho | ho
      · obtain ⟨hasset, hnonneg, hmore⟩ := hroom.payBacks o ho
        exact ⟨hasset, hnonneg, by omega⟩
      · obtain rfl := mem_singleton.mp ho
        exact ⟨rfl, hamount, show amount + (n - amount) < 2 ^ 63 by omega⟩
    | some old =>
      obtain ⟨hasset, hnonneg, hmore⟩ := hroom.payBacks old (mem_of_find hfind)
      unfold Asset.add share
      dsimp only
      rw [if_pos hasset, if_pos (by omega)]
      refine ⟨_, rfl, ⟨by omega, ?_⟩, rfl⟩
      intro o ho
      have ho' := find_of_mem ho
      rw [find_modify] at ho'
      obtain ⟨before, hbefore, heq⟩ := map_eq_some_iff.mp ho'
      rw [← heq]
      split
      · exact ⟨hasset, show 0 ≤ old.oneOwnerBalance.amount + amount by omega,
          show old.oneOwnerBalance.amount + amount + (n - amount) < 2 ^ 63 by omega⟩
      · obtain ⟨hasset', hnonneg', hmore'⟩ := hroom.payBacks before (mem_of_find hbefore)
        exact ⟨hasset', hnonneg', by omega⟩

/-- As long as there is room for the sum, no single payment overflows. -/
theorem payAccounts_room (hcore : (reg.symbol coreAsset).isSome = true) (miner : Nat)
    (shares : List (Nat × Int)) (hroom : Room n t)
    (hshares : ∀ x ∈ shares, (reg.account x.1).isSome = true ∧ 0 ≤ x.2)
    (hsum : (shares.map Prod.snd).sum ≤ n) :
    ∃ t', shares.foldlM (payAccount reg miner) t = some t' ∧
      t'.currentSupply = t.currentSupply := by
  induction shares generalizing n t with
  | nil => exact ⟨t, rfl, rfl⟩
  | cons x shares ih =>
    rw [map_cons, sum_cons] at hsum
    obtain ⟨haccount, hnonneg⟩ := hshares x mem_cons_self
    have hrest : ∀ y ∈ shares, (reg.account y.1).isSome = true ∧ 0 ≤ y.2 := fun y hy =>
      hshares y (mem_cons_of_mem x hy)
    have hrestSum : 0 ≤ (shares.map Prod.snd).sum := sum_nonneg fun amount hamount => by
      obtain ⟨y, hy, rfl⟩ := List.mem_map.mp hamount
      exact (hrest y hy).2
    obtain ⟨account, haccount⟩ := isSome_iff_exists.mp haccount
    obtain ⟨next, hnext, hroomNext, hsupply⟩ :=
      adjustPayBackBalance_room hcore hroom hnonneg (by omega) account.addr miner
    obtain ⟨t', ht', hsupply'⟩ := ih hroomNext hrest (by omega)
    refine ⟨t', ?_, hsupply'.trans hsupply⟩
    have hpaid : payAccount reg miner t x = some next := by
      unfold payAccount
      rw [haccount]
      exact hnext
    rw [foldlM_cons, hpaid]
    exact ht'

variable [Inhabited H]

/-- Those who are paid have accounts, and no sum leaves the range of amounts. -/
structure Receivers (reg : Money.Registry H) (firstContract : Address H) (p : Pay) (s : State H) :
    Prop where
  core : (reg.symbol coreAsset).isSome = true
  citizen : ∃ m, s.miners.find p.miner = some m ∧ (reg.account m.minerAccount).isSome = true
  someGuard : s.guardMembers ≠ []
  guards : ∀ account ∈ s.guardMembers, (reg.account account).isSome = true
  owners : ∀ l, s.currentRoundLockbalanceCache.find p.miner = some l →
    ∀ o ∈ l, (reg.account o.lockBalanceAccount).isSome = true
  room : Room (p.reward + p.trxfee) s.toMoney
  develop : firstContract ≠ .null ∧ ∀ b, s.ledger.balances firstContract.addr coreAsset = some b →
    0 ≤ b.balance ∧ b.balance + p.reward < 2 ^ 63
  supply : 0 ≤ s.currentSupply coreAsset ∧ s.currentSupply coreAsset + p.reward < 2 ^ 63

theorem adjustBalance_some {addr : Address H} {amount : Nat} (haddr : addr ≠ .null)
    (hroom : ∀ b, t.ledger.balances addr.addr coreAsset = some b →
      0 ≤ b.balance ∧ b.balance + amount < 2 ^ 63) (hamount : (amount : Int) < 2 ^ 63) :
    ∃ l, t.adjustBalance addr ⟨amount, coreAsset⟩ = some (t.setLedger l) := by
  have hspend : 0 ≤ t.ledger.spendable addr.addr coreAsset ∧
      t.ledger.spendable addr.addr coreAsset + amount < 2 ^ 63 := by
    unfold Ledger.spendable
    cases hb : t.ledger.balances addr.addr coreAsset with
    | none => exact ⟨le_rfl, by rwa [Int.zero_add]⟩
    | some b => exact hroom b hb
  obtain ⟨l, hl⟩ := adjustBalance_returns (l := t.ledger) addr ⟨amount, coreAsset⟩
    (fun _ => haddr) (by
      show 0 ≤ t.ledger.spendable addr.addr coreAsset + amount
      omega) hspend.2
  exact ⟨l, by rw [Money.State.adjustBalance, hl]; rfl⟩

/-- **The citizen is paid**, if everybody can receive. -/
theorem Sound.payMiner {firstContract : Address H} {p : Pay} (hs : s.Sound)
    (hp : p.allPaid.isSome = true) (hr : Receivers reg firstContract p s) :
    (s.payMiner reg firstContract p).isSome = true := by
  obtain ⟨m, hm, haccount⟩ := hr.citizen
  obtain ⟨guards, hguards, hguardSum, hguardMem⟩ := guardShares_spec (p := p) hr.someGuard
  obtain ⟨plan, hplan, hok⟩ := hs.payPlan hp m
  have hroom : ∀ b, s.toMoney.ledger.balances firstContract.addr coreAsset = some b →
      0 ≤ b.balance ∧
        b.balance + (p.reward - p.reward * 30 / 100 - p.reward * 50 / 100 : Nat) < 2 ^ 63 := by
    intro b hb
    obtain ⟨hnonneg, hmore⟩ := hr.develop.2 b hb
    exact ⟨hnonneg, by omega⟩
  have hwithin := hr.room.within
  obtain ⟨l, hl⟩ := adjustBalance_some hr.develop.1 hroom (by omega)
  obtain ⟨t, ht, hsupply⟩ := payAccounts_room hr.core p.miner (t := s.toMoney.setLedger l)
    ((guards ++ plan.owners).map (fun x => (x.1, (x.2 : Int))) ++ [(m.minerAccount, plan.left)])
    ⟨hr.room.within, hr.room.payBacks⟩ (by
      intro x hx
      rcases mem_append.mp hx with hx | hx
      · obtain ⟨y, hy, rfl⟩ := List.mem_map.mp hx
        refine ⟨?_, Int.natCast_nonneg _⟩
        rcases mem_append.mp hy with hy | hy
        · exact hr.guards y.1 (hguardMem y hy)
        · obtain ⟨locks, hlocks, o, ho, heq⟩ := hok.owners y hy
          rw [← heq]
          exact hr.owners locks hlocks o ho
      · obtain rfl := mem_singleton.mp hx
        exact ⟨haccount, hok.left⟩) (by
      have hsum := hok.sum
      rw [map_append, sum_append, sum_cast, map_append, sum_append, hguardSum,
        map_singleton, sum_singleton]
      omega)
  have hfinal : share (t.currentSupply coreAsset + p.reward) =
      some (t.currentSupply coreAsset + p.reward) := by
    have hbefore : t.currentSupply coreAsset = s.currentSupply coreAsset :=
      congrFun hsupply coreAsset
    obtain ⟨hnonneg, hmore⟩ := hr.supply
    unfold share
    rw [if_pos (by omega)]
  unfold State.payMiner
  simp only [hm, hguards, hplan, hl, ht, hfinal, bind_eq_bind, bind_some,
    isSome_some]

end Payments

/-! ### Every block of a round -/

end State

def Pay.InRange (p : Pay) : Prop :=
  p.reward * 50 < 2 ^ 63 ∧ p.reward * 50 / 100 + p.trxfee < 2 ^ 63
deriving Decidable

theorem Pay.InRange.allPaid {p : Pay} (h : p.InRange) : p.allPaid.isSome = true := by
  unfold Pay.InRange at h
  unfold Pay.allPaid
  rw [if_pos h]
  rfl

namespace State

variable [DecidableEq H] [Inhabited H]

/-- The citizen of a block can be paid: every cached lock has a cached price, the weighted sum
    of the citizen's locks does not exceed its weight, what is left for it is not negative,
    and the block does not fail where everybody can receive. -/
structure PaysWell (reg : Money.Registry H) (firstContract : Address H) (p : Pay) (s : State H) :
    Prop where
  feeds : ∀ miner l, s.currentRoundLockbalanceCache.find miner = some l →
    ∀ o ∈ l, (s.currentPriceFeed.find o.lockAssetId).isSome = true
  plan : ∀ m, s.miners.find p.miner = some m → ∃ plan, s.payPlan p m = some plan ∧
    plan.curPledge ≤ s.pledgeWeight p.miner ∧ 0 ≤ plan.left
  paid : Receivers reg firstContract p s → (s.payMiner reg firstContract p).isSome = true

/-- **Paying the citizen never makes a block of the round fail**, whatever happens in the
    round, if the weights fit at its beginning. -/
theorem paysWell_in_round (reg : Money.Registry H) (firstContract : Address H)
    (random : Nat → Nat) (s₀ s₁ s : State H) (earlier : List (Block H)) (b : Block H)
    (htotals : TotalsAgree reg.toRegistry s₀.toMoney.toState)
    (hnonneg : NonNegative s₀.toMoney.toState) (hfits : s₀.Fits)
    (hschedule : s₀.updateMinerSchedule reg random = some s₁)
    (hrun : s₁.run reg firstContract earlier = some s) (hpay : b.pay.InRange) :
    PaysWell reg firstContract b.pay (s.beforePay reg b) := by
  have hstart := updateMinerSchedule_sound htotals hnonneg hfits hschedule
  have hsound : (s.beforePay reg b).Sound :=
    hstart.of_sameRound ((run_sameRound earlier hrun).trans (beforePay_sameRound b))
  refine ⟨hsound.feeds, ?_, hsound.payMiner hpay.allPaid⟩
  intro m _
  obtain ⟨plan, hplan, hok⟩ := hsound.payPlan hpay.allPaid m
  exact ⟨plan, hplan, hok.weighted, hok.left⟩

end State

/-! ### Two rounds

Citizens 0 to 24 are active.  Account 1 has locked the same amount of five assets to citizen 0;
all five have the same price. -/

def roundSymbols : List String := ["HX", "BTC", "LTC", "ETH", "BCH", "USDT"]

def roundRegistry : Money.Registry Nat where
  symbol a := roundSymbols[a]?
  accounts := ⟨(List.range 26).map fun i => ⟨i, ⟨Address.normal, i⟩⟩, by decide +kernel⟩
  permanentSenator _ := false
  isWhite _ := false
  owns _ _ := true
  symbol_unique := by
    intro a b sym ha hb
    exact (List.getElem?_inj (List.getElem?_eq_some_iff.mp ha).1 (by decide)).mp
      (ha.trans hb.symm)
  bySymbol sym := (List.range 6).find? fun a => roundSymbols[a]? = some sym
  bySymbol_iff := by
    intro sym a
    refine ⟨fun h => by simpa using List.find?_some h, fun h => ?_⟩
    obtain ⟨ha, rfl⟩ := List.getElem?_eq_some_iff.mp h
    have hall : ∀ a, (ha : a < roundSymbols.length) →
        (List.range 6).find? (fun x => roundSymbols[x]? = some roundSymbols[a]) = some a := by
      decide
    exact hall a ha
  name id := String.ofList (List.replicate id 'a')
  name_unique := by decide +kernel
  minPayBackBalance := 1
  minPayBackBalanceOtherAsset := .empty

def roundTotals (amount : Int) : OMap String Asset :=
  [1, 2, 3, 4, 5].foldl (fun m a => m.insert (roundSymbols.getD a "") ⟨amount, a⟩) .empty

def roundFeed (price : Int) (h : 0 < price ∧ price < 2 ^ 63) (a : Nat) : Feed where
  settlementPrice := ⟨⟨1, a⟩, ⟨price, coreAsset⟩⟩
  valid := .inr ⟨(by decide : (0 : Int) < 1 ∧ (1 : Int) < 2 ^ 63), h⟩

def roundStart (amount price : Int) (h : 0 < price ∧ price < 2 ^ 63) : State Nat where
  headBlockNum := 5000000
  ledger :=
    { balances := fun x a => if x = 1 ∧ a < 2 then some ⟨100, 0⟩ else none
      guarantees := fun _ => none
      collected := fun _ => 0 }
  locks := ⟨[1, 2, 3, 4, 5].map fun a => ⟨0, 1, a, amount⟩,
    (by decide : [(0, 1, 1), (0, 1, 2), (0, 1, 3), (0, 1, 4), (0, 1, 5)].Nodup)⟩
  miners := ⟨(List.range 25).map fun i => ⟨i, i, if i = 0 then roundTotals amount else .empty⟩, by
    rw [List.map_map]
    exact nodup_range.map fun _ _ h => h⟩
  records x a := if x = 1 ∧ 0 < a ∧ a < 6 then amount else 0
  currentSupply _ := 1000
  guards := .empty
  guardLocks := .empty
  payBacks := .empty
  bonuses := .empty
  accountOnce := by
    intro m hm m' hm' hsame
    obtain ⟨i, _, rfl⟩ := List.mem_map.mp hm
    obtain ⟨j, _, rfl⟩ := List.mem_map.mp hm'
    exact hsame
  activeWitnesses := List.range 25
  activeOnce := nodup_range
  blocked _ := false
  participationRate _ := 100
  totalProduced _ := 0
  pledgeWeight _ := 0
  minerPledgePayBack _ := 10
  guardMembers := [25]
  currentFeed := roundFeed price h
  currentShuffledMiners := []
  currentRoundLockbalanceCache := .empty
  currentPriceFeed := .empty

instance (n : Int) (a : Nat) : (o : Option Asset) → Decidable (IsAmount n a o)
  | none => inferInstanceAs (Decidable (n = 0))
  | some t => inferInstanceAs (Decidable (t = ⟨n, a⟩))

theorem totals_of_all {s : State Nat}
    (h : ∀ m ∈ s.miners.rows, ∀ a, (ha : a < roundSymbols.length) →
      IsAmount (lockedTo m.id a s.toState) a (m.lockbalanceTotal.find roundSymbols[a])) :
    TotalsAgree roundRegistry.toRegistry s.toMoney.toState := by
  intro miner m hm a sym hsym
  obtain ⟨ha, rfl⟩ := List.getElem?_eq_some_iff.mp hsym
  obtain rfl : m.id = miner := key_of_find hm
  exact h m (mem_of_find hm) a ha

theorem roundStart_nonNegative {amount price : Int} (h : 0 < price ∧ price < 2 ^ 63)
    (hamount : 0 ≤ amount) : NonNegative (roundStart amount price h).toMoney.toState :=
  List.forall_mem_map.mpr fun _ _ => hamount

def firstContract : Address Nat := ⟨Address.contract, 26⟩

def smallRound : State Nat := roundStart 1000 3 (by decide)

/-- In the round account 1 locks, a price changes, and account 1 takes a part back. -/
def smallBlocks : List (Block Nat) :=
  let owner : Address Nat := ⟨Address.normal, 1⟩
  let event := fun op : Money.Operation Nat =>
    Action.money (⟨5000000, op, ⟨1, 0⟩, some 1, true, false⟩ : Money.Event Nat)
  [⟨[event (.lockBalance ⟨1, 30, .null, 1, 0, owner⟩)], ⟨3, 1000, 1⟩⟩,
   ⟨[.feed 1 (roundFeed 5 (by decide) 1)], ⟨0, 1000, 0⟩⟩,
   ⟨[event (.forecloseBalance ⟨1, 500, .null, 1, 0, owner⟩)], ⟨7, 1000, 1⟩⟩]

def lastBlock : Block Nat := ⟨[], ⟨0, 1000, 10⟩⟩

theorem smallRound_fits : smallRound.Fits := by
  have hall : ∀ m ∈ smallRound.miners.rows,
      (∀ entry ∈ m.lockbalanceTotal.entries, 0 ≤ entry.2.amount ∧ entry.2.amount < 2 ^ 63) ∧
        smallRound.exactWeight m < 2 ^ 128 := by
    decide +kernel
  exact ⟨fun _ _ m hm => (hall m (mem_of_find hm)).1,
    fun _ _ m hm => (hall m (mem_of_find hm)).2⟩

theorem small_round_pays : ∃ s₁ s, smallRound.updateMinerSchedule roundRegistry id = some s₁ ∧
    s₁.run roundRegistry firstContract smallBlocks = some s ∧
    State.PaysWell roundRegistry firstContract lastBlock.pay (s.beforePay roundRegistry lastBlock) ∧
    (s.applyBlock roundRegistry firstContract lastBlock).isSome = true := by
  have hruns : ((smallRound.updateMinerSchedule roundRegistry id).any fun s₁ =>
      (s₁.run roundRegistry firstContract smallBlocks).any fun s =>
        (s.applyBlock roundRegistry firstContract lastBlock).isSome) = true := by
    decide +kernel
  obtain ⟨s₁, hs₁, hruns⟩ := (Option.any_eq_true _ _).mp hruns
  obtain ⟨s, hs, hpaid⟩ := (Option.any_eq_true _ _).mp hruns
  have htotals : TotalsAgree roundRegistry.toRegistry smallRound.toMoney.toState :=
    totals_of_all (by decide +kernel)
  have hwell := State.paysWell_in_round roundRegistry firstContract id smallRound s₁ s smallBlocks
    lastBlock htotals (roundStart_nonNegative _ (by decide)) smallRound_fits hs₁ hs (by decide)
  exact ⟨s₁, s, hs₁, hs, hwell, hpaid⟩

/-- The amounts and prices are the largest there are. -/
def largeRound : State Nat := roundStart (2 ^ 63 - 1) (2 ^ 63 - 1) (by decide)

/-- The weight of citizen 0 wraps, and the assertion of `pay_miner` fails. -/
theorem large_round_fails :
    TotalsAgree roundRegistry.toRegistry largeRound.toMoney.toState ∧
      NonNegative largeRound.toMoney.toState ∧
      ∃ s₁, largeRound.updateMinerSchedule roundRegistry id = some s₁ ∧
        s₁.run roundRegistry firstContract [] = some s₁ ∧ lastBlock.pay.InRange ∧
        ¬ State.PaysWell roundRegistry firstContract lastBlock.pay
          (s₁.beforePay roundRegistry lastBlock) := by
  have hfails : ((largeRound.updateMinerSchedule roundRegistry id).any fun s₁ =>
      ((s₁.beforePay roundRegistry lastBlock).miners.find 0).any fun m =>
        ((s₁.beforePay roundRegistry lastBlock).payPlan lastBlock.pay m).isNone) = true := by
    decide +kernel
  obtain ⟨s₁, hs₁, hfails⟩ := (Option.any_eq_true _ _).mp hfails
  obtain ⟨m, hm, hnone⟩ := (Option.any_eq_true _ _).mp hfails
  refine ⟨totals_of_all (by decide +kernel), roundStart_nonNegative _ (by decide), s₁, hs₁, rfl,
    by decide, ?_⟩
  intro hwell
  obtain ⟨plan, hplan, _⟩ := hwell.plan m hm
  rw [hplan] at hnone
  cases hnone

end HyperExchange.Rounds
