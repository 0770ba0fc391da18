/-
  **What a block pays adds up** (`pay_miner` in `db_witness_schedule.cpp`).

  The senators, the owners of the cached locks and the citizen are paid into their pay-backs,
  the development team at the address of the first contract.  What arrives there is the reward
  and the fees, and no part of it is negative (`payment_conserved`): the assertion on the
  weighted sum bounds the shares of the owners, whatever the cached weight is.

  The locks in the cache are those of the table when the round began, so none is negative
  (`cachedAmounts_in_round`).  `lock_balance_contract_addr`, for which the loop passes a lock
  over, is set by no code.
-/
import Mathlib.Algebra.Group.Action.Defs
import HyperExchange.MinerPay
import HyperExchange.MoneyConservation

namespace HyperExchange.Rounds

open Execution Fees OrderedMap Locks Rounding List Option Keyed Money

variable {H : Type}

/-! ### The tally -/

section Tally

variable {feeds : OMap Nat Feed} {l : List LockBalance}

/-- The share of a lock, as the loop computes it. -/
def lockShare (feeds : OMap Nat Feed) (pledgePay allPledge : Nat) (o : LockBalance) : Nat :=
  pledgePay * State.countedWorth feeds o % 2 ^ 256 / allPledge % 2 ^ 64

theorem countedWorth_lt {o : LockBalance}
    (ho : 0 ≤ o.lockAssetAmount ∧ o.lockAssetAmount < 2 ^ 63) :
    State.countedWorth feeds o < 2 ^ 126 := by
  have hamount : u256 o.lockAssetAmount < 2 ^ 63 := by
    rw [u256_of ho.1 ho.2]
    omega
  unfold State.countedWorth
  split
  · decide
  split
  · rename_i feed _ hcounts
    unfold worth
    split
    · omega
    rename_i hcore
    have hnull : ¬ isNull feed.settlementPrice = true := by
      unfold counts at hcounts
      rw [decide_eq_false hcore, Bool.false_or, Bool.and_eq_true, Bool.not_eq_true'] at hcounts
      rw [hcounts.1]
      exact Bool.false_ne_true
    obtain ⟨_, hquote, hquote'⟩ := feed.valid.resolve_left hnull
    rw [u256_of hquote.le hquote']
    calc u256 o.lockAssetAmount * feed.settlementPrice.quote.amount.toNat % 2 ^ 256 / _
        ≤ u256 o.lockAssetAmount * feed.settlementPrice.quote.amount.toNat :=
          (Nat.div_le_self _ _).trans (Nat.mod_le _ _)
      _ < 2 ^ 63 * 2 ^ 63 := Nat.mul_lt_mul'' hamount (by omega)
  · decide

variable {pledgePay allPledge : Nat}

/-- The sums of a tally that returns: the counted worth does not wrap, what is paid may. -/
theorem payLocks_tally {t : Tally} (hlen : l.length < 2 ^ 64)
    (hl : ∀ o ∈ l, 0 ≤ o.lockAssetAmount ∧ o.lockAssetAmount < 2 ^ 63)
    (h : l.foldlM (payLock feeds pledgePay allPledge) ⟨0, 0, []⟩ = some t) :
    t.curPledge = (l.map (State.countedWorth feeds)).sum ∧
      t.allPledgePaid = (l.map (lockShare feeds pledgePay allPledge)).sum % 2 ^ 64 ∧
      (t.owners.map Prod.snd).sum = (l.map (lockShare feeds pledgePay allPledge)).sum := by
  have hsmall : (l.map (State.countedWorth feeds)).sum < 2 ^ 256 := by
    have hle := sum_le_card_nsmul (l.map (State.countedWorth feeds)) (2 ^ 126)
      (forall_mem_map.2 fun o ho => (countedWorth_lt (hl o ho)).le)
    rw [length_map, smul_eq_mul] at hle
    omega
  refine foldlM_invariant (fun done (t : Tally) =>
    t.curPledge = (done.map (State.countedWorth feeds)).sum ∧
      t.allPledgePaid = (done.map (lockShare feeds pledgePay allPledge)).sum % 2 ^ 64 ∧
      (t.owners.map Prod.snd).sum = (done.map (lockShare feeds pledgePay allPledge)).sum)
    ⟨rfl, rfl, rfl⟩ ?_ h
  rintro done o rest t t' hsplit ⟨hcur, hpaid, howners⟩ ht'
  rw [hsplit, map_append, sum_append, map_cons, sum_cons] at hsmall
  obtain ⟨feed, hfeed, ht'⟩ := bind_eq_some_iff.1 ht'
  simp only [map_append, sum_append, map_singleton, sum_singleton]
  have hworth : State.countedWorth feeds o =
      if counts o feed.settlementPrice then worth o feed.settlementPrice else 0 := by
    unfold State.countedWorth
    rw [hfeed]
  split at ht'
  · rename_i hcounts
    rw [if_pos hcounts] at hworth
    split at ht'
    · cases ht'
    cases ht'
    dsimp only
    rw [← hworth, hcur, hpaid, Nat.mod_eq_of_lt (by omega), map_append, sum_append,
      howners]
    refine ⟨rfl, ?_, rfl⟩
    unfold lockShare
    omega
  · rename_i hcounts
    rw [if_neg hcounts] at hworth
    cases ht'
    have hshare : lockShare feeds pledgePay allPledge o = 0 := by
      unfold lockShare
      rw [hworth]
      simp
    rw [hworth, hshare]
    exact ⟨hcur, hpaid, howners⟩

/-- The shares stay below what there is to share once the weighted sum stays below the weight. -/
theorem lockShares_le
    (hworth : (l.map (State.countedWorth feeds)).sum ≤ allPledge) :
    (l.map (lockShare feeds pledgePay allPledge)).sum ≤ pledgePay := by
  refine le_trans (sum_le_sum fun o ho => ?_)
    (sum_shares_le l (State.countedWorth feeds) pledgePay hworth)
  exact (Nat.mod_le _ _).trans (Nat.div_le_div_right (Nat.mod_le _ _))

end Tally

namespace State

variable {p : Pay} {s s' : State H} {m : Miner}

/-! ### The locks put aside -/

/-- The cached locks have amounts of 64 bits that are not negative. -/
def CachedAmounts (s : State H) : Prop :=
  ∀ miner l, s.currentRoundLockbalanceCache.find miner = some l → l.length < 2 ^ 64 ∧
    ∀ o ∈ l, 0 ≤ o.lockAssetAmount ∧ o.lockAssetAmount < 2 ^ 63

/-- What is put aside for a round is in the table of locks, and stays as it is in the round. -/
theorem cachedAmounts_in_round [DecidableEq H] [Inhabited H] {reg : Money.Registry H}
    {firstContract : Address H} {random : Nat → Nat} {s₁ : State H} {earlier : List (Block H)}
    (b : Block H) (hnonneg : NonNegative s.toMoney.toState)
    (hrange : s.locks.rows.length < 2 ^ 64 ∧ ∀ o ∈ s.locks.rows, o.lockAssetAmount < 2 ^ 63)
    (hschedule : s.updateMinerSchedule reg random = some s₁)
    (hrun : s₁.run reg firstContract earlier = some s') : (s'.beforePay reg b).CachedAmounts := by
  have hround : SameRound s₁ (s'.beforePay reg b) :=
    (run_sameRound earlier hrun).trans (beforePay_sameRound b)
  obtain ⟨u, v, hu, hv, hput⟩ := bind_bind_eq_some hschedule
  obtain ⟨f, rfl, _⟩ := updateWeights_spec hu
  obtain ⟨miners, rfl, hnodup, _⟩ := shuffle_spec hv
  obtain ⟨feeds, _, hput⟩ := bind_eq_some_iff.1 hput
  cases hput
  intro miner l hl
  rw [hround.cache] at hl
  obtain ⟨_, rfl⟩ := find_cache hnodup hl
  refine ⟨(length_filter_le _ _).trans_lt hrange.1, fun o ho => ?_⟩
  have hmem := (mem_filter.1 ho).1
  exact ⟨hnonneg o hmem, hrange.2 o hmem⟩

/-- The owners and the citizen share what there is for them. -/
theorem payPlan_sum (hcached : s.CachedAmounts) {plan : Plan}
    (h : s.payPlan p m = some plan) : 0 ≤ plan.left ∧
      ((plan.owners.map Prod.snd).sum : Int) + plan.left = p.reward * 50 / 100 + p.trxfee := by
  obtain ⟨allPaid, hp, h⟩ := bind_eq_some_iff.1 h
  obtain ⟨hallPaid, hsum⟩ := allPaid_eq hp
  cases hcache : s.currentRoundLockbalanceCache.find p.miner with
  | none =>
    rw [hcache] at h
    cases h
    refine ⟨Int.natCast_nonneg _, ?_⟩
    rw [hsum]
    simp
  | some l =>
    rw [hcache] at h
    obtain ⟨hlen, hl⟩ := hcached _ _ hcache
    obtain ⟨t, ht, h⟩ := bind_eq_some_iff.1 h
    obtain ⟨hcur, hpaid, howners⟩ := payLocks_tally hlen hl ht
    split at h
    · rename_i hle
      cases h
      rw [hcur] at hle
      have hshares := (lockShares_le hle).trans (pledgePay_le s allPaid m)
      dsimp only
      rw [howners, hpaid]
      unfold signed
      rw [if_pos (by omega)]
      omega
    · cases h

/-! ### The payments -/

variable [DecidableEq H] {reg : Money.Registry H} {firstContract : Address H} {miner : Nat}
  {t t' : Money.State H}

/-- What the credits are for the holder of the pay-back. -/
def paidTo (reg : Money.Registry H) (miner : Nat) (credits : List (Nat × Int)) (k : H × Nat) :
    Int :=
  (credits.map fun x =>
    if (reg.account x.1).any fun y => (y.addr.addr, miner) = k then x.2 else 0).sum

/-- **Run lemma.** Credits that are not negative arrive in the pay-backs. -/
theorem payAccounts_adjusts {credits : List (Nat × Int)} (hcredits : ∀ x ∈ credits, 0 ≤ x.2)
    (h : credits.foldlM (payAccount reg miner) t = some t') :
    (∃ payBacks, t' = { t with payBacks := payBacks }) ∧
      t'.payBacks.total (payBackOf coreAsset) =
        t.payBacks.total (payBackOf coreAsset) + (credits.map Prod.snd).sum ∧
      ∀ k, t'.payBacks.valueAt (payBackOf coreAsset) k =
        t.payBacks.valueAt (payBackOf coreAsset) k + paidTo reg miner credits k := by
  induction credits generalizing t with
  | nil =>
    cases h
    exact ⟨⟨t'.payBacks, rfl⟩, (Int.add_zero _).symm, fun _ => (Int.add_zero _).symm⟩
  | cons x credits ih =>
    rw [foldlM_cons] at h
    obtain ⟨t₁, ht₁, h⟩ := bind_eq_some_iff.1 h
    obtain ⟨account, haccount, ht₁⟩ := bind_eq_some_iff.1 ht₁
    have hx : 0 ≤ x.2 := hcredits x mem_cons_self
    obtain ⟨payBacks, rfl, hadjusts⟩ := adjustPayBackBalance_adjusts
      (fun o _ ho => Int.add_nonneg ho hx) ht₁
    obtain ⟨⟨payBacks', rfl⟩, htotal, hvalues⟩ :=
      ih (fun y hy => hcredits y (mem_cons_of_mem x hy)) h
    have hcore := (hadjusts coreAsset).1
    have hof : (⟨x.2, coreAsset⟩ : Asset).of coreAsset = x.2 := if_pos rfl
    rw [hof] at hcore
    refine ⟨⟨payBacks', rfl⟩, ?_, fun k => ?_⟩
    · rw [htotal, hcore.total, map_cons, sum_cons]
      omega
    · rw [hvalues k]
      unfold paidTo
      rw [map_cons, sum_cons, haccount, Option.any_some]
      by_cases hk : k = (account.addr.addr, miner)
      · rw [hk, hcore.value, if_pos (by simp)]
        omega
      · rw [hcore.others k hk, if_neg (by simpa using fun h => hk h.symm)]
        omega

variable [Inhabited H]

/-- **Miner payment conserves money.**  The credits to the senators, the owners of locks, the
    citizen and the development team are not negative and add up to the reward and the fees.
    They are what the pay-backs and the balance of the first contract grow by, and the supply
    grows by the reward. -/
theorem payment_conserved (hcached : s.CachedAmounts)
    (h : s.payMiner reg firstContract p = some s') :
    ∃ (credits : List (Nat × Int)) (develop : Int),
      (∀ x ∈ credits, 0 ≤ x.2) ∧ 0 ≤ develop ∧
      (credits.map Prod.snd).sum + develop = p.reward + p.trxfee ∧
      s'.payBacks.total (payBackOf coreAsset) + s'.ledger.spendable firstContract.addr coreAsset =
        s.payBacks.total (payBackOf coreAsset) + s.ledger.spendable firstContract.addr coreAsset +
          (p.reward + p.trxfee) ∧
      (∀ k, s'.payBacks.valueAt (payBackOf coreAsset) k =
        s.payBacks.valueAt (payBackOf coreAsset) k + paidTo reg p.miner credits k) ∧
      (∀ x a, s'.ledger.spendable x a = s.ledger.spendable x a +
        if x = firstContract.addr then (⟨develop, coreAsset⟩ : Asset).of a else 0) ∧
      ∀ a, s'.currentSupply a =
        s.currentSupply a + if a = coreAsset then (p.reward : Int) else 0 := by
  obtain ⟨m, guards, hm, hguards, h⟩ := bind_bind_eq_some h
  obtain ⟨plan, t, hplan, ht, h⟩ := bind_bind_eq_some h
  obtain ⟨t', supply, ht', hsupply, h⟩ := bind_bind_eq_some h
  cases h
  have hsome : s.guardMembers ≠ [] := by
    intro hnil
    unfold guardShares at hguards
    rw [hnil] at hguards
    cases hguards
  obtain ⟨guards', hguards', hguardSum, _⟩ := guardShares_spec (p := p) hsome
  cases hguards.symm.trans hguards'
  obtain ⟨hleft, hsum⟩ := payPlan_sum hcached hplan
  have hcredits : ∀ x ∈ (guards ++ plan.owners).map (fun x => (x.1, (x.2 : Int))) ++
      [(m.minerAccount, plan.left)], 0 ≤ x.2 :=
    forall_mem_append.2 ⟨forall_mem_map.2 fun _ _ => Int.natCast_nonneg _,
      forall_mem_singleton.2 hleft⟩
  obtain ⟨⟨payBacks, rfl⟩, htotal, hvalues⟩ := payAccounts_adjusts hcredits ht'
  obtain ⟨l, hl, rfl⟩ := map_eq_some_iff.1 ht
  have hadd : (((guards ++ plan.owners).map (fun x => (x.1, (x.2 : Int))) ++
      [(m.minerAccount, plan.left)]).map Prod.snd).sum +
        ((p.reward - p.reward * 30 / 100 - p.reward * 50 / 100 : Nat) : Int) =
      p.reward + p.trxfee := by
    rw [map_append, sum_append, sum_cast, map_append, sum_append, hguardSum,
      map_singleton, sum_singleton]
    omega
  have hspendable := spendable_adjustBalance hl
  refine ⟨_, _, hcredits, Int.natCast_nonneg _, hadd, ?_, hvalues, hspendable, ?_⟩
  · have hfirst := hspendable firstContract.addr coreAsset
    rw [if_pos rfl] at hfirst
    have hof : ∀ n : Int, (⟨n, coreAsset⟩ : Asset).of coreAsset = n := fun _ => if_pos rfl
    rw [hof] at hfirst
    show payBacks.total _ + l.spendable _ _ = _
    rw [hfirst]
    have htotal' : payBacks.total (payBackOf coreAsset) = _ := htotal
    rw [htotal']
    show s.payBacks.total _ + _ + _ = _
    omega
  · intro a
    show (if a = coreAsset then supply else s.currentSupply a) = _
    split
    · rename_i ha
      rw [share_eq hsupply, ha]
      rfl
    · exact (Int.add_zero _).symm

end State

/-- The citizen of the last block has locks of five assets, one of which was made smaller in
    the round. -/
theorem small_round_payment_conserved :
    ∃ s s' : Rounds.State Nat, s.payMiner roundRegistry firstContract lastBlock.pay = some s' ∧
      (s.currentRoundLockbalanceCache.find 0).map List.length = some 5 ∧
      s'.payBacks.total (payBackOf coreAsset) + s'.ledger.spendable 26 coreAsset =
        s.payBacks.total (payBackOf coreAsset) + s.ledger.spendable 26 coreAsset + 1010 := by
  have hruns : ((smallRound.updateMinerSchedule roundRegistry id).any fun s₁ =>
      (s₁.run roundRegistry firstContract smallBlocks).any fun s =>
        decide (((s.beforePay roundRegistry lastBlock).currentRoundLockbalanceCache.find 0).map
          List.length = some 5) &&
        ((s.beforePay roundRegistry lastBlock).payMiner roundRegistry firstContract
          lastBlock.pay).isSome) = true := by
    decide +kernel
  obtain ⟨s₁, hs₁, hruns⟩ := (Option.any_eq_true _ _).mp hruns
  obtain ⟨s, hs, hpaid⟩ := (Option.any_eq_true _ _).mp hruns
  obtain ⟨hlocks, hpaid⟩ := Bool.and_eq_true_iff.mp hpaid
  obtain ⟨s', hs'⟩ := isSome_iff_exists.1 hpaid
  refine ⟨_, s', hs', of_decide_eq_true hlocks, ?_⟩
  have hcached := State.cachedAmounts_in_round lastBlock
    (roundStart_nonNegative (by decide) (by decide)) (by decide +kernel) hs₁ hs
  obtain ⟨_, _, _, _, _, htotal, _⟩ := State.payment_conserved hcached hs'
  exact htotal

end HyperExchange.Rounds
