/-
  **The drawing of a round** always finds its 25 citizens, if there are as many that can be
  drawn.

  A random number below the total weight falls on a citizen whose weight is not zero
  (`calculateSlot_spec`).  Taking that one away leaves the total of the others, so the total
  can only become zero when nobody with a weight is left; `draw_spec` says this of every
  number of draws.
-/
import HyperExchange.MinerPay

namespace HyperExchange.Rounds

open Execution Keyed OrderedMap Locks List Option
open Rounding

namespace State

variable {H : Type} {reg : Money.Registry H} {s s' : State H} {random : Nat → Nat}

/-! ### One draw -/

/-- The slot that is hit has weight, so nobody without weight is drawn. -/
theorem calculateSlot_spec {value init : Nat} {l : List Nat} (hinit : init ≤ value)
    (hvalue : value < init + l.sum) :
    ∃ weight, l[calculateSlot value init l]? = some weight ∧ weight ≠ 0 := by
  induction l generalizing init with
  | nil =>
    rw [sum_nil] at hvalue
    omega
  | cons weight l ih =>
    rw [sum_cons] at hvalue
    cases l with
    | nil =>
      rw [sum_nil] at hvalue
      exact ⟨weight, rfl, by omega⟩
    | cons next l =>
      unfold calculateSlot
      by_cases hhere : value < init + weight
      · rw [if_pos hhere]
        exact ⟨weight, rfl, by omega⟩
      · rw [if_neg hhere]
        exact ih (by omega) (by omega)

/-- Those left before draw `k`, and the running total. -/
def beforeDraw : Nat → (Nat → Nat) → List (Nat × Nat) → Nat → List (Nat × Nat) × Nat
  | 0, _, l, totalWeight => (l, totalWeight)
  | k + 1, random, l, totalWeight =>
    let slot := calculateSlot (random 0 % totalWeight) 0 (l.map Prod.snd)
    match l[slot]? with
    | none => ([], 0)
    | some drawn =>
      beforeDraw k (fun i => random (i + 1)) (pick l slot) (totalWeight - drawn.2)

/-! ### All draws -/

/-- How many can be drawn. -/
def drawable (l : List (Nat × Nat)) : Nat := l.countP fun x => x.2 ≠ 0

theorem sum_ne_zero_of_drawable {l : List (Nat × Nat)} (h : 0 < drawable l) :
    (l.map Prod.snd).sum ≠ 0 := by
  obtain ⟨x, hx, hweight⟩ := countP_pos_iff.mp h
  have hle := single_le_sum (fun _ _ => Nat.zero_le _) x.2 (List.mem_map_of_mem hx)
  have hne := of_decide_eq_true hweight
  omega

/-- `drawn` are the citizens of `n` draws, and before each of them the running total is that of
    the others. -/
structure Drawn (n : Nat) (random : Nat → Nat) (l drawn : List (Nat × Nat)) : Prop where
  count : drawn.length = n
  weights : ∀ x ∈ drawn, x.2 ≠ 0
  others : ∀ k ≤ n, (drawn.take k ++ (beforeDraw k random l (l.map Prod.snd).sum).1).Perm l
  total : ∀ k < n, (beforeDraw k random l (l.map Prod.snd).sum).2 =
    ((beforeDraw k random l (l.map Prod.snd).sum).1.map Prod.snd).sum
  positive : ∀ k < n, (beforeDraw k random l (l.map Prod.snd).sum).2 ≠ 0

/-- The drawing never fails while enough candidates have weight. -/
theorem draw_spec (random : Nat → Nat) {n : Nat} {l : List (Nat × Nat)} (h : n ≤ drawable l) :
    ∃ drawn, draw n random l (l.map Prod.snd).sum = some (drawn.map Prod.fst) ∧
      Drawn n random l drawn := by
  induction n generalizing random l with
  | zero =>
    refine ⟨[], rfl, rfl, nofun, fun k hk => ?_, nofun, nofun⟩
    rw [Nat.le_zero.mp hk]
    exact .refl l
  | succ n ih =>
    have htotal := sum_ne_zero_of_drawable (show 0 < drawable l by omega)
    have hfalls := calculateSlot_spec (Nat.zero_le (random 0 % (l.map Prod.snd).sum))
      (by rw [Nat.zero_add]; exact Nat.mod_lt _ (Nat.pos_of_ne_zero htotal))
    obtain ⟨weight, hweight, hne⟩ := hfalls
    rw [List.getElem?_map] at hweight
    obtain ⟨x, hx, rfl⟩ := map_eq_some_iff.mp hweight
    generalize hslot : calculateSlot (random 0 % (l.map Prod.snd).sum) 0 (l.map Prod.snd) = slot
      at hx
    have hperm := perm_pick hx
    -- the others keep their total, and one fewer can be drawn
    have hrest := (hperm.map Prod.snd).sum_eq
    rw [map_cons, sum_cons] at hrest
    have hsub : (l.map Prod.snd).sum - x.2 = ((pick l slot).map Prod.snd).sum := by omega
    have hcount : drawable (pick l slot) + 1 = drawable l := by
      unfold drawable
      rw [← hperm.countP_eq, countP_cons, if_pos (decide_eq_true hne)]
    obtain ⟨drawn, hdraw, hdrawn⟩ := ih (fun i => random (i + 1))
      (show n ≤ drawable (pick l slot) by omega)
    have hbefore : ∀ k, beforeDraw (k + 1) random l (l.map Prod.snd).sum =
        beforeDraw k (fun i => random (i + 1)) (pick l slot)
          ((pick l slot).map Prod.snd).sum := by
      intro k
      rw [← hsub, beforeDraw, hslot, hx]
    refine ⟨x :: drawn, ?_, ?_, ?_, ?_, ?_, ?_⟩
    · rw [draw, if_neg htotal]
      dsimp only
      rw [hslot, hx, bind_some, hsub, hdraw]
      rfl
    · rw [length_cons, hdrawn.count]
    · exact forall_mem_cons.mpr ⟨hne, hdrawn.weights⟩
    · intro k hk
      cases k with
      | zero => exact .refl l
      | succ k =>
        rw [hbefore]
        exact ((hdrawn.others k (by omega)).cons x).trans hperm
    · intro k hk
      cases k with
      | zero => rfl
      | succ k =>
        rw [hbefore]
        exact hdrawn.total k (by omega)
    · intro k hk
      cases k with
      | zero => exact htotal
      | succ k =>
        rw [hbefore]
        exact hdrawn.positive k (by omega)

/-! ### Who can be drawn -/

def unblocked (reg : Money.Registry H) (s : State H) (miner : Nat) : Bool :=
  ((s.miners.find miner).bind fun m => reg.account m.minerAccount).any fun account =>
    !s.blocked account.addr.addr

/-- What a citizen weighs in the drawing. -/
def drawWeight (reg : Money.Registry H) (s : State H) (miner : Nat) : Nat :=
  ((s.miners.find miner).bind (s.weigh reg)).getD 0 * s.participationRate miner / 100

/-- The unblocked active citizens, with their weights in the drawing. -/
def drawList (reg : Money.Registry H) (s : State H) : List (Nat × Nat) :=
  (s.activeWitnesses.filter (s.unblocked reg)).map fun miner => (miner, s.drawWeight reg miner)

/-- The objects that are looked up exist: the active citizens, their accounts, and the assets
    of what is locked to them. -/
structure Known (reg : Money.Registry H) (s : State H) : Prop where
  miners : ∀ miner ∈ s.activeWitnesses, ∃ m account, s.miners.find miner = some m ∧
    reg.account m.minerAccount = some account ∧
    ∀ entry ∈ m.lockbalanceTotal.entries, (reg.symbol entry.2.assetId).isSome = true
  locks : ∀ o ∈ s.locks.rows, (reg.symbol o.lockAssetId).isSome = true

theorem updateWeights_some (hknown : s.Known reg) : ∃ s', s.updateWeights reg = some s' := by
  obtain ⟨s', hs', _⟩ := foldlM_some (fun _ (t : State H) => ∃ f, t = { s with pledgeWeight := f })
    (l := s.activeWitnesses) (s := s) (f := fun s miner => do
      let m ← s.miners.find miner
      let weight ← s.weigh reg m
      some (s.setPledgeWeight miner weight)) ⟨s.pledgeWeight, rfl⟩ (by
      rintro done miner rest _ hl ⟨f, rfl⟩
      obtain ⟨m, account, hm, haccount, hassets⟩ := hknown.miners miner (mem_of_split hl)
      obtain ⟨weight, hweight⟩ : ∃ weight, ({ s with pledgeWeight := f } : State H).weigh reg m =
          some weight := by
        refine foldlM_some_of_forall fun entry hentry weight => ?_
        unfold addWeight
        rw [if_pos (hassets entry hentry)]
        split
        · exact ⟨_, rfl⟩
        · dsimp only
          split <;> exact ⟨_, rfl⟩
      refine ⟨({ s with pledgeWeight := f } : State H).setPledgeWeight miner weight, ?_, _, rfl⟩
      rw [show ({ s with pledgeWeight := f } : State H).miners.find miner = some m from hm,
        bind_eq_bind, bind_some, hweight]
      rfl)
  exact ⟨s', hs'⟩

theorem candidates_eq (hknown : s.Known reg) {f : Nat → Nat}
    (hf : ∀ miner ∈ s.activeWitnesses, ∃ m, s.miners.find miner = some m ∧
      s.weigh reg m = some (f miner)) :
    ({ s with pledgeWeight := f } : State H).candidates reg = some (s.drawList reg) := by
  unfold candidates drawList
  obtain ⟨l, hl, heq⟩ := foldlM_some (fun done (l : List (Nat × Nat)) =>
    l = (done.filter (s.unblocked reg)).map fun miner => (miner, s.drawWeight reg miner))
    (l := s.activeWitnesses) (s := []) (f := fun l miner => do
      let m ← s.miners.find miner
      let account ← reg.account m.minerAccount
      some (if s.blocked account.addr.addr then l
        else l ++ [(miner, f miner * s.participationRate miner / 100)])) rfl (by
      rintro done miner rest _ hl rfl
      have hmem : miner ∈ s.activeWitnesses := mem_of_split hl
      obtain ⟨m, account, hm, haccount, _⟩ := hknown.miners miner hmem
      obtain ⟨m', hm', hweight⟩ := hf miner hmem
      obtain rfl := Option.some.inj (hm.symm.trans hm')
      have hunblocked : s.unblocked reg miner = !s.blocked account.addr.addr := by
        unfold unblocked
        rw [hm, bind_some, haccount]
        rfl
      have hdraw : s.drawWeight reg miner = f miner * s.participationRate miner / 100 := by
        unfold drawWeight
        rw [hm, bind_some, hweight]
        rfl
      rw [hm, bind_eq_bind, bind_some, haccount, bind_eq_bind,
        bind_some, filter_append, map_append]
      refine ⟨_, rfl, ?_⟩
      cases hblocked : s.blocked account.addr.addr with
      | true =>
        rw [hblocked] at hunblocked
        rw [if_pos rfl, filter_cons_of_neg (by rw [hunblocked]; decide), filter_nil,
          map_nil, append_nil]
      | false =>
        rw [hblocked] at hunblocked
        rw [if_neg (by decide), filter_cons_of_pos (by rw [hunblocked]; decide),
          filter_nil, map_singleton, hdraw])
  rw [← heq]
  exact hl

theorem putAside_some (reg : Money.Registry H)
    (hlocks : ∀ o ∈ s.locks.rows, (reg.symbol o.lockAssetId).isSome = true) :
    ∃ s', s.putAside reg = some s' ∧ s'.currentShuffledMiners = s.currentShuffledMiners := by
  unfold putAside
  dsimp only
  obtain ⟨feeds, hfeeds⟩ := foldlM_some_of_forall (s := OMap.empty)
    (l := s.currentShuffledMiners.flatMap fun miner =>
      (s.locksTo miner).map LockBalance.lockAssetId)
    (f := fun feeds a =>
      if (reg.symbol a).isSome then some (feeds.insert a (s.currentFeed a)) else none) (by
      intro a ha feeds
      obtain ⟨miner, _, ha⟩ := mem_flatMap.mp ha
      obtain ⟨o, ho, rfl⟩ := List.mem_map.mp ha
      rw [if_pos (hlocks o (mem_filter.mp ho).1)]
      exact ⟨_, rfl⟩)
  rw [hfeeds]
  exact ⟨_, rfl, rfl⟩

/-- **A round has 25 different citizens**, and each draw takes the remainder by what those
    still to be drawn weigh. -/
theorem round_is_drawn (reg : Money.Registry H) (random : Nat → Nat) (s : State H)
    (hknown : s.Known reg) (henough : productPerRound ≤ drawable (s.drawList reg)) :
    ∃ s' drawn, s.updateMinerSchedule reg random = some s' ∧
      s'.currentShuffledMiners = drawn.map Prod.fst ∧
      s'.currentShuffledMiners.length = productPerRound ∧ s'.currentShuffledMiners.Nodup ∧
      (∀ miner ∈ s'.currentShuffledMiners, miner ∈ s.activeWitnesses ∧
        s.unblocked reg miner = true ∧ s.drawWeight reg miner ≠ 0) ∧
      Drawn productPerRound random (s.drawList reg) drawn := by
  obtain ⟨s₁, hs₁⟩ := updateWeights_some hknown
  obtain ⟨f, rfl, hf⟩ := updateWeights_spec hs₁
  obtain ⟨drawn, hdraw, hdrawn⟩ := draw_spec random henough
  obtain ⟨s', hs', hminers⟩ := putAside_some reg
    (s := { s with pledgeWeight := f, currentShuffledMiners := drawn.map Prod.fst }) hknown.locks
  have hperm := hdrawn.others productPerRound (Nat.le_refl _)
  rw [← hdrawn.count, take_length, hdrawn.count] at hperm
  have hmem : ∀ x ∈ drawn, x ∈ s.drawList reg := fun x hx =>
    hperm.subset (mem_append_left _ hx)
  have honce : ((s.drawList reg).map Prod.fst).Nodup := by
    unfold drawList
    rw [List.map_map, show Prod.fst ∘ (fun miner => (miner, s.drawWeight reg miner)) = id from rfl,
      List.map_id]
    exact s.activeOnce.filter _
  refine ⟨s', drawn, ?_, hminers, ?_, ?_, ?_, hdrawn⟩
  · unfold updateMinerSchedule shuffle
    rw [hs₁, bind_eq_bind, bind_some, candidates_eq hknown hf, bind_eq_bind,
      bind_some, hdraw]
    exact hs'
  · rw [hminers, length_map, hdrawn.count]
  · rw [hminers]
    have hall := (hperm.map Prod.fst).nodup_iff.mpr honce
    rw [map_append] at hall
    exact (nodup_append.mp hall).1
  · intro miner hminer
    rw [hminers] at hminer
    obtain ⟨x, hx, rfl⟩ := List.mem_map.mp hminer
    obtain ⟨miner, hactive, rfl⟩ := List.mem_map.mp (hmem x hx)
    exact ⟨(mem_filter.mp hactive).1, (mem_filter.mp hactive).2, hdrawn.weights _ hx⟩

end State

theorem smallRound_known : smallRound.Known roundRegistry := by
  have hminers : ∀ miner ∈ smallRound.activeWitnesses, ((smallRound.miners.find miner).any fun m =>
      (roundRegistry.account m.minerAccount).isSome && m.lockbalanceTotal.entries.all fun entry =>
        (roundRegistry.symbol entry.2.assetId).isSome) = true := by
    decide +kernel
  refine ⟨fun miner hminer => ?_, by decide +kernel⟩
  obtain ⟨m, hm, hknown⟩ := (Option.any_eq_true _ _).mp (hminers miner hminer)
  rw [Bool.and_eq_true, isSome_iff_exists, List.all_eq_true] at hknown
  obtain ⟨⟨account, haccount⟩, hassets⟩ := hknown
  exact ⟨m, account, hm, haccount, hassets⟩

theorem small_round_is_drawn : ∃ s' drawn,
    smallRound.updateMinerSchedule roundRegistry id = some s' ∧
      s'.currentShuffledMiners = drawn.map Prod.fst ∧
      State.Drawn productPerRound id (smallRound.drawList roundRegistry) drawn := by
  obtain ⟨s', drawn, hs', hminers, _, _, _, hdrawn⟩ :=
    State.round_is_drawn roundRegistry id smallRound smallRound_known (by decide +kernel)
  exact ⟨s', drawn, hs', hminers, hdrawn⟩

end HyperExchange.Rounds
