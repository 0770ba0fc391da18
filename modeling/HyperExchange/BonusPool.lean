/-
  **The distribution of the fees as bonuses** (`process_bonus` in `db_maint.cpp`, from block
  480000 on).

  Of the fees in an asset a part goes to the permanent senators, a part to all senators and
  the rest to the holders of the core asset.  A senator is given the fifteenth part of a
  share, and all fifteen parts are taken from the pool, however many senators there are.

  The shares are floating point numbers that are rounded down; they are parameters here, and
  so is the list of holders.
-/
import HyperExchange.MoneyConservation
import HyperExchange.MinerPay

namespace HyperExchange.Money

open Execution Fees Keyed OrderedMap List Option

/-- The rounded shares: of each permanent senator, given the pool and their number, of a
    senator, given the pool, and of a holder, given its holding and the pool. -/
structure BonusShares where
  permanent : Int → Nat → Nat
  senator : Int → Nat
  holder : Int → Int → Nat

/-- A formal senator: `guard_member_account`, and whether it is permanent. -/
structure Senator where
  account : Nat
  permanent : Bool

structure PoolState (H : Type) extends toMoney : State H where
  feesPool : OMap Nat Int

namespace PoolState

variable {H : Type}

def pool (s : PoolState H) (a : Nat) : Int := (s.feesPool.find a).getD 0

def bonusTotal (s : PoolState H) (a : Nat) : Int := s.bonuses.total (bonusOf a)

def debit (a : Nat) (n : Int) (s : PoolState H) : Option (PoolState H) :=
  (share (s.pool a - n)).map fun m => { s with feesPool := s.feesPool.insert a m }

variable [DecidableEq H] (reg : Registry H) (shares : BonusShares)

def credit (a : Nat) (n : Int) (owner : Address H) (s : PoolState H) : Option (PoolState H) :=
  (s.toMoney.adjustBonusBalance reg owner ⟨n, a⟩).map fun m => { s with toMoney := m }

def pay (a : Nat) (n : Int) (s : PoolState H) (owner : Address H) : Option (PoolState H) :=
  (s.debit a n).bind (credit reg a n owner)

variable (senators : List Senator)

def permanentSenators : List (Address H) :=
  (senators.filter Senator.permanent).filterMap fun x => (reg.account x.account).map (·.addr)

def sharedFirst (symbol : String) : Bool :=
  symbol = "ETH" || decide ("ERC".toList <:+: symbol.toList) || symbol = "USDT"

def payPermanents (permanents : List (Address H)) (a : Nat) (symbol : String) (s : PoolState H) :
    Option (PoolState H) :=
  let bonus := shares.permanent (s.pool a) permanents.length
  if sharedFirst symbol = true ∧ permanents ≠ [] ∧ 0 < bonus then
    permanents.foldlM (pay reg a bonus) s
  else some s

def paySenators (a : Nat) (s : PoolState H) : Option (PoolState H) :=
  let temp := shares.senator (s.pool a)
  if 0 < temp then
    (senators.foldlM (fun s x => (reg.account x.account).bind fun account =>
      credit reg a temp account.addr s) s).bind (debit a (temp * 15))
  else some s

def payAsset (s : PoolState H) (a : Nat) : Option (PoolState H) :=
  if a = coreAsset then some s
  else (reg.symbol a).bind fun symbol =>
    (s.payPermanents reg shares (permanentSenators reg senators) a symbol).bind
      (paySenators reg shares senators a)

def payHolder (holder : Address H × Int) (s : PoolState H) (rate : Nat × Int) :
    Option (PoolState H) :=
  let bonus := shares.holder holder.2 rate.2
  if bonus = 0 then some s else s.pay reg rate.1 bonus holder.1

/-- `process_bonus`, for a list of holders; the rates are those of assets of which something
    is left. -/
def processBonus (holders : List (Address H × Int)) (s : PoolState H) : Option (PoolState H) := do
  let keys := s.feesPool.entries.map Prod.fst
  let s ← keys.foldlM (payAsset reg shares senators) s
  let rates := (keys.filter fun a => a ≠ coreAsset && decide (0 < s.pool a)).map fun a =>
    (a, s.pool a)
  holders.foldlM (fun s holder => rates.foldlM (payHolder reg shares holder) s) s

/-! ### What one payment does -/

/-- The pool together with the bonuses changes by `d` in one asset, and its pool by `-e`. -/
structure Shifts (a : Nat) (d e : Int) (s s' : PoolState H) : Prop where
  sum : ∀ x, s'.bonusTotal x + s'.pool x = s.bonusTotal x + s.pool x + if x = a then d else 0
  pool : ∀ x, s'.pool x = s.pool x - if x = a then e else 0

variable {reg shares} {s s' s'' : PoolState H} {a : Nat} {d d' e e' n : Int}

omit [DecidableEq H] in
theorem Shifts.refl : Shifts a 0 0 s s :=
  ⟨fun x => by split <;> omega, fun x => by split <;> omega⟩

omit [DecidableEq H] in
/-- Payments one after the other add up. -/
theorem Shifts.trans (h : Shifts a d e s s') (h' : Shifts a d' e' s' s'') :
    Shifts a (d + d') (e + e') s s'' := by
  refine ⟨fun x => ?_, fun x => ?_⟩
  · rw [h'.sum, h.sum]
    split <;> omega
  · rw [h'.pool, h.pool]
    split <;> omega

omit [DecidableEq H] in
theorem debit_shifts (h : s.debit a n = some s') : Shifts a (-n) n s s' := by
  obtain ⟨m, hm, rfl⟩ := map_eq_some_iff.mp h
  cases share_eq hm
  have hpool : ∀ x, PoolState.pool { s with feesPool := s.feesPool.insert a (s.pool a - n) } x =
      s.pool x - if x = a then n else 0 := by
    intro x
    show ((s.feesPool.insert a (s.pool a - n)).find x).getD 0 = _
    rw [OMap.find_insert]
    split
    · rename_i hx
      rw [hx]
      rfl
    · exact (Int.sub_zero _).symm
  refine ⟨fun x => ?_, hpool⟩
  rw [hpool]
  show s.bonusTotal x + _ = _
  split <;> omega

theorem credit_shifts {owner : Address H} (ha : a ≠ coreAsset)
    (h : s.credit reg a n owner = some s') : Shifts a n 0 s s' := by
  obtain ⟨m, hm, rfl⟩ := map_eq_some_iff.mp h
  obtain ⟨t, rfl, ht⟩ := adjustBonusBalance_adjusts ha hm
  refine ⟨fun x => ?_, fun x => by rw [ite_self, Int.sub_zero]; rfl⟩
  show t.total (bonusOf x) + s.pool x = _
  rw [(ht x).1.total]
  show _ + (if x = a then n else 0) + _ = s.bonuses.total (bonusOf x) + _ + _
  omega

/-- A payment moves an amount from the pool to a bonus. -/
theorem pay_shifts {owner : Address H} (ha : a ≠ coreAsset) (h : s.pay reg a n owner = some s') :
    Shifts a 0 n s s' := by
  obtain ⟨t, ht, h⟩ := bind_eq_some_iff.mp h
  have hboth := (debit_shifts ht).trans (credit_shifts ha h)
  rwa [Int.add_left_neg, Int.add_zero] at hboth

omit [DecidableEq H] in
/-- The rule for the loops. -/
theorem Shifts.foldlM {α : Type} {f : PoolState H → α → Option (PoolState H)} {l : List α}
    (hf : ∀ x {t t'}, f t x = some t' → Shifts a d e t t') (h : l.foldlM f s = some s') :
    Shifts a (l.length * d) (l.length * e) s s' := by
  refine foldlM_invariant (fun done t => Shifts a (done.length * d) (done.length * e) s t) ?_ ?_ h
  · rw [length_nil, Int.natCast_zero, Int.zero_mul, Int.zero_mul]
    exact .refl
  · intro done x rest t t' _ hdone ht
    rw [length_append, length_singleton, Int.natCast_add, Int.add_mul, Int.add_mul,
      Int.natCast_one, Int.one_mul, Int.one_mul]
    exact hdone.trans (hf x ht)

/-! ### The assets of the pool -/

def senatorShare (reg : Registry H) (shares : BonusShares) (senators : List Senator)
    (s : PoolState H) (a : Nat) : Nat :=
  let permanents := permanentSenators reg senators
  shares.senator (s.pool a - if (reg.symbol a).any sharedFirst then
    (permanents.length : Int) * shares.permanent (s.pool a) permanents.length else 0)

def excess (reg : Registry H) (shares : BonusShares) (senators : List Senator) (s : PoolState H)
    (a : Nat) : Int :=
  (senatorShare reg shares senators s a : Int) * ((senators.length : Int) - 15)

/-- The permanent addresses get the same share each, of the assets that are shared first. -/
theorem payPermanents_shifts {permanents : List (Address H)} {symbol : String}
    (ha : a ≠ coreAsset) (h : s.payPermanents reg shares permanents a symbol = some s') :
    Shifts a 0 (if sharedFirst symbol then
      (permanents.length : Int) * shares.permanent (s.pool a) permanents.length else 0) s s' := by
  unfold payPermanents at h
  dsimp only at h
  split at h
  · rename_i hpaid
    rw [if_pos hpaid.1]
    have hall := Shifts.foldlM (fun _ _ _ ht => pay_shifts ha ht) h
    rwa [Int.mul_zero] at hall
  · rename_i hnot
    cases h
    -- nobody is paid, or nothing
    have hzero : (if sharedFirst symbol = true then
        (permanents.length : Int) * shares.permanent (s.pool a) permanents.length else 0) = 0 := by
      split
      · rename_i hfirst
        rw [Int.mul_eq_zero, Int.natCast_eq_zero, Int.natCast_eq_zero, length_eq_zero_iff]
        by_contra hne
        exact hnot ⟨hfirst, fun h => hne (.inl h), Nat.pos_of_ne_zero fun h => hne (.inr h)⟩
      · rfl
    rw [hzero]
    exact .refl

variable {senators : List Senator}

theorem paySenators_shifts (ha : a ≠ coreAsset)
    (h : s.paySenators reg shares senators a = some s') :
    ∃ e, Shifts a ((shares.senator (s.pool a) : Int) * ((senators.length : Int) - 15)) e s s' := by
  unfold paySenators at h
  dsimp only at h
  split at h
  · obtain ⟨t, ht, h⟩ := bind_eq_some_iff.mp h
    have hcredits := Shifts.foldlM (fun _ _ _ hx => by
      obtain ⟨account, _, hx⟩ := bind_eq_some_iff.mp hx
      exact credit_shifts ha hx) ht
    rw [Int.mul_sub, Int.mul_comm, Int.sub_eq_add_neg]
    exact ⟨_, hcredits.trans (debit_shifts h)⟩
  · rename_i hzero
    cases h
    rw [Nat.le_zero.mp (Nat.not_lt.mp hzero), Int.natCast_zero, Int.zero_mul]
    exact ⟨0, .refl⟩

theorem payAsset_shifts (ha : a ≠ coreAsset)
    (h : s.payAsset reg shares senators a = some s') :
    ∃ e, Shifts a (excess reg shares senators s a) e s s' := by
  unfold payAsset at h
  rw [if_neg ha] at h
  obtain ⟨symbol, t, hsymbol, ht, h⟩ := bind_bind_eq_some h
  have hfirst := payPermanents_shifts ha ht
  obtain ⟨e, hsecond⟩ := paySenators_shifts ha h
  rw [hfirst.pool, if_pos rfl] at hsecond
  have hboth := hfirst.trans hsecond
  rw [Int.zero_add] at hboth
  unfold excess senatorShare
  rw [hsymbol, any_some]
  exact ⟨_, hboth⟩

/-- All assets, and then the holders. -/
theorem processBonus_sum {holders : List (Address H × Int)}
    (h : s.processBonus reg shares senators holders = some s') (x : Nat) :
    s'.bonusTotal x + s'.pool x = s.bonusTotal x + s.pool x +
      if x ∈ s.feesPool.entries.map Prod.fst ∧ x ≠ coreAsset then
        excess reg shares senators s x else 0 := by
  obtain ⟨t, ht, h⟩ := bind_eq_some_iff.mp h
  have honce : (s.feesPool.entries.map Prod.fst).Nodup :=
    pairwise_map.mpr (s.feesPool.sorted.imp fun hlt => Nat.ne_of_lt hlt)
  have hassets := foldlM_invariant (fun done (t : PoolState H) =>
    (∀ x, t.bonusTotal x + t.pool x = s.bonusTotal x + s.pool x +
      if x ∈ done ∧ x ≠ coreAsset then excess reg shares senators s x else 0) ∧
      ∀ x, x ∉ done → t.pool x = s.pool x) ⟨fun x => by simp, fun _ _ => rfl⟩ (by
      intro done a rest t t' hl hdone ht'
      have hnew : a ∉ done := by
        rw [hl, nodup_append] at honce
        exact fun ha => honce.2.2 a ha a mem_cons_self rfl
      by_cases ha : a = coreAsset
      · rw [payAsset, if_pos ha] at ht'
        cases ht'
        refine ⟨fun x => ?_, fun x hx => hdone.2 x fun h => hx (mem_append_left _ h)⟩
        have hmem : x ∈ done ++ [a] ∧ x ≠ coreAsset ↔ x ∈ done ∧ x ≠ coreAsset := by
          rw [mem_append, mem_singleton, ha]
          tauto
        rw [hdone.1, if_congr hmem rfl rfl]
      · obtain ⟨e, hshifts⟩ := payAsset_shifts ha ht'
        have hshare : excess reg shares senators t a = excess reg shares senators s a := by
          unfold excess senatorShare
          rw [hdone.2 a hnew]
        refine ⟨fun x => ?_, fun x hx => ?_⟩
        · rw [hshifts.sum, hdone.1, hshare]
          by_cases hx : x = a
          · rw [hx, if_neg fun h => hnew h.1, if_pos rfl,
              if_pos ⟨mem_append_right _ (mem_singleton_self a), ha⟩, Int.add_zero]
          · simp [hx]
        · rw [mem_append, mem_singleton, not_or] at hx
          rw [hshifts.pool, if_neg hx.2, Int.sub_zero, hdone.2 x hx.1]) ht
  rw [← hassets.1 x]
  -- what the holders get is taken from the pool
  refine foldlM_invariant (fun _ (u : PoolState H) => u.bonusTotal x + u.pool x =
    t.bonusTotal x + t.pool x) rfl ?_ h
  intro _ holder _ u u' _ hu hu'
  refine foldlM_invariant (fun _ (u : PoolState H) => u.bonusTotal x + u.pool x =
    t.bonusTotal x + t.pool x) hu ?_ hu'
  intro _ rate _ v v' hl hv hv'
  obtain ⟨a, hmem, rfl⟩ := List.mem_map.mp (mem_of_split hl)
  have ha : a ≠ coreAsset := by
    have hfilter := (mem_filter.mp hmem).2
    rw [Bool.and_eq_true] at hfilter
    simpa using hfilter.1
  unfold payHolder at hv'
  dsimp only at hv'
  split at hv'
  · cases hv'
    exact hv
  · rw [(pay_shifts ha hv').sum, ite_self, Int.add_zero]
    exact hv

/-- **When the pool loses what is given as bonuses**: with fifteen senators, or if a senator's
    share is zero in every asset. -/
theorem pool_conserved_iff (reg : Registry H) (shares : BonusShares) (senators : List Senator)
    (holders : List (Address H × Int)) (s s' : PoolState H)
    (h : s.processBonus reg shares senators holders = some s') :
    (∀ a, s.pool a - s'.pool a = s'.bonusTotal a - s.bonusTotal a) ↔
      (senators.length = 15 ∨ ∀ a ∈ s.feesPool.entries.map Prod.fst, a ≠ coreAsset →
        senatorShare reg shares senators s a = 0) := by
  have hsum := processBonus_sum h
  constructor
  · intro hall
    by_cases hfifteen : senators.length = 15
    · exact .inl hfifteen
    refine .inr fun a ha hcore => ?_
    have hzero := hsum a
    have hequal := hall a
    rw [if_pos ⟨ha, hcore⟩] at hzero
    have hproduct : excess reg shares senators s a = 0 := by omega
    rcases Int.mul_eq_zero.mp hproduct with h | h
    · exact Int.natCast_eq_zero.mp h
    · omega
  · intro hcond a
    have hzero := hsum a
    split at hzero
    · rename_i hmem
      have hproduct : excess reg shares senators s a = 0 := by
        unfold excess
        rcases hcond with hfifteen | hshares
        · rw [hfifteen]
          exact Int.mul_zero _
        · rw [hshares a hmem.1 hmem.2]
          exact Int.zero_mul _
      omega
    · omega

end PoolState

/-! ### One senator -/

/-- Of a pool of 150 every senator is to get the fifteenth part of a fifth. -/
def samplePool : PoolState Nat :=
  { toMoney := (Rounds.smallRound).toMoney
    feesPool := OMap.empty.insert 1 150 }

def sampleShares : BonusShares where
  permanent _ _ := 0
  senator n := n.toNat / 75
  holder _ n := n.toNat / 2

theorem one_senator_breaks_pool : ∃ s', samplePool.processBonus Rounds.roundRegistry sampleShares
    [⟨3, true⟩] [] = some s' ∧ samplePool.pool 1 - s'.pool 1 = 30 ∧
      s'.bonusTotal 1 - samplePool.bonusTotal 1 = 2 := by
  have hruns : ((samplePool.processBonus Rounds.roundRegistry sampleShares [⟨3, true⟩] []).any
      fun s' => samplePool.pool 1 - s'.pool 1 = 30 &&
        s'.bonusTotal 1 - samplePool.bonusTotal 1 = 2) = true := by
    decide +kernel
  obtain ⟨s', hs', hvalues⟩ := (Option.any_eq_true _ _).mp hruns
  rw [Bool.and_eq_true, decide_eq_true_eq, decide_eq_true_eq] at hvalues
  exact ⟨s', hs', hvalues⟩

theorem fifteen_senators_conserve_pool : ∃ s', samplePool.processBonus Rounds.roundRegistry
    sampleShares ((List.range 15).map fun i => ⟨i, false⟩) [(⟨Address.normal, 20⟩, 5)] = some s' ∧
      ∀ a, samplePool.pool a - s'.pool a = s'.bonusTotal a - samplePool.bonusTotal a := by
  obtain ⟨s', hs'⟩ := isSome_iff_exists.mp (by decide +kernel :
    (samplePool.processBonus Rounds.roundRegistry sampleShares
      ((List.range 15).map fun i => ⟨i, false⟩) [(⟨Address.normal, 20⟩, 5)]).isSome = true)
  exact ⟨s', hs', (PoolState.pool_conserved_iff _ _ _ _ _ _ hs').mpr (.inl rfl)⟩

end HyperExchange.Money
