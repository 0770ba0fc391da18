/-
  **Holdings are conserved by the money operations of the chain itself.**

  `holdings` adds up what all addresses have in an asset, spendable and frozen, and what is
  locked, to be paid back, and due as a bonus.  Each call that adjusts one record adds its
  amount to the holdings (`Changes`), and the calls of an operation cancel out; what remains
  is the fee.  A fee in another asset than the core asset and without a guarantee order is
  not taken from anybody.

  No record becomes negative.  A pay-back is checked under the name of its citizen before the
  first one is adjusted; different names are different citizens.
-/
import HyperExchange.LocalMoney
import HyperExchange.LockTotals

namespace HyperExchange.Money

open Fees Keyed OrderedMap Ops List Option Table Execution
open Locks

variable {H : Type}

/-! ### Holdings -/

def lockOf (a : Nat) (o : LockBalance) : Int := o.getLockBalance.of a

def guardLockOf (a : Nat) (o : GuardLock) : Int :=
  (⟨o.lockAssetAmount, o.lockAssetId⟩ : Asset).of a

def payBackOf (a : Nat) (o : PayBack H) : Int := o.oneOwnerBalance.of a

def bonusOf (a : Nat) (o : Bonus H) : Int := (o.bonus.find a).getD 0

def lockHoldings [Fintype H] (s : Locks.State H) (a : Nat) : Int :=
  s.ledger.heldBy Finset.univ a + s.locks.total (lockOf a)

def State.holdings [Fintype H] (s : State H) (a : Nat) : Int :=
  lockHoldings s.toState a + s.guardLocks.total (guardLockOf a) +
    s.payBacks.total (payBackOf a) + s.bonuses.total (bonusOf a)

/-- No lock, guard lock, pay-back or bonus becomes negative. -/
structure NoneNegative [DecidableEq H] (s s' : State H) : Prop where
  locks : ∀ a, Table.Kept (lockOf a) s.locks s'.locks
  guardLocks : ∀ a, Table.Kept (guardLockOf a) s.guardLocks s'.guardLocks
  payBacks : ∀ a, Table.Kept (payBackOf a) s.payBacks s'.payBacks
  bonuses : ∀ a, Table.Kept (bonusOf a) s.bonuses s'.bonuses

def Event.charged (e : Event H) (a : Nat) : Int :=
  if e.testing then 0
  else if e.fee.assetId = coreAsset ∨ e.op.guaranteeId.isSome = true then e.fee.of a
  else 0

/-! ### Amounts of an asset -/

theorem Asset.of_sum (x y : Int) (i a : Nat) :
    (⟨x + y, i⟩ : Asset).of a = (⟨x, i⟩ : Asset).of a + (⟨y, i⟩ : Asset).of a := by
  unfold Asset.of
  split
  · rfl
  · rfl

theorem Asset.of_keeps {x y : Int} (h : 0 ≤ x → 0 ≤ x + y) (i a : Nat)
    (hx : 0 ≤ (⟨x, i⟩ : Asset).of a) :
    0 ≤ (⟨x, i⟩ : Asset).of a + (⟨y, i⟩ : Asset).of a := by
  unfold Asset.of at hx ⊢
  split at hx
  · rw [if_pos ‹_›, if_pos ‹_›]
    exact h hx
  · rw [if_neg ‹_›, if_neg ‹_›]
    decide

theorem kept_refl {K R : Type} [DecidableEq K] {key : R → K} (f : R → Int) (t : Table key) :
    Table.Kept f t t := fun _ h => h

theorem Asset.of_zero {delta : Asset} (h : delta.amount = 0) (a : Nat) : delta.of a = 0 := by
  unfold Asset.of
  split
  · exact h
  · rfl

theorem Asset.of_nonneg {delta : Asset} (h : 0 ≤ delta.amount) (a : Nat) : 0 ≤ delta.of a := by
  unfold Asset.of
  split <;> omega

section Records

variable {K R : Type} [DecidableEq K] {key : R → K} {t t' : Table key} {k : K} {r : R}
  {f : R → Int} {delta : Asset} {a : Nat}

/-- The first amount under a key is positive, so that nothing gets below zero. -/
theorem adjusts_new (h : t.insert r = some t') (hr : f r = delta.of a) (hpos : 0 < delta.amount) :
    Table.Adjusts f (key r) (delta.of a) t t' ∧ Table.Kept f t t' := by
  have hadjusts := adjusts_insert h f
  rw [hr] at hadjusts
  refine ⟨hadjusts, hadjusts.kept fun hvalue => ?_⟩
  exact Int.add_nonneg hvalue (Asset.of_nonneg (Int.le_of_lt hpos) a)

/-- A record with another amount of its asset, which is not negative if the first was not. -/
theorem adjusts_amount {x : Int} (e : Edit key) (h : t.find k = some r)
    (hr : f r = (⟨x, delta.assetId⟩ : Asset).of a)
    (he : f (e.run r) = (⟨x + delta.amount, delta.assetId⟩ : Asset).of a)
    (henough : 0 ≤ x → 0 ≤ x + delta.amount) :
    Table.Adjusts f k (delta.of a) t (t.modify k e) ∧ Table.Kept f t (t.modify k e) := by
  have hadjusts : Table.Adjusts f k (delta.of a) t (t.modify k e) := by
    refine adjusts_modify e h ?_
    rw [he, hr, Asset.of_sum]
  refine ⟨hadjusts, hadjusts.kept fun hvalue => ?_⟩
  rw [valueAt_of_find h, hr] at hvalue ⊢
  exact Asset.of_keeps henough _ _ hvalue

end Records

/-! ### Locks to citizens -/

section Locks

variable {miner account : Nat} {delta : Asset} {s s' : Locks.State H}

/-- A lock record changes by the amount asked for and is never left negative. -/
theorem adjusts_adjustLock (h : s.adjustLock miner account delta = some s') (a : Nat) :
    Table.Adjusts (lockOf a) (miner, account, delta.assetId) (delta.of a) s.locks s'.locks ∧
      Table.Kept (lockOf a) s.locks s'.locks := by
  obtain ⟨t, rfl, ⟨hpos, hnew⟩ | ⟨o, hfind, henough, hchange⟩⟩ := adjustLock_cases h
  · exact adjusts_new hnew rfl hpos
  have hid : o.lockAssetId = delta.assetId := congrArg (fun k => k.2.2) (key_of_find hfind)
  have ho : lockOf a o = (⟨o.lockAssetAmount, delta.assetId⟩ : Asset).of a := by
    rw [← hid]
    rfl
  rcases hchange with ⟨hzero, rfl⟩ | rfl
  · have hadjusts : Table.Adjusts (lockOf a) (miner, account, delta.assetId) (delta.of a) s.locks
        (s.locks.erase (miner, account, delta.assetId)) := by
      refine adjusts_erase hfind ?_
      have hsum := Asset.of_sum o.lockAssetAmount delta.amount delta.assetId a
      rw [ho, ← hsum, hzero]
      unfold Asset.of
      split <;> rfl
    refine ⟨hadjusts, hadjusts.kept fun hvalue => ?_⟩
    rw [valueAt_of_find hfind, ho] at hvalue ⊢
    exact Asset.of_keeps (by omega) _ _ hvalue
  · refine adjusts_amount _ hfind ho ?_ (by omega)
    rw [← hid]
    rfl

variable [Fintype H] {reg : Locks.Registry H}

/-- The holdings change by `d`, as far as locks and balances go. -/
structure LockChanges (d : Nat → Int) (s s' : Locks.State H) : Prop where
  holdings : ∀ a, lockHoldings s' a = lockHoldings s a + d a
  kept : ∀ a, Table.Kept (lockOf a) s.locks s'.locks

theorem LockChanges.trans {d d' : Nat → Int} {s'' : Locks.State H} (h : LockChanges d s s')
    (h' : LockChanges d' s' s'') : LockChanges (d + d') s s'' := by
  refine ⟨fun a => ?_, fun a k hk => h'.kept a k (h.kept a k hk)⟩
  rw [h'.holdings, h.holdings]
  exact Int.add_assoc _ _ _

theorem LockChanges.same (hledger : s'.ledger = s.ledger) (hlocks : s'.locks = s.locks) :
    LockChanges 0 s s' := by
  refine ⟨fun a => ?_, fun a => ?_⟩
  · unfold lockHoldings
    rw [hledger, hlocks]
    exact (Int.add_zero _).symm
  · rw [hlocks]
    exact kept_refl _ _

theorem lockChanges_adjustLockBalance (h : s.adjustLockBalance reg miner account delta = some s') :
    LockChanges delta.of s s' := by
  unfold Locks.State.adjustLockBalance at h
  split at h
  · rename_i hzero
    cases h
    refine ⟨fun a => ?_, fun a => kept_refl _ _⟩
    have hof : delta.of a = 0 := by
      unfold Asset.of
      split
      · exact hzero
      · rfl
    rw [hof, Int.add_zero]
  · obtain ⟨s₁, hlock, h⟩ := bind_eq_some_iff.mp h
    have hsame : s₁.ledger = s.ledger := by
      obtain ⟨_, rfl, _⟩ := adjustLock_cases hlock
      rfl
    have hfirst : LockChanges delta.of s s₁ := by
      refine ⟨fun a => ?_, fun a => (adjusts_adjustLock hlock a).2⟩
      unfold lockHoldings
      rw [hsame, (adjusts_adjustLock hlock a).1.total]
      exact (Int.add_assoc _ _ _).symm
    split at h
    · have hsecond : LockChanges 0 s₁ s' := by
        obtain ⟨_, _, _, _, _, _, rfl⟩ := addTotal_eq_some h
        exact .same rfl rfl
      rw [← add_zero delta.of]
      exact hfirst.trans hsecond
    · cases h
      exact hfirst

variable [DecidableEq H] [Inhabited H]

theorem heldBy_adjustBalance {l l' : Ledger H} {addr : Address H}
    (h : l.adjustBalance addr delta = some l') (a : Nat) :
    l'.heldBy Finset.univ a = l.heldBy Finset.univ a + delta.of a :=
  (moves_adjustBalance h).heldBy (Finset.mem_univ _) a

theorem lockChanges_adjustBalance {addr : Address H} (h : s.adjustBalance addr delta = some s') :
    LockChanges delta.of s s' := by
  obtain ⟨l, hl, rfl⟩ := map_eq_some_iff.mp h
  refine ⟨fun a => ?_, fun a => kept_refl _ _⟩
  show l.heldBy Finset.univ a + s.locks.total (lockOf a) = _
  rw [heldBy_adjustBalance hl]
  unfold lockHoldings
  omega

theorem of_cancel (x : Int) (i : Nat) :
    (⟨-x, i⟩ : Asset).of + (⟨x, i⟩ : Asset).of = (0 : Nat → Int) := by
  funext a
  show (⟨-x, i⟩ : Asset).of a + (⟨x, i⟩ : Asset).of a = 0
  rw [← Asset.of_sum, Int.add_left_neg]
  unfold Asset.of
  split <;> rfl

/-- What leaves the balance is in the lock record. -/
theorem lockChanges_lockBalance {o : LockBalanceOperation H}
    (h : applyLockBalance reg o s = some s') : LockChanges 0 s s' := by
  obtain rfl | ⟨s₁, s₂, h₁, h₂, hsame⟩ := lockBalance_steps h
  · exact .same rfl rfl
  · have hmoved := (lockChanges_adjustBalance h₁).trans (lockChanges_adjustLockBalance h₂)
    rw [of_cancel] at hmoved
    exact hmoved.trans (.same hsame.ledger hsame.locks)

theorem lockChanges_forecloseBalance {o : ForecloseBalanceOperation H}
    (h : applyForecloseBalance reg o s = some s') : LockChanges 0 s s' := by
  obtain rfl | ⟨s₁, s₂, h₁, h₂, hsame⟩ := forecloseBalance_steps h
  · exact .same rfl rfl
  · have hmoved := (lockChanges_adjustLockBalance h₁).trans (lockChanges_adjustBalance h₂)
    rw [of_cancel] at hmoved
    exact hmoved.trans (.same hsame.ledger hsame.locks)

end Locks

/-! ### Records of pay-backs and bonuses -/

section Owed

variable {s s' : State H} {delta : Asset} {miner : Nat} {reg : Registry H} {owner : Address H}
  {name : String}

theorem bonusOf_setBonus {i : Nat} {n : Int} (hi : i ≠ coreAsset) (o : Bonus H) (a : Nat) :
    bonusOf a ((setBonus i n hi).run o) = if a = i then n else bonusOf a o := by
  show ((o.bonus.insert i n).find a).getD 0 = _
  rw [OMap.find_insert]
  split <;> rfl

theorem citizenNamed_spec (h : citizenNamed reg name s = some miner) :
    ∃ x ∈ reg.accounts.rows, ∃ m ∈ s.miners.rows,
      reg.name x.id = name ∧ m.minerAccount = x.id ∧ m.id = miner := by
  obtain ⟨x, hx, h⟩ := bind_eq_some_iff.mp h
  obtain ⟨m, hm, rfl⟩ := map_eq_some_iff.mp h
  have hname := List.find?_some hx
  have haccount := List.find?_some hm
  exact ⟨x, mem_of_find?_eq_some hx, m, mem_of_find?_eq_some hm,
    of_decide_eq_true hname, of_decide_eq_true haccount, rfl⟩

/-- A citizen is found under one name only. -/
theorem citizenNamed_inj {name' : String} (h : citizenNamed reg name s = some miner)
    (h' : citizenNamed reg name' s = some miner) : name = name' := by
  obtain ⟨x, _, m, hm, rfl, haccount, hid⟩ := citizenNamed_spec h
  obtain ⟨x', _, m', hm', rfl, haccount', hid'⟩ := citizenNamed_spec h'
  have hsame : m = m' :=
    inj_on_of_nodup_map s.miners.nodup hm hm' (hid.trans hid'.symm)
  rw [← haccount, ← haccount', hsame]

/-- What is under a name is the pay-back of the citizen with the name. -/
theorem byCitizenName_spec {l : List (PayBack H)} {there : OMap String Asset}
    (h : byCitizenName reg l s = some there) {x : Asset} (hx : there.find name = some x)
    (hminer : citizenNamed reg name s = some miner) :
    ∃ o ∈ l, o.minerId = miner ∧ o.oneOwnerBalance = x := by
  refine foldlM_invariant (fun done (m : OMap String Asset) => m.find name = some x →
    ∃ o ∈ done, o.minerId = miner ∧ o.oneOwnerBalance = x) ?_ ?_ h hx
  · intro hempty
    cases hempty
  intro done o rest m m' _ hdone hm' hfind
  obtain ⟨n, account, hn, haccount, hm'⟩ := bind_bind_eq_some hm'
  cases hm'
  rw [OMap.find_insert] at hfind
  split at hfind
  · -- the citizen is found by the account, and the account by its name
    rename_i hname
    cases hfind
    refine ⟨o, mem_append_right _ (mem_singleton_self _), ?_, rfl⟩
    obtain ⟨y, hy, n', hn', hyname, hn'account, hid⟩ := citizenNamed_spec hminer
    have hmem := mem_of_find (t := reg.accounts) haccount
    have hkey := key_of_find (t := reg.accounts) haccount
    have hsame := reg.name_unique y hy account hmem (hyname.trans hname)
    have honce := s.accountOnce n' hn' n (mem_of_find hn)
      (hn'account.trans (hsame.trans hkey))
    rw [← key_of_find hn, ← honce, hid]
  · obtain ⟨o', ho', heq⟩ := hdone hfind
    exact ⟨o', mem_append_left _ ho', heq⟩

variable [DecidableEq H]

def Covered (reg : Registry H) (owner : Address H) (s : State H) (entry : String × Asset) : Prop :=
  ∃ miner o, citizenNamed reg entry.1 s = some miner ∧
    s.payBacks.find (owner.addr, miner) = some o ∧ entry.2.amount ≤ o.oneOwnerBalance.amount

/-- The evaluator looks at every entry before any of them is paid. -/
theorem covered_of_evaluate {o : PayBackOperation H} {entry : String × Asset}
    (hhead : payBackCheckedFrom ≤ s.headBlockNum)
    (h : evaluatePayBack reg o s = true)
    (hentry : entry ∈ o.payBackBalance.entries) : Covered reg o.payBackOwner s entry := by
  unfold evaluatePayBack at h
  rw [Bool.and_eq_true, Option.any_eq_true] at h
  obtain ⟨_, there, hthere, h⟩ := h
  split at h
  · have hbefore := of_decide_eq_true h
    omega
  rw [Bool.and_eq_true, List.all_eq_true] at h
  have hcheck := h.1 entry hentry
  unfold checkEntry at hcheck
  rw [Bool.and_eq_true, Bool.and_eq_true, Option.any_eq_true] at hcheck
  obtain ⟨⟨hsome, _⟩, x, hx, hle⟩ := hcheck
  obtain ⟨miner, hminer⟩ := isSome_iff_exists.mp hsome
  obtain ⟨p, hp, rfl, rfl⟩ := byCitizenName_spec hthere hx hminer
  rw [Bool.and_eq_true] at hle
  refine ⟨p.minerId, p, hminer, ?_, of_decide_eq_true hle.2⟩
  obtain ⟨hmem, howner⟩ := mem_filter.mp hp
  rw [← of_decide_eq_true howner]
  exact find_of_mem hmem

/-- Paying out one row leaves what is owed by other citizens alone. -/
theorem adjustPayBackBalance_others (h : s.adjustPayBackBalance reg owner delta miner = some s') :
    s'.miners = s.miners ∧
      ∀ k, k ≠ (owner.addr, miner) → s'.payBacks.find k = s.payBacks.find k := by
  unfold State.adjustPayBackBalance at h
  split at h
  · cases h
    exact ⟨rfl, fun _ _ => rfl⟩
  split at h
  · split at h
    · split at h
      · obtain ⟨t, ht, rfl⟩ := map_eq_some_iff.mp h
        refine ⟨rfl, fun k hk => ?_⟩
        rw [(insert_eq_some ht).2 k]
        exact if_neg hk
      · cases h
    · obtain ⟨x, _, rfl⟩ := map_eq_some_iff.mp h
      refine ⟨rfl, fun k hk => ?_⟩
      rw [find_modify]
      cases s.payBacks.find k with
      | none => rfl
      | some o => exact congrArg some (if_neg hk)
  · cases h

/-- A pay-back is adjusted whatever is there, so the caller has to know. -/
theorem adjustPayBackBalance_adjusts (henough : ∀ o, s.payBacks.find (owner.addr, miner) = some o →
      0 ≤ o.oneOwnerBalance.amount → 0 ≤ o.oneOwnerBalance.amount + delta.amount)
    (h : s.adjustPayBackBalance reg owner delta miner = some s') :
    ∃ t, s' = { s with payBacks := t } ∧ ∀ a,
      Table.Adjusts (payBackOf a) (owner.addr, miner) (delta.of a) s.payBacks t ∧
        Table.Kept (payBackOf a) s.payBacks t := by
  unfold State.adjustPayBackBalance at h
  split at h
  · cases h
    rename_i hzero
    refine ⟨s.payBacks, rfl, fun a => ⟨⟨fun _ _ => rfl, ?_⟩, kept_refl _ _⟩⟩
    rw [Asset.of_zero hzero]
    exact (Int.add_zero _).symm
  split at h
  · split at h
    · split at h
      · obtain ⟨t, ht, rfl⟩ := map_eq_some_iff.mp h
        exact ⟨t, rfl, fun a => adjusts_new ht rfl ‹_›⟩
      · cases h
    · rename_i o hfind
      obtain ⟨x, hx, rfl⟩ := map_eq_some_iff.mp h
      obtain ⟨hid, rfl⟩ := Locks.Asset.add_eq hx
      refine ⟨_, rfl, fun a => adjusts_amount (x := o.oneOwnerBalance.amount) _ hfind
        ?_ ?_ (henough o hfind)⟩
      all_goals
        rw [← hid]
        rfl
  · cases h

theorem adjustBonusBalance_adjusts (hcore : delta.assetId ≠ coreAsset)
    (h : s.adjustBonusBalance reg owner delta = some s') :
    ∃ t, s' = { s with bonuses := t } ∧ ∀ a,
      Table.Adjusts (bonusOf a) owner.addr (delta.of a) s.bonuses t ∧
        Table.Kept (bonusOf a) s.bonuses t := by
  unfold State.adjustBonusBalance at h
  rw [dif_neg hcore] at h
  split at h
  · cases h
    rename_i hzero
    refine ⟨s.bonuses, rfl, fun a => ⟨⟨fun _ _ => rfl, ?_⟩, kept_refl _ _⟩⟩
    rw [Asset.of_zero hzero]
    exact (Int.add_zero _).symm
  split at h
  · split at h
    · split at h
      · obtain ⟨t, ht, rfl⟩ := map_eq_some_iff.mp h
        refine ⟨t, rfl, fun a => adjusts_new ht ?_ ‹_›⟩
        rw [bonusOf_setBonus]
        rfl
      · cases h
    · rename_i o hfind
      split at h
      · rename_i hcovers
        obtain ⟨n, hn, rfl⟩ := map_eq_some_iff.mp h
        cases share_eq hn
        have hsum : ∀ a, bonusOf a ((setBonus delta.assetId
            ((o.bonus.find delta.assetId).getD 0 + delta.amount) hcore).run o) =
              bonusOf a o + delta.of a := by
          intro a
          rw [bonusOf_setBonus]
          unfold Asset.of
          split
          · rename_i ha
            rw [ha]
            rfl
          · exact (Int.add_zero _).symm
        refine ⟨_, rfl, fun a => ?_⟩
        have hadjusts := adjusts_modify _ hfind (hsum a)
        refine ⟨hadjusts, hadjusts.kept fun hvalue => ?_⟩
        rw [valueAt_of_find hfind] at hvalue ⊢
        by_cases ha : a = delta.assetId
        · have hof : delta.of a = delta.amount := if_pos ha
          rw [hof, ha]
          exact bonusCovers_nonneg hcovers
        · have hof : delta.of a = 0 := if_neg ha
          rw [hof, Int.add_zero]
          exact hvalue
      · cases h
  · cases h

/-- A bonus in the core asset never passes the evaluator. -/
theorem noCore_of_evaluate {o : BonusOperation H} {entry : String × Int}
    (h : evaluateBonus reg o s = true) (hentry : entry ∈ o.bonusBalance.entries) :
    reg.bySymbol entry.1 ≠ some coreAsset := by
  intro hcore
  unfold evaluateBonus at h
  rw [Bool.and_eq_true, List.all_eq_true] at h
  have hcheck := h.2 entry hentry
  rw [hcore, any_some, Bool.and_eq_true] at hcheck
  have hpos := of_decide_eq_true hcheck.1
  have hle := of_decide_eq_true hcheck.2
  have hzero : getBonusBalance o.bonusOwner coreAsset s = 0 := by
    unfold getBonusBalance
    cases hfind : s.bonuses.find o.bonusOwner.addr with
    | none => rfl
    | some b =>
      rw [bind_some, b.noCore]
      rfl
  omega

end Owed

variable [DecidableEq H]

theorem NoneNegative.refl (s : State H) : NoneNegative s s :=
  ⟨fun _ => kept_refl _ _, fun _ => kept_refl _ _, fun _ => kept_refl _ _, fun _ => kept_refl _ _⟩

theorem NoneNegative.trans {s s' s'' : State H} (h : NoneNegative s s')
    (h' : NoneNegative s' s'') : NoneNegative s s'' where
  locks a k hk := h'.locks a k (h.locks a k hk)
  guardLocks a k hk := h'.guardLocks a k (h.guardLocks a k hk)
  payBacks a k hk := h'.payBacks a k (h.payBacks a k hk)
  bonuses a k hk := h'.bonuses a k (h.bonuses a k hk)

/-! ### Every call -/

section Calls

variable [Fintype H] {s s' : State H} {delta : Asset} {d : Nat → Int} {guard miner : Nat}
  {reg : Registry H} {owner : Address H} {name : String}

/-- The holdings change by `d`, and nothing becomes negative. -/
structure Changes (d : Nat → Int) (s s' : State H) : Prop where
  holdings : ∀ a, s'.holdings a = s.holdings a + d a
  noneNegative : NoneNegative s s'

theorem Changes.refl (s : State H) : Changes 0 s s :=
  ⟨fun _ => (Int.add_zero _).symm, .refl s⟩

theorem Changes.trans {d' : Nat → Int} {s'' : State H} (h : Changes d s s')
    (h' : Changes d' s' s'') : Changes (d + d') s s'' := by
  refine ⟨fun a => ?_, h.noneNegative.trans h'.noneNegative⟩
  rw [h'.holdings, h.holdings]
  exact Int.add_assoc _ _ _

/-- Taking an amount from one place and putting it in another changes nothing in total. -/
theorem Changes.cancel {x : Int} {i : Nat} {s'' : State H}
    (h : Changes (⟨-x, i⟩ : Asset).of s s') (h' : Changes (⟨x, i⟩ : Asset).of s' s'') :
    Changes 0 s s'' := by
  rw [← of_cancel x i]
  exact h.trans h'

theorem Changes.of_zero (h : delta.amount = 0) (s : State H) : Changes delta.of s s := by
  have hof : delta.of = 0 := funext (Asset.of_zero h)
  rw [hof]
  exact .refl s

theorem changes_setLedger {l : Ledger H}
    (h : ∀ a, l.heldBy Finset.univ a = s.ledger.heldBy Finset.univ a + d a) :
    Changes d s (s.setLedger l) := by
  refine ⟨fun a => ?_, ?_⟩
  · show l.heldBy Finset.univ a + _ + _ + _ + _ =
      s.ledger.heldBy Finset.univ a + _ + _ + _ + _ + d a
    rw [h a]
    show _ + _ + s.locks.total _ + s.guardLocks.total _ + s.payBacks.total _ + s.bonuses.total _ = _
    omega
  · exact ⟨fun _ => kept_refl _ _, fun _ => kept_refl _ _, fun _ => kept_refl _ _,
      fun _ => kept_refl _ _⟩

/-- The locking operations see only their part of the state. -/
theorem changes_onLocks {f : Locks.State H → Option (Locks.State H)}
    (hf : ∀ {s s'}, f s = some s' → SameCitizens s s')
    (hd : ∀ {t}, f s.toState = some t → LockChanges d s.toState t) (h : s.onLocks f hf = some s') :
    Changes d s s' := by
  obtain ⟨t, ht, heq⟩ := pbind_eq_some_iff.mp h
  cases heq
  have hlocks := hd ht
  refine ⟨fun a => ?_, ⟨hlocks.kept, fun _ => kept_refl _ _, fun _ => kept_refl _ _,
    fun _ => kept_refl _ _⟩⟩
  show lockHoldings t a + s.guardLocks.total _ + s.payBacks.total _ + s.bonuses.total _ = _
  rw [hlocks.holdings a]
  unfold State.holdings
  omega

theorem changes_guardLocks {t : Table GuardLock.key} {k : Nat × Nat}
    (h : ∀ a, Table.Adjusts (guardLockOf a) k (d a) s.guardLocks t ∧
      Table.Kept (guardLockOf a) s.guardLocks t) : Changes d s { s with guardLocks := t } := by
  refine ⟨fun a => ?_, ⟨fun _ => kept_refl _ _, fun a => (h a).2, fun _ => kept_refl _ _,
    fun _ => kept_refl _ _⟩⟩
  show lockHoldings s.toState a + t.total _ + s.payBacks.total _ + s.bonuses.total _ = _
  rw [(h a).1.total]
  unfold State.holdings
  omega

theorem changes_payBacks {t : Table (PayBack.key (H := H))} {k : H × Nat}
    (h : ∀ a, Table.Adjusts (payBackOf a) k (d a) s.payBacks t ∧
      Table.Kept (payBackOf a) s.payBacks t) : Changes d s { s with payBacks := t } := by
  refine ⟨fun a => ?_, ⟨fun _ => kept_refl _ _, fun _ => kept_refl _ _, fun a => (h a).2,
    fun _ => kept_refl _ _⟩⟩
  show lockHoldings s.toState a + s.guardLocks.total _ + t.total _ + s.bonuses.total _ = _
  rw [(h a).1.total]
  unfold State.holdings
  omega

theorem changes_bonuses {t : Table (Bonus.key (H := H))} {k : H}
    (h : ∀ a, Table.Adjusts (bonusOf a) k (d a) s.bonuses t ∧
      Table.Kept (bonusOf a) s.bonuses t) : Changes d s { s with bonuses := t } := by
  refine ⟨fun a => ?_, ⟨fun _ => kept_refl _ _, fun _ => kept_refl _ _, fun _ => kept_refl _ _,
    fun a => (h a).2⟩⟩
  show lockHoldings s.toState a + s.guardLocks.total _ + s.payBacks.total _ + t.total _ = _
  rw [(h a).1.total]
  unfold State.holdings
  omega

theorem changes_adjustGuardLockBalance (h : s.adjustGuardLockBalance guard delta = some s') :
    Changes delta.of s s' := by
  unfold State.adjustGuardLockBalance at h
  split at h
  · cases h
    exact .of_zero ‹_› s
  split at h
  · split at h
    · obtain ⟨t, ht, rfl⟩ := map_eq_some_iff.mp h
      exact changes_guardLocks fun a => adjusts_new ht rfl ‹_›
    · cases h
  · rename_i o hfind
    split at h
    · cases h
    obtain ⟨n, hn, rfl⟩ := map_eq_some_iff.mp h
    rw [share_eq hn]
    have hid : o.lockAssetId = delta.assetId := congrArg Prod.snd (key_of_find hfind)
    refine changes_guardLocks fun a => adjusts_amount (x := o.lockAssetAmount) _ hfind ?_ ?_ ?_
    · rw [← hid]
      rfl
    · rw [← hid]
      rfl
    · omega

theorem changes_adjustPayBackBalance (henough : ∀ o, s.payBacks.find (owner.addr, miner) = some o →
      0 ≤ o.oneOwnerBalance.amount → 0 ≤ o.oneOwnerBalance.amount + delta.amount)
    (h : s.adjustPayBackBalance reg owner delta miner = some s') : Changes delta.of s s' := by
  obtain ⟨t, rfl, ht⟩ := adjustPayBackBalance_adjusts henough h
  exact changes_payBacks ht

theorem changes_guards (t : Table Guard.id) : Changes 0 s { s with guards := t } := by
  refine ⟨fun a => (Int.add_zero _).symm, ?_⟩
  exact ⟨fun _ => kept_refl _ _, fun _ => kept_refl _ _, fun _ => kept_refl _ _,
    fun _ => kept_refl _ _⟩

theorem changes_headBlockNum (n : Nat) :
    Changes 0 s { s with toState := { s.toState with headBlockNum := n } } := by
  refine ⟨fun a => (Int.add_zero _).symm, ?_⟩
  exact ⟨fun _ => kept_refl _ _, fun _ => kept_refl _ _, fun _ => kept_refl _ _,
    fun _ => kept_refl _ _⟩

theorem changes_addGuardTotal (h : s.addGuardTotal reg guard delta = some s') : Changes 0 s s' := by
  obtain ⟨_, _, _, _, h⟩ := bind_bind_eq_some h
  obtain ⟨_, _, h⟩ := bind_eq_some_iff.mp h
  cases h
  exact changes_guards _

theorem changes_subGuardTotal (h : s.subGuardTotal reg guard delta = some s') : Changes 0 s s' := by
  obtain ⟨_, _, _, _, h⟩ := bind_bind_eq_some h
  split at h
  · cases h
    exact .refl s
  · obtain ⟨_, _, h⟩ := bind_eq_some_iff.mp h
    cases h
    exact changes_guards _

variable [Inhabited H]

theorem changes_adjustBalance {addr : Address H} (h : s.adjustBalance addr delta = some s') :
    Changes delta.of s s' := by
  obtain ⟨l, hl, rfl⟩ := map_eq_some_iff.mp h
  exact changes_setLedger (heldBy_adjustBalance hl)

/-- The fee is taken from the payer, or from the guarantor, who gets its price. -/
theorem changes_payFee {e : Event H} (h : e.payFee s = some s') :
    Changes (fun a => -e.charged a) s s' := by
  unfold Event.payFee at h
  unfold Event.charged
  split at h
  · rename_i htesting
    cases h
    simp only [if_pos htesting, Int.neg_zero]
    exact .refl s
  · rename_i htesting
    simp only [if_neg htesting]
    obtain ⟨l, hl, rfl⟩ := map_eq_some_iff.mp h
    obtain ⟨l₁, hdebit, hpay⟩ := bind_eq_some_iff.mp hl
    obtain ⟨hheld, _⟩ := collected_modify (x := e.fee) hpay
    refine changes_setLedger fun a => ?_
    rw [hheld]
    split
    · rename_i hfee
      obtain ⟨htaken, _⟩ := FeeCharge.debit_spec (s := Finset.univ) hfee (Finset.mem_univ _)
        (fun _ _ _ _ => Finset.mem_univ _) hdebit
      rw [htaken a]
      exact Int.sub_eq_add_neg
    · -- nobody pays
      rename_i hfee
      rw [not_or] at hfee
      have hnone : e.charge.guaranteeId = none := not_isSome_iff_eq_none.mp hfee.2
      unfold FeeCharge.debit at hdebit
      rw [hnone] at hdebit
      have hsame := Option.some.inj ((if_neg hfee.1).symm.trans hdebit)
      rw [hsame]
      exact (Int.add_zero _).symm

/-! ### Transfers and guards -/

/-- A transfer within the node only moves money. -/
theorem changes_transfer {o : TransferOperation H} (h : applyTransfer reg o s = some s') :
    Changes 0 s s' := by
  unfold applyTransfer at h
  split at h
  · obtain ⟨s₁, h₁, h₂⟩ := bind_eq_some_iff.mp h
    exact (changes_adjustBalance h₁).cancel (changes_adjustBalance h₂)
  · cases h

theorem changes_guardLockBalance {o : GuardLockBalanceOperation H}
    (h : applyGuardLockBalance reg o s = some s') : Changes 0 s s' := by
  unfold applyGuardLockBalance at h
  split at h
  · obtain ⟨s₁, s₂, h₁, h₂, h₃⟩ := bind_bind_eq_some h
    have hmoved := (changes_adjustBalance h₁).cancel (changes_adjustGuardLockBalance h₂)
    exact hmoved.trans (changes_addGuardTotal h₃)
  · cases h

theorem changes_guardForecloseBalance {o : GuardForecloseBalanceOperation H}
    (h : applyGuardForecloseBalance reg o s = some s') : Changes 0 s s' := by
  unfold applyGuardForecloseBalance at h
  split at h
  · obtain ⟨s₁, s₂, h₁, h₂, h₃⟩ := bind_bind_eq_some h
    have hmoved : Changes 0 s s₂ := by
      rw [← of_cancel o.forecloseAssetAmount o.forecloseAssetId, add_comm]
      exact (changes_adjustBalance h₁).trans (changes_adjustGuardLockBalance h₂)
    exact hmoved.trans (changes_subGuardTotal h₃)
  · cases h

/-! ### Pay-backs -/

variable {o : PayBackOperation H} {entry : String × Asset}

/-- One entry: what it takes from the pay-back it gives to the balance, and the other
    entries are covered as before. -/
theorem changes_payBack (hcovered : Covered reg owner s entry)
    (h : s.payBack reg owner entry = some s') :
    Changes 0 s s' ∧ ∀ entry' : String × Asset, entry'.1 ≠ entry.1 →
      Covered reg owner s entry' → Covered reg owner s' entry' := by
  obtain ⟨miner, o, hminer, hfind, hle⟩ := hcovered
  obtain ⟨miner', hminer', h⟩ := bind_eq_some_iff.mp h
  cases hminer.symm.trans hminer'
  obtain ⟨s₁, h₁, h₂⟩ := bind_eq_some_iff.mp h
  have htaken : Changes entry.2.neg.of s s₁ := by
    refine changes_adjustPayBackBalance ?_ h₁
    intro o' ho' _
    cases hfind.symm.trans ho'
    show 0 ≤ o.oneOwnerBalance.amount + -entry.2.amount
    omega
  refine ⟨htaken.cancel (changes_adjustBalance h₂), ?_⟩
  rintro entry' hne ⟨n, o', hn, ho', hle'⟩
  obtain ⟨hminers, hothers⟩ := adjustPayBackBalance_others h₁
  obtain ⟨l, _, rfl⟩ := map_eq_some_iff.mp h₂
  refine ⟨n, o', ?_, ?_, hle'⟩
  · show ((reg.byName entry'.1).bind fun x => (s₁.miners.rows.find? _).map Miner.id) = some n
    rw [hminers]
    exact hn
  · have hother : (owner.addr, n) ≠ (owner.addr, miner) := by
      intro heq
      cases heq
      exact hne (citizenNamed_inj hn hminer)
    show s₁.payBacks.find (owner.addr, n) = some o'
    rw [hothers _ hother]
    exact ho'

/-- The entries name different citizens, so that paying one leaves the others covered. -/
theorem changes_payEach {l : List (String × Asset)} (hdistinct : l.Pairwise fun x y => x.1 < y.1)
    (hcovered : ∀ entry ∈ l, Covered reg owner s entry)
    (h : l.foldlM (State.payBack reg owner) s = some s') : Changes 0 s s' := by
  induction l generalizing s with
  | nil =>
    cases h
    exact .refl _
  | cons entry l ih =>
    rw [foldlM_cons] at h
    obtain ⟨s₁, h₁, h⟩ := bind_eq_some_iff.mp h
    obtain ⟨hfirst, hrest⟩ := pairwise_cons.mp hdistinct
    obtain ⟨hchanges, hkept⟩ := changes_payBack (hcovered entry mem_cons_self) h₁
    refine hchanges.trans (ih hrest ?_ h)
    intro entry' hentry'
    exact hkept entry' (ne_of_gt (hfirst entry' hentry'))
      (hcovered entry' (mem_cons_of_mem entry hentry'))

/-- What is no longer owed to the owner is in their balance. -/
theorem changes_applyPayBack
    (hcheckpoint : checkPointBlock < s.headBlockNum) (hhead : payBackCheckedFrom ≤ s.headBlockNum)
    (h : applyPayBack reg o s = some s') : Changes 0 s s' := by
  unfold applyPayBack at h
  split at h
  · rename_i haccepted
    have hevaluate := ifEvaluate_of_checked hcheckpoint haccepted.2
    exact changes_payEach o.payBackBalance.sorted
      (fun entry hentry => covered_of_evaluate hhead hevaluate hentry) h
  · cases h

/-! ### Bonuses -/

variable {entry : String × Int}

theorem changes_takeBonus (hcore : reg.bySymbol entry.1 ≠ some coreAsset)
    (h : s.takeBonus reg owner entry = some s') : Changes 0 s s' := by
  obtain ⟨a, s₁, ha, h₁, h₂⟩ := bind_bind_eq_some h
  have hother : a ≠ coreAsset := by
    rintro rfl
    exact hcore ha
  obtain ⟨t, rfl, ht⟩ := adjustBonusBalance_adjusts hother h₁
  exact (changes_bonuses ht).cancel (changes_adjustBalance h₂)

variable {o : BonusOperation H}

theorem changes_applyBonus (hcheckpoint : checkPointBlock < s.headBlockNum)
    (h : applyBonus reg o s = some s') : Changes 0 s s' := by
  unfold applyBonus at h
  split at h
  · rename_i haccepted
    have hevaluate := ifEvaluate_of_checked hcheckpoint haccepted.2
    refine foldlM_invariant (fun _ t => Changes 0 s t) (.refl s) ?_ h
    intro _ entry _ t t' hl ht hone
    have hnoCore := noCore_of_evaluate hevaluate (mem_of_split hl)
    exact ht.trans (changes_takeBonus hnoCore hone)
  · cases h

end Calls

/-! ### Runs -/

section Runs

variable [Fintype H] [Inhabited H] {reg : Registry H} {s s' : State H}

/-- **One operation** moves its amounts without loss. -/
theorem changes_apply {op : Operation H} (hcheckpoint : checkPointBlock < s.headBlockNum)
    (hhead : payBackCheckedFrom ≤ s.headBlockNum) (h : op.apply reg s = some s') :
    Changes 0 s s' := by
  cases op with
  | transfer o => exact changes_transfer h
  | lockBalance o => exact changes_onLocks sameCitizens_lockBalance lockChanges_lockBalance h
  | forecloseBalance o =>
    exact changes_onLocks sameCitizens_forecloseBalance lockChanges_forecloseBalance h
  | guardLockBalance o => exact changes_guardLockBalance h
  | guardForecloseBalance o => exact changes_guardForecloseBalance h
  | payBack o => exact changes_applyPayBack hcheckpoint hhead h
  | bonus o => exact changes_applyBonus hcheckpoint h

/-- **Holdings are conserved.**  Over any accepted operations at blocks from 4879000 on and
    above the checkpoint, the holdings of every asset shrink by the fees that are charged,
    and no lock, guard lock, pay-back or bonus becomes negative. -/
theorem holdings_conserved (reg : Registry H) (events : List (Event H)) (s s' : State H)
    (hheads : ∀ e ∈ events,
      payBackCheckedFrom ≤ e.headBlockNum ∧ checkPointBlock < e.headBlockNum)
    (hrun : run reg events s = some s') :
    (∀ a, s'.holdings a = s.holdings a - (events.map fun e => e.charged a).sum) ∧
      NoneNegative s s' := by
  unfold run at hrun
  induction events generalizing s with
  | nil =>
    cases hrun
    exact ⟨fun a => (Int.sub_zero _).symm, .refl _⟩
  | cons e events ih =>
    rw [foldlM_cons] at hrun
    obtain ⟨s₁, h₁, hrun⟩ := bind_eq_some_iff.mp hrun
    have hfirst : Changes (fun a => -e.charged a) s s₁ := by
      unfold Event.apply at h₁
      split at h₁
      · obtain ⟨s₂, h₂, h₃⟩ := bind_eq_some_iff.mp h₁
        have hop := changes_apply (hheads e mem_cons_self).2 (hheads e mem_cons_self).1 h₂
        have hall := (changes_headBlockNum e.headBlockNum).trans (hop.trans (changes_payFee h₃))
        rwa [zero_add, zero_add] at hall
      · cases h₁
    obtain ⟨hrest, hnone⟩ := ih s₁ (fun e' he' => hheads e' (mem_cons_of_mem e he')) hrun
    refine ⟨fun a => ?_, hfirst.noneNegative.trans hnone⟩
    rw [hrest a, hfirst.holdings a, map_cons, sum_cons]
    omega

end Runs

/-! ### A run

Account 1, which is also a guard, transfers, locks and takes back, and draws its pay-back
from the citizen with account 2 and its bonus; each operation costs one of the core asset. -/

def moneyRegistry : Registry (Fin 4) where
  symbol a := if a = 0 then some "HX" else if a = 1 then some "BTC" else none
  accounts := ⟨[⟨1, ⟨Address.normal, 1⟩⟩, ⟨2, ⟨Address.normal, 2⟩⟩], by decide⟩
  permanentSenator _ := false
  isWhite _ := false
  owns _ _ := true
  symbol_unique := @sampleRegistry.symbol_unique
  bySymbol sym := if sym = "HX" then some 0 else if sym = "BTC" then some 1 else none
  bySymbol_iff := by
    intro sym a
    grind
  name id := if id = 1 then "owner" else "citizen"
  name_unique := by decide
  minPayBackBalance := 1
  minPayBackBalanceOtherAsset := .empty

def moneyStart : State (Fin 4) where
  headBlockNum := 5000000
  ledger :=
    { balances := fun x a => if x = 1 ∧ a < 2 then some ⟨100, 0⟩ else none
      guarantees := fun _ => none
      collected := fun _ => 0 }
  locks := .empty
  miners := ⟨[⟨0, 2, .empty⟩], nodup_singleton _⟩
  records _ _ := 0
  currentSupply _ := 1000
  guards := ⟨[⟨5, 1, .empty⟩], by decide⟩
  guardLocks := .empty
  payBacks := ⟨[⟨⟨Address.normal, 1⟩, 0, ⟨20, 0⟩⟩], by decide⟩
  bonuses :=
    ⟨[(setBonus 1 7 (by decide)).run ⟨⟨Address.normal, 1⟩, .empty, OMap.find_empty _⟩], by decide⟩
  accountOnce := by
    intro m hm m' hm' _
    rw [mem_singleton.mp hm, mem_singleton.mp hm']

def moneyEvent (op : Operation (Fin 4)) : Event (Fin 4) :=
  ⟨5000000, op, ⟨1, 0⟩, some 1, true, false⟩

def moneyEvents : List (Event (Fin 4)) :=
  let owner : Address (Fin 4) := ⟨Address.normal, 1⟩
  [moneyEvent (.transfer ⟨none, owner, ⟨Address.normal, 2⟩, ⟨10, 0⟩⟩),
   moneyEvent (.lockBalance ⟨1, 30, .null, 1, 0, owner⟩),
   moneyEvent (.forecloseBalance ⟨1, 10, .null, 1, 0, owner⟩),
   moneyEvent (.guardLockBalance ⟨0, 5, 5, 1, owner⟩),
   moneyEvent (.guardForecloseBalance ⟨0, 5, 5, 1, owner⟩),
   moneyEvent (.payBack ⟨none, owner, OMap.empty.insert "citizen" ⟨15, 0⟩⟩),
   moneyEvent (.bonus ⟨none, owner, OMap.empty.insert "BTC" 7⟩)]

theorem sample_events_conserve : ∃ s', run moneyRegistry moneyEvents moneyStart = some s' ∧
    s'.holdings 0 = moneyStart.holdings 0 - 7 ∧ s'.holdings 1 = moneyStart.holdings 1 ∧
    NoneNegative moneyStart s' := by
  have haccepted : (run moneyRegistry moneyEvents moneyStart).isSome = true := by decide +kernel
  obtain ⟨s', hs'⟩ := isSome_iff_exists.mp haccepted
  have hheads : ∀ e ∈ moneyEvents,
      payBackCheckedFrom ≤ e.headBlockNum ∧ checkPointBlock < e.headBlockNum := by decide
  obtain ⟨hholdings, hnone⟩ := holdings_conserved moneyRegistry moneyEvents moneyStart s' hheads hs'
  refine ⟨s', hs', ?_, ?_, hnone⟩
  · rw [hholdings 0]
    rfl
  · rw [hholdings 1]
    exact Int.sub_zero _

end HyperExchange.Money
