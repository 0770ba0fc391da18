/-
  **Lock totals agree with the locks.**

  `Agree` says that the totals of every citizen and the record of every address are the sums
  of the lock-balance objects they stand for, and that no object is negative.  The calls that
  move an amount between them do it in two steps: `adjust_lock_balance` changes the object and
  the total of the citizen (`Moved`), and the record follows.  In between only the record is
  behind, by the amount moved; `Agree.moved` closes the gap.

  Accounts may share an address, as the index of the accounts by address allows; the record
  of an address is about all of them.
-/
import HyperExchange.LockBalances

namespace HyperExchange.Locks

open Fees Keyed OrderedMap Ops List Option Table
open Execution

variable {H : Type} {reg : Registry H}

theorem Asset.add_eq {a b c : Asset} (h : a.add b = some c) :
    a.assetId = b.assetId ∧ c = ⟨a.amount + b.amount, a.assetId⟩ := by
  unfold Asset.add at h
  split at h
  · rename_i hid
    obtain ⟨n, hn, rfl⟩ := map_eq_some_iff.1 h
    rw [share_eq hn]
    exact ⟨hid, rfl⟩
  · cases h

variable [DecidableEq H]

/-! ### What is locked -/

/-- The amount of an object whose key meets `p`. -/
def weigh (p : Nat × Nat × Nat → Bool) (o : LockBalance) : Int :=
  if p o.key then o.lockAssetAmount else 0

def lockedTo (miner assetId : Nat) (s : State H) : Int :=
  s.locks.total (weigh fun k => k.1 = miner && k.2.2 = assetId)

variable (reg)

def ownerHash (account : Nat) : Option H :=
  (reg.account account).map fun x => x.addr.addr

def lockedBy (reg : Registry H) (x : H) (assetId : Nat) (s : State H) : Int :=
  s.locks.total (weigh fun k => decide (ownerHash reg k.2.1 = some x) && k.2.2 = assetId)

def IsAmount (n : Int) (assetId : Nat) : Option Asset → Prop
  | none => n = 0
  | some t => t = ⟨n, assetId⟩

def Shows (m : OMap String Asset) (f : Nat → Int) : Prop :=
  ∀ a sym, reg.symbol a = some sym → IsAmount (f a) a (m.find sym)

/-- `lockbalance_total` of every citizen is the sum of the locks to the citizen. -/
def TotalsAgree (s : State H) : Prop :=
  ∀ miner m, s.miners.find miner = some m →
    Shows reg m.lockbalanceTotal fun a => lockedTo miner a s

variable {reg}

def NonNegative (s : State H) : Prop := ∀ o ∈ s.locks.rows, 0 ≤ o.lockAssetAmount

structure Agree (reg : Registry H) (s : State H) : Prop where
  totals : TotalsAgree reg s
  records : ∀ x a, s.records x a = lockedBy reg x a s
  nonneg : NonNegative s

/-! ### An entry of the totals -/

omit [DecidableEq H] in
theorem Shows.congr {m : OMap String Asset} {f g : Nat → Int} (h : Shows reg m f)
    (hfg : ∀ a, f a = g a) : Shows reg m g := by
  have : f = g := funext hfg
  rwa [this] at h

omit [DecidableEq H] in
/-- One more amount of an asset changes only what is shown for it. -/
theorem Shows.addTo {m m' : OMap String Asset} {f : Nat → Int} {x : Asset} {sym : String}
    (h : Shows reg m f) (hsym : reg.symbol x.assetId = some sym) (hm : addTo sym x m = some m') :
    Shows reg m' fun a => f a + x.of a := by
  intro a sym' ha
  show IsAmount (f a + x.of a) a _
  have hx := h x.assetId sym hsym
  unfold Locks.addTo at hm
  by_cases heq : sym' = sym
  · -- two assets with one symbol are one
    subst heq
    have haid : a = x.assetId := reg.symbol_unique ha hsym
    subst haid
    have hof : x.of x.assetId = x.amount := if_pos rfl
    rw [hof]
    cases hfind : m.find sym' with
    | none =>
      rw [hfind] at hm hx
      cases hm
      have hzero : f x.assetId = 0 := hx
      rw [OMap.find_insert, if_pos rfl, hzero, Int.zero_add]
      rfl
    | some t =>
      rw [hfind] at hm hx
      obtain ⟨t', ht', rfl⟩ := map_eq_some_iff.1 hm
      have ht : t = ⟨f x.assetId, x.assetId⟩ := hx
      rw [(Asset.add_eq ht').2, OMap.find_insert, if_pos rfl, ht]
      rfl
  · have hother : a ≠ x.assetId := by
      rintro rfl
      rw [hsym] at ha
      exact heq (Option.some.inj ha).symm
    have hfind : m'.find sym' = m.find sym' := by
      cases hfind : m.find sym with
      | none =>
        rw [hfind] at hm
        cases hm
        rw [OMap.find_insert, if_neg heq]
      | some t =>
        rw [hfind] at hm
        obtain ⟨t', -, rfl⟩ := map_eq_some_iff.1 hm
        rw [OMap.find_insert, if_neg heq]
    rw [hfind, Asset.of, if_neg hother, Int.add_zero]
    exact h a sym' ha

/-! ### `adjust_lock_balance` -/

section Adjust

variable {miner account : Nat} {delta : Asset} {s s' : State H}

omit [DecidableEq H]

theorem weigh_eq {o : LockBalance} {k : Nat × Nat × Nat} (h : o.key = k)
    (p : Nat × Nat × Nat → Bool) : weigh p o = if p k then o.lockAssetAmount else 0 := by
  rw [← h]
  rfl

section

variable (h : s.adjustLock miner account delta = some s')
include h

/-- What `adjust_lock_balance` makes of the objects: a new one, none any more, or another
    amount. -/
theorem adjustLock_cases :
    ∃ t, s' = { s with locks := t } ∧
      ((0 < delta.amount ∧
          s.locks.insert ⟨miner, account, delta.assetId, delta.amount⟩ = some t) ∨
        ∃ o, s.locks.find (miner, account, delta.assetId) = some o ∧
          -delta.amount ≤ max o.lockAssetAmount 0 ∧
          ((o.lockAssetAmount + delta.amount = 0 ∧
              t = s.locks.erase (miner, account, delta.assetId)) ∨
            t = s.locks.modify (miner, account, delta.assetId)
              (setAmount (o.lockAssetAmount + delta.amount)))) := by
  unfold State.adjustLock at h
  cases hfind : s.locks.find (miner, account, delta.assetId) with
  | none =>
    rw [hfind] at h
    dsimp only at h
    split at h
    · rename_i hpos
      obtain ⟨t, ht, rfl⟩ := map_eq_some_iff.1 h
      exact ⟨t, rfl, .inl ⟨hpos, ht⟩⟩
    · cases h
  | some o =>
    rw [hfind] at h
    dsimp only at h
    split at h
    · cases h
    rename_i henough
    obtain ⟨n, hn, rfl⟩ := map_eq_some_iff.1 h
    rw [share_eq hn]
    have hmax : -delta.amount ≤ max o.lockAssetAmount 0 := by omega
    split
    · rename_i hzero
      exact ⟨_, rfl, .inr ⟨o, rfl, hmax, .inl ⟨hzero, rfl⟩⟩⟩
    · exact ⟨_, rfl, .inr ⟨o, rfl, hmax, .inr rfl⟩⟩

/-- The sums over the objects change by the amount, if its key is counted. -/
theorem adjustLock_total
    (p : Nat × Nat × Nat → Bool) :
    s'.locks.total (weigh p) = s.locks.total (weigh p) +
      if p (miner, account, delta.assetId) then delta.amount else 0 := by
  obtain ⟨t, rfl, ⟨-, hnew⟩ | ⟨o, hfind, -, hchange⟩⟩ := adjustLock_cases h
  · exact total_insert hnew (weigh p)
  have ho := weigh_eq (key_of_find hfind) p
  show t.total (weigh p) = _
  rcases hchange with ⟨hzero, rfl⟩ | rfl
  · have htotal := total_erase hfind (weigh p)
    rw [ho] at htotal
    split at htotal
    · rw [if_pos ‹_›]
      omega
    · rw [if_neg ‹_›]
      omega
  · have htotal := total_modify (setAmount (o.lockAssetAmount + delta.amount)) hfind (weigh p)
    have hrun : weigh p ((setAmount (o.lockAssetAmount + delta.amount)).run o) =
        if p (miner, account, delta.assetId) then o.lockAssetAmount + delta.amount else 0 := by
      apply weigh_eq
      rw [(setAmount _).keeps]
      exact key_of_find hfind
    rw [hrun, ho] at htotal
    split at htotal
    · rw [if_pos ‹_›]
      omega
    · rw [if_neg ‹_›]
      omega

theorem adjustLock_nonneg (hs : NonNegative s) : NonNegative s' := by
  intro x hx
  have hx := find_of_mem hx
  obtain ⟨t, rfl, ⟨hpos, hnew⟩ | ⟨o, hfind, hmax, hchange⟩⟩ := adjustLock_cases h
  · rw [(insert_eq_some hnew).2] at hx
    split at hx
    · cases hx
      exact Int.le_of_lt hpos
    · exact hs x (mem_of_find hx)
  have ho : 0 ≤ o.lockAssetAmount := hs o (mem_of_find hfind)
  rcases hchange with ⟨-, rfl⟩ | rfl
  · rw [find_erase] at hx
    split at hx
    · cases hx
    · exact hs x (mem_of_find hx)
  · rw [find_modify] at hx
    obtain ⟨y, hy, hxy⟩ := map_eq_some_iff.1 hx
    split at hxy
    · subst hxy
      show 0 ≤ o.lockAssetAmount + delta.amount
      omega
    · subst hxy
      exact hs y (mem_of_find hy)

/-- A move of `delta`, as far as `adjust_lock_balance` carries it out: the records are behind. -/
structure Moved (reg : Registry H) (account : Nat) (delta : Asset) (s s' : State H) : Prop where
  totals : TotalsAgree reg s → TotalsAgree reg s'
  nonneg : NonNegative s → NonNegative s'
  lockedBy : ∀ x a, lockedBy reg x a s' =
    lockedBy reg x a s + if ownerHash reg account = some x then delta.of a else 0
  records : s'.records = s.records
  headBlockNum : s'.headBlockNum = s.headBlockNum

theorem lockedTo_adjustLock (m a : Nat) :
    lockedTo m a s' = lockedTo m a s + if miner = m then delta.of a else 0 := by
  unfold lockedTo
  rw [adjustLock_total h, Asset.of]
  by_cases hm : miner = m <;> by_cases ha : a = delta.assetId <;> simp [hm, ha, eq_comm]

theorem lockedBy_adjustLock (x : H) (a : Nat)
    [DecidableEq H] :
    lockedBy reg x a s' =
      lockedBy reg x a s + if ownerHash reg account = some x then delta.of a else 0 := by
  unfold lockedBy
  rw [adjustLock_total h, Asset.of]
  by_cases hx : ownerHash reg account = some x <;> by_cases ha : a = delta.assetId <;>
    simp [hx, ha, eq_comm]

end

theorem addTotal_eq_some (h : s.addTotal reg miner delta = some s') :
    ∃ sym m t, reg.symbol delta.assetId = some sym ∧ s.miners.find miner = some m ∧
      addTo sym delta m.lockbalanceTotal = some t ∧
      s' = { s with miners := s.miners.modify miner (setTotal t) } := by
  unfold State.addTotal at h
  simp only [bind_eq_bind, bind_eq_some_iff, Option.some.injEq] at h
  obtain ⟨sym, hsym, m, hm, t, ht, rfl⟩ := h
  exact ⟨sym, m, t, hsym, hm, ht, rfl⟩

/-- The total of a citizen is adjusted by what was locked, under the symbol of the asset. -/
theorem addTotal_totals {s₁ : State H} (hs : TotalsAgree reg s)
    (hlock : s.adjustLock miner account delta = some s₁)
    (h : s₁.addTotal reg miner delta = some s') : TotalsAgree reg s' := by
  obtain ⟨sym, m, t, hsym, hm, ht, rfl⟩ := addTotal_eq_some h
  have hminers : s₁.miners = s.miners := by
    obtain ⟨_, rfl, -⟩ := adjustLock_cases hlock
    rfl
  intro k m' hm'
  rw [find_modify] at hm'
  obtain ⟨m₀, hm₀, hmm⟩ := map_eq_some_iff.1 hm'
  show Shows reg m'.lockbalanceTotal fun a => lockedTo k a s₁
  have hshows := hs k m₀ (hminers ▸ hm₀)
  split at hmm
  · rename_i hk
    subst hk hmm
    rw [hm] at hm₀
    cases hm₀
    refine (hshows.addTo hsym ht).congr ?_
    intro a
    rw [lockedTo_adjustLock hlock, if_pos rfl]
  · rename_i hk
    subst hmm
    refine hshows.congr ?_
    intro a
    rw [lockedTo_adjustLock hlock, if_neg (fun h => hk h.symm), Int.add_zero]

theorem adjustLockBalance_moved [DecidableEq H] (hhead : lockbalanceCorrect ≤ s.headBlockNum)
    (h : s.adjustLockBalance reg miner account delta = some s') :
    Moved reg account delta s s' := by
  unfold State.adjustLockBalance at h
  split at h
  · rename_i hzero
    cases h
    refine ⟨id, id, ?_, rfl, rfl⟩
    intro x a
    have hof : delta.of a = 0 := by
      unfold Asset.of
      split
      · exact hzero
      · rfl
    rw [hof, ite_self, Int.add_zero]
  · obtain ⟨s₁, hlock, htotal⟩ := bind_eq_some_iff.1 h
    have hframe : s₁.records = s.records ∧ s₁.headBlockNum = s.headBlockNum := by
      obtain ⟨_, rfl, -⟩ := adjustLock_cases hlock
      exact ⟨rfl, rfl⟩
    rw [if_pos (hframe.2 ▸ hhead)] at htotal
    have hlocks : s'.locks = s₁.locks ∧ s'.records = s₁.records ∧
        s'.headBlockNum = s₁.headBlockNum := by
      obtain ⟨_, _, _, -, -, -, rfl⟩ := addTotal_eq_some htotal
      exact ⟨rfl, rfl, rfl⟩
    refine ⟨fun hs => addTotal_totals hs hlock htotal, ?_, ?_, ?_, ?_⟩
    · intro hs
      have := adjustLock_nonneg hlock hs
      unfold NonNegative at this ⊢
      rwa [hlocks.1]
    · intro x a
      rw [← lockedBy_adjustLock hlock]
      unfold lockedBy
      rw [hlocks.1]
    · rw [hlocks.2.1, hframe.1]
    · rw [hlocks.2.2, hframe.2]

end Adjust

/-! ### The record follows -/

section Records

variable {account : Nat} {addr : Address H} {delta : Asset} {s s₁ s₂ : State H}

/-- Same locks, totals and records: balances and supplies may differ. -/
structure SameLocks (s s' : State H) : Prop where
  locks : s'.locks = s.locks
  miners : s'.miners = s.miners
  records : s'.records = s.records
  headBlockNum : s'.headBlockNum = s.headBlockNum

omit [DecidableEq H] in
theorem SameLocks.trans {s s' s'' : State H} (h : SameLocks s s') (h' : SameLocks s' s'') :
    SameLocks s s'' :=
  ⟨h'.locks.trans h.locks, h'.miners.trans h.miners, h'.records.trans h.records,
    h'.headBlockNum.trans h.headBlockNum⟩

/-- Only locks, totals and records matter. -/
theorem Agree.same (h : Agree reg s) (hs : SameLocks s s₁) : Agree reg s₁ where
  totals := by
    unfold TotalsAgree lockedTo
    rw [hs.miners, hs.locks]
    exact h.totals
  records := by
    unfold lockedBy
    rw [hs.records, hs.locks]
    exact h.records
  nonneg := by
    unfold NonNegative
    rw [hs.locks]
    exact h.nonneg

theorem Moved.same (h : Moved reg account delta s s₁) (hs : SameLocks s₁ s₂) :
    Moved reg account delta s s₂ where
  totals ht := by
    unfold TotalsAgree lockedTo
    rw [hs.miners, hs.locks]
    exact h.totals ht
  nonneg hn := by
    unfold NonNegative
    rw [hs.locks]
    exact h.nonneg hn
  lockedBy := by
    intro x a
    rw [← h.lockedBy]
    unfold Locks.lockedBy
    rw [hs.locks]
  records := hs.records.trans h.records
  headBlockNum := hs.headBlockNum.trans h.headBlockNum

/-- After the record of the owner's address has been changed by the amount moved, everything
    agrees again. -/
theorem Agree.moved (h : Agree reg s) (hmoved : Moved reg account delta s s₁)
    (howner : ownerHash reg account = some addr.addr)
    (hrecord : s₁.adjustRecord addr delta = some s₂) : Agree reg s₂ := by
  obtain ⟨n, hn, rfl⟩ := map_eq_some_iff.1 hrecord
  refine ⟨hmoved.totals h.totals, ?_, hmoved.nonneg h.nonneg⟩
  intro x a
  have hlocked := hmoved.lockedBy x a
  rw [howner, ← h.records] at hlocked
  show (if x = addr.addr ∧ a = delta.assetId then n else s₁.records x a) = lockedBy reg x a s₁
  rw [hlocked, share_eq hn, hmoved.records, Asset.of]
  by_cases hx : x = addr.addr
  · subst hx
    by_cases ha : a = delta.assetId
    · subst ha
      simp
    · simp [ha]
  · have hx' : ¬ some addr.addr = some x := fun h => hx (Option.some.inj h).symm
    simp [hx, hx']

theorem adjustRecord_head (h : s₁.adjustRecord addr delta = some s₂) :
    s₂.headBlockNum = s₁.headBlockNum := by
  obtain ⟨n, -, rfl⟩ := map_eq_some_iff.1 h
  rfl

theorem adjustBalance_same [Inhabited H] (h : s.adjustBalance addr delta = some s₁) :
    SameLocks s s₁ := by
  obtain ⟨l, -, rfl⟩ := map_eq_some_iff.1 h
  exact ⟨rfl, rfl, rfl, rfl⟩

omit [DecidableEq H] in
theorem adjustSupply_same (h : s.adjustSupply reg delta = some s₁) : SameLocks s s₁ := by
  unfold State.adjustSupply at h
  split at h
  · obtain ⟨n, -, rfl⟩ := map_eq_some_iff.1 h
    exact ⟨rfl, rfl, rfl, rfl⟩
  · cases h

end Records

/-! ### The operations -/

/-- Everything agrees, and totals are updated along with the objects. -/
structure Settled (reg : Registry H) (s : State H) : Prop where
  agree : Agree reg s
  corrected : lockbalanceCorrect ≤ s.headBlockNum

section Operations

variable {s s' : State H} {addr : Address H}

omit [DecidableEq H] in
theorem ifEvaluate_of_checked {b : Bool} (hhead : checkPointBlock < s.headBlockNum)
    (h : s.ifEvaluate b = true) : b = true := by
  unfold State.ifEvaluate at h
  rw [decide_eq_true hhead] at h
  exact h

theorem ownerHash_of_any {account : Nat}
    (h : (reg.account account).any (fun x => x.addr = addr) = true) :
    ownerHash reg account = some addr.addr := by
  unfold ownerHash
  cases hx : reg.account account with
  | none =>
    rw [hx] at h
    cases h
  | some x =>
    rw [hx, any_some, decide_eq_true_eq] at h
    rw [map_some, h]

theorem Settled.same {s₁ : State H} (hs : Settled reg s) (h : SameLocks s s₁) :
    Settled reg s₁ :=
  ⟨hs.agree.same h, h.headBlockNum ▸ hs.corrected⟩

theorem ownerHash_of_byAddress {x : Account H} (h : reg.byAddress addr = some x) :
    ownerHash reg x.id = some addr.addr := by
  have hfind : reg.account x.id = some x :=
    find_of_mem (mem_of_find?_eq_some h)
  have hhash := List.find?_some h
  rw [decide_eq_true_eq] at hhash
  unfold ownerHash
  rw [hfind, map_some, hhash]

/-! ### Counting the locks again -/

omit [DecidableEq H] in
/-- The loop of the correction adds up the locks one by one. -/
theorem countLocks_shows (l : List Asset) {m m' : OMap String Asset} {f : Nat → Int}
    (hm : Shows reg m f)
    (h : l.foldlM (fun m x => (reg.symbol x.assetId).bind fun sym => addTo sym x m) m = some m') :
    Shows reg m' fun a => f a + (l.map fun x => x.of a).sum := by
  induction l generalizing m f with
  | nil =>
    cases h
    refine hm.congr ?_
    intro a
    rw [map_nil, sum_nil, Int.add_zero]
  | cons x l ih =>
    rw [foldlM_cons] at h
    obtain ⟨m₁, hone, hrest⟩ := bind_eq_some_iff.1 h
    obtain ⟨sym, hsym, hadd⟩ := bind_eq_some_iff.1 hone
    refine (ih (hm.addTo hsym hadd) hrest).congr ?_
    intro a
    rw [map_cons, sum_cons, Int.add_assoc]

omit [DecidableEq H] in
theorem sum_lockbalanceInfo (miner a : Nat) (s : State H) :
    ((getCitizenLockbalanceInfo miner s).map fun x => x.of a).sum = lockedTo miner a s := by
  unfold getCitizenLockbalanceInfo lockedTo total
  induction s.locks.rows with
  | nil => rfl
  | cons o l ih =>
    rw [map_cons, sum_cons, ← ih]
    by_cases hm : o.locktoMinerAccount = miner
    · rw [filter_cons_of_pos (by simp [hm]), map_cons, map_cons, sum_cons]
      congr 1
      unfold LockBalance.getLockBalance Asset.of weigh LockBalance.key
      simp [hm, eq_comm]
    · rw [filter_cons_of_neg (by simp [hm])]
      have hzero : weigh (fun k => k.1 = miner && k.2.2 = a) o = 0 := by
        unfold weigh LockBalance.key
        simp [hm]
      rw [hzero, Int.zero_add]

variable (hs : Settled reg s)
include hs

theorem Settled.correct {miner : Nat} (h : s.correct reg miner = some s') : Settled reg s' := by
  unfold State.correct at h
  simp only [bind_eq_bind, bind_eq_some_iff] at h
  obtain ⟨m, hm, locks, hlocks, h⟩ := h
  split at h
  · cases h
    exact hs
  cases h
  refine ⟨⟨?_, hs.agree.records, hs.agree.nonneg⟩, hs.corrected⟩
  have hempty : Shows reg OMap.empty fun _ => 0 := by
    intro a sym _
    rfl
  have hcount := countLocks_shows _ hempty hlocks
  intro k m' hm'
  rw [find_modify] at hm'
  obtain ⟨m₀, hm₀, hmm⟩ := map_eq_some_iff.1 hm'
  split at hmm
  · rename_i hk
    subst hk hmm
    refine hcount.congr ?_
    intro a
    rw [sum_lockbalanceInfo, Int.zero_add]
    rfl
  · subst hmm
    exact hs.agree.totals k m₀ hm₀

/-- The correction counts the locks again, whatever the totals were. -/
theorem Settled.correctChainData {o : CorrectChainDataOperation H}
    (h : applyCorrectChainData reg o s = some s') : Settled reg s' := by
  unfold applyCorrectChainData at h
  split at h
  case isFalse => cases h
  obtain ⟨l, -, hloop⟩ := bind_eq_some_iff.1 h
  exact foldlM_invariant (fun _ t => Settled reg t) hs (fun _ ht hone => ht.correct hone) hloop

/-! ### Locking, foreclosing and setting balances -/

variable [Inhabited H]

theorem Settled.lockBalance {o : LockBalanceOperation H} (h : applyLockBalance reg o s = some s') :
    Settled reg s' := by
  unfold applyLockBalance at h
  split at h
  case isFalse => cases h
  rename_i hok
  split at h
  case isFalse =>
    cases h
    exact hs
  rename_i hcontract
  simp only [bind_eq_bind, bind_eq_some_iff] at h
  obtain ⟨s₁, hpaid, s₂, hlock, s₃, hbefore, hrecord⟩ := h
  have hpaid := adjustBalance_same hpaid
  have hhead : lockbalanceCorrect ≤ s₁.headBlockNum := hpaid.headBlockNum ▸ hs.corrected
  have hmoved := adjustLockBalance_moved hhead hlock
  -- the old way to update the totals is not taken any more
  have hlate : s₃ = s₂ := by
    unfold State.lockBefore at hbefore
    rw [if_neg (by rw [hmoved.headBlockNum]; exact Nat.not_lt.2 hhead)] at hbefore
    exact (Option.some.inj hbefore).symm
  subst hlate
  have heval := ifEvaluate_of_checked (Nat.lt_of_lt_of_le (by decide) hs.corrected) hok.2
  unfold evaluateLockBalance at heval
  simp only [hcontract, ne_eq, not_true_eq_false, decide_false, Bool.false_or,
    Bool.and_eq_true] at heval
  refine ⟨(hs.agree.same hpaid).moved hmoved (ownerHash_of_any heval.1.2) hrecord, ?_⟩
  rw [adjustRecord_head hrecord, hmoved.headBlockNum]
  exact hhead

theorem Settled.forecloseBalance {o : ForecloseBalanceOperation H}
    (h : applyForecloseBalance reg o s = some s') : Settled reg s' := by
  unfold applyForecloseBalance at h
  split at h
  case isFalse => cases h
  rename_i hok
  split at h
  case isFalse =>
    cases h
    exact hs
  rename_i hcontract
  simp only [bind_eq_bind, bind_eq_some_iff] at h
  obtain ⟨s₁, hlock, s₂, hpaid, s₃, hbefore, hrecord⟩ := h
  have hmoved := (adjustLockBalance_moved hs.corrected hlock).same (adjustBalance_same hpaid)
  have hhead : lockbalanceCorrect ≤ s₂.headBlockNum := hmoved.headBlockNum ▸ hs.corrected
  have hlate : s₃ = s₂ := by
    unfold State.forecloseBefore at hbefore
    rw [if_neg (Nat.not_lt.2 hhead)] at hbefore
    exact (Option.some.inj hbefore).symm
  subst hlate
  have heval := ifEvaluate_of_checked (Nat.lt_of_lt_of_le (by decide) hs.corrected) hok.2
  unfold evaluateForecloseBalance at heval
  simp only [hcontract, ne_eq, not_true_eq_false, decide_false, Bool.false_or,
    Bool.and_eq_true] at heval
  refine ⟨hs.agree.moved hmoved (ownerHash_of_any heval.1.2) hrecord, ?_⟩
  rw [adjustRecord_head hrecord]
  exact hhead

theorem Settled.setBalance {o : SetBalanceOperation H} (h : applySetBalance reg o s = some s') :
    Settled reg s' := by
  unfold applySetBalance at h
  split at h
  case isFalse => cases h
  simp only [bind_eq_bind, bind_eq_some_iff] at h
  obtain ⟨⟨deposited, locks⟩, heval, lockbalance, -, total, -, missing, -, h⟩ := h
  split at h
  · obtain ⟨s₁, hpaid, hsupply⟩ := bind_eq_some_iff.1 h
    exact hs.same ((adjustBalance_same hpaid).trans (adjustSupply_same hsupply))
  split at h
  · simp only [bind_eq_some_iff] at h
    obtain ⟨s₁, hpull, s₂, hout, s₃, hin, hsupply⟩ := h
    have howner : ownerHash reg deposited.id = some o.addrToDeposit.addr := by
      unfold evaluateSetBalance at heval
      simp only [bind_eq_bind, bind_eq_some_iff] at heval
      obtain ⟨x, hx, y, -, heval⟩ := heval
      split at heval
      · cases heval
        exact ownerHash_of_byAddress hx
      · cases heval
    have hsettled := foldlM_invariant (fun _ t => Settled reg t) hs (by
      intro _ o _ t t' _ ht hone
      obtain ⟨t₀, hlock, hrecord⟩ := bind_eq_some_iff.1 hone
      have hmoved := adjustLockBalance_moved ht.corrected hlock
      refine ⟨ht.agree.moved hmoved howner hrecord, ?_⟩
      rw [adjustRecord_head hrecord, hmoved.headBlockNum]
      exact ht.corrected) hpull
    exact hsettled.same (((adjustBalance_same hout).trans
      (adjustBalance_same hin)).trans (adjustSupply_same hsupply))
  · cases h
    exact hs

/-- One operation, whichever it is. -/
theorem Settled.apply {e : Event H} (h : apply reg e s = some s') : Settled reg s' := by
  cases e with
  | lockBalance o => exact hs.lockBalance h
  | forecloseBalance o => exact hs.forecloseBalance h
  | setBalance o => exact hs.setBalance h
  | correctChainData o => exact hs.correctChainData h
  | balances l =>
    cases h
    exact hs.same ⟨rfl, rfl, rfl, rfl⟩
  | block =>
    cases h
    exact ⟨⟨hs.agree.totals, hs.agree.records, hs.agree.nonneg⟩, Nat.le_succ_of_le hs.corrected⟩

end Operations

/-- **Lock totals agree with the locks**, in every state of every run that starts in such a
    state at or above `LOCKBALANCE_CORRECT`. -/
theorem locks_agree [Inhabited H] (reg : Registry H) (s₀ : State H)
    (hcorrect : lockbalanceCorrect ≤ s₀.headBlockNum) (hagree : Agree reg s₀) (l : List (Event H)) :
    Agree reg (l.foldl (step reg) s₀) := by
  have hrun : Settled reg (l.foldl (step reg) s₀) := by
    refine List.foldlRecOn l (step reg) ⟨hagree, hcorrect⟩ ?_
    intro s hs e _
    unfold step
    cases h : Locks.apply reg e s with
    | none => exact hs
    | some s' => exact hs.apply h
  exact hrun.agree

/-! ### A run

Account 1 locks 30 of asset 1 to citizen 0, takes 10 back, and loses the rest to a senator,
account 7, who sets its balance. -/

def sampleRegistry : Registry Nat where
  symbol a := if a = 0 then some "HX" else if a = 1 then some "BTC" else none
  accounts := ⟨[⟨1, ⟨Address.normal, 11⟩⟩, ⟨2, ⟨Address.normal, 12⟩⟩, ⟨7, ⟨Address.normal, 17⟩⟩],
    by decide⟩
  permanentSenator n := n = 7
  isWhite _ := true
  owns _ _ := true
  symbol_unique := by
    intro a b sym ha hb
    grind

def sampleLedger : Ledger Nat where
  balances x a := if x = 11 ∧ a = 1 then some ⟨100, 0⟩ else none
  guarantees _ := none
  collected _ := 0

def noLocks : State Nat where
  headBlockNum := 3000000
  ledger := sampleLedger
  locks := .empty
  miners := ⟨[⟨0, 2, .empty⟩], by decide⟩
  records _ _ := 0
  currentSupply a := if a = 1 then 100 else 0

def lockThirty : Event Nat :=
  .lockBalance ⟨1, 30, .null, 1, 0, ⟨Address.normal, 11⟩⟩

def forecloseTen : Event Nat :=
  .forecloseBalance ⟨1, 10, .null, 1, 0, ⟨Address.normal, 11⟩⟩

def setToFifty : Event Nat :=
  .setBalance ⟨⟨Address.normal, 17⟩, ⟨Address.normal, 11⟩, ⟨50, 1⟩⟩

theorem noLocks_agree : Agree sampleRegistry noLocks := by
  refine ⟨?_, fun _ _ => rfl, nofun⟩
  intro miner m hm a sym _
  have hrow : m ∈ noLocks.miners.rows := mem_of_find hm
  rw [mem_singleton.1 hrow]
  rfl

theorem sample_locks_agree :
    Agree sampleRegistry ([lockThirty, forecloseTen].foldl (step sampleRegistry) noLocks) ∧
      ([lockThirty, forecloseTen].foldl (step sampleRegistry) noLocks).records 11 1 = 20 ∧
      Agree sampleRegistry
        ([lockThirty, forecloseTen, setToFifty].foldl (step sampleRegistry) noLocks) ∧
      ([lockThirty, forecloseTen, setToFifty].foldl (step sampleRegistry) noLocks).records 11 1
        = 0 := by
  have hstart : lockbalanceCorrect ≤ noLocks.headBlockNum := by decide
  refine ⟨?_, by decide +kernel, ?_, by decide +kernel⟩
  all_goals exact locks_agree sampleRegistry noLocks hstart noLocks_agree _

end HyperExchange.Locks
