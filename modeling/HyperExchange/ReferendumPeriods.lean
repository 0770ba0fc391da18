/-
  **Packing and voting periods of referendums** (`referendum_evaluator.cpp`,
  `determine_referendum_detailes` and `clear_expired_proposals` in `db_update.cpp`).

  The first referendum opens a packing period, in which others may be created but nobody may
  vote.  At the first block after it all but one are dropped, and this one is voted on until
  it is executed or expires.  The period is opened at the end of the block; until then
  `next_vote_time` is that of the period before, so the first referendum can be voted on in
  the block in which it is created.  `log` has what is said about the periods.
-/
import Mathlib.Data.Prod.Lex
import Mathlib.Data.List.Sort
import Mathlib.Order.Lex
import HyperExchange.OperationRuns

namespace HyperExchange.Referendums

open Ops Execution List

variable {K H P : Type}

/-! ### Referendums -/

/-- `referendum_object` -/
structure Referendum (K H P : Type) extends Ballot K H P where
  id : Nat
  pledge : Int
  citizenPledge : Nat

/-- The key of the index `by_pledge`; ids are compared the other way around. -/
def Referendum.rank (x : Referendum K H P) : Int ×ₗ (Nat ×ₗ Natᵒᵈ) :=
  toLex (x.pledge, toLex (x.citizenPledge, OrderDual.toDual x.id))

/-- The index `by_pledge`. -/
def byPledge (l : List (Referendum K H P)) : List (Referendum K H P) :=
  l.insertionSort fun x y => x.rank ≤ y.rank

def keepLast {α : Type} : List α → List α
  | [] => []
  | [x] => [x]
  | _ :: y :: l => keepLast (y :: l)

/-- The pledges of those in the list, see `Ballot.weight`. -/
def weightIn [DecidableEq H] (citizens : List (Citizen H)) (l : List (Address H)) : Nat :=
  (l.map fun a => (citizens.find? fun c => c.addr.addr = a.addr).elim 0 Citizen.pledgeWeight).sum

/-- `is_authorized_to_execute` -/
def isAuthorized [DecidableEq H] (citizens : List (Citizen H)) (b : Ballot K H P) : Bool :=
  !b.finished &&
    decide (weightIn citizens b.requiredApprovals / 3 * 2 + 1 ≤ weightIn citizens b.approved)

/-! ### The chain -/

structure ChainState (K H P : Type) where
  headBlockTime : Nat
  referendumFlag : Bool
  nextVoteTime : Nat
  referendums : List (Referendum K H P)
  nextId : Nat
  citizens : List (Citizen H)

namespace ChainState

variable [DecidableEq H] (c : ChainState K H P)

/-- The object that `referendum_create_evaluator::do_apply` makes. -/
def newReferendum (proposer : Nat) (ops : List (Leaf K H P)) (fee : Int) (citizenPledge : Nat) :
    Referendum K H P where
  proposedOps := ops
  proposer := proposer
  requiredApprovals := (c.citizens.map (·.addr)).foldl insertAddress []
  approved := []
  disapproved := []
  finished := false
  reviewPeriodTime := none
  expirationTime := c.headBlockTime + (packingPeriod + votingPeriod)
  id := c.nextId
  pledge := fee
  citizenPledge := citizenPledge

def insertReferendum (x : Referendum K H P) : ChainState K H P :=
  { c with referendums := c.referendums ++ [x], nextId := c.nextId + 1 }

/-- `referendum_create_evaluator`; `valid` says that the proposed operations are accepted and
    no proposal elects senators. -/
def referendumCreate (proposer : Nat) (ops : List (Leaf K H P)) (fee : Int) (valid : Bool) :
    Option (ChainState K H P) :=
  match c.citizens.find? fun m => m.account = proposer with
  | none => none
  | some m =>
    if (!c.referendumFlag || decide (c.headBlockTime < c.nextVoteTime)) && valid then
      some (c.insertReferendum (c.newReferendum proposer ops fee m.pledgeWeight))
    else none

def find (id : Nat) : Option (Referendum K H P) := c.referendums.find? fun x => x.id = id

def remove (id : Nat) : ChainState K H P :=
  { c with referendums := c.referendums.filter fun x => x.id ≠ id }

def modify (id : Nat) (f : Referendum K H P → Referendum K H P) : ChainState K H P :=
  { c with referendums := c.referendums.map fun x => if x.id = id then f x else x }

/-- `push_referendum`, but for what its operations do. -/
def finish (x : Referendum K H P) : Referendum K H P :=
  { x with finished := true, expirationTime := c.headBlockTime + votingPeriod }

/-- `referendum_update_evaluator`; `succeeds` says whether the operations would succeed. -/
def referendumUpdate (id : Nat) (add remove : List (Address H)) (succeeds : Bool) :
    Option (ChainState K H P) :=
  match c.find id with
  | none => none
  | some x =>
    if c.nextVoteTime ≤ c.headBlockTime ∧ x.finished = false then
      let b := x.toBallot.vote add remove
      let c' := c.modify id fun x => { x with toBallot := b }
      if b.reviewPeriodTime.isSome then some c'
      else if isAuthorized c.citizens b then
        if succeeds then some (c'.modify id c.finish) else some (c'.remove id)
      else some c'
    else none

/-- `referendum_accelerate_pledge_evaluator`; `valid` says that the proposer pays, or that
    this is not looked at, below the checkpoint. -/
def acceleratePledge (id : Nat) (fee : Int) (valid : Bool) : Option (ChainState K H P) :=
  match c.find id with
  | none => none
  | some _ =>
    if valid then some (c.modify id fun x => { x with pledge := x.pledge + fee }) else none

/-! ### The end of a block -/

/-- An expired referendum in `clear_expired_proposals`; `none` if it is removed. -/
def expire (succeeds : Nat → Bool) (x : Referendum K H P) : Option (Referendum K H P) :=
  if x.expirationTime ≤ c.headBlockTime then
    if isAuthorized c.citizens x.toBallot && succeeds x.id then some (c.finish x) else none
  else some x

def clearExpired (succeeds : Nat → Bool) : ChainState K H P :=
  { c with referendums := c.referendums.filterMap (c.expire succeeds) }

def narrowed : List (Referendum K H P) :=
  if c.nextVoteTime ≤ c.headBlockTime then keepLast (byPledge c.referendums) else c.referendums

/-- `determine_referendum_detailes`; `inPlace` says that the senators have the
    multi-signature accounts of all assets. -/
def determineReferendumDetailes (inPlace : Bool) : ChainState K H P :=
  if c.referendumFlag then
    let c' := { c with referendums := c.narrowed }
    if (byPledge c.narrowed).getLast?.any fun x => !x.finished then c'
    else if inPlace then { c' with referendumFlag := false, referendums := [] }
    else c'
  else if c.referendums.isEmpty then c
  else { c with referendumFlag := true, nextVoteTime := c.headBlockTime + packingPeriod }

end ChainState

/-! ### Runs -/

/-- What happened: a referendum was created, with the voting time of the period that was
    open then; it was voted on; or the referendums were looked through after the voting
    time. -/
inductive Entry (K H P : Type) where
  | created (id time : Nat) (period : Option Nat)
  | voted (id time : Nat)
  | narrowed (before after : List (Referendum K H P))

/-- The chain, with the voting time that was fixed for each referendum. -/
structure Run (K H P : Type) where
  chain : ChainState K H P
  voteTimes : Nat → Option Nat
  log : List (Entry K H P)

/-- An operation, the end of a block, or a change of the citizens. -/
inductive Call (K H P : Type) where
  | create (proposer : Nat) (ops : List (Leaf K H P)) (fee : Int) (valid : Bool)
  | update (id : Nat) (add remove : List (Address H)) (succeeds : Bool)
  | acceleratePledge (id : Nat) (fee : Int) (valid : Bool)
  | block (time : Nat) (succeeds : Nat → Bool) (inPlace : Bool)
  | citizens (l : List (Citizen H))

namespace Run

variable [DecidableEq H]

def start (time : Nat) (citizens : List (Citizen H)) : Run K H P :=
  ⟨⟨time, false, 0, [], 0, citizens⟩, fun _ => none, []⟩

variable (s : Run K H P)

def period : Option Nat :=
  if s.chain.referendumFlag then some s.chain.nextVoteTime else none

def created (c : ChainState K H P) : Run K H P where
  chain := c
  -- the referendum belongs to the open period, or to one that is still to be opened
  voteTimes := fun i => if i = s.chain.nextId then s.period else s.voteTimes i
  log := .created s.chain.nextId s.chain.headBlockTime s.period :: s.log

/-- The chain before and after `determine_referendum_detailes`.  If a period is opened, its
    voting time is that of all referendums. -/
def determine (before after : ChainState K H P) : Run K H P where
  chain := after
  voteTimes := fun i =>
    if !before.referendumFlag && after.referendumFlag && before.referendums.any (fun x => x.id = i)
    then some after.nextVoteTime else s.voteTimes i
  log := if before.referendumFlag && decide (before.nextVoteTime ≤ before.headBlockTime)
    then .narrowed before.referendums after.referendums :: s.log else s.log

/-- The end of `_apply_block`. -/
def endBlock (time : Nat) (succeeds : Nat → Bool) (inPlace : Bool) : Run K H P :=
  let before := { s.chain with headBlockTime := time }.clearExpired succeeds
  s.determine before (before.determineReferendumDetailes inPlace)

def step : Call K H P → Run K H P
  | .create proposer ops fee valid =>
    match s.chain.referendumCreate proposer ops fee valid with
    | none => s
    | some c => s.created c
  | .update id add remove succeeds =>
    match s.chain.referendumUpdate id add remove succeeds with
    | none => s
    | some c => { s with chain := c, log := .voted id s.chain.headBlockTime :: s.log }
  | .acceleratePledge id fee valid =>
    match s.chain.acceleratePledge id fee valid with
    | none => s
    | some c => { s with chain := c }
  | .block time succeeds inPlace => s.endBlock time succeeds inPlace
  | .citizens l => { s with chain := { s.chain with citizens := l } }

end Run

/-! ### One referendum is left -/

section KeepLast

variable {α : Type}

theorem length_keepLast (l : List α) : (keepLast l).length ≤ 1 := by
  induction l with
  | nil => exact Nat.zero_le 1
  | cons x l ih =>
    cases l with
    | nil => exact Nat.le_refl 1
    | cons y l => exact ih

theorem mem_of_mem_keepLast {l : List α} {x : α} (h : x ∈ keepLast l) : x ∈ l := by
  induction l with
  | nil => exact h
  | cons y l ih =>
    cases l with
    | nil => exact h
    | cons z l => exact mem_cons_of_mem y (ih h)

theorem le_of_mem_keepLast {r : α → α → Prop} (hrefl : ∀ x, r x x) {l : List α}
    (hl : l.Pairwise r) {x : α} (h : x ∈ keepLast l) : ∀ y ∈ l, r y x := by
  induction l with
  | nil => cases h
  | cons z l ih =>
    intro y hy
    cases l with
    | nil =>
      rw [mem_singleton.mp h, mem_singleton.mp hy]
      exact hrefl z
    | cons w l =>
      rw [pairwise_cons] at hl
      rcases mem_cons.mp hy with rfl | hy
      · exact hl.1 x (mem_of_mem_keepLast h)
      · exact ih hl.2 h y hy

end KeepLast

variable {l : List (Referendum K H P)} {x : Referendum K H P}

theorem mem_byPledge : x ∈ byPledge l ↔ x ∈ l := (perm_insertionSort _ l).mem_iff

theorem pairwise_byPledge (l : List (Referendum K H P)) :
    (byPledge l).Pairwise fun x y => x.rank ≤ y.rank := by
  have htrans : IsTrans (Referendum K H P) fun x y => x.rank ≤ y.rank :=
    ⟨fun _ _ _ => le_trans⟩
  have htotal : Std.Total fun x y : Referendum K H P => x.rank ≤ y.rank :=
    ⟨fun _ _ => le_total _ _⟩
  exact pairwise_insertionSort _ l

theorem pledge_le_of_rank_le {x y : Referendum K H P} (h : x.rank ≤ y.rank) :
    x.pledge ≤ y.pledge := by
  rcases Prod.Lex.le_iff.mp h with hlt | heq
  · exact le_of_lt hlt
  · exact le_of_eq heq.1

/-- What is kept of the list in the order of pledges has a highest pledge. -/
theorem highest_of_mem_keepLast (h : x ∈ keepLast (byPledge l)) :
    x ∈ l ∧ ∀ y ∈ l, y.pledge ≤ x.pledge := by
  refine ⟨mem_byPledge.mp (mem_of_mem_keepLast h), ?_⟩
  intro y hy
  exact pledge_le_of_rank_le
    (le_of_mem_keepLast (fun x => le_refl x.rank) (pairwise_byPledge l) h y (mem_byPledge.mpr hy))

/-! ### What the steps leave alone -/

/-- Nothing but the referendums changes, and there are no new ones. -/
structure ChainState.Shrinks (c c' : ChainState K H P) : Prop where
  headBlockTime : c'.headBlockTime = c.headBlockTime
  referendumFlag : c'.referendumFlag = c.referendumFlag
  nextVoteTime : c'.nextVoteTime = c.nextVoteTime
  nextId : c'.nextId = c.nextId
  ids : ∀ x ∈ c'.referendums, ∃ y ∈ c.referendums, y.id = x.id
  length : c'.referendums.length ≤ c.referendums.length

namespace ChainState

variable {c c' c'' : ChainState K H P}

theorem Shrinks.trans (h : c.Shrinks c') (h' : c'.Shrinks c'') : c.Shrinks c'' where
  headBlockTime := h'.headBlockTime.trans h.headBlockTime
  referendumFlag := h'.referendumFlag.trans h.referendumFlag
  nextVoteTime := h'.nextVoteTime.trans h.nextVoteTime
  nextId := h'.nextId.trans h.nextId
  ids x hx := by
    obtain ⟨y, hy, hyx⟩ := h'.ids x hx
    obtain ⟨z, hz, hzy⟩ := h.ids y hy
    exact ⟨z, hz, hzy.trans hyx⟩
  length := h'.length.trans h.length

theorem shrinks_modify (id : Nat) {f : Referendum K H P → Referendum K H P}
    (hf : ∀ x, (f x).id = x.id) : c.Shrinks (c.modify id f) where
  headBlockTime := rfl
  referendumFlag := rfl
  nextVoteTime := rfl
  nextId := rfl
  ids x hx := by
    obtain ⟨y, hy, rfl⟩ := mem_map.mp hx
    refine ⟨y, hy, ?_⟩
    split
    · exact (hf y).symm
    · rfl
  length := le_of_eq (length_map _)

theorem acceleratePledge_shrinks {id : Nat} {fee : Int} {valid : Bool}
    (h : c.acceleratePledge id fee valid = some c') : c.Shrinks c' := by
  unfold acceleratePledge at h
  split at h
  · cases h
  · split at h
    · cases h
      exact shrinks_modify id fun _ => rfl
    · cases h

variable [DecidableEq H]

/-- A vote is taken only after the voting time, and on a referendum that is stored. -/
theorem referendumUpdate_shrinks {id : Nat} {add remove : List (Address H)} {succeeds : Bool}
    (h : c.referendumUpdate id add remove succeeds = some c') :
    c.Shrinks c' ∧ c.nextVoteTime ≤ c.headBlockTime ∧ ∃ x ∈ c.referendums, x.id = id := by
  unfold referendumUpdate at h
  cases hx : c.find id with
  | none =>
    rw [hx] at h
    cases h
  | some x =>
    rw [hx] at h
    have hmem : ∃ x ∈ c.referendums, x.id = id :=
      ⟨x, mem_of_find?_eq_some hx, by simpa using List.find?_some hx⟩
    dsimp only at h
    split at h
    · next htime =>
      refine ⟨?_, htime.1, hmem⟩
      have hvote := c.shrinks_modify id
        (f := fun y => { y with toBallot := x.toBallot.vote add remove }) fun _ => rfl
      split at h
      · cases h
        exact hvote
      · split at h
        · split at h
          · cases h
            exact hvote.trans (shrinks_modify id fun _ => rfl)
          · cases h
            exact hvote.trans ⟨rfl, rfl, rfl, rfl, fun x hx => ⟨x, mem_of_mem_filter hx, rfl⟩,
              length_filter_le _ _⟩
        · cases h
          exact hvote
    · cases h

/-- During a period, a referendum is created only before the voting time. -/
theorem referendumCreate_eq {proposer : Nat} {ops : List (Leaf K H P)} {fee : Int} {valid : Bool}
    (h : c.referendumCreate proposer ops fee valid = some c') :
    (c.referendumFlag = true → c.headBlockTime < c.nextVoteTime) ∧
      ∃ x, x.id = c.nextId ∧ c' = c.insertReferendum x := by
  unfold referendumCreate at h
  split at h
  · cases h
  next m _ =>
  split at h
  · next hopen =>
    cases h
    refine ⟨?_, c.newReferendum proposer ops fee m.pledgeWeight, rfl, rfl⟩
    intro hflag
    simpa [hflag] using (Bool.and_eq_true_iff.mp hopen).1
  · cases h

end ChainState

/-! ### The periods are respected -/

/-- No vote was cast before the voting time of its referendum, no referendum was created
    after that of the open period, and after it there is one referendum at most, which had
    a highest pledge. -/
structure Run.Respected (s : Run K H P) : Prop where
  voting : ∀ id t, .voted id t ∈ s.log → ∀ v, s.voteTimes id = some v → v ≤ t
  packing : ∀ id t v, .created id t (some v) ∈ s.log → t < v
  single : s.chain.referendumFlag = true → s.chain.nextVoteTime ≤ s.chain.headBlockTime →
    s.chain.referendums.length ≤ 1
  highest : ∀ before after, .narrowed before after ∈ s.log → after.length ≤ 1 ∧
    ∀ x ∈ after, x ∈ before ∧ ∀ y ∈ before, y.pledge ≤ x.pledge

/-- All referendums belong to the open period; without one, no voting time is fixed. -/
structure Run.Inv (s : Run K H P) : Prop where
  ids : ∀ x ∈ s.chain.referendums, x.id < s.chain.nextId
  fresh : ∀ i, s.chain.nextId ≤ i → s.voteTimes i = none
  members : ∀ x ∈ s.chain.referendums, s.voteTimes x.id = s.period
  voted : ∀ id t, .voted id t ∈ s.log → ∃ v, s.voteTimes id = some v ∧ v ≤ t
  packing : ∀ id t v, .created id t (some v) ∈ s.log → t < v
  single : s.chain.referendumFlag = true → s.chain.nextVoteTime ≤ s.chain.headBlockTime →
    s.chain.referendums.length ≤ 1
  highest : ∀ before after, .narrowed before after ∈ s.log → after.length ≤ 1 ∧
    ∀ x ∈ after, x ∈ before ∧ ∀ y ∈ before, y.pledge ≤ x.pledge

namespace Run

variable {s : Run K H P}

theorem Inv.respected (h : s.Inv) : s.Respected where
  voting id t hvoted v hv := by
    obtain ⟨w, hw, hle⟩ := h.voted id t hvoted
    rw [hw] at hv
    cases hv
    exact hle
  packing := h.packing
  single := h.single
  highest := h.highest

/-- No referendum, no period and nothing in the log. -/
theorem inv_start (time : Nat) (citizens : List (Citizen H)) :
    (start time citizens : Run K H P).Inv where
  ids _ hx := nomatch hx
  fresh _ _ := rfl
  members _ hx := nomatch hx
  voted _ _ h := nomatch h
  packing _ _ _ h := nomatch h
  single _ _ := Nat.zero_le 1
  highest _ _ h := nomatch h

variable {c : ChainState K H P}

/-- A chain with the same ids given out and no new referendum. -/
theorem Inv.numbered (h : s.Inv) (hid : c.nextId = s.chain.nextId)
    (hids : ∀ x ∈ c.referendums, ∃ y ∈ s.chain.referendums, y.id = x.id) :
    (∀ x ∈ c.referendums, x.id < c.nextId) ∧ ∀ i, c.nextId ≤ i → s.voteTimes i = none := by
  rw [hid]
  refine ⟨fun x hx => ?_, h.fresh⟩
  obtain ⟨y, hy, hyx⟩ := hids x hx
  exact hyx ▸ h.ids y hy

/-- Votes and pledges may change and referendums may go; none comes. -/
theorem Inv.shrinks (h : s.Inv) (hc : s.chain.Shrinks c) :
    ({ s with chain := c } : Run K H P).Inv where
  ids := (h.numbered hc.nextId hc.ids).1
  fresh := (h.numbered hc.nextId hc.ids).2
  members x hx := by
    obtain ⟨y, hy, hyx⟩ := hc.ids x hx
    show s.voteTimes x.id = if c.referendumFlag then some c.nextVoteTime else none
    rw [hc.referendumFlag, hc.nextVoteTime, ← hyx]
    exact h.members y hy
  voted := h.voted
  packing := h.packing
  single hflag htime := by
    rw [hc.referendumFlag] at hflag
    rw [hc.nextVoteTime, hc.headBlockTime] at htime
    exact hc.length.trans (h.single hflag htime)
  highest := h.highest

/-- A vote is on a referendum of the open period, whose voting time has passed. -/
theorem Inv.vote {id : Nat} (h : s.Inv) (hid : ∃ x ∈ s.chain.referendums, x.id = id)
    (hflag : s.chain.referendumFlag = true) (htime : s.chain.nextVoteTime ≤ s.chain.headBlockTime) :
    ({ s with log := .voted id s.chain.headBlockTime :: s.log } : Run K H P).Inv where
  ids := h.ids
  fresh := h.fresh
  members := h.members
  voted i t hmem := by
    rcases mem_cons.mp hmem with heq | hmem
    · cases heq
      obtain ⟨x, hx, rfl⟩ := hid
      refine ⟨s.chain.nextVoteTime, ?_, htime⟩
      rw [h.members x hx, period, if_pos hflag]
    · exact h.voted i t hmem
  packing i t v hmem := h.packing i t v ((mem_cons.mp hmem).resolve_left nofun)
  single := h.single
  highest before after hmem := h.highest before after ((mem_cons.mp hmem).resolve_left nofun)

variable {x : Referendum K H P}

/-- A new referendum joins the open period, if there is one.  Its number was never used. -/
theorem Inv.create (h : s.Inv) (hx : x.id = s.chain.nextId)
    (hopen : s.chain.referendumFlag = true → s.chain.headBlockTime < s.chain.nextVoteTime) :
    (s.created (s.chain.insertReferendum x)).Inv where
  ids y hy := by
    rcases mem_append.mp hy with hy | hy
    · exact Nat.lt_succ_of_lt (h.ids y hy)
    · rw [mem_singleton.mp hy, hx]
      exact Nat.lt_succ_self _
  fresh i hi := by
    have hi : s.chain.nextId + 1 ≤ i := hi
    show (if i = s.chain.nextId then s.period else s.voteTimes i) = none
    rw [if_neg (by omega), h.fresh i (by omega)]
  members y hy := by
    show (if y.id = s.chain.nextId then s.period else s.voteTimes y.id) = s.period
    rcases mem_append.mp hy with hy | hy
    · rw [if_neg (Nat.ne_of_lt (h.ids y hy)), h.members y hy]
    · rw [mem_singleton.mp hy, if_pos hx]
  voted i t hmem := by
    have hmem := (mem_cons.mp hmem).resolve_left nofun
    obtain ⟨v, hv, hle⟩ := h.voted i t hmem
    refine ⟨v, ?_, hle⟩
    show (if i = s.chain.nextId then s.period else s.voteTimes i) = some v
    have hne : i ≠ s.chain.nextId := by
      rintro rfl
      rw [h.fresh _ (Nat.le_refl _)] at hv
      cases hv
    rw [if_neg hne, hv]
  packing i t v hmem := by
    rcases mem_cons.mp hmem with heq | hmem
    · have hperiod : s.period = some v := (Entry.created.inj heq).2.2.symm
      have ht : t = s.chain.headBlockTime := (Entry.created.inj heq).2.1
      unfold period at hperiod
      split at hperiod
      · next hflag =>
        cases hperiod
        rw [ht]
        exact hopen hflag
      · cases hperiod
    · exact h.packing i t v hmem
  single hflag htime := by
    have hlate : s.chain.nextVoteTime ≤ s.chain.headBlockTime := htime
    exact absurd (hopen hflag) (Nat.not_lt.mpr hlate)
  highest before after hmem := h.highest before after ((mem_cons.mp hmem).resolve_left nofun)

/-! ### The end of a block -/

/-- What `determine_referendum_detailes` can do. -/
inductive Determined (c : ChainState K H P) : ChainState K H P → Prop
  | kept (hflag : c.referendumFlag = true) : Determined c { c with referendums := c.narrowed }
  | settled (hflag : c.referendumFlag = true) :
      Determined c { c with referendumFlag := false, referendums := [] }
  | idle (hflag : c.referendumFlag = false) (hnone : c.referendums = []) : Determined c c
  | opened (hflag : c.referendumFlag = false) :
      Determined c { c with
        referendumFlag := true, nextVoteTime := c.headBlockTime + packingPeriod }

theorem determined (c : ChainState K H P) (inPlace : Bool) :
    Determined c (c.determineReferendumDetailes inPlace) := by
  unfold ChainState.determineReferendumDetailes
  split
  · next hflag =>
    split
    · exact .kept hflag
    · split
      · exact .settled hflag
      · exact .kept hflag
  · next hflag =>
    have hflag := Bool.eq_false_iff.mpr hflag
    split
    · next hnone => exact .idle hflag (List.isEmpty_iff.mp hnone)
    · exact .opened hflag

theorem mem_of_mem_narrowed (h : x ∈ c.narrowed) : x ∈ c.referendums := by
  unfold ChainState.narrowed at h
  split at h
  · exact (highest_of_mem_keepLast h).1
  · exact h

/-- Everything but the referendums after the voting time, for a chain that is older. -/
structure Older (s : Run K H P) (c : ChainState K H P) : Prop where
  referendumFlag : c.referendumFlag = s.chain.referendumFlag
  nextVoteTime : c.nextVoteTime = s.chain.nextVoteTime
  nextId : c.nextId = s.chain.nextId
  ids : ∀ x ∈ c.referendums, ∃ y ∈ s.chain.referendums, y.id = x.id

/-- The sweep may remove referendums but leaves the period open. -/
theorem older_clearExpired [DecidableEq H] (s : Run K H P) (time : Nat) (succeeds : Nat → Bool) :
    Older s ({ s.chain with headBlockTime := time }.clearExpired succeeds) where
  referendumFlag := rfl
  nextVoteTime := rfl
  nextId := rfl
  ids x hx := by
    obtain ⟨y, hy, hyx⟩ := mem_filterMap.mp hx
    refine ⟨y, hy, ?_⟩
    unfold ChainState.expire at hyx
    split at hyx
    · split at hyx
      · cases hyx
        rfl
      · cases hyx
    · cases hyx
      rfl

/-- With an open period: the referendums stay in it, or it is closed without any. -/
theorem Inv.determine_open {c c' : ChainState K H P} (h : s.Inv) (hold : Older s c)
    (hflag : c.referendumFlag = true) (hvote : c'.nextVoteTime = c.nextVoteTime)
    (hid : c'.nextId = c.nextId) (htime : c'.headBlockTime = c.headBlockTime)
    (hmem : ∀ x ∈ c'.referendums, x ∈ c.narrowed ∧ c'.referendumFlag = true)
    (hlength : c.nextVoteTime ≤ c.headBlockTime → c'.referendums.length ≤ 1) :
    (s.determine c c').Inv := by
  have htimes : (s.determine c c').voteTimes = s.voteTimes := by
    funext i
    simp [Run.determine, hflag]
  have hearlier : ∀ x ∈ c'.referendums, ∃ y ∈ s.chain.referendums, y.id = x.id :=
    fun x hx => hold.ids x (mem_of_mem_narrowed (hmem x hx).1)
  have hlog : ∀ e ∈ (s.determine c c').log, e ∈ s.log ∨
      c.nextVoteTime ≤ c.headBlockTime ∧ e = .narrowed c.referendums c'.referendums := by
    intro e he
    unfold Run.determine at he
    split at he
    · next hlate =>
      rcases mem_cons.mp he with heq | he
      · exact .inr ⟨by simpa [hflag] using hlate, heq⟩
      · exact .inl he
    · exact .inl he
  obtain ⟨hids, hfresh⟩ := h.numbered (hid.trans hold.nextId) hearlier
  refine ⟨hids, by rw [htimes]; exact hfresh, ?_, ?_, ?_, ?_, ?_⟩
  · intro x hx
    obtain ⟨y, hy, hyx⟩ := hearlier x hx
    have hperiod : (s.determine c c').period = s.period := by
      show (if c'.referendumFlag then some c'.nextVoteTime else none) = s.period
      rw [(hmem x hx).2, hvote, hold.nextVoteTime, period, ← hold.referendumFlag, hflag]
    rw [htimes, hperiod, ← hyx, h.members y hy]
  · intro i t he
    rw [htimes]
    exact h.voted i t ((hlog _ he).resolve_right fun hnew => nomatch hnew.2)
  · intro i t v he
    exact h.packing i t v ((hlog _ he).resolve_right fun hnew => nomatch hnew.2)
  · intro _ hlate
    have hlate : c'.nextVoteTime ≤ c'.headBlockTime := hlate
    rw [hvote, htime] at hlate
    exact hlength hlate
  · intro before after he
    rcases hlog _ he with he | ⟨hlate, heq⟩
    · exact h.highest before after he
    cases heq
    refine ⟨hlength hlate, ?_⟩
    intro x hx
    have hkept := (hmem x hx).1
    rw [ChainState.narrowed, if_pos hlate] at hkept
    exact highest_of_mem_keepLast hkept

/-- A period is opened: until now no voting time was fixed for the referendums. -/
theorem Inv.determine_opened (h : s.Inv) (hold : Older s c)
    (hflag : c.referendumFlag = false) :
    (s.determine c { c with
      referendumFlag := true, nextVoteTime := c.headBlockTime + packingPeriod }).Inv := by
  have hclosed : s.period = none := by
    rw [period, ← hold.referendumFlag, hflag]
    rfl
  have htimes : ∀ i, (s.determine c { c with
      referendumFlag := true, nextVoteTime := c.headBlockTime + packingPeriod }).voteTimes i =
      if c.referendums.any (fun x => x.id = i) then some (c.headBlockTime + packingPeriod)
      else s.voteTimes i := by
    intro i
    simp [Run.determine, hflag]
  have hlog : (s.determine c { c with
      referendumFlag := true, nextVoteTime := c.headBlockTime + packingPeriod }).log = s.log := by
    simp [Run.determine, hflag]
  have hnew : ∀ i, (∀ x ∈ c.referendums, x.id ≠ i) → (s.determine c { c with
      referendumFlag := true, nextVoteTime := c.headBlockTime + packingPeriod }).voteTimes i =
      s.voteTimes i := by
    intro i hi
    rw [htimes, if_neg]
    intro hany
    obtain ⟨x, hx, hxi⟩ := List.any_eq_true.mp hany
    exact hi x hx (of_decide_eq_true hxi)
  obtain ⟨hids, hfresh⟩ := h.numbered hold.nextId hold.ids
  refine ⟨hids, ?_, ?_, ?_, ?_, ?_, ?_⟩
  · intro i hi
    rw [hnew i fun x hx => Nat.ne_of_lt (Nat.lt_of_lt_of_le (hids x hx) hi), hfresh i hi]
  · intro x hx
    have hany : (c.referendums.any fun y => y.id = x.id) = true :=
      List.any_eq_true.mpr ⟨x, hx, by simp⟩
    rw [htimes, if_pos hany]
    rfl
  · intro i t he
    rw [hlog] at he
    obtain ⟨v, hv, hle⟩ := h.voted i t he
    refine ⟨v, (hnew i ?_).trans hv, hle⟩
    rintro x hx rfl
    obtain ⟨y, hy, hyx⟩ := hold.ids x hx
    have hnone := h.members y hy
    rw [hyx, hclosed, hv] at hnone
    cases hnone
  · intro i t v he
    rw [hlog] at he
    exact h.packing i t v he
  · intro _ hlate
    have hlate : c.headBlockTime + packingPeriod ≤ c.headBlockTime := hlate
    unfold packingPeriod at hlate
    omega
  · intro before after he
    rw [hlog] at he
    exact h.highest before after he

/-- Without a period and without referendums nothing is determined. -/
theorem Inv.determine_idle (h : s.Inv) (hold : Older s c)
    (hflag : c.referendumFlag = false) (hnone : c.referendums = []) : (s.determine c c).Inv := by
  have htimes : (s.determine c c).voteTimes = s.voteTimes := by
    funext i
    simp [Run.determine, hnone]
  have hlog : (s.determine c c).log = s.log := by simp [Run.determine, hflag]
  have hmem : ∀ x, x ∉ (s.determine c c).chain.referendums := by
    intro x hx
    have hx : x ∈ c.referendums := hx
    rw [hnone] at hx
    cases hx
  obtain ⟨hids, hfresh⟩ := h.numbered hold.nextId hold.ids
  refine ⟨hids, by rw [htimes]; exact hfresh, fun x hx => absurd hx (hmem x), ?_, ?_, ?_, ?_⟩
  · rw [htimes, hlog]
    exact h.voted
  · rw [hlog]
    exact h.packing
  · intro htrue
    have htrue : c.referendumFlag = true := htrue
    rw [hflag] at htrue
    cases htrue
  · rw [hlog]
    exact h.highest

variable [DecidableEq H]

/-- The four outcomes of a block end, after the sweep of what has expired. -/
theorem Inv.endBlock (h : s.Inv) (time : Nat) (succeeds : Nat → Bool) (inPlace : Bool) :
    (s.endBlock time succeeds inPlace).Inv := by
  have hold := older_clearExpired s time succeeds
  have hdetermined :=
    determined ({ s.chain with headBlockTime := time }.clearExpired succeeds) inPlace
  unfold Run.endBlock
  dsimp only
  generalize { s.chain with headBlockTime := time }.clearExpired succeeds = c at hold hdetermined ⊢
  generalize c.determineReferendumDetailes inPlace = c' at hdetermined ⊢
  cases hdetermined with
  | kept hflag =>
    refine h.determine_open hold hflag rfl rfl rfl (fun x hx => ⟨hx, hflag⟩) ?_
    intro hlate
    rw [ChainState.narrowed, if_pos hlate]
    exact length_keepLast _
  | settled hflag =>
    exact h.determine_open hold hflag rfl rfl rfl (fun x hx => nomatch hx) fun _ => Nat.zero_le 1
  | idle hflag hnone => exact h.determine_idle hold hflag hnone
  | opened hflag => exact h.determine_opened hold hflag

def duringPeriod (s : Run K H P) : Call K H P → Bool
  | .update _ _ _ _ => s.chain.referendumFlag
  | _ => true

/-- Votes need an open period: a referendum created outside of one has no voting time yet. -/
theorem Inv.step (h : s.Inv) (call : Call K H P) (hcall : duringPeriod s call = true) :
    (s.step call).Inv := by
  cases call with
  | create proposer ops fee valid =>
    simp only [Run.step]
    split
    · exact h
    · next hcreate =>
      obtain ⟨hopen, x, hx, rfl⟩ := ChainState.referendumCreate_eq hcreate
      exact h.create hx hopen
  | update id add remove succeeds =>
    simp only [Run.step]
    split
    · exact h
    · next hupdate =>
      obtain ⟨hshrinks, htime, hid⟩ := ChainState.referendumUpdate_shrinks hupdate
      exact (h.vote hid hcall htime).shrinks hshrinks
  | acceleratePledge id fee valid =>
    simp only [Run.step]
    split
    · exact h
    · next hpledge => exact h.shrinks (ChainState.acceleratePledge_shrinks hpledge)
  | block time succeeds inPlace => exact h.endBlock time succeeds inPlace
  | citizens l =>
    exact h.shrinks ⟨rfl, rfl, rfl, rfl, fun x hx => ⟨x, hx, rfl⟩, Nat.le_refl _⟩

/-- **Periods are respected** in every run without votes before a period is opened. -/
theorem periods_respected {time : Nat} {citizens : List (Citizen H)}
    (h : ReachableUnder (fun s => s = start time citizens)
      (fun s call => duringPeriod s call = true) step s) : s.Respected := by
  refine Inv.respected (h.invariant Inv ?_ ?_)
  · rintro _ rfl
    exact inv_start time citizens
  · intro s call hs hcall
    exact hs.step call hcall

/-! ### Two blocks -/

def sampleCitizens : List (Citizen Nat) :=
  [⟨1, ⟨Address.normal, 1⟩, 5⟩, ⟨2, ⟨Address.normal, 2⟩, 9⟩]

def sampleStart : Run Unit Nat Unit := start 0 sampleCitizens

/-- Two referendums are created; a day later there is one of them, and it is voted on. -/
def sampleCalls : List (Call Unit Nat Unit) :=
  [.create 1 [] 3 true, .create 2 [] 4 true, .block 10 (fun _ => true) false,
    .update 1 [⟨Address.normal, 1⟩] [] true, .block (10 + packingPeriod) (fun _ => true) false,
    .update 0 [⟨Address.normal, 1⟩] [] true, .update 1 [⟨Address.normal, 1⟩] [] true]

theorem higher_pledge_voted_on :
    (sampleCalls.foldl step sampleStart).Respected ∧
      ((sampleCalls.foldl step sampleStart).chain.referendums.map fun x => x.id) = [1] ∧
      ((sampleCalls.foldl step sampleStart).log.map fun e =>
        match e with
        | .voted id t => some (id, t)
        | _ => none) = [some (1, 10 + packingPeriod), none, none, none] := by
  refine ⟨periods_respected (ReachableUnder.of_checkRun (.start rfl) ?_), ?_, ?_⟩
  all_goals decide +kernel

def earlyVote : List (Call Unit Nat Unit) :=
  [.create 1 [] 3 true, .update 0 [⟨Address.normal, 1⟩] [] true, .block 10 (fun _ => true) false]

/-- The vote is cast at time 0 and kept, and the voting time is a day after the block. -/
theorem vote_before_packing_period :
    (earlyVote.foldl step sampleStart).voteTimes 0 = some (10 + packingPeriod) ∧
      ((earlyVote.foldl step sampleStart).chain.referendums.map fun x => x.approved.length) = [1] ∧
      ¬ (earlyVote.foldl step sampleStart).Respected := by
  have htime : (earlyVote.foldl step sampleStart).voteTimes 0 = some (10 + packingPeriod) := by
    decide +kernel
  refine ⟨htime, by decide +kernel, ?_⟩
  intro h
  have hle := h.voting 0 0 (mem_cons_self ..) _ htime
  omega

end Run

end HyperExchange.Referendums
