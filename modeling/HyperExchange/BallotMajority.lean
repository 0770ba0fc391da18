/-
  **Majorities** (`is_authorized_to_execute` in `proposal_object.cpp` and
  `referendum_object.cpp`, with the evaluators that count votes).

  `decisions` lists the executions of a transaction, with the ballot and the database as they
  are then.  A ballot that was executed is gone or finished, so none is decided on twice
  (`Decides.nodup`).  Senators are counted, and `required * 2 / 3 + 1` of them are more than
  two thirds.  Weights of citizens are compared with `total / 3 * 2 + 1`, divided first: if
  the total is two more than a multiple of three, this is less than two thirds.
-/
import Mathlib.Data.List.Nodup
import HyperExchange.OperationAuthority

namespace HyperExchange.Ops

open Auth Execution List

variable {K H P D : Type}

/-! ### Counting votes -/

section Votes

variable [DecidableEq H] {b : Ballot K H P} {a : Address H} {l : List (Address H)}

theorem mem_of_mem_insertAddress {x : Address H} (h : x ∈ insertAddress l a) : x ∈ l ∨ x = a := by
  unfold insertAddress at h
  split at h
  · exact .inl h
  · exact (mem_append.mp h).imp id mem_singleton.mp

theorem nodup_insertAddress (h : (l.map fun x => x.addr).Nodup) :
    ((insertAddress l a).map fun x => x.addr).Nodup := by
  unfold insertAddress
  split
  · exact h
  next hnew =>
  rw [map_append, nodup_append]
  refine ⟨h, nodup_singleton _, ?_⟩
  intro x hx y hy hxy
  obtain ⟨z, hz, rfl⟩ := mem_map.mp hx
  rw [map_singleton, mem_singleton] at hy
  exact hnew (List.any_eq_true.mpr ⟨z, hz, decide_eq_true (hxy.trans hy)⟩)

theorem Ballot.mem_eraseAddress {x : Address H} :
    x ∈ eraseAddress l a ↔ x ∈ l ∧ x.addr ≠ a.addr := by
  simp [eraseAddress, mem_filter]

/-- Only required voters are counted, each once, and on one side. -/
structure Ballot.Counted (b : Ballot K H P) : Prop where
  approved : ∀ x ∈ b.approved, b.mayVote x = true
  disapproved : ∀ x ∈ b.disapproved, b.mayVote x = true
  disjoint : ∀ x ∈ b.approved, ∀ y ∈ b.disapproved, x.addr ≠ y.addr
  distinct : (b.approved.map fun x => x.addr).Nodup

namespace Ballot

variable (h : b.Counted)
include h

theorem Counted.approve (a : Address H) : (b.approve a).Counted := by
  unfold Ballot.approve
  split
  · next hmay =>
    refine ⟨?_, ?_, ?_, nodup_insertAddress h.distinct⟩
    · intro x hx
      rcases mem_of_mem_insertAddress hx with hx | rfl
      · exact h.approved x hx
      · exact hmay
    · intro x hx
      exact h.disapproved x (mem_eraseAddress.mp hx).1
    · intro x hx y hy
      obtain ⟨hy, hya⟩ := mem_eraseAddress.mp hy
      rcases mem_of_mem_insertAddress hx with hx | rfl
      · exact h.disjoint x hx y hy
      · exact hya.symm
  · exact h

theorem Counted.disapprove (a : Address H) : (b.disapprove a).Counted := by
  unfold Ballot.disapprove
  split
  · next hmay =>
    refine ⟨?_, ?_, ?_, ?_⟩
    · intro x hx
      exact h.approved x (mem_eraseAddress.mp hx).1
    · intro x hx
      rcases mem_of_mem_insertAddress hx with hx | rfl
      · exact h.disapproved x hx
      · exact hmay
    · intro x hx y hy
      obtain ⟨hx, hxa⟩ := mem_eraseAddress.mp hx
      rcases mem_of_mem_insertAddress hy with hy | rfl
      · exact h.disjoint x hx y hy
      · exact hxa
    · exact h.distinct.sublist (filter_sublist.map _)
  · exact h

/-- However often they vote, a voter is counted once and on one side. -/
theorem Counted.vote (add remove : List (Address H)) : (b.vote add remove).Counted :=
  vote_invariant (fun _ a hb => hb.approve a) (fun _ a hb => hb.disapprove a) h

end Ballot

end Votes

/-! ### Decisions -/

/-- The execution of a ballot: a proposal with its type, or a referendum. -/
structure Decision (K H P D : Type) where
  id : BallotId
  type : Option VoteType
  ballot : Ballot K H P
  db : D

section Decisions

variable [DecidableEq H] (r : Rules K H P D)

namespace Decision

variable (d : Decision K H P D)

def totalWeight : Nat := Ballot.weight r d.db d.ballot.requiredApprovals

def approvedWeight : Nat := Ballot.weight r d.db d.ballot.approved

/-- Three times those in favour are more than twice all: senators are counted, citizens are
    weighed.  For two types of proposals more than half of the senators suffices. -/
def SuperMajority : Prop :=
  match d.type with
  | some .committee => 2 * d.ballot.requiredApprovals.length < 3 * d.ballot.approved.length
  | some .cancelCommit | some .senator =>
    d.ballot.requiredApprovals.length < 2 * d.ballot.approved.length
  | _ => 2 * d.totalWeight r < 3 * d.approvedWeight r

def Short : Bool :=
  match d.type with
  | some .committee | some .cancelCommit | some .senator => false
  | _ => d.totalWeight r % 3 = 2 && d.approvedWeight r = d.totalWeight r / 3 * 2 + 1

/-- `is_authorized_to_execute` -/
def Authorized : Prop :=
  match d.type with
  | some type => Proposal.isAuthorizedToExecute r d.db ⟨d.ballot, type⟩ = true
  | none => d.ballot.isAuthorizedToExecute r d.db = true

end Decision

variable {r} in
/-- A ballot that is authorized has its majority, unless the weight is short. -/
theorem Decision.superMajority_iff {d : Decision K H P D} (h : d.Authorized r) :
    d.SuperMajority r ↔ d.Short r = false := by
  obtain ⟨id, type, b, db⟩ := d
  have hweight : b.isAuthorizedToExecute r db = true →
      (2 * Ballot.weight r db b.requiredApprovals < 3 * Ballot.weight r db b.approved ↔
        (decide (Ballot.weight r db b.requiredApprovals % 3 = 2) &&
          decide (Ballot.weight r db b.approved =
            Ballot.weight r db b.requiredApprovals / 3 * 2 + 1)) = false) := by
    intro hauthorized
    have hle := of_decide_eq_true (Bool.and_eq_true_iff.mp hauthorized).2
    rw [Bool.and_eq_false_iff, decide_eq_false_iff_not, decide_eq_false_iff_not]
    omega
  cases type with
  | none => exact hweight h
  | some type =>
    cases type with
    | committee =>
      have hle : b.requiredApprovals.length * 2 / 3 + 1 ≤ b.approved.length :=
        of_decide_eq_true (Bool.and_eq_true_iff.mp h).2
      simp only [Decision.SuperMajority, Decision.Short, iff_true]
      omega
    | cancelCommit | senator =>
      have hle : b.requiredApprovals.length * 1 / 2 + 1 ≤ b.approved.length :=
        of_decide_eq_true (Bool.and_eq_true_iff.mp h).2
      simp only [Decision.SuperMajority, Decision.Short, iff_true]
      omega
    | witness | worker | other => exact hweight h

/-! ### The decisions of operations -/

def proposalDecision (id : Nat) (add remove : List (Address H)) (s : State K H P D) :
    List (Decision K H P D) :=
  match s.proposals id with
  | none => []
  | some p =>
    let p := { p with toBallot := p.toBallot.vote add remove }
    if p.reviewPeriodTime.isNone && p.isAuthorizedToExecute r s.db && decide (id ≠ 137) then
      [⟨.proposal id, some p.type, p.toBallot, s.db⟩]
    else []

def referendumDecision (id : Nat) (add remove : List (Address H)) (s : State K H P D) :
    List (Decision K H P D) :=
  match s.referendums id with
  | none => []
  | some b =>
    let b := b.vote add remove
    if b.reviewPeriodTime.isNone && b.isAuthorizedToExecute r s.db then
      [⟨.referendum id, none, b, s.db⟩]
    else []

mutual

def decisions (via : Via) : Operation K H P → State K H P D → List (Decision K H P D)
  | .proposalUpdate _ _ id add remove, s => proposalDecision r id add remove s
  | .referendumUpdate _ _ id add remove, s => referendumDecision r id add remove s
  | .undertaker maker taker x makerOp takerOp, s =>
    let s := s.note ((Operation.undertaker maker taker x makerOp takerOp).event via)
    decisionsAll .wrapped takerOp s ++ (applyOperations r .wrapped takerOp s).collect fun s =>
      decisionsAll .wrapped makerOp s
  | _, _ => []

def decisionsAll (via : Via) : List (Operation K H P) → State K H P D → List (Decision K H P D)
  | [], _ => []
  | op :: l, s => decisions via op s ++ (applyOperation r via op s).collect fun s =>
      decisionsAll via l s

end

variable [DecidableEq K]

def stepDecisions (s : State K H P D) : Input K H P D → List (Decision K H P D)
  | .transaction tx => if (applyTransaction r tx s).returned
      then decisionsAll r .direct tx.operations { s with db := r.recordTransaction tx s.db } else []
  | .clearProposal id =>
    match s.proposals id with
    | none => []
    | some p =>
      if p.expirationTime ≤ r.headBlockTime s.db ∧ p.isAuthorizedToExecute r s.db = true then
        [⟨.proposal id, some p.type, p.toBallot, s.db⟩]
      else []
  | .clearReferendum id =>
    match s.referendums id with
    | none => []
    | some b =>
      if b.expirationTime ≤ r.headBlockTime s.db ∧ b.isAuthorizedToExecute r s.db = true then
        [⟨.referendum id, none, b, s.db⟩]
      else []
  | _ => []

/-- A run with what was decided so far. -/
structure VotingRun (K H P D : Type) where
  state : State K H P D
  decisions : List (Decision K H P D)

def VotingRun.step (v : VotingRun K H P D) (i : Input K H P D) : VotingRun K H P D :=
  ⟨Ops.step r v.state i, v.decisions ++ stepDecisions r v.state i⟩

end Decisions

/-! ### Ballots that are decided -/

/-- The ballot exists no longer, or is marked as finished. -/
def Store.Settled (s : Store K H P D) : BallotId → Prop
  | .proposal id => id < s.nextProposal ∧ ∀ p, s.proposals id = some p → p.finished = true
  | .referendum id => id < s.nextReferendum ∧ ∀ b, s.referendums id = some b → b.finished = true

variable [DecidableEq H]

/-- Numbers are given out once, and the votes of every ballot are counted once. -/
structure Store.Sound (s : Store K H P D) : Prop where
  proposals : ∀ id p, s.proposals id = some p → id < s.nextProposal ∧ p.toBallot.Counted
  referendums : ∀ id b, s.referendums id = some b → id < s.nextReferendum ∧ b.Counted

/-- Between two states the ballots of `ds` were decided on, and none of them before. -/
structure Decides (r : Rules K H P D) (s t : State K H P D) (ds : List (Decision K H P D)) :
    Prop where
  sound : t.Sound
  settled : ∀ b, s.Settled b → t.Settled b
  fresh : ∀ d ∈ ds, ¬ s.Settled d.id
  closed : ∀ d ∈ ds, t.Settled d.id
  authorized : ∀ d ∈ ds, d.Authorized r
  counted : ∀ d ∈ ds, d.ballot.Counted
  nodup : (ds.map Decision.id).Nodup

/-- The ballots are the same in both states. -/
structure SameBallots (s t : State K H P D) : Prop where
  proposals : t.proposals = s.proposals
  nextProposal : t.nextProposal = s.nextProposal
  referendums : t.referendums = s.referendums
  nextReferendum : t.nextReferendum = s.nextReferendum

namespace Decides

variable {r : Rules K H P D} {s t u : State K H P D} {ds ds' : List (Decision K H P D)}

theorem none (hsound : t.Sound) (hsettled : ∀ b, s.Settled b → t.Settled b) :
    Decides r s t [] where
  sound := hsound
  settled := hsettled
  fresh _ h := nomatch h
  closed _ h := nomatch h
  authorized _ h := nomatch h
  counted _ h := nomatch h
  nodup := nodup_nil

/-- A ballot decided on in the second part was not settled in the first. -/
theorem trans (h : Decides r s t ds) (h' : Decides r t u ds') : Decides r s u (ds ++ ds') where
  sound := h'.sound
  settled b hb := h'.settled b (h.settled b hb)
  fresh := forall_mem_append.mpr
    ⟨h.fresh, fun d hd hs => h'.fresh d hd (h.settled d.id hs)⟩
  closed := forall_mem_append.mpr ⟨fun d hd => h'.settled d.id (h.closed d hd), h'.closed⟩
  authorized := forall_mem_append.mpr ⟨h.authorized, h'.authorized⟩
  counted := forall_mem_append.mpr ⟨h.counted, h'.counted⟩
  nodup := by
    rw [map_append, nodup_append]
    refine ⟨h.nodup, h'.nodup, ?_⟩
    -- what was decided first is settled in between, what is decided later is not
    intro x hx y hy hxy
    obtain ⟨d, hd, rfl⟩ := mem_map.mp hx
    obtain ⟨d', hd', rfl⟩ := mem_map.mp hy
    exact h'.fresh d' hd' (hxy ▸ h.closed d hd)

/-- A ballot that was open and is settled now is the one decision. -/
theorem one {d : Decision K H P D} (h : Decides r s t []) (hfresh : ¬ s.Settled d.id)
    (hclosed : t.Settled d.id) (hauthorized : d.Authorized r) (hcounted : d.ballot.Counted) :
    Decides r s t [d] where
  sound := h.sound
  settled := h.settled
  fresh := forall_mem_singleton.mpr hfresh
  closed := forall_mem_singleton.mpr hclosed
  authorized := forall_mem_singleton.mpr hauthorized
  counted := forall_mem_singleton.mpr hcounted
  nodup := nodup_singleton _

variable (hs : s.Sound)
include hs

theorem of_sameBallots (h : SameBallots s t) : Decides r s t [] := by
  refine none ⟨?_, ?_⟩ ?_
  · rw [h.proposals, h.nextProposal]
    exact hs.proposals
  · rw [h.referendums, h.nextReferendum]
    exact hs.referendums
  · intro b hb
    cases b with
    | proposal id =>
      unfold Store.Settled at hb ⊢
      rw [h.proposals, h.nextProposal]
      exact hb
    | referendum id =>
      unfold Store.Settled at hb ⊢
      rw [h.referendums, h.nextReferendum]
      exact hb

/-- A ballot that is settled may be written again only as a finished one. -/
theorem setProposal {id : Nat} {p : Option (Proposal K H P)}
    (hp : ∀ q, p = some q → id < s.nextProposal ∧ q.toBallot.Counted)
    (hfinished : s.Settled (.proposal id) → ∀ q, p = some q → q.finished = true) : Decides r s
    (s.setProposal id p) [] := by
  refine none ⟨forall_set hs.proposals hp, hs.referendums⟩ ?_
  intro b hb
  cases b with
  | referendum i => exact hb
  | proposal i =>
    exact ⟨hb.1, fun q hq => forall_set
      (Q := fun i q => s.Settled (.proposal i) → q.finished = true) (fun i q hq hi => hi.2 q hq)
      (fun q hq hi => hfinished hi q hq) i q hq hb⟩

theorem setReferendum {id : Nat} {p : Option (Ballot K H P)}
    (hp : ∀ q, p = some q → id < s.nextReferendum ∧ q.Counted)
    (hfinished : s.Settled (.referendum id) → ∀ q, p = some q → q.finished = true) : Decides r s
    (s.setReferendum id p) [] := by
  refine none ⟨hs.proposals, forall_set hs.referendums hp⟩ ?_
  intro b hb
  cases b with
  | proposal i => exact hb
  | referendum i =>
    exact ⟨hb.1, fun q hq => forall_set
      (Q := fun i q => s.Settled (.referendum i) → q.finished = true)
      (fun i q hq hi => hi.2 q hq) (fun q hq hi => hfinished hi q hq) i q hq hb⟩

theorem removeProposal (id : Nat) : Decides r s (s.setProposal id .none) [] :=
  setProposal hs nofun nofun

theorem removeReferendum (id : Nat) : Decides r s (s.setReferendum id .none) [] :=
  setReferendum hs nofun nofun

/-- The number of a new ballot is above that of every settled one. -/
theorem createProposal {p : Proposal K H P} (hp : p.toBallot.Counted) : Decides r s
    (s.createProposal p) [] := by
  refine none ⟨forall_set (fun i q hq => (hs.proposals i q hq).imp_left Nat.lt_succ_of_lt) ?_,
    hs.referendums⟩ ?_
  · intro q hq
    cases hq
    exact ⟨Nat.lt_succ_self _, hp⟩
  · intro b hb
    cases b with
    | referendum i => exact hb
    | proposal i =>
      refine ⟨Nat.lt_succ_of_lt hb.1, fun q hq => hb.2 q ?_⟩
      exact (if_neg (Nat.ne_of_lt hb.1)).symm.trans hq

theorem createReferendum {p : Ballot K H P} (hp : p.Counted) :
    Decides r s (s.createReferendum p) [] := by
  refine none ⟨hs.proposals,
    forall_set (fun i q hq => (hs.referendums i q hq).imp_left Nat.lt_succ_of_lt) ?_⟩ ?_
  · intro q hq
    cases hq
    exact ⟨Nat.lt_succ_self _, hp⟩
  · intro b hb
    cases b with
    | proposal i => exact hb
    | referendum i =>
      refine ⟨Nat.lt_succ_of_lt hb.1, fun q hq => hb.2 q ?_⟩
      exact (if_neg (Nat.ne_of_lt hb.1)).symm.trans hq

end Decides

/-! ### Executing a ballot -/

section Execution

variable {r : Rules K H P D} {s t u : State K H P D} {id : Nat}

omit [DecidableEq H] in
theorem SameBallots.trans (h : SameBallots s t) (h' : SameBallots t u) : SameBallots s u :=
  ⟨h'.proposals.trans h.proposals, h'.nextProposal.trans h.nextProposal,
    h'.referendums.trans h.referendums, h'.nextReferendum.trans h.nextReferendum⟩

omit [DecidableEq H] in
theorem sameBallots_withDb (s : State K H P D) (x : Exec D) :
    SameBallots s (x.map fun d => { s with db := d }).state := by
  cases x <;> exact ⟨rfl, rfl, rfl, rfl⟩

variable (r)

theorem sameBallots_applyLeaf (via : Via) (l : Leaf K H P)
    (s : State K H P D) : SameBallots s (applyLeaf r via l s).state := by
  have hnote : SameBallots s (s.note ((Operation.leaf l).event via)) := ⟨rfl, rfl, rfl, rfl⟩
  unfold applyLeaf startEvaluate
  split
  · exact Exec.state_andThen (fun _ _ _ => .trans) (hnote.trans (sameBallots_withDb _ _))
      fun u _ => sameBallots_withDb u _
  · exact ⟨rfl, rfl, rfl, rfl⟩

/-- What the operations of a ballot do to the database leaves the ballots alone. -/
theorem sameBallots_pushOps (via : Via) (l : List (Leaf K H P))
    (s : State K H P D) : SameBallots s (pushOps r via l s).state :=
  Exec.state_forEach (fun _ => ⟨rfl, rfl, rfl, rfl⟩) (fun _ _ _ => .trans)
    (fun x _ s => sameBallots_applyLeaf r via x s) s

theorem Ballot.Counted.finish {b : Ballot K H P} (h : b.Counted) (time : Nat) :
    { b with finished := true, expirationTime := time }.Counted :=
  ⟨h.approved, h.disapproved, h.disjoint, h.distinct⟩

variable {r}

/-- Whether its operations go through or not, the ballot is settled by the try. -/
theorem tryProposal_decides {p : Proposal K H P} (hs : s.Sound) (hp : s.proposals id = some p)
    (hauthorized : p.isAuthorizedToExecute r s.db = true) (hopen : p.finished = false) :
    Decides r s (tryProposal r id p s) [⟨.proposal id, some p.type, p.toBallot, s.db⟩] := by
  obtain ⟨hid, hcounted⟩ := hs.proposals id p hp
  obtain ⟨q, time, heq, hq⟩ := tryProposal_eq r id p s
  rw [heq]
  have hsame := sameBallots_pushOps r (.proposal (p.isAuthorizedToExecute r s.db)) p.proposedOps s
  have hops := Decides.of_sameBallots (r := r) hs hsame
  have hidu := hid.trans_eq hsame.nextProposal.symm
  refine (hops.trans (.setProposal hops.sound (fun x hx => ⟨hidu, hq x hx ▸ hcounted.finish time⟩)
    fun _ x hx => by rw [hq x hx])).one ?_ ⟨hidu, ?_⟩ hauthorized hcounted
  · intro hsettled
    rw [hsettled.2 p hp] at hopen
    cases hopen
  · intro x hx
    rw [hq x (by simpa [State.setProposal] using hx)]

theorem tryReferendum_decides {b : Ballot K H P} (hs : s.Sound) (hb : s.referendums id = some b)
    (hauthorized : b.isAuthorizedToExecute r s.db = true) (hopen : b.finished = false) :
    Decides r s (tryReferendum r id b s) [⟨.referendum id, none, b, s.db⟩] := by
  obtain ⟨hid, hcounted⟩ := hs.referendums id b hb
  obtain ⟨q, time, heq, hq⟩ := tryReferendum_eq r id b s
  rw [heq]
  have hsame := sameBallots_pushOps r (.referendum (b.isAuthorizedToExecute r s.db)) b.proposedOps s
  have hops := Decides.of_sameBallots (r := r) hs hsame
  have hidu := hid.trans_eq hsame.nextReferendum.symm
  refine (hops.trans (.setReferendum hops.sound (fun x hx => ⟨hidu, hq x hx ▸ hcounted.finish time⟩)
    fun _ x hx => by rw [hq x hx])).one ?_ ⟨hidu, ?_⟩ hauthorized hcounted
  · intro hsettled
    rw [hsettled.2 b hb] at hopen
    cases hopen
  · intro x hx
    rw [hq x (by simpa [State.setReferendum] using hx)]

end Execution

/-! ### Operations decide as listed -/

section Operations

variable {r : Rules K H P D} {via : Via} {op : Operation K H P} {s t : State K H P D} {id : Nat}
  {add remove : List (Address H)}

section

variable (hs : s.Sound)
include hs

/-- A ballot without a review period is tried as soon as it is authorized. -/
theorem executeProposal_decides {p : Proposal K H P}
    (hp : s.proposals id = some p) (hopen : p.finished = false) :
    Decides r s (executeProposal r id p s)
      (if p.reviewPeriodTime.isNone && p.isAuthorizedToExecute r s.db && decide (id ≠ 137) then
        [⟨.proposal id, some p.type, p.toBallot, s.db⟩] else []) := by
  have hsame : Decides r s s [] := .of_sameBallots hs ⟨rfl, rfl, rfl, rfl⟩
  unfold executeProposal
  cases hreview : p.reviewPeriodTime with
  | some time => exact hsame
  | none =>
    cases hauthorized : p.isAuthorizedToExecute r s.db with
    | false => exact hsame
    | true =>
      by_cases hdropped : id = 137
      · rw [if_pos hdropped, decide_eq_false (fun hne => hne hdropped)]
        exact .removeProposal hs _
      · rw [if_neg hdropped, decide_eq_true hdropped]
        exact tryProposal_decides hs hp hauthorized hopen

theorem executeReferendum_decides {b : Ballot K H P}
    (hb : s.referendums id = some b) (hopen : b.finished = false) :
    Decides r s (executeReferendum r id b s)
      (if b.reviewPeriodTime.isNone && b.isAuthorizedToExecute r s.db then
        [⟨.referendum id, none, b, s.db⟩] else []) := by
  have hsame : Decides r s s [] := .of_sameBallots hs ⟨rfl, rfl, rfl, rfl⟩
  unfold executeReferendum
  cases hreview : b.reviewPeriodTime with
  | some time => exact hsame
  | none =>
    cases hauthorized : b.isAuthorizedToExecute r s.db with
    | false => exact hsame
    | true => exact tryReferendum_decides hs hb hauthorized hopen

theorem startEvaluate_decides {evaluated : Bool}
    {doApply : State K H P D → Exec (State K H P D)} {ds : List (Decision K H P D)}
    (hdo : evaluated = true → (s.note (op.event via)).Sound → ∀ u,
      doApply (s.note (op.event via)) = .ok u → Decides r (s.note (op.event via)) u ds)
    (h : startEvaluate r via op evaluated doApply s = .ok t) : Decides r s t ds := by
  have hnote : Decides r s (s.note (op.event via)) [] := .of_sameBallots hs ⟨rfl, rfl, rfl, rfl⟩
  unfold startEvaluate at h
  split at h
  · next hevaluated =>
    obtain ⟨u, hu, hfee⟩ := Exec.andThen_eq_ok.mp h
    have hdecides := hdo hevaluated hnote.sound u hu
    have hsame := sameBallots_withDb u (r.payFee op.header u.toStore)
    rw [hfee] at hsame
    have hpaid : Decides r u t [] := .of_sameBallots hdecides.sound hsame
    have hall := (hnote.trans hdecides).trans hpaid
    rwa [nil_append, append_nil] at hall
  · cases h

theorem applyCreate_decides {ifEvaluate : Option Bool} {ops : Option (List (Leaf K H P))}
    {doEvaluate : List (Leaf K H P) → Store K H P D → Bool}
    {store : List (Leaf K H P) → State K H P D → State K H P D}
    (hstore : ∀ l u, u.Sound → Decides r u (store l u) [])
    (h : applyCreate r via op ifEvaluate ops doEvaluate store s = .ok t) : Decides r s t [] := by
  cases ops with
  | none => cases h
  | some l =>
    unfold applyCreate at h
    refine startEvaluate_decides hs ?_ h
    intro _ hnote u hu
    cases hu
    exact hstore l _ hnote

/-- One update decides on its own proposal at most. -/
theorem applyProposalUpdate_decides (h : applyProposalUpdate r via op id add remove s = .ok t) :
    Decides r s t (proposalDecision r id add remove s) := by
  unfold applyProposalUpdate at h
  unfold proposalDecision
  cases hp : s.proposals id with
  | none =>
    rw [hp] at h
    cases h
  | some p =>
    rw [hp] at h
    obtain ⟨hid, hcounted⟩ := hs.proposals id p hp
    refine startEvaluate_decides hs ?_ h
    intro hevaluated hnote u hu
    cases hu
    have hunfinished : p.finished = false := by
      simp only [evaluates, Bool.and_eq_true, Option.any_some, Bool.not_true,
        Bool.false_or] at hevaluated
      simpa using hevaluated.2.1
    have hvoted : (p.vote add remove).finished = false := by
      rw [(Ballot.vote_keeps _).2]
      exact hunfinished
    have hvote : Decides r (s.note (op.event via)) ((s.note (op.event via)).setProposal id
        (some { p with toBallot := p.toBallot.vote add remove })) [] := by
      refine .setProposal hnote ?_ ?_
      · intro q hq
        cases hq
        exact ⟨hid, hcounted.vote add remove⟩
      · intro hsettled
        rw [hsettled.2 p hp] at hunfinished
        cases hunfinished
    have hset : ((s.note (op.event via)).setProposal id
        (some { p with toBallot := p.toBallot.vote add remove })).proposals id =
        some { p with toBallot := p.toBallot.vote add remove } := by simp [State.setProposal]
    exact hvote.trans (executeProposal_decides hvote.sound hset hvoted)

/-- One update decides on its own referendum at most. -/
theorem applyReferendumUpdate_decides (h : applyReferendumUpdate r via op id add remove s = .ok t) :
    Decides r s t (referendumDecision r id add remove s) := by
  unfold applyReferendumUpdate at h
  unfold referendumDecision
  cases hb : s.referendums id with
  | none =>
    rw [hb] at h
    cases h
  | some b =>
    rw [hb] at h
    obtain ⟨hid, hcounted⟩ := hs.referendums id b hb
    refine startEvaluate_decides hs ?_ h
    intro hevaluated hnote u hu
    cases hu
    have hunfinished : b.finished = false := by
      simp only [evaluates, Bool.and_eq_true, Option.any_some, Bool.not_true,
        Bool.false_or] at hevaluated
      simpa using hevaluated.2.2
    have hvoted : (b.vote add remove).finished = false := by
      rw [(Ballot.vote_keeps _).2]
      exact hunfinished
    have hvote : Decides r (s.note (op.event via)) ((s.note (op.event via)).setReferendum id
        (some (b.vote add remove))) [] := by
      refine .setReferendum hnote ?_ ?_
      · intro q hq
        cases hq
        exact ⟨hid, hcounted.vote add remove⟩
      · intro hsettled
        rw [hsettled.2 b hb] at hunfinished
        cases hunfinished
    have hset : ((s.note (op.event via)).setReferendum id
        (some (b.vote add remove))).referendums id = some (b.vote add remove) := by
      simp [State.setReferendum]
    exact hvote.trans (executeReferendum_decides hvote.sound hset hvoted)

theorem applyProposalDelete_decides (h : applyProposalDelete r via op id s = .ok t) : Decides r s t
    [] := by
  unfold applyProposalDelete at h
  cases hp : s.proposals id with
  | none =>
    rw [hp] at h
    cases h
  | some p =>
    rw [hp] at h
    refine startEvaluate_decides hs ?_ h
    intro _ hnote u hu
    cases hu
    exact .removeProposal hnote _

end

theorem counted_empty {ops : List (Leaf K H P)} {proposer expirationTime : Nat}
    {required : List (Address H)} {finished : Bool} {reviewPeriodTime : Option Nat} :
    (⟨ops, proposer, required, [], [], finished, reviewPeriodTime, expirationTime⟩ :
      Ballot K H P).Counted :=
  ⟨nofun, nofun, nofun, nodup_nil⟩

mutual

/-- **An accepted operation decides on what is listed.** -/
theorem applyOperation_decides (op : Operation K H P) (via : Via) (s t : State K H P D)
    (hs : s.Sound) (h : applyOperation r via op s = .ok t) :
    Decides r s t (decisions r via op s) := by
  match op with
  | .leaf l =>
    have hsame := sameBallots_applyLeaf r via l s
    have hleaf : applyLeaf r via l s = .ok t := h
    rw [hleaf] at hsame
    exact .of_sameBallots hs hsame
  | .proposalCreate a x type proposer expirationTime reviewPeriod ops =>
    exact applyCreate_decides hs (fun l u hu => .createProposal hu counted_empty) h
  | .proposalUpdate a x id add remove => exact applyProposalUpdate_decides hs h
  | .proposalDelete a x id => exact applyProposalDelete_decides hs h
  | .referendumCreate a x proposer ops =>
    exact applyCreate_decides hs (fun l u hu => .createReferendum hu counted_empty) h
  | .referendumUpdate a x id add remove => exact applyReferendumUpdate_decides hs h
  | .undertaker maker taker x makerOp takerOp =>
    unfold applyOperation at h
    refine startEvaluate_decides hs ?_ h
    intro _ hnote u hu
    obtain ⟨v, htaker, hmaker⟩ := Exec.andThen_eq_ok.mp hu
    unfold decisions
    dsimp only
    rw [htaker, Exec.collect_ok]
    have hfirst := applyOperations_decides takerOp .wrapped _ v hnote htaker
    exact hfirst.trans (applyOperations_decides makerOp .wrapped v u hfirst.sound hmaker)

/-- The decisions of a list of operations are made one after the other. -/
theorem applyOperations_decides (ops : List (Operation K H P)) (via : Via) (s t : State K H P D)
    (hs : s.Sound) (h : applyOperations r via ops s = .ok t) :
    Decides r s t (decisionsAll r via ops s) := by
  match ops with
  | [] =>
    cases h
    exact .of_sameBallots hs ⟨rfl, rfl, rfl, rfl⟩
  | op :: l =>
    obtain ⟨u, hop, hrest⟩ := Exec.andThen_eq_ok.mp h
    unfold decisionsAll
    rw [hop, Exec.collect_ok]
    have hfirst := applyOperation_decides op via s u hs hop
    exact hfirst.trans (applyOperations_decides l via u t hfirst.sound hrest)

end

end Operations

/-! ### Steps and runs -/

section Runs

variable {r : Rules K H P D} {s t : State K H P D} {id : Nat}

/-- The test of the majority refuses what is finished. -/
theorem Ballot.open_of_authorized {b : Ballot K H P} {d : D}
    (h : b.isAuthorizedToExecute r d = true) : b.finished = false := by
  simpa using (Bool.and_eq_true_iff.mp h).1

theorem Proposal.open_of_authorized {p : Proposal K H P} {d : D}
    (h : p.isAuthorizedToExecute r d = true) : p.finished = false := by
  unfold Proposal.isAuthorizedToExecute at h
  split at h
  · simpa using (Bool.and_eq_true_iff.mp h).1
  · simpa using (Bool.and_eq_true_iff.mp h).1
  · simpa using (Bool.and_eq_true_iff.mp h).1
  · exact Ballot.open_of_authorized h

/-- An expired proposal is tried if it is authorized; otherwise nothing is decided. -/
theorem expireProposal_decides {p : Proposal K H P} (hs : s.Sound)
    (hp : s.proposals id = some p) :
    Decides r s (expireProposal r id p s).state (if p.isAuthorizedToExecute r s.db then
      [⟨.proposal id, some p.type, p.toBallot, s.db⟩] else []) := by
  have hremoved := Decides.removeProposal (r := r) hs id
  unfold expireProposal
  split
  · next hauthorized =>
    exact tryProposal_decides hs hp hauthorized (Proposal.open_of_authorized hauthorized)
  · split
    · split
      · exact .of_sameBallots hs ⟨rfl, rfl, rfl, rfl⟩
      · exact hremoved.trans (.of_sameBallots hremoved.sound ⟨rfl, rfl, rfl, rfl⟩)
    · exact hremoved

theorem expireReferendum_decides {b : Ballot K H P} (hs : s.Sound)
    (hb : s.referendums id = some b) :
    Decides r s (expireReferendum r id b s) (if b.isAuthorizedToExecute r s.db then
      [⟨.referendum id, none, b, s.db⟩] else []) := by
  have hremoved := Decides.removeReferendum (r := r) hs id
  unfold expireReferendum
  split
  · next hauthorized =>
    exact tryReferendum_decides hs hb hauthorized (Ballot.open_of_authorized hauthorized)
  · split
    · exact hremoved.trans (.of_sameBallots hremoved.sound ⟨rfl, rfl, rfl, rfl⟩)
    · exact hremoved

variable [DecidableEq K]

/-- One input of a run, whichever it is. -/
theorem step_decides (hs : s.Sound) (i : Input K H P D) :
    Decides r s (step r s i) (stepDecisions r s i) := by
  have hsame : Decides r s s [] := .of_sameBallots hs ⟨rfl, rfl, rfl, rfl⟩
  cases i with
  | transaction tx =>
    simp only [step, stepDecisions]
    cases htx : applyTransaction r tx s with
    | thrown u => exact hsame
    | ok t =>
      have hrecorded : Decides r s { s with db := r.recordTransaction tx s.db } [] :=
        .of_sameBallots hs ⟨rfl, rfl, rfl, rfl⟩
      unfold applyTransaction at htx
      split at htx
      · exact hrecorded.trans (applyOperations_decides _ _ _ _ hrecorded.sound htx)
      · cases htx
  | clearProposal id =>
    simp only [step, stepDecisions]
    cases hp : s.proposals id with
    | none => exact hsame
    | some p =>
      dsimp only
      by_cases hexpired : p.expirationTime ≤ r.headBlockTime s.db
      · rw [if_pos hexpired]
        simp only [hexpired, true_and]
        exact expireProposal_decides hs hp
      · rw [if_neg hexpired, if_neg fun h => hexpired h.1]
        exact hsame
  | clearReferendum id =>
    simp only [step, stepDecisions]
    cases hb : s.referendums id with
    | none => exact hsame
    | some b =>
      dsimp only
      by_cases hexpired : b.expirationTime ≤ r.headBlockTime s.db
      · rw [if_pos hexpired]
        simp only [hexpired, true_and]
        exact expireReferendum_decides hs hb
      · rw [if_neg hexpired, if_neg fun h => hexpired h.1]
        exact hsame
  | removeFinished id =>
    simp only [step, stepDecisions]
    split
    · exact hsame
    · split
      · exact .removeProposal hs _
      · exact hsame
  | dropReferendum id => exact .removeReferendum hs _
  | maintain db headBlockNum => exact .of_sameBallots hs ⟨rfl, rfl, rfl, rfl⟩

def VotingRun.Initial (v : VotingRun K H P D) : Prop :=
  (∀ id, v.state.proposals id = none) ∧ (∀ id, v.state.referendums id = none) ∧ v.decisions = []

/-- **Majorities are real, and ballots execute once**, in every run in which no weight is
    short by a third of a unit. -/
theorem executed_by_majority (r : Rules K H P D) {v : VotingRun K H P D}
    (h : ReachableUnder VotingRun.Initial
      (fun v i => ∀ d ∈ stepDecisions r v.state i, d.Short r = false) (VotingRun.step r) v) :
    (∀ d ∈ v.decisions, d.SuperMajority r ∧ d.ballot.Counted) ∧
      (v.decisions.map Decision.id).Nodup ∧
      (∀ id p, v.state.proposals id = some p → p.toBallot.Counted) ∧
      ∀ id b, v.state.referendums id = some b → b.Counted := by
  have hinv : (∃ s, Decides r s v.state v.decisions) ∧ ∀ d ∈ v.decisions, d.Short r = false := by
    refine h.invariant (fun v => (∃ s, Decides r s v.state v.decisions) ∧
      ∀ d ∈ v.decisions, d.Short r = false) ?_ ?_
    · rintro v ⟨hproposals, hreferendums, hnone⟩
      have hsound : v.state.Sound := by
        refine ⟨fun id p hp => ?_, fun id b hb => ?_⟩
        · rw [hproposals id] at hp
          cases hp
        · rw [hreferendums id] at hb
          cases hb
      rw [hnone]
      exact ⟨⟨v.state, .of_sameBallots hsound ⟨rfl, rfl, rfl, rfl⟩⟩, nofun⟩
    · rintro v i ⟨⟨s, hdecides⟩, hshort⟩ hi
      refine ⟨⟨s, hdecides.trans (step_decides hdecides.sound i)⟩, ?_⟩
      intro d hd
      exact (mem_append.mp hd).elim (hshort d) (hi d)
  obtain ⟨⟨s, hdecides⟩, hshort⟩ := hinv
  refine ⟨?_, hdecides.nodup, fun id p hp => (hdecides.sound.proposals id p hp).2,
    fun id b hb => (hdecides.sound.referendums id b hb).2⟩
  intro d hd
  exact ⟨(Decision.superMajority_iff (hdecides.authorized d hd)).mpr (hshort d hd),
    hdecides.counted d hd⟩

end Runs

/-! ### A referendum among citizens

Citizens 1 and 2 with the given weights; citizen 1 creates a referendum and approves. -/

def citizenRules (first second : Nat) : Rules Nat (AddressForm × Nat) Unit Unit :=
  { openRules with citizens := fun _ => [⟨1, account 1, first⟩, ⟨2, account 2, second⟩] }

/-- `citizen_referendum_senator_operation` -/
def electSenators : Operation Nat (AddressForm × Nat) Unit :=
  .leaf ⟨.proposable .citizenReferendumSenator, account 0, [], (), no_authorities, fun _ => rfl⟩

def approvedByFirst : List (Input Nat (AddressForm × Nat) Unit Unit) :=
  [.transaction ⟨[.referendumCreate (account 1) () 1 [electSenators]], [1], ()⟩,
    .transaction ⟨[.referendumUpdate (account 1) () 0 [account 1] []], [1], ()⟩,
    .clearReferendum 0]

def citizenRun (first second : Nat) : VotingRun Nat (AddressForm × Nat) Unit Unit :=
  approvedByFirst.foldl (VotingRun.step (citizenRules first second)) ⟨⟨emptyStore, []⟩, []⟩

instance (first second : Nat) (v : VotingRun Nat (AddressForm × Nat) Unit Unit)
    (i : Input Nat (AddressForm × Nat) Unit Unit) : Decidable
    (∀ d ∈ stepDecisions (citizenRules first second) v.state i,
      d.Short (citizenRules first second) = false) := List.decidableBAll _ _

/-- With weights 5 and 2 the referendum executes, once. -/
theorem referendum_has_majority :
    (citizenRun 5 2).decisions.map Decision.id = [.referendum 0] ∧
      ∀ d ∈ (citizenRun 5 2).decisions,
        2 * d.totalWeight (citizenRules 5 2) < 3 * d.approvedWeight (citizenRules 5 2) := by
  have hrun := executed_by_majority (citizenRules 5 2) (v := citizenRun 5 2)
    (ReachableUnder.of_checkRun (.start ⟨fun _ => rfl, fun _ => rfl, rfl⟩) (by decide +kernel))
  refine ⟨by decide +kernel, ?_⟩
  intro d hd
  have htype : ∀ d ∈ (citizenRun 5 2).decisions, d.type = none := by decide +kernel
  have hmajority := (hrun.1 d hd).1
  unfold Decision.SuperMajority at hmajority
  rw [htype d hd] at hmajority
  exact hmajority

/-- With weights 3 and 2 it executes, too: nine is not more than ten. -/
theorem referendum_without_majority :
    (citizenRun 3 2).decisions.map (fun d => (d.id, d.totalWeight (citizenRules 3 2),
      d.approvedWeight (citizenRules 3 2))) = [(.referendum 0, 5, 3)] ∧ ¬ 2 * 5 < 3 * 3 := by
  exact ⟨by decide +kernel, by decide⟩

end HyperExchange.Ops
