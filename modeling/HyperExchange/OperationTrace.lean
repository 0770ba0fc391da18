/-
  **What an accepted operation applies.**

  `Ran S I calls s t`: every operation of `calls` was applied (and none of them was one that
  its evaluator refuses outside of proposals), and whatever else was applied was executed by
  a vote.  `S` are the ballots that are voted on, and `I` is a property of the operations
  stored there.  The calls of an operation are the operation and everything wrapped inside of
  it, at any depth; `applyOperation_ran` is the induction over the tree.
-/
import HyperExchange.OperationRuns
import HyperExchange.OperationSequences

namespace HyperExchange.Ops

open Auth Execution List

variable {K H P D : Type} {l : List (Operation K H P)}

/-! ### The calls of an operation -/

mutual

def Operation.wrappedOps : Operation K H P → List (Operation K H P)
  | .undertaker _ _ _ makerOp takerOp => withWrapped takerOp ++ withWrapped makerOp
  | _ => []

def withWrapped : List (Operation K H P) → List (Operation K H P)
  | [] => []
  | op :: l => op :: op.wrappedOps ++ withWrapped l

end

def Operation.calls (via : Via) (op : Operation K H P) : List (Via × Operation K H P) :=
  (via, op) :: op.wrappedOps.map fun o => (.wrapped, o)

def callsOf (via : Via) : List (Operation K H P) → List (Via × Operation K H P)
  | [] => []
  | op :: l => op.calls via ++ callsOf via l

theorem callsOf_wrapped (l : List (Operation K H P)) :
    callsOf .wrapped l = (withWrapped l).map fun o => (.wrapped, o) := by
  induction l with
  | nil => simp [callsOf, withWrapped]
  | cons op l ih => simp [callsOf, withWrapped, Operation.calls, ih]

theorem calls_undertaker (via : Via) (maker taker : Address H) (x : P)
    (makerOp takerOp : List (Operation K H P)) :
    (Operation.undertaker maker taker x makerOp takerOp).calls via =
      (via, .undertaker maker taker x makerOp takerOp) ::
        (callsOf .wrapped takerOp ++ callsOf .wrapped makerOp) := by
  simp [Operation.calls, Operation.wrappedOps, callsOf_wrapped]

variable {x : Via × Operation K H P}

/-- The listed operations are called directly, everything else in a wrapper. -/
theorem mem_callsOf_direct : x ∈ callsOf .direct l ↔
      (x.1 = .direct ∧ x.2 ∈ l) ∨ (x.1 = .wrapped ∧ ∃ op ∈ l, x.2 ∈ op.wrappedOps) := by
  obtain ⟨via, o⟩ := x
  induction l with
  | nil => simp [callsOf]
  | cons op l ih =>
    simp only [callsOf, mem_append, ih, Operation.calls, mem_cons, mem_map,
      Prod.mk.injEq]
    grind

/-- An operation is in the list itself or wrapped in one that is. -/
theorem mem_withWrapped {o : Operation K H P} :
    o ∈ withWrapped l ↔ o ∈ l ∨ ∃ op ∈ l, o ∈ op.wrappedOps := by
  induction l with
  | nil => simp [withWrapped]
  | cons op l ih =>
    simp only [withWrapped, mem_append, mem_cons, ih]
    grind

theorem mem_withWrapped_of_call (h : x ∈ callsOf .direct l) :
    x.2 ∈ withWrapped l := by
  rcases mem_callsOf_direct.mp h with ⟨_, hlisted⟩ | ⟨_, hwrapped⟩
  · exact mem_withWrapped.mpr (.inl hlisted)
  · exact mem_withWrapped.mpr (.inr hwrapped)

/-- The operations of a transaction are not run as those of a proposal. -/
theorem not_proposed_of_call (h : x ∈ callsOf .direct l) :
    x.1.proposed = false := by
  rcases mem_callsOf_direct.mp h with ⟨hvia, _⟩ | ⟨hvia, _⟩
  all_goals
    rw [hvia]
    rfl

inductive BallotId where
  | proposal (id : Nat)
  | referendum (id : Nat)
deriving DecidableEq, Repr

def Operation.votesOn : Operation K H P → Option BallotId
  | .proposalUpdate _ _ id _ _ => some (.proposal id)
  | .referendumUpdate _ _ id _ _ => some (.referendum id)
  | _ => none

def Operation.proposedLeaves : Operation K H P → List (Leaf K H P)
  | .proposalCreate _ _ type _ _ _ ops => (proposalOps type ops).getD []
  | .referendumCreate _ _ _ ops => (referendumOps ops).getD []
  | _ => []

/-- Refused outside of proposals and referendums, whatever the state: the evaluator tests
    `_is_proposed_trx`, and is sure to be asked. -/
def Operation.refused (via : Via) (headBlockNum : Nat) : Operation K H P → Bool
  | .leaf l => match l.kind with
    | .proposable k => !via.proposed && k.proposedOnly &&
        (k.alwaysEvaluated || decide (checkPointBlock < headBlockNum))
    | .other _ => false
  | _ => false

/-! ### Stored operations -/

/-- All operations stored in the ballots `S` satisfy `I`. -/
structure Store.AllStored (S : BallotId → Prop) (I : Leaf K H P → Prop)
    (s : Store K H P D) : Prop where
  proposals : ∀ id p, S (.proposal id) → s.proposals id = some p → ∀ l ∈ p.proposedOps, I l
  referendums : ∀ id b, S (.referendum id) → s.referendums id = some b → ∀ l ∈ b.proposedOps, I l

/-- One of the ballots `S` does not exist yet. -/
def Store.Upcoming (S : BallotId → Prop) (s : Store K H P D) : Prop :=
  (∃ id, s.nextProposal ≤ id ∧ S (.proposal id)) ∨
    ∃ id, s.nextReferendum ≤ id ∧ S (.referendum id)

section AllStored

/-- What holds for all stored ballots still does if it holds for one that is set. -/
theorem forall_set {β : Type} {Q : Nat → β → Prop} {f : Nat → Option β} {id : Nat} {x : Option β}
    (hf : ∀ i b, f i = some b → Q i b) (hx : ∀ b, x = some b → Q id b) (i : Nat) (b : β)
    (h : (if i = id then x else f i) = some b) : Q i b := by
  split at h
  · next hi => exact hi ▸ hx b h
  · exact hf i b h

variable {S : BallotId → Prop} {I : Leaf K H P → Prop} {s : State K H P D}

theorem Store.AllStored.setProposal (h : s.AllStored S I) (id : Nat)
    {p : Option (Proposal K H P)}
    (hp : S (.proposal id) → ∀ q ∈ p, ∀ l ∈ q.proposedOps, I l) :
    (s.setProposal id p).AllStored S I where
  proposals i q hS hq := forall_set (Q := fun i q => S (.proposal i) → ∀ l ∈ q.proposedOps, I l)
    (fun i q hq hS => h.proposals i q hS hq) (fun q hq hS => hp hS q hq) i q hq hS
  referendums := h.referendums

theorem Store.AllStored.setReferendum (h : s.AllStored S I) (id : Nat)
    {b : Option (Ballot K H P)}
    (hb : S (.referendum id) → ∀ q ∈ b, ∀ l ∈ q.proposedOps, I l) :
    (s.setReferendum id b).AllStored S I where
  proposals := h.proposals
  referendums i q hS hq := forall_set
    (Q := fun i q => S (.referendum i) → ∀ l ∈ q.proposedOps, I l)
    (fun i q hq hS => h.referendums i q hS hq) (fun q hq hS => hb hS q hq) i q hq hS

end AllStored

/-! ### What ran between two states -/

section Ran

variable [DecidableEq H]

/-- An operation that was applied because a ballot that stores it was accepted. -/
def VotedEvent (I : Leaf K H P → Prop) (e : Event K H) : Prop :=
  e.via.voted = true ∧ ∃ l, I l ∧ e = (Operation.leaf l).event e.via

def eventOf (x : Via × Operation K H P) : Event K H := x.2.event x.1

/-- From `s` to `t` the calls were applied; whatever else was applied had been voted on. -/
structure Ran (S : BallotId → Prop) (I : Leaf K H P → Prop)
    (calls : List (Via × Operation K H P)) (s t : State K H P D) : Prop where
  stored : s.AllStored S I → t.AllStored S I
  nextProposal : s.nextProposal ≤ t.nextProposal
  nextReferendum : s.nextReferendum ≤ t.nextReferendum
  headBlockNum : t.headBlockNum = s.headBlockNum
  passed : ∀ x ∈ calls, x.2.refused x.1 s.headBlockNum = false
  events : ∃ new, t.trace = new ++ s.trace ∧ (∀ x ∈ calls, eventOf x ∈ new) ∧
    ∀ e ∈ new, (∃ x ∈ calls, e = eventOf x) ∨ VotedEvent I e

namespace Ran

variable {S : BallotId → Prop} {I : Leaf K H P → Prop}
  {calls calls' : List (Via × Operation K H P)} {s t u : State K H P D}

/-- Nothing is applied.  Changes of the rest of the state are not looked at. -/
theorem quiet (hstored : s.AllStored S I → t.AllStored S I)
    (hproposal : s.nextProposal ≤ t.nextProposal)
    (hreferendum : s.nextReferendum ≤ t.nextReferendum)
    (hblock : t.headBlockNum = s.headBlockNum) (htrace : t.trace = s.trace) :
    Ran S I [] s t where
  stored := hstored
  nextProposal := hproposal
  nextReferendum := hreferendum
  headBlockNum := hblock
  passed := by simp
  events := ⟨[], htrace, by simp, by simp⟩

theorem refl : Ran S I [] s s := quiet id (Nat.le_refl _) (Nat.le_refl _) rfl rfl

section

variable (h : Ran S I calls s t)
include h

/-- Ballots are never taken back: what is upcoming at the end was so at the start. -/
theorem upcoming (ht : t.Upcoming S) : s.Upcoming S := by
  rcases ht with ⟨id, hid, hS⟩ | ⟨id, hid, hS⟩
  · exact .inl ⟨id, Nat.le_trans h.nextProposal hid, hS⟩
  · exact .inr ⟨id, Nat.le_trans h.nextReferendum hid, hS⟩

/-- The calls of the second part run after those of the first. -/
theorem trans (h' : Ran S I calls' t u) : Ran S I (calls ++ calls') s u where
  stored hs := h'.stored (h.stored hs)
  nextProposal := Nat.le_trans h.nextProposal h'.nextProposal
  nextReferendum := Nat.le_trans h.nextReferendum h'.nextReferendum
  headBlockNum := h'.headBlockNum.trans h.headBlockNum
  passed := forall_mem_append.mpr ⟨h.passed, h.headBlockNum ▸ h'.passed⟩
  events := by
    obtain ⟨new, htrace, hcalls, hnew⟩ := h.events
    obtain ⟨new', htrace', hcalls', hnew'⟩ := h'.events
    refine ⟨new' ++ new, by rw [htrace', htrace, append_assoc], ?_, ?_⟩
    · exact forall_mem_append.mpr ⟨fun x hx => mem_append_right _ (hcalls x hx),
        fun x hx => mem_append_left _ (hcalls' x hx)⟩
    · intro e he
      rcases mem_append.mp he with he | he
      · refine (hnew' e he).imp_left ?_
        rintro ⟨x, hx, rfl⟩
        exact ⟨x, mem_append_right _ hx, rfl⟩
      · refine (hnew e he).imp_left ?_
        rintro ⟨x, hx, rfl⟩
        exact ⟨x, mem_append_left _ hx, rfl⟩

omit h in
/-- The trace gets the event of an operation that is not refused. -/
theorem note {via : Via} {op : Operation K H P} (h : op.refused via s.headBlockNum = false) :
    Ran S I [(via, op)] s (s.note (op.event via)) where
  stored hs := ⟨hs.proposals, hs.referendums⟩
  nextProposal := Nat.le_refl _
  nextReferendum := Nat.le_refl _
  headBlockNum := rfl
  passed := by simpa using h
  events := by
    refine ⟨[op.event via], rfl, by simp [eventOf], ?_⟩
    intro e he
    exact .inl ⟨(via, op), by simp, by simpa [eventOf] using he⟩

theorem withDb (d : D) : Ran S I calls s { t with db := d } where
  stored hs := ⟨(h.stored hs).proposals, (h.stored hs).referendums⟩
  nextProposal := h.nextProposal
  nextReferendum := h.nextReferendum
  headBlockNum := h.headBlockNum
  passed := h.passed
  events := h.events

theorem withExecDb (x : Exec D) : Ran S I calls s (x.map fun d => { t with db := d }).state := by
  cases x with
  | ok d => exact h.withDb d
  | thrown d => exact h.withDb d

end

theorem setProposal (id : Nat) {p : Option (Proposal K H P)}
    (hp : S (.proposal id) → ∀ q ∈ p, ∀ l ∈ q.proposedOps, I l) :
    Ran S I [] s (s.setProposal id p) :=
  quiet (fun hs => hs.setProposal id hp) (Nat.le_refl _) (Nat.le_refl _) rfl rfl

theorem setReferendum (id : Nat) {b : Option (Ballot K H P)}
    (hb : S (.referendum id) → ∀ q ∈ b, ∀ l ∈ q.proposedOps, I l) :
    Ran S I [] s (s.setReferendum id b) :=
  quiet (fun hs => hs.setReferendum id hb) (Nat.le_refl _) (Nat.le_refl _) rfl rfl

/-- A stored operation has to satisfy `I` only while ballots of `S` may still be created. -/
theorem createProposal {p : Proposal K H P} (hp : s.Upcoming S → ∀ l ∈ p.proposedOps, I l) :
    Ran S I [] s (s.createProposal p) := by
  refine quiet ?_ (Nat.le_succ _) (Nat.le_refl _) rfl rfl
  intro hs
  have hset : (s.setProposal s.nextProposal (some p)).AllStored S I := by
    refine hs.setProposal s.nextProposal ?_
    intro hS q hq
    cases hq
    exact hp (.inl ⟨_, Nat.le_refl _, hS⟩)
  exact ⟨hset.proposals, hset.referendums⟩

theorem createReferendum {b : Ballot K H P} (hb : s.Upcoming S → ∀ l ∈ b.proposedOps, I l) :
    Ran S I [] s (s.createReferendum b) := by
  refine quiet ?_ (Nat.le_refl _) (Nat.le_succ _) rfl rfl
  intro hs
  have hset : (s.setReferendum s.nextReferendum (some b)).AllStored S I := by
    refine hs.setReferendum s.nextReferendum ?_
    intro hS q hq
    cases hq
    exact hb (.inr ⟨_, Nat.le_refl _, hS⟩)
  exact ⟨hset.proposals, hset.referendums⟩

/-- Calls that a ballot made need not be listed. -/
theorem voted (h : Ran S I calls s t)
    (hcalls : ∀ x ∈ calls, VotedEvent I (eventOf x)) : Ran S I [] s t where
  stored := h.stored
  nextProposal := h.nextProposal
  nextReferendum := h.nextReferendum
  headBlockNum := h.headBlockNum
  passed := by simp
  events := by
    obtain ⟨new, htrace, -, hnew⟩ := h.events
    refine ⟨new, htrace, by simp, ?_⟩
    intro e he
    rcases hnew e he with ⟨x, hx, rfl⟩ | hvoted
    · exact .inr (hcalls x hx)
    · exact .inr hvoted

end Ran

/-! ### Leaves, and what votes execute -/

variable {r : Rules K H P D} {S : BallotId → Prop} {I : Leaf K H P → Prop} {via : Via}
  {s t : State K H P D} {op : Operation K H P} {doApply : State K H P D → Exec (State K H P D)}

/-- What is noted and applied if the evaluator lets the operation through. -/
theorem startEvaluate_ran {evaluated : Bool}
    {calls : List (Via × Operation K H P)}
    (hop : evaluated = true → op.refused via s.headBlockNum = false)
    (hcalls : ∀ u, doApply (s.note (op.event via)) = .ok u →
      Ran S I calls (s.note (op.event via)) u)
    (h : startEvaluate r via op evaluated doApply s = .ok t) :
    Ran S I ((via, op) :: calls) s t := by
  unfold startEvaluate at h
  split at h
  · next hevaluated =>
    obtain ⟨u, hu, hfee⟩ := Exec.andThen_eq_ok.mp h
    cases hpaid : r.payFee op.header u.toStore with
    | thrown d =>
      rw [hpaid] at hfee
      cases hfee
    | ok d =>
      rw [hpaid] at hfee
      cases hfee
      exact ((Ran.note (hop hevaluated)).trans (hcalls u hu)).withDb d
  · cases h

/-- For a ballot, also what an operation leaves when it fails is looked at. -/
theorem startEvaluate_voted {evaluated : Bool}
    (h : Ran S I [] s (doApply (s.note (op.event via))).state) :
    Ran S I [] s (startEvaluate r via op evaluated doApply s).state := by
  unfold startEvaluate
  split
  · exact Exec.state_andThen (fun _ _ _ => Ran.trans) h fun u _ => Ran.refl.withExecDb _
  · exact .refl

variable {l : Leaf K H P}

omit [DecidableEq H] in
/-- An evaluation that is skipped or passed tells that the operation is not one of those
    that are sure to be refused. -/
theorem not_refused_of_evaluateLeaf {s : Store K H P D}
    (h : evaluateLeaf r via.proposed l s = true) :
    (Operation.leaf l).refused via s.headBlockNum = false := by
  cases hproposed : via.proposed with
  | true =>
    simp only [Operation.refused, hproposed]
    split <;> rfl
  | false =>
    simp only [evaluateLeaf, evaluates, hproposed, Bool.false_or, Bool.and_eq_true] at h
    cases hkind : l.kind with
    | other n => simp [Operation.refused, hkind]
    | proposable k =>
      simp only [hkind, LeafKind.ifEvaluate, LeafKind.proposedOnly, defaultIfEvaluate] at h
      simp only [Operation.refused, hkind, hproposed]
      cases hguarded : k.proposedOnly with
      | false => rfl
      | true =>
        -- what is left of the evaluation is that it was skipped
        simp only [hguarded, Bool.not_true, Bool.false_and, Bool.or_false] at h
        cases halways : k.alwaysEvaluated with
        | true => simp [halways] at h
        | false =>
          by_cases hblock : checkPointBlock < s.headBlockNum
          · have hne : s.headBlockNum ≠ checkPointBlock := Nat.ne_of_gt hblock
            simp [halways, hblock, hne] at h
          · simp [hblock]

theorem applyLeaf_ran (h : applyLeaf r via l s = .ok t) :
    Ran S I [(via, .leaf l)] s t := by
  refine startEvaluate_ran not_refused_of_evaluateLeaf ?_ h
  intro u hu
  cases happly : r.doApply l (s.note ((Operation.leaf l).event via)).toStore with
  | thrown d =>
    rw [happly] at hu
    cases hu
  | ok d =>
    rw [happly] at hu
    cases hu
    exact Ran.refl.withDb d

omit [DecidableEq H] in
theorem Via.proposed_of_voted (h : via.voted = true) : via.proposed = true := by
  cases via with
  | direct | wrapped => cases h
  | proposal | referendum => rfl

/-- Executed by a vote, an operation may also fail halfway: its application counts. -/
theorem applyLeaf_voted (hvia : via.voted = true) (hl : I l) :
    Ran S I [] s (applyLeaf r via l s).state := by
  have hstart : Ran S I [] s (s.note ((Operation.leaf l).event via)) := by
    refine (Ran.note ?_).voted ?_
    · simp only [Operation.refused, Via.proposed_of_voted hvia]
      split <;> rfl
    · exact forall_mem_singleton.mpr ⟨hvia, l, hl, rfl⟩
  exact startEvaluate_voted (hstart.withExecDb _)

/-- All that stored operations leave in the trace was voted on, also if one of them fails. -/
theorem pushOps_voted (via : Via) (hvia : via.voted = true) {l : List (Leaf K H P)}
    (hl : ∀ x ∈ l, I x) : Ran S I [] s (pushOps r via l s).state :=
  Exec.state_forEach (r := Ran S I []) (fun _ => .refl) (fun _ _ _ => Ran.trans)
    (fun x hx _ => applyLeaf_voted hvia (hl x hx)) s

section Votes

variable (r) in
/-- After its operations were applied, the ballot is finished or gone. -/
theorem tryProposal_eq (id : Nat) (p : Proposal K H P) (s : State K H P D) : ∃ q t,
    tryProposal r id p s = (pushOps r (.proposal (p.isAuthorizedToExecute r s.db))
      p.proposedOps s).state.setProposal id q ∧
    ∀ x, q = some x → x.toBallot = { p.toBallot with finished := true, expirationTime := t } := by
  unfold tryProposal pushProposal
  cases pushOps r (.proposal (p.isAuthorizedToExecute r s.db)) p.proposedOps s with
  | thrown u => exact ⟨none, 0, rfl, nofun⟩
  | ok u =>
    rw [Exec.ok_andThen]
    by_cases helecting : electing p.proposedOps = true
    · rw [if_pos helecting]
      exact ⟨_, _, rfl, fun x hx => congrArg Proposal.toBallot (Option.some.inj hx).symm⟩
    · rw [if_neg helecting]
      exact ⟨none, 0, rfl, nofun⟩

variable (r) in
theorem tryReferendum_eq (id : Nat) (b : Ballot K H P) (s : State K H P D) : ∃ q t,
    tryReferendum r id b s = (pushOps r (.referendum (b.isAuthorizedToExecute r s.db))
      b.proposedOps s).state.setReferendum id q ∧
    ∀ x, q = some x → x = { b with finished := true, expirationTime := t } := by
  unfold tryReferendum pushReferendum
  cases pushOps r (.referendum (b.isAuthorizedToExecute r s.db)) b.proposedOps s with
  | thrown u => exact ⟨none, 0, rfl, nofun⟩
  | ok u => exact ⟨_, _, rfl, fun x hx => (Option.some.inj hx).symm⟩

variable {id : Nat} {p : Proposal K H P} {b : Ballot K H P}

theorem tryProposal_ran (hp : ∀ l ∈ p.proposedOps, I l)
    (hauthorized : p.isAuthorizedToExecute r s.db = true) :
    Ran S I [] s (tryProposal r id p s) := by
  obtain ⟨q, t, heq, hq⟩ := tryProposal_eq r id p s
  rw [heq]
  refine (pushOps_voted (.proposal _) hauthorized hp).trans (.setProposal id ?_)
  intro _ x hx
  rw [hq x hx]
  exact hp

variable (hb : ∀ l ∈ b.proposedOps, I l)
include hb

theorem tryReferendum_ran (hauthorized : b.isAuthorizedToExecute r s.db = true) : Ran S I [] s
    (tryReferendum r id b s) := by
  obtain ⟨q, t, heq, hq⟩ := tryReferendum_eq r id b s
  rw [heq]
  refine (pushOps_voted (.referendum _) hauthorized hb).trans (.setReferendum id ?_)
  intro _ x hx
  rw [hq x hx]
  exact hb

omit hb in
/-- The vote that brings the majority applies what is stored. -/
theorem executeProposal_ran (hp : ∀ l ∈ p.proposedOps, I l) :
    Ran S I [] s (executeProposal r id p s) := by
  unfold executeProposal
  split
  · exact .refl
  split
  · next hauthorized =>
    split
    · exact .setProposal id (by simp)
    · exact tryProposal_ran hp hauthorized
  · exact .refl

theorem executeReferendum_ran : Ran S I [] s (executeReferendum r id b s) := by
  unfold executeReferendum
  split
  · exact .refl
  · split
    · next hauthorized => exact tryReferendum_ran hb hauthorized
    · exact .refl

omit hb in
/-- So does the sweep, for what got its majority before it expired. -/
theorem expireProposal_ran (hp : ∀ l ∈ p.proposedOps, I l) :
    Ran S I [] s (expireProposal r id p s).state := by
  unfold expireProposal
  split
  · next hauthorized => exact tryProposal_ran hp hauthorized
  · split
    · split
      · exact .refl
      · exact (Ran.setProposal id (by simp)).withDb _
    · exact .setProposal id (by simp)

theorem expireReferendum_ran : Ran S I [] s (expireReferendum r id b s) := by
  unfold expireReferendum
  split
  · next hauthorized => exact tryReferendum_ran hb hauthorized
  · split
    · exact (Ran.setReferendum id (by simp)).withDb _
    · exact .setReferendum id (by simp)

end Votes

/-! ### Operations -/

section Operations

variable {op : Operation K H P} {id : Nat} {add remove : List (Address H)}

/-- A list of votes is taken one by one: first those in favour, then those against. -/
theorem Ballot.vote_invariant {Q : Ballot K H P → Prop} (happrove : ∀ b a, Q b → Q (b.approve a))
    (hdisapprove : ∀ b a, Q b → Q (b.disapprove a)) {b : Ballot K H P} (hb : Q b) :
    Q (b.vote add remove) :=
  foldl_invariant (fun _ => Q) (foldl_invariant (fun _ => Q) hb fun _ => happrove _ _)
    fun _ => hdisapprove _ _

/-- Voting changes neither the operations nor whether the ballot is finished. -/
theorem Ballot.vote_keeps (b : Ballot K H P) : (b.vote add remove).proposedOps = b.proposedOps ∧
    (b.vote add remove).finished = b.finished := by
  refine vote_invariant (Q := fun c => c.proposedOps = b.proposedOps ∧ c.finished = b.finished)
    ?_ ?_ ⟨rfl, rfl⟩
  · intro c a hc
    unfold approve
    split <;> exact hc
  · intro c a hc
    unfold disapprove
    split <;> exact hc

theorem applyCreate_ran {ifEvaluate : Option Bool} {ops : Option (List (Leaf K H P))}
    {doEvaluate : List (Leaf K H P) → Store K H P D → Bool}
    {store : List (Leaf K H P) → State K H P D → State K H P D}
    (hop : op.refused via s.headBlockNum = false)
    (hops : s.Upcoming S → ∀ l ∈ ops, ∀ x ∈ l, I x)
    (hstore : ∀ l u, (u.Upcoming S → ∀ x ∈ l, I x) → Ran S I [] u (store l u))
    (h : applyCreate r via op ifEvaluate ops doEvaluate store s = .ok t) :
    Ran S I [(via, op)] s t := by
  cases ops with
  | none => cases h
  | some l =>
    unfold applyCreate at h
    refine startEvaluate_ran (fun _ => hop) ?_ h
    intro u hu
    cases hu
    exact hstore l _ fun hupcoming => hops hupcoming l rfl

/-- The update itself, and what it applies if it decides the vote. -/
theorem applyProposalUpdate_ran (hs : s.AllStored S I) (hid : S (.proposal id))
    (hop : op.refused via s.headBlockNum = false)
    (h : applyProposalUpdate r via op id add remove s = .ok t) : Ran S I [(via, op)] s t := by
  unfold applyProposalUpdate at h
  cases hp : s.proposals id with
  | none =>
    rw [hp] at h
    cases h
  | some p =>
    rw [hp] at h
    have hvoted : ∀ l ∈ (p.vote add remove).proposedOps, I l := by
      rw [(Ballot.vote_keeps _).1]
      exact hs.proposals id p hid hp
    refine startEvaluate_ran (fun _ => hop) ?_ h
    intro u hu
    cases hu
    exact (Ran.setProposal id fun _ => by simpa using hvoted).trans (executeProposal_ran hvoted)

theorem applyReferendumUpdate_ran (hs : s.AllStored S I) (hid : S (.referendum id))
    (hop : op.refused via s.headBlockNum = false)
    (h : applyReferendumUpdate r via op id add remove s = .ok t) : Ran S I [(via, op)] s t := by
  unfold applyReferendumUpdate at h
  cases hb : s.referendums id with
  | none =>
    rw [hb] at h
    cases h
  | some b =>
    rw [hb] at h
    have hvoted : ∀ l ∈ (b.vote add remove).proposedOps, I l := by
      rw [(Ballot.vote_keeps _).1]
      exact hs.referendums id b hid hb
    refine startEvaluate_ran (fun _ => hop) ?_ h
    intro u hu
    cases hu
    exact (Ran.setReferendum id fun _ => by simpa using hvoted).trans (executeReferendum_ran hvoted)

theorem applyProposalDelete_ran (hop : op.refused via s.headBlockNum = false)
    (h : applyProposalDelete r via op id s = .ok t) : Ran S I [(via, op)] s t := by
  unfold applyProposalDelete at h
  split at h
  · cases h
  · refine startEvaluate_ran (fun _ => hop) ?_ h
    intro u hu
    cases hu
    exact .setProposal id (by simp)

end Operations

/-- The ballots are as the calls need them: the calls vote on `S` only, and what is stored
    there, or may get there, satisfies `I`. -/
structure Ready (S : BallotId → Prop) (I : Leaf K H P → Prop)
    (calls : List (Via × Operation K H P)) (s : Store K H P D) : Prop where
  stored : s.AllStored S I
  voted : ∀ x ∈ calls, ∀ b ∈ x.2.votesOn, S b
  proposed : s.Upcoming S → ∀ x ∈ calls, ∀ l ∈ x.2.proposedLeaves, I l

namespace Ready

variable {calls calls' : List (Via × Operation K H P)}

omit [DecidableEq H] in
theorem left {s : Store K H P D} (h : Ready S I (calls ++ calls') s) : Ready S I calls s where
  stored := h.stored
  voted x hx := h.voted x (mem_append_left _ hx)
  proposed hs x hx := h.proposed hs x (mem_append_left _ hx)

/-- The calls that were made leave the ballots as the later ones need them. -/
theorem right (h : Ready S I (calls ++ calls') s.toStore) (hran : Ran S I calls s t) :
    Ready S I calls' t.toStore where
  stored := hran.stored h.stored
  voted x hx := h.voted x (mem_append_right _ hx)
  proposed ht x hx := h.proposed (hran.upcoming ht) x (mem_append_right _ hx)

omit [DecidableEq H] in
theorem trivial (s : Store K H P D) : Ready (fun _ => True) (fun _ => True) calls s where
  stored := ⟨fun _ _ _ _ _ _ => True.intro, fun _ _ _ _ _ _ => True.intro⟩
  voted _ _ _ _ := True.intro
  proposed _ _ _ _ _ := True.intro

end Ready

mutual

/-- **What an accepted operation applies**: itself, and everything wrapped inside of it. -/
theorem applyOperation_ran (op : Operation K H P) (via : Via) (s t : State K H P D)
    (hs : Ready S I (op.calls via) s.toStore) (h : applyOperation r via op s = .ok t) :
    Ran S I (op.calls via) s t := by
  match op with
  | .leaf l => exact applyLeaf_ran h
  | .proposalCreate a x type proposer expirationTime reviewPeriod ops =>
    refine applyCreate_ran rfl ?_ (fun l u hl => .createProposal hl) h
    intro hupcoming l hl
    have hleaves := hs.proposed hupcoming _ (mem_cons_self ..)
    simpa [Operation.proposedLeaves, Option.mem_def.mp hl] using hleaves
  | .proposalUpdate a x id add remove =>
    exact applyProposalUpdate_ran hs.stored (hs.voted _ (mem_cons_self ..) _ rfl) rfl h
  | .proposalDelete a x id => exact applyProposalDelete_ran rfl h
  | .referendumCreate a x proposer ops =>
    refine applyCreate_ran rfl ?_ (fun l u hl => .createReferendum hl) h
    intro hupcoming l hl
    have hleaves := hs.proposed hupcoming _ (mem_cons_self ..)
    simpa [Operation.proposedLeaves, Option.mem_def.mp hl] using hleaves
  | .referendumUpdate a x id add remove =>
    exact applyReferendumUpdate_ran hs.stored (hs.voted _ (mem_cons_self ..) _ rfl) rfl h
  | .undertaker maker taker x makerOp takerOp =>
    rw [calls_undertaker] at hs ⊢
    unfold applyOperation at h
    refine startEvaluate_ran (fun _ => rfl) ?_ h
    intro u hu
    obtain ⟨v, htaker, hmaker⟩ := Exec.andThen_eq_ok.mp hu
    have hnote : Ran S I [(via, .undertaker maker taker x makerOp takerOp)] s (s.note _) :=
      .note rfl
    have hwrapped : Ready S I (callsOf .wrapped takerOp ++ callsOf .wrapped makerOp)
        (s.note _).toStore := Ready.right hs hnote
    have hfirst := applyOperations_ran takerOp .wrapped _ v hwrapped.left htaker
    exact hfirst.trans
      (applyOperations_ran makerOp .wrapped v u (hwrapped.right hfirst) hmaker)

/-- The calls of a list are those of its operations in order. -/
theorem applyOperations_ran (ops : List (Operation K H P)) (via : Via) (s t : State K H P D)
    (hs : Ready S I (callsOf via ops) s.toStore) (h : applyOperations r via ops s = .ok t) :
    Ran S I (callsOf via ops) s t := by
  match ops with
  | [] =>
    cases h
    exact .refl
  | op :: ops =>
    obtain ⟨u, hop, hops⟩ := Exec.andThen_eq_ok.mp h
    have hfirst := applyOperation_ran op via s u (Ready.left hs) hop
    exact hfirst.trans (applyOperations_ran ops via u t (Ready.right hs hfirst) hops)

end

end Ran

end HyperExchange.Ops
