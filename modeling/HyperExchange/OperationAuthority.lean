/-
  **Operations and the authorities they run under.**

  `verify_authority` reads the operations that a transaction lists.  Nothing asks for the
  authorities of wrapped operations: they coincide with those of maker and taker as long as
  a wrapped operation is only signed by who pays for it.  So an accepted transaction runs
  every operation with its authority exactly if the operations it wraps have theirs
  (`authorities_hold_iff_wrapped`), as far as no vote runs an operation with a signer of its
  own.

  The kinds a ballot may contain, except for one, name no signer, and only two evaluators
  insist on `_is_proposed_trx`.  In a run without such operations in transactions each of
  them is executed by a ballot that was authorized to (`governance_by_vote`).
-/
import HyperExchange.OperationTrace

namespace HyperExchange.Ops

open Auth Execution List

section

variable {K H P D : Type} [DecidableEq K] [DecidableEq H]

/-- The signing keys satisfy every authority, and no address in them is blocked, unless it
    is white listed for the operation. -/
def Authorized (c : Context K H) (keys : List K) (which : Nat)
    (required : List (Authority K H)) : Prop :=
  ∀ auth ∈ required, satisfied c keys auth = true ∧ notBlocked c which auth = true

instance (c : Context K H) (keys : List K) (which : Nat) (required : List (Authority K H)) :
    Decidable (Authorized c keys which required) := List.decidableBAll ..

def Operation.Authorized (c : Context K H) (keys : List K) (op : Operation K H P) : Prop :=
  Ops.Authorized c keys op.header.which op.required

instance (c : Context K H) (keys : List K) (op : Operation K H P) :
    Decidable (op.Authorized c keys) := List.decidableBAll ..

section Accepted

variable {r : Rules K H P D} {tx : Transaction K H P} {s : Store K H P D} {t : State K H P D}

theorem applyTransaction_ran {S : BallotId → Prop} {I : Leaf K H P → Prop}
    {s t : State K H P D} (h : applyTransaction r tx s = .ok t)
    (hs : Ready S I (callsOf .direct tx.operations) s.toStore) :
    verifyAuthority (r.context s.db) (tx.operations.map Operation.authorities)
      tx.signatureKeys = true ∧ Ran S I (callsOf .direct tx.operations) s t := by
  unfold applyTransaction at h
  split at h
  · next hadmitted =>
    rw [Bool.and_eq_true] at hadmitted
    have hrecord : Ran S I [] s { s with db := r.recordTransaction tx s.db } :=
      Ran.refl.withDb _
    exact ⟨hadmitted.2, hrecord.trans (applyOperations_ran _ _ _ _ (hs.right hrecord) h)⟩
  · cases h

/-- The calls of an accepted transaction have their authorities if those wrapped do. -/
theorem calls_authorized
    (h : verifyAuthority (r.context s.db) (tx.operations.map Operation.authorities)
      tx.signatureKeys = true)
    (hwrapped : ∀ op ∈ tx.operations, ∀ o ∈ op.wrappedOps,
      o.Authorized (r.context s.db) tx.signatureKeys)
    {x : Via × Operation K H P} (hx : x ∈ callsOf .direct tx.operations) :
    Authorized (r.context s.db) tx.signatureKeys (eventOf x).which (eventOf x).required := by
  rcases mem_callsOf_direct.mp hx with ⟨_, hlisted⟩ | ⟨_, op, hop, hinside⟩
  · intro auth hauth
    exact verifyAuthority_sound h (mem_map_of_mem hlisted) hauth
      (x.2.keyAuths_of_mem_required hauth)
  · exact hwrapped op hop x.2 hinside

theorem wrapped_authorized (h : applyTransaction r tx ⟨s, []⟩ = .ok t)
    (hexecuted : ∀ e ∈ t.trace, e.via.voted = false →
      Authorized (r.context s.db) tx.signatureKeys e.which e.required) :
    ∀ op ∈ tx.operations, ∀ o ∈ op.wrappedOps,
      o.Authorized (r.context s.db) tx.signatureKeys := by
  intro op hop o ho
  obtain ⟨new, htrace, hcalls, -⟩ := (applyTransaction_ran h (Ready.trivial s)).2.events
  have hevent : eventOf (.wrapped, o) ∈ t.trace := by
    rw [htrace]
    refine mem_append_left _ (hcalls _ ?_)
    exact mem_callsOf_direct.mpr (.inr ⟨rfl, op, hop, ho⟩)
  exact hexecuted _ hevent rfl

def Transaction.VotesOn (tx : Transaction K H P) (b : BallotId) : Prop :=
  ∃ op ∈ withWrapped tx.operations, b ∈ op.votesOn

/-- **When every operation runs with its own authority.**  For a transaction that is
    accepted: the operations it lists or wraps are all executed with their authorities if
    and only if those it wraps have theirs.  This takes in what its votes execute, as long
    as what is stored in the ballots it votes on has its authorities, too (and what it
    proposes itself, if it votes on a ballot that is yet to be created). -/
theorem authorities_hold_iff_wrapped (r : Rules K H P D) (tx : Transaction K H P)
    (s : Store K H P D) (t : State K H P D) (h : applyTransaction r tx ⟨s, []⟩ = .ok t) :
    ((∀ e ∈ t.trace, e.via.voted = false →
        Authorized (r.context s.db) tx.signatureKeys e.which e.required) ↔
      ∀ op ∈ tx.operations, ∀ o ∈ op.wrappedOps,
        o.Authorized (r.context s.db) tx.signatureKeys) ∧
    (s.AllStored tx.VotesOn
        (fun l => (Operation.leaf l).Authorized (r.context s.db) tx.signatureKeys) →
      (s.Upcoming tx.VotesOn → ∀ op ∈ withWrapped tx.operations, ∀ l ∈ op.proposedLeaves,
        (Operation.leaf l).Authorized (r.context s.db) tx.signatureKeys) →
      ((∀ e ∈ t.trace, Authorized (r.context s.db) tx.signatureKeys e.which e.required) ↔
        ∀ op ∈ tx.operations, ∀ o ∈ op.wrappedOps,
          o.Authorized (r.context s.db) tx.signatureKeys)) := by
  constructor
  · refine ⟨wrapped_authorized h, ?_⟩
    intro hwrapped e he hvia
    obtain ⟨hverified, hran⟩ := applyTransaction_ran h (Ready.trivial s)
    obtain ⟨new, htrace, -, hnew⟩ := hran.events
    rw [htrace, append_nil] at he
    rcases hnew e he with ⟨x, hx, rfl⟩ | ⟨hvoted, -⟩
    · exact calls_authorized hverified hwrapped hx
    · exact absurd (hvoted.symm.trans hvia) (by decide)
  · intro hstored hproposed
    have hready : Ready tx.VotesOn
        (fun l => (Operation.leaf l).Authorized (r.context s.db) tx.signatureKeys)
        (callsOf .direct tx.operations) s :=
      { stored := hstored
        voted := fun x hx b hb => ⟨x.2, mem_withWrapped_of_call hx, hb⟩
        proposed := fun hu x hx => hproposed hu x.2 (mem_withWrapped_of_call hx) }
    refine ⟨fun hexecuted => wrapped_authorized h fun e he _ => hexecuted e he, ?_⟩
    intro hwrapped e he
    obtain ⟨hverified, hran⟩ := applyTransaction_ran h hready
    obtain ⟨new, htrace, -, hnew⟩ := hran.events
    rw [htrace, append_nil] at he
    rcases hnew e he with ⟨x, hx, rfl⟩ | ⟨-, l, hl, heq⟩
    · exact calls_authorized hverified hwrapped hx
    · rw [heq]
      exact hl

end Accepted

/-! ### Two transactions

Keys and accounts are numbers; evaluators and fees let everything pass.  The head block is
above the checkpoint, so that evaluations take place. -/

def openRulesOn (P D : Type) : Rules Nat (AddressForm × Nat) P D where
  context _ := ⟨fun f k => (f, k), fun _ => none, fun _ => false, fun _ _ => false⟩
  headBlockTime _ := 1000
  accountAddress _ n := some ⟨Address.normal, (.plain, n)⟩
  guards _ := []
  citizens _ := []
  maximumProposalLifetime _ := 2419200
  referendumFlag _ := false
  nextVoteTime _ := 0
  admissible _ _ := true
  recordTransaction _ d := d
  validProposed _ := true
  accountApprovals _ _ _ := true
  prepareFee _ _ := true
  payFee _ s := .ok s.db
  ifEvaluate _ _ := some true
  onCheckPoint _ := true
  doEvaluate _ _ := true
  doApply _ s := .ok s.db
  multisig _ := ⟨[], [], fun _ => []⟩
  restoreSenators _ d := d

def openRules : Rules Nat (AddressForm × Nat) Unit Unit := openRulesOn Unit Unit

def emptyStore : Store Nat (AddressForm × Nat) Unit Unit :=
  ⟨(), 2000000, fun _ => none, 0, fun _ => none, 0⟩

def account (n : Nat) : Address (AddressForm × Nat) := ⟨Address.normal, (.plain, n)⟩

theorem no_authorities :
    ∀ auth ∈ ([] : List (Authority Nat (AddressForm × Nat))), auth.keyAuths = [] := by simp

/-- `transfer_operation` -/
def transferFrom (n : Nat) : Operation Nat (AddressForm × Nat) Unit :=
  .leaf ⟨.other 0, account n, [.single (account n)], (), by simp [Authority.single],
    by simp [LeafKind.governance]⟩

def exchange : Operation Nat (AddressForm × Nat) Unit :=
  .undertaker (account 1) (account 2) () [transferFrom 1] [transferFrom 2]

theorem signed_exchange_authorized :
    ∃ t, applyTransaction openRules ⟨[exchange], [1, 2], ()⟩ ⟨emptyStore, []⟩ = .ok t ∧
      t.trace.length = 3 ∧
      ∀ e ∈ t.trace, Authorized (openRules.context ()) [1, 2] e.which e.required := by
  refine ⟨_, rfl, rfl, ?_⟩
  refine ((authorities_hold_iff_wrapped openRules ⟨[exchange], [1, 2], ()⟩ emptyStore _
    rfl).2 ⟨?_, ?_⟩ ?_).mpr ?_
  · intro id p _ hp
    cases hp
  · intro id b _ hb
    cases hb
  · intro _
    decide
  · decide

/-- The exchange, wrapped once more by key 1 for itself, and signed by key 1 alone: the
    transfer from account 2 is applied. -/
theorem wrapped_exchange_unsigned :
    ∃ t, applyTransaction openRules
        ⟨[.undertaker (account 1) (account 1) () [exchange] [transferFrom 1]], [1], ()⟩
        ⟨emptyStore, []⟩ = .ok t ∧
      (transferFrom 2).event .wrapped ∈ t.trace ∧
      ¬ (transferFrom 2).Authorized (openRules.context ()) [1] := by
  refine ⟨_, rfl, ?_, ?_⟩
  · exact .tail _ (.head _)
  · decide

end

variable {K H P D : Type}

/-! ### Runs -/

/-- What happens to a node: a transaction arrives in a block; `clear_expired_proposals` comes
    to a proposal or a referendum; a proposal that elected senators is done with;
    `determine_referendum_detailes` drops a referendum; other code changes the rest of the
    state or adds a block. -/
inductive Input (K H P D : Type) where
  | transaction (tx : Transaction K H P)
  | clearProposal (id : Nat)
  | clearReferendum (id : Nat)
  | removeFinished (id : Nat)
  | dropReferendum (id : Nat)
  | maintain (db : D) (headBlockNum : Nat)

variable (r : Rules K H P D)

theorem refused_of_not_proposed {via : Via} (hvia : via.proposed = false) (n : Nat)
    (op : Operation K H P) : op.refused via n = op.refused .direct n := by
  cases op with
  | leaf l =>
    have hdirect : Via.direct.proposed = false := rfl
    simp only [Operation.refused, hvia, hdirect]
  | _ => rfl

variable [DecidableEq K] [DecidableEq H]

def step (s : State K H P D) : Input K H P D → State K H P D
  | .transaction tx =>
    match applyTransaction r tx s with
    | .ok t => t
    | .thrown _ => s
  | .clearProposal id =>
    match s.proposals id with
    | none => s
    | some p =>
      if p.expirationTime ≤ r.headBlockTime s.db then (expireProposal r id p s).state else s
  | .clearReferendum id =>
    match s.referendums id with
    | none => s
    | some b =>
      if b.expirationTime ≤ r.headBlockTime s.db then expireReferendum r id b s else s
  | .removeFinished id =>
    match s.proposals id with
    | none => s
    | some p =>
      if p.finished && electing p.proposedOps && needRollback r s.db = some false then
        s.setProposal id none
      else s
  | .dropReferendum id => s.setReferendum id none
  | .maintain db headBlockNum => { s with db := db, headBlockNum := headBlockNum }

/-- The transaction contains no operation that is voted on, except where it will be
    refused. -/
def leavesToVote (s : State K H P D) : Input K H P D → Bool
  | .transaction tx => (withWrapped tx.operations).all fun op =>
      !op.governance || op.refused .direct s.headBlockNum
  | _ => true

/-! ### Only votes apply what is voted on -/

/-- Each application of an operation that is voted on is that of an authorized ballot. -/
def Governed (s : State K H P D) : Prop :=
  ∀ e ∈ s.trace, e.governance = true → e.via.voted = true

variable {r} {s t : State K H P D}

omit [DecidableEq K] in
/-- What ran keeps this up, as long as the calls are not operations that are voted on. -/
theorem Governed.ran {S : BallotId → Prop} {I : Leaf K H P → Prop}
    {calls : List (Via × Operation K H P)} (hs : Governed s) (h : Ran S I calls s t)
    (hcalls : ∀ x ∈ calls, x.2.governance = false) :
    Governed t := by
  obtain ⟨new, htrace, -, hnew⟩ := h.events
  intro e he hgovernance
  rw [htrace] at he
  rcases mem_append.mp he with he | he
  · rcases hnew e he with ⟨x, hx, rfl⟩ | ⟨hvoted, -⟩
    · have hfalse : x.2.governance = false := hcalls x hx
      exact absurd (hgovernance.symm.trans hfalse) (by decide)
    · exact hvoted
  · exact hs e he hgovernance

theorem Governed.transaction {tx : Transaction K H P} (hs : Governed s)
    (htx : leavesToVote s (.transaction tx) = true) (h : applyTransaction r tx s = .ok t) :
    Governed t := by
  have hran := (applyTransaction_ran h (Ready.trivial s.toStore)).2
  refine hs.ran hran ?_
  intro x hx
  have hpassed : x.2.refused .direct s.headBlockNum = false := by
    rw [← refused_of_not_proposed (not_proposed_of_call hx)]
    exact hran.passed x hx
  have hleft := all_eq_true.mp htx x.2 (mem_withWrapped_of_call hx)
  simpa [hpassed] using hleft

theorem Governed.step {i : Input K H P D} (hs : Governed s) (hi : leavesToVote s i = true) :
    Governed (step r s i) := by
  -- apart from transactions, only ballots apply operations
  have hballot : ∀ {t}, Ran (fun _ => True) (fun _ => True) [] s t → Governed t :=
    fun h => hs.ran h (by simp)
  cases i with
  | transaction tx =>
    simp only [Ops.step]
    split
    · next hok => exact hs.transaction hi hok
    · exact hs
  | clearProposal id =>
    simp only [Ops.step]
    split
    · exact hs
    · split
      · exact hballot (expireProposal_ran fun _ _ => trivial)
      · exact hs
  | clearReferendum id =>
    simp only [Ops.step]
    split
    · exact hs
    · split
      · exact hballot (expireReferendum_ran fun _ _ => trivial)
      · exact hs
  | removeFinished id =>
    simp only [Ops.step]
    split
    · exact hs
    · split
      · exact hs
      · exact hs
  | dropReferendum | maintain => exact hs

/-- **Governance by vote.**  In every run whose transactions leave to the vote what is voted
    on, operations that can be proposed and name no signer are applied only by proposals and
    referendums that were authorized to execute. -/
theorem governance_by_vote (r : Rules K H P D) (s : State K H P D)
    (h : ReachableUnder (fun s : State K H P D => s.trace = []) (fun s i => leavesToVote s i = true)
      (step r) s) :
    ∀ e ∈ s.trace, e.governance = true → e.via.voted = true := by
  refine ReachableUnder.invariant Governed ?_ ?_ h
  · intro s hs e he
    rw [hs] at he
    cases he
  · intro s i hs hi
    exact hs.step hi

/-! ### An address is blocked

Account 7 is the only senator. -/

def senatorRules : Rules Nat (AddressForm × Nat) Unit Unit :=
  { openRules with guards := fun _ => [⟨7, account 7, true, true⟩] }

/-- `block_address_operation` -/
def blockAddress : Operation Nat (AddressForm × Nat) Unit :=
  .leaf ⟨.proposable .blockAddress, account 0, [], (), no_authorities, fun _ => rfl⟩

def blockedByVote : State Nat (AddressForm × Nat) Unit Unit :=
  [.transaction ⟨[.proposalCreate (account 7) () .senator 7 2000 none [blockAddress]], [7], ()⟩,
    .transaction ⟨[.proposalUpdate (account 7) () 0 [account 7] []], [7], ()⟩].foldl
      (step senatorRules) ⟨emptyStore, []⟩

theorem blocked_by_vote_governed :
    blockAddress.event (.proposal true) ∈ blockedByVote.trace ∧
      ∀ e ∈ blockedByVote.trace, e.governance = true → e.via.voted = true := by
  refine ⟨.head _, governance_by_vote senatorRules blockedByVote ?_⟩
  exact ReachableUnder.of_checkRun (.start rfl) (by decide)

/-- Without any proposal, next to a transfer of one's own. -/
theorem address_blocked_by_anyone :
    let s := step senatorRules ⟨emptyStore, []⟩
      (.transaction ⟨[transferFrom 1, blockAddress], [1], ()⟩)
    blockAddress.event .direct ∈ s.trace ∧ blockAddress.governance = true ∧
      Via.direct.voted = false := by
  exact ⟨.head _, rfl, rfl⟩

end HyperExchange.Ops
