/-
  **Operations, the authorities they ask for, and running them** (`libraries/chain/protocol/`,
  `generic_evaluator::start_evaluate`, `_apply_transaction`, `push_proposal`,
  `push_referendum`, `clear_expired_proposals` and the evaluators of votes and undertakers).

  Most operations are leaves, with a fee payer and the authorities they list.  Those of the
  voting system store other operations or run stored ones, and `undertaker_operation` runs
  what its maker and its taker put into it, so an operation is a tree.

  The authorities of a transaction are checked once, and only those of the operations it
  lists.  Then each operation is evaluated (below the checkpoint block most evaluators skip
  that), applied and charged.  An exception undoes the transaction, but one inside an
  executed proposal is caught, and what its operations had done stays.  `trace` has the
  operations that were applied, newest first, and how each came to be.
-/
import HyperExchange.Authority
import HyperExchange.Execution

namespace HyperExchange.Ops

open Auth Execution

section

variable {K H P : Type}

/-! ### Kinds of operations -/

/-- `vote_id_type::vote_type`; the `type` of a proposal is any number. -/
inductive VoteType where
  | committee | witness | worker | cancelCommit | senator
  | other (n : Nat)
deriving DecidableEq, Repr

/-- The kinds that `proposal_create_evaluator` or `referendum_create_evaluator` accepts. -/
inductive ProposableKind where
  | guardRefundCrosschainTrx | ethCancelColdhotFailTrx | guardCancelCombineTrx
  | coldhotCancelCombinedTrx | ethCancelFailCrosschainTrx | ethsGuardChangeSigner
  | senatorPassSuccessTrx | coldhotPassCombineTrx | ethsGuardColdhotChangeSigner
  | guardMemberResign | transferContract | guardMemberUpdate | publisherAppointed
  | publisherCanceled | assetFeeModification | setGuardLockbalance
  | coldhotCancelTransaferTransaction | coldhotCancelUncombinedTrx | coldhotTransfer
  | guardUpdateMultiAccount | committeeMemberUpdateGlobalParameters
  | contractTransferFeeProposal | senatorDetermineWithdrawDeposit
  | senatorDetermineBlockPayment | senatorChangeEthGasPrice | ethsCancelUnsignedTransaction
  | blockAddress | cancelAddressBlock | senatorChangeAcquireTrx | addWhiteOperationList
  | cancelWhiteOperationList | citizenReferendumSenator
deriving DecidableEq, Repr

namespace ProposableKind

/-- The vote type a proposal with the operation must have; `none` for the one kind that
    is only accepted in a referendum. -/
def voteType : ProposableKind → Option VoteType
  | guardRefundCrosschainTrx | ethCancelColdhotFailTrx | guardCancelCombineTrx
  | coldhotCancelCombinedTrx | ethCancelFailCrosschainTrx | ethsGuardChangeSigner
  | senatorPassSuccessTrx | coldhotPassCombineTrx | ethsGuardColdhotChangeSigner
  | ethsCancelUnsignedTransaction | senatorChangeAcquireTrx => some .cancelCommit
  | blockAddress | cancelAddressBlock | addWhiteOperationList | cancelWhiteOperationList =>
    some .senator
  | citizenReferendumSenator => none
  | _ => some .committee

/-- The position in the `operation` variant. -/
def which : ProposableKind → Nat
  | guardMemberUpdate => 36
  | committeeMemberUpdateGlobalParameters => 37
  | guardMemberResign => 38
  | coldhotTransfer => 66
  | coldhotCancelTransaferTransaction => 71
  | coldhotCancelUncombinedTrx => 72
  | guardUpdateMultiAccount => 74
  | transferContract => 81
  | contractTransferFeeProposal => 82
  | guardRefundCrosschainTrx => 85
  | publisherAppointed => 86
  | assetFeeModification => 87
  | setGuardLockbalance => 89
  | publisherCanceled => 90
  | senatorDetermineWithdrawDeposit => 91
  | senatorDetermineBlockPayment => 93
  | citizenReferendumSenator => 102
  | blockAddress => 105
  | cancelAddressBlock => 106
  | ethCancelFailCrosschainTrx => 107
  | ethCancelColdhotFailTrx => 108
  | ethsGuardChangeSigner => 109
  | ethsGuardColdhotChangeSigner => 110
  | coldhotCancelCombinedTrx => 111
  | guardCancelCombineTrx => 112
  | senatorPassSuccessTrx => 113
  | coldhotPassCombineTrx => 114
  | senatorChangeEthGasPrice => 115
  | ethsCancelUnsignedTransaction => 116
  | senatorChangeAcquireTrx => 117
  | addWhiteOperationList => 118
  | cancelWhiteOperationList => 119

/-- The one kind whose `get_required_authorities` is not empty. -/
def signed (k : ProposableKind) : Bool := k = transferContract

/-- `FC_ASSERT(trx_state->_is_proposed_trx)` in `do_evaluate`. -/
def proposedOnly (k : ProposableKind) : Bool :=
  k = contractTransferFeeProposal || k = committeeMemberUpdateGlobalParameters

/-- `if_evluate` is overridden and returns true. -/
def alwaysEvaluated (k : ProposableKind) : Bool :=
  k = transferContract || k = contractTransferFeeProposal || k = citizenReferendumSenator

end ProposableKind

/-- A leaf is of a kind that can be proposed, or of any other one, by its position. -/
inductive LeafKind where
  | proposable (k : ProposableKind)
  | other (which : Nat)
deriving DecidableEq, Repr

namespace LeafKind

def which : LeafKind → Nat
  | proposable k => k.which
  | other n => n

def governance : LeafKind → Bool
  | proposable k => !k.signed
  | other _ => false

def proposedOnly : LeafKind → Bool
  | proposable k => k.proposedOnly
  | other _ => false

end LeafKind

/-! ### Operations -/

/-- What the generic evaluator reads of every operation.  `P` is the data of an operation
    that is not looked into here. -/
structure Header (H P : Type) where
  which : Nat
  feePayer : Address H
  payload : P

/-- An operation that neither contains nor runs others.  The authorities of the kinds with
    an evaluator consist of addresses. -/
structure Leaf (K H P : Type) where
  kind : LeafKind
  feePayer : Address H
  required : List (Authority K H)
  payload : P
  addressOnly : ∀ auth ∈ required, auth.keyAuths = []
  unsigned : kind.governance = true → required = []

def Leaf.header (l : Leaf K H P) : Header H P := ⟨l.kind.which, l.feePayer, l.payload⟩

inductive Operation (K H P : Type) where
  | leaf (l : Leaf K H P)
  | proposalCreate (feePayer : Address H) (payload : P) (type : VoteType) (proposer : Nat)
      (expirationTime : Nat) (reviewPeriod : Option Nat) (proposedOps : List (Operation K H P))
  | proposalUpdate (feePayer : Address H) (payload : P) (proposal : Nat)
      (approvalsToAdd approvalsToRemove : List (Address H))
  | proposalDelete (feePayer : Address H) (payload : P) (proposal : Nat)
  | referendumCreate (feePayer : Address H) (payload : P) (proposer : Nat)
      (proposedOps : List (Operation K H P))
  | referendumUpdate (feePayer : Address H) (payload : P) (referendum : Nat)
      (approvalsToAdd approvalsToRemove : List (Address H))
  | undertaker (maker taker : Address H) (payload : P) (makerOp takerOp : List (Operation K H P))

/-- `address_auths[k] = 1`: an address with the hash of an earlier one is the same key. -/
def insertAddress [DecidableEq H] (l : List (Address H)) (a : Address H) : List (Address H) :=
  if l.any fun b => b.addr = a.addr then l else l ++ [a]

def approvalAuthority [DecidableEq H] (add remove : List (Address H)) : Authority K H :=
  let addresses := (add ++ remove).foldl insertAddress []
  ⟨addresses.length, [], [], addresses.map fun a => (a, 1)⟩

namespace Operation

def header : Operation K H P → Header H P
  | leaf l => l.header
  | proposalCreate a x _ _ _ _ _ => ⟨28, a, x⟩
  | proposalUpdate a x _ _ _ => ⟨29, a, x⟩
  | proposalDelete a x _ => ⟨30, a, x⟩
  | referendumCreate a x _ _ => ⟨101, a, x⟩
  | referendumUpdate a x _ _ _ => ⟨103, a, x⟩
  | undertaker maker _ x _ _ => ⟨124, maker, x⟩

/-- `get_required_authorities` -/
def required [DecidableEq H] : Operation K H P → List (Authority K H)
  | leaf l => l.required
  | proposalCreate a _ _ _ _ _ _ => [.single a]
  | proposalUpdate _ _ _ add remove => [approvalAuthority add remove]
  | proposalDelete a _ _ => [.single a]
  | referendumCreate a _ _ _ => [.single a]
  | referendumUpdate _ _ _ add remove => [approvalAuthority add remove]
  | undertaker maker taker _ _ _ => [.single taker, .single maker]

def governance : Operation K H P → Bool
  | leaf l => l.kind.governance
  | _ => false

/-- What `verify_authority` reads. -/
def authorities [DecidableEq H] (op : Operation K H P) : OpAuthorities K H :=
  ⟨op.header.which, op.required⟩

theorem keyAuths_of_mem_required [DecidableEq H] (op : Operation K H P) {auth : Authority K H}
    (h : auth ∈ op.required) : auth.keyAuths = [] := by
  cases op with
  | leaf l => exact l.addressOnly auth h
  | undertaker maker taker x makerOp takerOp =>
    rcases List.mem_cons.mp h with rfl | h
    · rfl
    · rw [List.mem_singleton.mp h]
      rfl
  | _ =>
    rw [List.mem_singleton.mp h]
    rfl

def proposable : Operation K H P → Option (ProposableKind × Leaf K H P)
  | leaf l =>
    match l.kind with
    | .proposable k => some (k, l)
    | .other _ => none
  | _ => none

end Operation

/-- A signed transaction: the keys recovered from its signatures, and the rest of it. -/
structure Transaction (K H P : Type) where
  operations : List (Operation K H P)
  signatureKeys : List K
  payload : P

end

variable {K H P D : Type}

/-! ### State -/

/-- The part of `proposal_object` that `referendum_object` has, too. -/
structure Ballot (K H P : Type) where
  proposedOps : List (Leaf K H P)
  proposer : Nat
  requiredApprovals : List (Address H)
  approved : List (Address H)
  disapproved : List (Address H)
  finished : Bool
  reviewPeriodTime : Option Nat
  expirationTime : Nat

/-- `proposal_object` -/
structure Proposal (K H P : Type) extends Ballot K H P where
  type : VoteType

/-- `guard_member_object` -/
structure GuardMember (H : Type) where
  account : Nat
  addr : Address H
  formal : Bool
  permanent : Bool

/-- `miner_object` -/
structure Citizen (H : Type) where
  account : Nat
  addr : Address H
  pledgeWeight : Nat

/-- What a node stores.  `db` is everything besides the proposals and referendums. -/
structure Store (K H P D : Type) where
  db : D
  headBlockNum : Nat
  proposals : Nat → Option (Proposal K H P)
  nextProposal : Nat
  referendums : Nat → Option (Ballot K H P)
  nextReferendum : Nat

/-- How an operation came to be applied: listed in a transaction, wrapped in an undertaker,
    or as part of a proposal or referendum, which was authorized to execute or not. -/
inductive Via where
  | direct | wrapped
  | proposal (authorized : Bool)
  | referendum (authorized : Bool)
deriving DecidableEq, Repr

/-- `_is_proposed_trx` -/
def Via.proposed : Via → Bool
  | direct | wrapped => false
  | proposal _ | referendum _ => true

def Via.voted : Via → Bool
  | direct | wrapped => false
  | proposal authorized | referendum authorized => authorized

/-- One application of an operation: `governance` says that it is of a kind that can be
    proposed and names no signer. -/
structure Event (K H : Type) where
  governance : Bool
  which : Nat
  required : List (Authority K H)
  via : Via

def Operation.event [DecidableEq H] (via : Via) (op : Operation K H P) : Event K H :=
  ⟨op.governance, op.header.which, op.required, via⟩

structure State (K H P D : Type) extends Store K H P D where
  trace : List (Event K H)

namespace State

def setProposal (id : Nat) (p : Option (Proposal K H P)) (s : State K H P D) : State K H P D :=
  { s with proposals := fun i => if i = id then p else s.proposals i }

def setReferendum (id : Nat) (p : Option (Ballot K H P)) (s : State K H P D) : State K H P D :=
  { s with referendums := fun i => if i = id then p else s.referendums i }

def createProposal (p : Proposal K H P) (s : State K H P D) : State K H P D :=
  { s.setProposal s.nextProposal (some p) with nextProposal := s.nextProposal + 1 }

def createReferendum (p : Ballot K H P) (s : State K H P D) : State K H P D :=
  { s.setReferendum s.nextReferendum (some p) with nextReferendum := s.nextReferendum + 1 }

def note (e : Event K H) (s : State K H P D) : State K H P D := { s with trace := e :: s.trace }

end State

/-! ### Multisig accounts -/

/-- `multisig_account_pair_object`; `id` is its instance. -/
structure MultisigPair where
  id : Nat
  bindAccountHot : String
  bindAccountCold : String
  chainType : String
  effectiveBlockNum : Nat

/-- The symbols of the assets but the core asset, the pairs by id, and the accounts of the
    senators who have an address in a pair. -/
structure MultisigTables where
  symbols : List String
  pairs : List MultisigPair
  guardAccounts : Nat → List Nat

namespace MultisigTables

variable (t : MultisigTables)

def getCurrentMultisigAccount (symbol : String) : Option MultisigPair :=
  (t.pairs.filter fun p => p.chainType = symbol).foldl (fun result p =>
    if result.elim 0 MultisigPair.effectiveBlockNum < p.effectiveBlockNum then some p
    else result) none

def lastEffective (l : List MultisigPair) : Option Nat :=
  (l.filter fun p => p.effectiveBlockNum ≠ 0).getLast?.map MultisigPair.id

/-- `none` is an exception: an id that is the default one counts as not found. -/
def getMultiAccountSenator (multiAddress symbol : String) : Option (List Nat) :=
  let hot := lastEffective (t.pairs.filter fun p =>
    p.bindAccountHot = multiAddress ∧ p.chainType = symbol)
  let cold := lastEffective (t.pairs.filter fun p =>
    p.bindAccountCold = multiAddress ∧ p.chainType = symbol)
  match (cold.or hot).getD 0 with
  | 0 => none
  | id => some (t.guardAccounts id)

/-- The loop in `_need_rollback`. -/
def needRollback (senators : List Nat) : List String → Option Bool
  | [] => some false
  | symbol :: symbols =>
    match t.getCurrentMultisigAccount symbol with
    | none => needRollback senators symbols
    | some pair => (t.getMultiAccountSenator pair.bindAccountHot symbol).bind fun accounts =>
        if senators.length ≤ accounts.length ∧ ∀ a ∈ senators, a ∈ accounts then
          needRollback senators symbols
        else some true

end MultisigTables

/-! ### What is left to the other evaluators -/

/-- The rest of the node.  `doEvaluate` and `doApply` are the evaluators of the leaves (but
    for their test of `_is_proposed_trx`), `ifEvaluate` the evaluators with an `if_evluate` of
    their own among the kinds that cannot be proposed. -/
structure Rules (K H P D : Type) where
  context : D → Context K H
  headBlockTime : D → Nat
  accountAddress : D → Nat → Option (Address H)
  guards : D → List (GuardMember H)
  citizens : D → List (Citizen H)
  maximumProposalLifetime : D → Nat
  referendumFlag : D → Bool
  nextVoteTime : D → Nat
  /-- Validation, the search for duplicates, TaPoS and expiration. -/
  admissible : Transaction K H P → Store K H P D → Bool
  recordTransaction : Transaction K H P → D → D
  validProposed : List (Leaf K H P) → Bool
  /-- The account approvals of a `proposal_update_operation`, which nothing else reads. -/
  accountApprovals : P → Proposal K H P → D → Bool
  prepareFee : Header H P → Store K H P D → Bool
  payFee : Header H P → Store K H P D → Exec D
  ifEvaluate : Nat → Store K H P D → Option Bool
  onCheckPoint : D → Bool
  doEvaluate : Leaf K H P → Store K H P D → Bool
  doApply : Leaf K H P → Store K H P D → Exec D
  multisig : D → MultisigTables
  /-- The senators in the `replace_queue` of the operation trade places again. -/
  restoreSenators : Leaf K H P → D → D

/-! ### Votes -/

namespace Ballot

variable [DecidableEq H]

/-- `erase` from a set of addresses. -/
def eraseAddress (l : List (Address H)) (a : Address H) : List (Address H) :=
  l.filter fun b => b.addr ≠ a.addr

def mayVote (b : Ballot K H P) (a : Address H) : Bool :=
  b.requiredApprovals.any fun r => r.addr = a.addr

def approve (b : Ballot K H P) (a : Address H) : Ballot K H P :=
  if b.mayVote a then
    { b with approved := insertAddress b.approved a, disapproved := eraseAddress b.disapproved a }
  else b

def disapprove (b : Ballot K H P) (a : Address H) : Ballot K H P :=
  if b.mayVote a then
    { b with disapproved := insertAddress b.disapproved a, approved := eraseAddress b.approved a }
  else b

def vote (add remove : List (Address H)) (b : Ballot K H P) : Ballot K H P :=
  remove.foldl disapprove (add.foldl approve b)

/-- The weight of those in the list.  Somebody who is no citizen any more has none; the
    source does not test for that. -/
def weight (r : Rules K H P D) (d : D) (l : List (Address H)) : Nat :=
  (l.map fun a => ((r.citizens d).find? fun c => c.addr.addr = a.addr).elim 0
    Citizen.pledgeWeight).sum

/-- `referendum_object::is_authorized_to_execute` -/
def isAuthorizedToExecute (r : Rules K H P D) (d : D) (b : Ballot K H P) : Bool :=
  !b.finished && decide (weight r d b.requiredApprovals / 3 * 2 + 1 ≤ weight r d b.approved)

end Ballot

/-- `proposal_object::is_authorized_to_execute` -/
def Proposal.isAuthorizedToExecute [DecidableEq H] (r : Rules K H P D) (d : D)
    (p : Proposal K H P) : Bool :=
  match p.type with
  | .committee => !p.finished && decide (p.requiredApprovals.length * 2 / 3 + 1 ≤ p.approved.length)
  | .cancelCommit | .senator =>
    !p.finished && decide (p.requiredApprovals.length * 1 / 2 + 1 ≤ p.approved.length)
  | _ => p.toBallot.isAuthorizedToExecute r d

/-! ### The generic evaluator -/

def packingPeriod : Nat := 24 * 3600
def votingPeriod : Nat := 7 * 24 * 3600

section Evaluators

variable (r : Rules K H P D)

/-- `generic_evaluator::if_evluate`: whether `do_evaluate` is called; `none` is an exception. -/
def defaultIfEvaluate (s : Store K H P D) : Option Bool :=
  if s.headBlockNum = checkPointBlock then if r.onCheckPoint s.db then some false else none
  else some (decide (checkPointBlock < s.headBlockNum))

def LeafKind.ifEvaluate (kind : LeafKind) (s : Store K H P D) : Option Bool :=
  match kind with
  | .proposable k => if k.alwaysEvaluated then some true else defaultIfEvaluate r s
  | .other n => r.ifEvaluate n s

/-- `evaluator::evaluate` returns. -/
def evaluates (h : Header H P) (ifEvaluate : Option Bool) (doEvaluate : Bool)
    (s : Store K H P D) : Bool :=
  r.prepareFee h s && ifEvaluate.any fun run => !run || doEvaluate

/-- `evaluate` of a leaf, as part of a proposal or not. -/
def evaluateLeaf (proposed : Bool) (l : Leaf K H P) (s : Store K H P D) : Bool :=
  evaluates r l.header (l.kind.ifEvaluate r s)
    ((proposed || !l.kind.proposedOnly) && r.doEvaluate l s) s

variable [DecidableEq H]

/-- `start_evaluate`: the application of an operation that passed its evaluation, and its
    fee. -/
def startEvaluate (via : Via) (op : Operation K H P) (evaluated : Bool)
    (doApply : State K H P D → Exec (State K H P D)) (s : State K H P D) :
    Exec (State K H P D) :=
  if evaluated then
    (doApply (s.note (op.event via))).andThen fun s =>
      (r.payFee op.header s.toStore).map fun d => { s with db := d }
  else .thrown s

def applyLeaf (via : Via) (l : Leaf K H P) (s : State K H P D) : Exec (State K H P D) :=
  startEvaluate r via (.leaf l) (evaluateLeaf r via.proposed l s.toStore)
    (fun s => (r.doApply l s.toStore).map fun d => { s with db := d }) s

/-! ### Executing what was voted for -/

/-- The operations elect senators by `guard_member_update_operation`. -/
def electing (l : List (Leaf K H P)) : Bool :=
  l.any fun x => x.kind = .proposable .guardMemberUpdate

def pushOps (via : Via) (l : List (Leaf K H P)) (s : State K H P D) : Exec (State K H P D) :=
  Exec.forEach (fun s x => applyLeaf r via x s) l s

/-- `push_proposal` -/
def pushProposal (id : Nat) (p : Proposal K H P) (s : State K H P D) : Exec (State K H P D) :=
  (pushOps r (.proposal (p.isAuthorizedToExecute r s.db)) p.proposedOps s).andThen fun s =>
    if electing p.proposedOps then
      .ok (s.setProposal id (some
        { p with finished := true, expirationTime := r.headBlockTime s.db + votingPeriod }))
    else .ok (s.setProposal id none)

/-- `push_referendum` -/
def pushReferendum (id : Nat) (b : Ballot K H P) (s : State K H P D) : Exec (State K H P D) :=
  (pushOps r (.referendum (b.isAuthorizedToExecute r s.db)) b.proposedOps s).andThen fun s =>
    .ok (s.setReferendum id (some
      { b with finished := true, expirationTime := r.headBlockTime s.db + votingPeriod }))

/-- `push_proposal` inside of `try`: a proposal that fails is removed, what its operations did
    stays. -/
def tryProposal (id : Nat) (p : Proposal K H P) (s : State K H P D) : State K H P D :=
  match pushProposal r id p s with
  | .ok t => t
  | .thrown t => t.setProposal id none

def tryReferendum (id : Nat) (b : Ballot K H P) (s : State K H P D) : State K H P D :=
  match pushReferendum r id b s with
  | .ok t => t
  | .thrown t => t.setReferendum id none

/-- The end of `proposal_update_evaluator::do_apply`.  Proposal `1.10.137` is dropped. -/
def executeProposal (id : Nat) (p : Proposal K H P) (s : State K H P D) : State K H P D :=
  if p.reviewPeriodTime.isSome then s
  else if p.isAuthorizedToExecute r s.db then
    if id = 137 then s.setProposal id none else tryProposal r id p s
  else s

def executeReferendum (id : Nat) (b : Ballot K H P) (s : State K H P D) : State K H P D :=
  if b.reviewPeriodTime.isSome then s
  else if b.isAuthorizedToExecute r s.db then tryReferendum r id b s
  else s

omit [DecidableEq H] in
/-- `_need_rollback` of a finished proposal; `none` is an exception. -/
def needRollback (d : D) : Option Bool :=
  (r.multisig d).needRollback (((r.guards d).filter (·.formal)).map (·.account))
    (r.multisig d).symbols

omit [DecidableEq H] in
/-- `_rollback_votes` of a finished proposal. -/
def rollbackVotes (ops : List (Leaf K H P)) (d : D) : Option D :=
  match ops.find? fun x => x.kind = .proposable .guardMemberUpdate with
  | none => some d
  | some l => (needRollback r d).map fun need => if need then r.restoreSenators l d else d

/-- One proposal that `clear_expired_proposals` finds.  The votes are rolled back outside of
    `try`. -/
def expireProposal (id : Nat) (p : Proposal K H P) (s : State K H P D) : Exec (State K H P D) :=
  if p.isAuthorizedToExecute r s.db then .ok (tryProposal r id p s)
  else if p.finished then
    match rollbackVotes r p.proposedOps s.db with
    | none => .thrown s
    | some d => .ok { s.setProposal id none with db := d }
  else .ok (s.setProposal id none)

def expireReferendum (id : Nat) (b : Ballot K H P) (s : State K H P D) : State K H P D :=
  if b.isAuthorizedToExecute r s.db then tryReferendum r id b s
  else if b.finished then
    { s.setReferendum id none with
      db := (b.proposedOps.filter fun x => x.kind = .proposable .citizenReferendumSenator).foldl
        (fun d x => r.restoreSenators x d) s.db }
  else s.setReferendum id none

/-! ### The evaluators of the voting system -/

/-- What a proposal of the given type stores; `none` if one of the operations is refused. -/
def proposalOps (type : VoteType) (ops : List (Operation K H P)) : Option (List (Leaf K H P)) :=
  ops.mapM fun op => op.proposable.bind fun x =>
    if x.1.voteType = some type then some x.2 else none

def referendumOps (ops : List (Operation K H P)) : Option (List (Leaf K H P)) :=
  ops.mapM fun op => op.proposable.bind fun x =>
    if x.1 = .citizenReferendumSenator then some x.2 else none

def Store.noElection (s : Store K H P D) : Bool :=
  (List.range s.nextProposal).all fun i => (s.proposals i).all fun p => !electing p.proposedOps

/-- `proposal_create_evaluator::do_evaluate`, after the kinds of the operations. -/
def evaluateProposalCreate (proposer expirationTime : Nat) (reviewPeriod : Option Nat)
    (ops : List (Leaf K H P)) (s : Store K H P D) : Bool :=
  let now := r.headBlockTime s.db
  decide (now < expirationTime) &&
  decide (expirationTime ≤ now + r.maximumProposalLifetime s.db) &&
  (reviewPeriod.all fun t => t < expirationTime - now) &&
  ((r.guards s.db).any fun g => g.account = proposer && g.formal &&
    (!electing ops || g.permanent && s.noElection)) &&
  r.validProposed ops && ops.all fun l => evaluateLeaf r true l s

def voters (type : VoteType) (d : D) : List (Address H) :=
  match type with
  | .committee => ((r.guards d).filter (·.formal)).map (·.addr)
  | .cancelCommit | .senator => ((r.guards d).filter fun g => g.formal && g.permanent).map (·.addr)
  | _ => (r.citizens d).map (·.addr)

/-- `proposal_create_evaluator::do_apply` -/
def newProposal (type : VoteType) (proposer expirationTime : Nat) (reviewPeriod : Option Nat)
    (ops : List (Leaf K H P)) (d : D) : Proposal K H P where
  proposedOps := ops
  proposer := proposer
  requiredApprovals := (voters r type d).foldl insertAddress []
  approved := []
  disapproved := []
  finished := false
  reviewPeriodTime := reviewPeriod.map fun t => expirationTime - t
  expirationTime := expirationTime
  type := type

/-- `referendum_create_evaluator::do_evaluate`, after the kinds of the operations.  Here the
    operations are not evaluated as proposed ones. -/
def evaluateReferendumCreate (proposer : Nat) (ops : List (Leaf K H P))
    (s : Store K H P D) : Bool :=
  (r.citizens s.db).any (fun c => c.account = proposer) &&
  (!r.referendumFlag s.db || decide (r.headBlockTime s.db < r.nextVoteTime s.db)) &&
  s.noElection && r.validProposed ops && ops.all fun l => evaluateLeaf r false l s

/-- `referendum_create_evaluator::do_apply` -/
def newReferendum (proposer : Nat) (ops : List (Leaf K H P)) (d : D) : Ballot K H P where
  proposedOps := ops
  proposer := proposer
  requiredApprovals := ((r.citizens d).map (·.addr)).foldl insertAddress []
  approved := []
  disapproved := []
  finished := false
  reviewPeriodTime := none
  expirationTime := r.headBlockTime d + (packingPeriod + votingPeriod)

/-! ### Operations and transactions -/

/-- The evaluators that store a ballot, by the leaves they store (`none` is an exception). -/
def applyCreate (via : Via) (op : Operation K H P) (ifEvaluate : Option Bool)
    (ops : Option (List (Leaf K H P))) (doEvaluate : List (Leaf K H P) → Store K H P D → Bool)
    (store : List (Leaf K H P) → State K H P D → State K H P D) (s : State K H P D) :
    Exec (State K H P D) :=
  match ops with
  | none => .thrown s
  | some l =>
    startEvaluate r via op (evaluates r op.header ifEvaluate (doEvaluate l s.toStore) s.toStore)
      (fun s => .ok (store l s)) s

/-- `proposal_update_evaluator`: the vote is counted, then the proposal may execute. -/
def applyProposalUpdate (via : Via) (op : Operation K H P) (id : Nat)
    (add remove : List (Address H)) (s : State K H P D) : Exec (State K H P D) :=
  match s.proposals id with
  | none => .thrown s
  | some p =>
    startEvaluate r via op
      (evaluates r op.header (some true)
        (!p.finished && r.accountApprovals op.header.payload p s.db) s.toStore)
      (fun s =>
        let p := { p with toBallot := p.toBallot.vote add remove }
        .ok (executeProposal r id p (s.setProposal id (some p)))) s

/-- `proposal_delete_evaluator` -/
def applyProposalDelete (via : Via) (op : Operation K H P) (id : Nat) (s : State K H P D) :
    Exec (State K H P D) :=
  match s.proposals id with
  | none => .thrown s
  | some p =>
    startEvaluate r via op
      (evaluates r op.header (some true)
        (decide (r.accountAddress s.db p.proposer = some op.header.feePayer) &&
          p.approved.isEmpty && p.disapproved.isEmpty) s.toStore)
      (fun s => .ok (s.setProposal id none)) s

/-- `referendum_update_evaluator` -/
def applyReferendumUpdate (via : Via) (op : Operation K H P) (id : Nat)
    (add remove : List (Address H)) (s : State K H P D) : Exec (State K H P D) :=
  match s.referendums id with
  | none => .thrown s
  | some b =>
    startEvaluate r via op
      (evaluates r op.header (some true)
        (decide (r.nextVoteTime s.db ≤ r.headBlockTime s.db) && !b.finished) s.toStore)
      (fun s =>
        let b := b.vote add remove
        .ok (executeReferendum r id b (s.setReferendum id (some b)))) s

mutual

/-- `apply_operation` -/
def applyOperation (via : Via) : Operation K H P → State K H P D → Exec (State K H P D)
  | .leaf l, s => applyLeaf r via l s
  | .proposalCreate a x type proposer expirationTime reviewPeriod ops, s =>
    applyCreate r via (.proposalCreate a x type proposer expirationTime reviewPeriod ops)
      (some true) (proposalOps type ops)
      (evaluateProposalCreate r proposer expirationTime reviewPeriod)
      (fun l s => s.createProposal (newProposal r type proposer expirationTime reviewPeriod l s.db))
      s
  | .proposalUpdate a x id add remove, s =>
    applyProposalUpdate r via (.proposalUpdate a x id add remove) id add remove s
  | .proposalDelete a x id, s => applyProposalDelete r via (.proposalDelete a x id) id s
  | .referendumCreate a x proposer ops, s =>
    applyCreate r via (.referendumCreate a x proposer ops) (some true) (referendumOps ops)
      (evaluateReferendumCreate r proposer)
      (fun l s => s.createReferendum (newReferendum r proposer l s.db)) s
  | .referendumUpdate a x id add remove, s =>
    applyReferendumUpdate r via (.referendumUpdate a x id add remove) id add remove s
  | .undertaker maker taker x makerOp takerOp, s =>
    -- the one thing that is checked of a wrapped operation is who pays its fee
    startEvaluate r via (.undertaker maker taker x makerOp takerOp)
      (evaluates r ⟨124, maker, x⟩ (defaultIfEvaluate r s.toStore)
        (makerOp.all (fun op => maker = op.header.feePayer) &&
          takerOp.all fun op => taker = op.header.feePayer) s.toStore)
      (fun s => (applyOperations .wrapped takerOp s).andThen fun s =>
        applyOperations .wrapped makerOp s) s

def applyOperations (via : Via) : List (Operation K H P) → State K H P D → Exec (State K H P D)
  | [], s => .ok s
  | op :: l, s => (applyOperation via op s).andThen fun s => applyOperations via l s

end

variable [DecidableEq K]

/-- `_apply_transaction`, with the signatures checked. -/
def applyTransaction (tx : Transaction K H P) (s : State K H P D) : Exec (State K H P D) :=
  if r.admissible tx s.toStore &&
      verifyAuthority (r.context s.db) (tx.operations.map Operation.authorities) tx.signatureKeys
  then applyOperations r .direct tx.operations { s with db := r.recordTransaction tx s.db }
  else .thrown s

end Evaluators

end HyperExchange.Ops
