/-
  **Runs of everything that concerns other chains.**

  A transaction may hold operations of withdrawals and deposits as well as operations of
  transfers between cold and hot accounts.  Its operations are applied one after the other;
  each kind sees those of the other kind as operations that do not concern it.  Between
  transactions the node's plugin notes what it has seen on other chains, and at the end of a
  block the collected fees go to the fee pool.
-/
import HyperExchange.ColdhotEvaluators

namespace HyperExchange.Bridge

open Keyed Fees Execution
open Crosschain (Registry TrxId Text HdTrx)

variable {H : Type} {reg : Registry}

inductive Operation (H : Type) where
  | crosschain (op : Crosschain.Operation H)
  | coldhot (op : Coldhot.Operation H)
deriving DecidableEq

/-- `signed_transaction`; `signers` are the addresses of its signature keys. -/
structure SignedTransaction (H : Type) where
  id : TrxId
  operations : List (Operation H)
  signers : List (Address H)
deriving DecidableEq

def Operation.toCrosschain : Operation H → Crosschain.Operation H
  | .crosschain op => op
  | .coldhot _ => .other

def Operation.toColdhot : Operation H → Coldhot.Operation H
  | .crosschain _ => .other
  | .coldhot op => op

def SignedTransaction.toCrosschain (t : SignedTransaction H) : Crosschain.SignedTransaction H :=
  ⟨t.id, t.operations.map Operation.toCrosschain, t.signers⟩

def SignedTransaction.toColdhot (t : SignedTransaction H) : Coldhot.SignedTransaction H :=
  ⟨t.id, t.operations.map Operation.toColdhot⟩

structure State (H : Type) extends Coldhot.State H where
  /-- `total_fees_object::fees_pool` -/
  feesPool : Nat → Int

/-- `update_fee_pool` at the end of a block, and `reset_current_collected_fee` at the start of
    the next one. -/
def State.updateFeePool (s : State H) : State H :=
  { s with
    chain := { s.chain with ledger := { s.chain.ledger with collected := fun _ => 0 } }
    feesPool := fun a =>
      if a = coreAsset then s.feesPool a else s.feesPool a + s.chain.ledger.collected a }

section Steps

variable [DecidableEq H] [Inhabited H]

/-- Evaluates and applies an operation; `none` when it is not accepted. -/
def applyOperation (ctx : Coldhot.Context reg H) (trx : SignedTransaction H) (s : State H) :
    Operation H → Option (State H)
  | .crosschain op => (Crosschain.applyOperation ctx.toContext trx.toCrosschain s.chain op).map
      fun c => { s with chain := c }
  | .coldhot op => (Coldhot.applyOperation ctx trx.toColdhot s.toState op).map
      fun c => { s with toState := c }

inductive Event (reg : Registry) (H : Type) where
  /-- A transaction, or a proposed one, of which the first `count` operations are accepted:
      a proposal that throws keeps what the operations before did. -/
  | transaction (ctx : Coldhot.Context reg H) (trx : SignedTransaction H) (count : Nat)
  /-- The plugin notes a transaction of another chain. -/
  | noted (trx : HdTrx)
  /-- The node could not report a transaction it had noted. -/
  | notReported (id : Text)
  | blockEnd

def step (s : State H) : Event reg H → State H
  | .transaction ctx trx count =>
    (applyAll (applyOperation ctx trx) (trx.operations.take count) s).getD s
  | .noted trx => { s with chain := Crosschain.step s.chain (.noted trx : Crosschain.Event reg H) }
  | .notReported id =>
    { s with chain := Crosschain.step s.chain (.notReported id : Crosschain.Event reg H) }
  | .blockEnd => s.updateFeePool

/-- No record of anything on another chain yet. -/
structure State.Fresh (s : State H) : Prop where
  transfers : s.transfers.rows = []
  chain : s.chain.Fresh

/-! ### Runs under a condition -/

variable (allowed : Coldhot.Context reg H → SignedTransaction H → State H → Operation H → Prop)

def Meets (s : State H) : Event reg H → Prop
  | .transaction ctx trx count =>
    (applyAll (applyOperation ctx trx) (trx.operations.take count) s).isSome →
      EachAllowed (applyOperation ctx trx) (allowed ctx trx) (trx.operations.take count) s
  | .noted _ => True
  | .notReported _ => True
  | .blockEnd => True

instance [∀ ctx trx s, DecidablePred (allowed ctx trx s)] (s : State H) :
    DecidablePred (Meets allowed s) := fun e => by
  cases e <;> unfold Meets <;> infer_instance

def RunUnder (init : State H → Prop) : State H → Prop :=
  ReachableUnder init (Meets allowed) step

/-- In a run whose accepted operations are all allowed, an accepted transaction applies the
    operation to the state. -/
inductive Applied (init : State H → Prop) :
    Coldhot.Context reg H → SignedTransaction H → State H → Operation H → Prop
  | intro {ctx : Coldhot.Context reg H} {trx : SignedTransaction H} {s₀ s : State H}
      {op : Operation H} (count : Nat) (done rest : List (Operation H)) :
      RunUnder allowed init s₀ → Meets allowed s₀ (.transaction ctx trx count) →
      (applyAll (applyOperation ctx trx) (trx.operations.take count) s₀).isSome →
      trx.operations.take count = done ++ op :: rest →
      applyAll (applyOperation ctx trx) done s₀ = some s → Applied init ctx trx s op

variable {allowed} {init : State H → Prop} {s : State H}

def State.withAcquired (s : State H) (t : Crosschain.AcquiredCrosschainIndex) : State H :=
  { s with chain := { s.chain with acquired := t } }

theorem step_noted (s : State H) (trx : HdTrx) :
    ∃ t, step s (.noted trx : Event reg H) = s.withAcquired t := by
  simp only [step, Crosschain.step]
  split
  · exact ⟨s.chain.acquired, rfl⟩
  · cases s.chain.acquired.put trx trx.resultId .acquiredTrxUncreate with
    | none => exact ⟨s.chain.acquired, rfl⟩
    | some t => exact ⟨t, rfl⟩

variable (Inv : State H → Prop) (hinit : ∀ s, init s → Inv s)
  (hacquired : ∀ {s} t, Inv s → Inv (s.withAcquired t))
  (hfees : ∀ {s}, Inv s → Inv s.updateFeePool)
include hinit hacquired hfees

/-- **Invariant rule.** What accepted transactions, the plugin and the fee pool keep holds in
    every state of a run. -/
theorem RunUnder.invariant_of_transactions (htrx : ∀ {ctx trx count s s'}, Inv s →
      EachAllowed (applyOperation ctx trx) (allowed ctx trx) (trx.operations.take count) s →
      applyAll (applyOperation ctx trx) (trx.operations.take count) s = some s' → Inv s')
    (h : RunUnder allowed init s) : Inv s := by
  refine ReachableUnder.invariant Inv hinit ?_ h
  intro s e hs hmeets
  cases e with
  | transaction ctx trx count =>
    simp only [step]
    cases hall : applyAll (applyOperation ctx trx) (trx.operations.take count) s with
    | none => exact hs
    | some s' => exact htrx hs (hmeets (by rw [hall]; rfl)) hall
  | noted trx =>
    obtain ⟨t, ht⟩ := step_noted s trx
    rw [ht]
    exact hacquired t hs
  | notReported id => exact hacquired _ hs
  | blockEnd => exact hfees hs

variable (hop : ∀ {ctx trx op s s'}, op ∈ trx.operations → Inv s →
  allowed ctx trx s op → applyOperation ctx trx s op = some s' → Inv s')
include hop

/-- What the allowed operations, the plugin and the fee pool keep holds in every state of a
    run. -/
theorem RunUnder.invariant (h : RunUnder allowed init s) : Inv s := by
  refine h.invariant_of_transactions Inv hinit hacquired hfees ?_
  intro ctx trx count s s' hs hallowed hall
  exact hallowed.invariant Inv hs (fun hmem => hop (List.mem_of_mem_take hmem)) hall

/-- The same for the states that the operations of a run are applied to. -/
theorem Applied.invariant {ctx : Coldhot.Context reg H} {trx : SignedTransaction H}
    {op : Operation H} (h : Applied allowed init ctx trx s op) :
    Inv s ∧ allowed ctx trx s op ∧ (applyOperation ctx trx s op).isSome := by
  obtain ⟨count, done, rest, hrun, hmeets, haccepted, hops, hdone⟩ := h
  have hallowed := hmeets haccepted
  rw [hops] at hallowed haccepted
  obtain ⟨hbefore, hop'⟩ := hallowed.split haccepted hdone
  have hmem : ∀ {x}, x ∈ done → x ∈ trx.operations := by
    intro x hx
    have hx' : x ∈ trx.operations.take count := by
      rw [hops]
      exact List.mem_append_left _ hx
    exact List.mem_of_mem_take hx'
  exact ⟨hbefore.invariant Inv (hrun.invariant Inv hinit hacquired hfees hop)
    (fun hx => hop (hmem hx)) hdone, hop'⟩

end Steps

/-! ### A chain with one account pair -/

open Crosschain (sampleRegistry sampleContext sampleState sampleUser eth headFinder)

/-- One senator keeps the pair of the hot account `m` and the cold account `a`. -/
def sampleBridge : Coldhot.Context sampleRegistry Bool where
  toContext := sampleContext
  unconfigured := fun _ => none
  multisigAccountPairs := [⟨1, eth, ['m'], ['a']⟩]
  multisigAddresses := [⟨7, 1⟩]
  transactionQuery := fun _ _ => some true
  validateTransferSign := fun _ _ => true
  findPair := headFinder _
  findTransfer := headFinder _

def sampleStart : State Bool where
  transfers := .empty
  chain := sampleState
  feesPool := fun _ => 0

theorem sampleStart_fresh : sampleStart.Fresh := ⟨rfl, rfl, rfl, rfl⟩

/-- The transaction with the id and only this operation. -/
def sampleColdhot (id : TrxId) (op : Coldhot.Operation Bool) : Event sampleRegistry Bool :=
  .transaction sampleBridge ⟨id, [.coldhot op], [sampleUser]⟩ 1

@[inherit_doc sampleColdhot]
def sampleCrosschain (id : TrxId) (op : Crosschain.Operation Bool) : Event sampleRegistry Bool :=
  .transaction sampleBridge ⟨id, [.crosschain op], [sampleUser]⟩ 1

/-- Transfers five from the hot to the cold account. -/
def sampleTransfer (id : TrxId) : Event sampleRegistry Bool :=
  sampleColdhot id (.transfer ⟨['m'], ['a'], ['5'], eth, 1⟩)

def sampleTransferWithoutSign (id transfer : TrxId) : Event sampleRegistry Bool :=
  sampleColdhot id (.transferWithoutSign ⟨transfer, [], 1, eth⟩)

def sampleCombineOp (withoutSign : TrxId) (signed : List TrxId) (original : Text) :
    Coldhot.Operation Bool :=
  .transferCombineSign
    ⟨[(['w', 'i', 't', 'h', 'o', 'u', 't', '_', 's', 'i', 'g', 'n'], ['u']),
      (['s', 'i', 'g', 'n', 'e', 'r'], [])], signed, withoutSign, eth, original⟩

def sampleTransferCombine (id withoutSign : TrxId) (signed : List TrxId) (original : Text) :
    Event sampleRegistry Bool :=
  sampleColdhot id (sampleCombineOp withoutSign signed original)

end HyperExchange.Bridge
