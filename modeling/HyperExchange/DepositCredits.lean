/-
  **A transaction of another chain is credited at most once.**

  A deposit is credited and a result is counted only while the transaction of the other
  chain is unknown or in its first state, and both move it out of that state (`put_stateOf`).
  In every run in which deposits are evaluated and reported under an id without a bar, and no
  senator frees a transaction that was credited or counted, at most one deposit is credited
  for an id, and none for one that was counted as a result (`credited_once`).

  `senator_change_acquire_trx` does not ask for the state of the record; and a deposit is
  looked up by the whole id, while for the Ethereum series a result is kept under what
  follows the first bar (`credited_again`).
-/
import HyperExchange.CrosschainSteps

namespace HyperExchange.Crosschain

open Keyed Fees Execution List Option

variable {H : Type} {reg : Registry}

/-! ### Credits in the trace -/

/-- The ids that a transaction of another chain goes by: the one it is reported with, and the
    one its record is kept under when it is counted as a result. -/
def HdTrx.Names (trx : HdTrx) (id : Text) : Prop := trx.trxId = id ∨ trx.resultId = id
deriving Decidable

theorem afterBar_of_not_mem {s : Text} (h : '|' ∉ s) : afterBar s = s := if_neg h

variable {trx : HdTrx}

theorem resultId_of_not_mem (h : '|' ∉ trx.trxId) : trx.resultId = trx.trxId := by
  unfold HdTrx.resultId
  split
  · exact afterBar_of_not_mem h
  · rfl

theorem resultId_of_names {id : Text} (hid : '|' ∉ id) (h : trx.Names id) :
    trx.resultId = id := by
  rcases h with h | h
  · rw [← h] at hid ⊢
    exact resultId_of_not_mem hid
  · exact h

def Entry.mintedFor (id : Text) : Entry H → Option Asset
  | .minted trx _ amount => if trx.Names id then some amount else none
  | _ => none

def Entry.isCredit : Entry H → Bool
  | .minted _ _ _ => true
  | .counted _ => true
  | _ => false

variable (trace : List (Entry H))

def mintedFor (id : Text) : List Asset :=
  trace.filterMap (Entry.mintedFor id)

def credits : List (Entry H) := trace.filter Entry.isCredit

theorem mintedFor_append (e : Entry H) (id : Text) :
    mintedFor (trace ++ [e]) id = mintedFor trace id ++ (e.mintedFor id).toList := by
  unfold mintedFor
  rw [filterMap_append]
  cases h : e.mintedFor id <;> simp [h]

theorem mem_credits {trace : List (Entry H)} {e : Entry H} (he : e.isCredit = true) :
    e ∈ credits trace ↔ e ∈ trace := by
  simp [credits, he]

theorem mintedFor_credits (id : Text) : mintedFor (credits trace) id = mintedFor trace id := by
  unfold mintedFor credits
  rw [filterMap_filter]
  congr 1
  funext e
  cases e <;> rfl

/-! ### Records of transactions of other chains -/

def stateOf (t : AcquiredCrosschainIndex) (id : Text) : Option AcquiredTrxState :=
  (t.find id).map AcquiredCrosschainTrxObject.acquiredTransactionState

theorem stateOf_modify (t : AcquiredCrosschainIndex) (k id : Text) (st : AcquiredTrxState) :
    stateOf (t.modify k (setAcquired st)) id =
      if id = k then (stateOf t id).map fun _ => st else stateOf t id := by
  unfold stateOf
  rw [Table.find_modify]
  cases t.find id with
  | none | some => split <;> rfl

theorem put_stateOf {t t' : AcquiredCrosschainIndex} {handled : HdTrx} {k : Text}
    {st : AcquiredTrxState} (h : t.put handled k st = some t') (id : Text) :
    stateOf t' id = if id = k then some st else stateOf t id := by
  unfold AcquiredCrosschainIndex.put at h
  split at h
  · rename_i hsome
    cases h
    rw [stateOf_modify]
    split
    · rename_i hid
      obtain ⟨r, hr⟩ := isSome_iff_exists.1 hsome
      rw [hid, stateOf, hr]
      rfl
    · rfl
  · obtain ⟨_, hfind⟩ := Table.insert_eq_some h
    unfold stateOf
    rw [hfind]
    split <;> rfl

/-! ### What the other operations leave alone -/

/-- Nothing is credited and no transaction of another chain is touched. -/
structure Untouched (s s' : State H) : Prop where
  acquired : s'.acquired = s.acquired
  credits : credits s'.trace = credits s.trace

theorem applyOperation_untouched [DecidableEq H] [Inhabited H] {ctx : Context reg H}
    {trx : SignedTransaction H} {s s' : State H} {op : Operation H}
    (hop : op.touchesAcquired = false) (happly : applyOperation ctx trx s op = some s') :
    Untouched s s' := by
  have hdoes := applyOperation_does (permits_sameRecord ctx trx s.trxs op) happly
  obtain ⟨added, htrace, hadded⟩ := hdoes.trace
  refine ⟨hdoes.acquired hop, ?_⟩
  have hnone : added.filter Entry.isCredit = [] := by
    rw [filter_eq_nil_iff]
    intro e he
    cases hadded e he with
    | minted | counted => cases hop
    | _ => nofun
  rw [credits, htrace, filter_append, hnone, append_nil, credits]

/-! ### The condition -/

/-- A deposit is evaluated and goes by one id only, and only a transaction that was neither
    credited nor counted is freed. -/
def Distinct (ctx : Context reg H) (s : State H) : Operation H → Prop
  | .crosschainRecord o => checkPointBlock < ctx.headBlockNum ∧ '|' ∉ o.crossChainTrx.trxId
  | .senatorChangeAcquireTrx o =>
    ∀ op ∈ namedSignFinal s o, ∀ st ∈ stateOf s.acquired (acquiredId op),
      st ≠ .acquiredTrxCreate ∧ st ≠ .acquiredTrxComfirmed
  | _ => True

instance (ctx : Context reg H) (s : State H) : DecidablePred (Distinct ctx s) := by
  rintro ⟨⟩ <;> unfold Distinct <;> infer_instance

/-! ### The invariant -/

def Reported (reg : Registry) (trx : HdTrx) (x : Asset) : Prop :=
  reg.symbol x.assetId = trx.assetSymbol ∧
    ∃ m, amountFromString (reg.precision x.assetId) m trx.amount = some x.amount

structure Credited (reg : Registry) (t : AcquiredCrosschainIndex) (trace : List (Entry H)) :
    Prop where
  /-- What was credited once is in the state that deposits bring it to. -/
  minted : ∀ id, mintedFor trace id = [] ∨
    '|' ∉ id ∧ (∃ x, mintedFor trace id = [x]) ∧ stateOf t id = some .acquiredTrxCreate
  counted : ∀ {trx}, .counted trx ∈ trace → stateOf t trx.resultId = some .acquiredTrxComfirmed
  reported : ∀ {trx account x}, .minted trx account x ∈ trace → Reported reg trx x

namespace Credited

variable {t t' : AcquiredCrosschainIndex} {trace trace' : List (Entry H)}

theorem empty : Credited reg (H := H) t [] :=
  ⟨fun _ => .inl rfl, nofun, nofun⟩

variable (h : Credited reg t trace)
include h

theorem congr (hcredits : credits trace' = credits trace)
    (hstate : ∀ id st, st = .acquiredTrxCreate ∨ st = .acquiredTrxComfirmed →
      stateOf t id = some st → stateOf t' id = some st) : Credited reg t' trace' := by
  refine ⟨?_, ?_, ?_⟩
  · intro id
    rw [← mintedFor_credits, hcredits, mintedFor_credits]
    rcases h.minted id with hnone | ⟨hid, hone, hst⟩
    · exact .inl hnone
    · exact .inr ⟨hid, hone, hstate id _ (.inl rfl) hst⟩
  · intro trx hmem
    rw [← mem_credits rfl, hcredits, mem_credits rfl] at hmem
    exact hstate _ _ (.inr rfl) (h.counted hmem)
  · intro trx account x hmem
    rw [← mem_credits rfl, hcredits, mem_credits rfl] at hmem
    exact h.reported hmem

/-- Nothing was credited or counted for an id whose record is in neither state. -/
theorem mintedFor_eq_nil {id : Text}
    (hst : stateOf t id ≠ some .acquiredTrxCreate) : mintedFor trace id = [] := by
  rcases h.minted id with hnone | ⟨_, _, hcreate⟩
  · exact hnone
  · exact absurd hcreate hst

/-- A deposit is credited under an id that was not credited before. -/
theorem mint {trx : HdTrx} {account : Address H} {x : Asset}
    (hid : '|' ∉ trx.trxId) (hx : Reported reg trx x)
    (hfree : ∀ st ∈ stateOf t trx.trxId, st = .acquiredTrxUncreate)
    (hstate : ∀ id, stateOf t' id =
      if id = trx.trxId then some .acquiredTrxCreate else stateOf t id) :
    Credited reg t' (trace ++ [.minted trx account x]) := by
  refine ⟨?_, ?_, ?_⟩
  · intro id
    rw [mintedFor_append, hstate]
    simp only [Entry.mintedFor, HdTrx.Names, resultId_of_not_mem hid, or_self_iff]
    by_cases heq : trx.trxId = id
    · subst heq
      refine .inr ⟨hid, ⟨x, ?_⟩, if_pos rfl⟩
      have hnil : mintedFor trace trx.trxId = [] :=
        h.mintedFor_eq_nil fun hst => by cases hfree _ hst
      rw [hnil, if_pos rfl]
      rfl
    · rw [if_neg heq, if_neg (Ne.symm heq)]
      simpa using h.minted id
  · intro c hc
    have hc : .counted c ∈ trace := by simpa using hc
    have hst := h.counted hc
    rw [hstate, if_neg]
    · exact hst
    · intro heq
      rw [heq] at hst
      cases hfree _ hst
  · intro trx' account' x' hmem
    rcases mem_append.1 hmem with hmem | hmem
    · exact h.reported hmem
    · cases mem_singleton.1 hmem
      exact hx

theorem count {result : HdTrx} (hfree : ∀ st ∈ stateOf t result.resultId, st = .acquiredTrxUncreate)
    (hstate : ∀ id, stateOf t' id =
      if id = result.resultId then some .acquiredTrxComfirmed else stateOf t id) :
    Credited reg t' (trace ++ [.counted result]) := by
  refine ⟨?_, ?_, ?_⟩
  · intro id
    have happend : mintedFor (trace ++ [.counted result]) id = mintedFor trace id := by
      rw [mintedFor_append]
      exact append_nil _
    rw [happend, hstate]
    rcases h.minted id with hnone | ⟨hid, hone, hst⟩
    · exact .inl hnone
    refine .inr ⟨hid, hone, ?_⟩
    rw [if_neg]
    · exact hst
    · rintro rfl
      cases hfree _ hst
  · intro c hc
    rw [hstate]
    rcases mem_append.1 hc with hc | hc
    · split
      · rfl
      · exact h.counted hc
    · cases mem_singleton.1 hc
      exact if_pos rfl
  · intro trx account x hmem
    exact h.reported (by simpa using hmem)

end Credited

/-! ### Steps -/

variable {s s' : State H} {ctx : Context reg H} {trx : SignedTransaction H}

theorem stateOf_free {t : AcquiredCrosschainIndex} {id : Text}
    (h : ∀ r ∈ t.find id, r.acquiredTransactionState = .acquiredTrxUncreate) :
    ∀ st ∈ stateOf t id, st = .acquiredTrxUncreate := by
  intro st hst
  obtain ⟨r, hr, rfl⟩ := map_eq_some_iff.1 hst
  exact h r hr

variable [DecidableEq H] [Inhabited H]

theorem applyOperation_credited {op : Operation H} (h : Credited reg s.acquired s.trace)
    (hdistinct : Distinct ctx s op) (happly : applyOperation ctx trx s op = some s') :
    Credited reg s'.acquired s'.trace := by
  cases htouch : op.touchesAcquired with
  | false =>
    have hframe := applyOperation_untouched htouch happly
    rw [hframe.acquired]
    exact h.congr hframe.credits fun _ _ _ hst => hst
  | true =>
    obtain ⟨s₁, hran, hpay⟩ := applyOperation_ran happly
    obtain ⟨_, hacquired, htrace, _⟩ := payFee_eq hpay
    rw [hacquired, htrace]
    cases hran with
    | @record o _ amount _ _ hchecked _ hamount hput hissues =>
      obtain ⟨hfree, hsymbol⟩ := hchecked hdistinct.1
      obtain ⟨hasset, m, hm⟩ := Context.amountFromString_eq hamount
      have hreported : Reported reg o.crossChainTrx amount := by
        refine ⟨?_, m, ?_⟩
        · rw [hasset, hsymbol]
        · rw [hasset, hm]
      rw [hissues.trace, hissues.acquired]
      exact h.mint hdistinct.2 hreported (stateOf_free hfree) (put_stateOf hput)
    | result hfree _ _ _ _ hput => exact h.count (stateOf_free hfree) (put_stateOf hput)
    | changeAcquire hop =>
      refine h.congr rfl ?_
      intro id st hst hstate
      rw [stateOf_modify, if_neg]
      · exact hstate
      · rintro rfl
        obtain ⟨hcreate, hconfirmed⟩ := hdistinct _ hop st hstate
        exact hst.elim hcreate hconfirmed
    | _ => cases htouch

/-- A transaction that fails in the middle credits nothing. -/
theorem step_credited {e : Event reg H} (h : Credited reg s.acquired s.trace)
    (hmeets : Meets Distinct s e) : Credited reg (step s e).acquired (step s e).trace := by
  cases e with
  | transaction ctx trx count =>
    simp only [step]
    cases happly : applyOperations ctx trx (trx.operations.take count) s with
    | none => exact h
    | some s' =>
      have hallowed := (hmeets (by rw [happly]; rfl)).eachAllowed
      rw [applyOperations_eq] at happly
      exact hallowed.invariant (fun s => Credited reg s.acquired s.trace) h
        (fun _ => applyOperation_credited) happly
  | noted trx =>
    simp only [step]
    split
    · exact h
    rename_i hnone
    cases hput : s.acquired.put trx trx.resultId .acquiredTrxUncreate with
    | none => exact h
    | some acquired =>
      have hstate : ∀ id st, st = .acquiredTrxCreate ∨ st = .acquiredTrxComfirmed →
          stateOf s.acquired id = some st → stateOf acquired id = some st := by
        intro id st _ hst
        rw [put_stateOf hput, if_neg]
        · exact hst
        · rintro rfl
          obtain ⟨r, hr, _⟩ := map_eq_some_iff.1 hst
          rw [hr] at hnone
          exact hnone rfl
      exact h.congr rfl hstate
  | notReported id =>
    refine h.congr rfl ?_
    intro k st hst hstate
    obtain ⟨r, hr, rfl⟩ := map_eq_some_iff.1 hstate
    -- only records in the first state are marked
    have hkept : ¬ (r.handleTrxId = id ∧ r.acquiredTransactionState = .acquiredTrxUncreate) := by
      rintro ⟨_, hfirst⟩
      rw [hfirst] at hst
      rcases hst with hst | hst <;> cases hst
    simp only [step, stateOf, Table.find_modifyWhere, hr, map_some, decide_eq_true_eq,
      if_neg hkept]

/-! ### Runs -/

/-- In every run in which deposits are evaluated and go by one id only, and only transactions
    that were neither credited nor counted are freed, at most one deposit is credited for an
    id, with the amount that was reported, and none for an id that was counted as a result. -/
theorem credited_once (h : RunUnder (fun ctx : Context reg H => Distinct ctx) State.Fresh s) :
    (∀ id, (mintedFor s.trace id).length ≤ 1) ∧
      (∀ {trx account x}, .minted trx account x ∈ s.trace → Reported reg trx x) ∧
      ∀ {trx id}, .counted trx ∈ s.trace → trx.Names id → mintedFor s.trace id = [] := by
  have hinv : Credited reg s.acquired s.trace := by
    refine h.invariant (fun s => Credited reg s.acquired s.trace) ?_ ?_
    · intro s hs
      rw [hs.trace]
      exact .empty
    · intro s e hs hmeets
      exact step_credited hs hmeets
  refine ⟨?_, hinv.reported, ?_⟩
  · intro id
    rcases hinv.minted id with hnone | ⟨_, ⟨x, hone⟩, _⟩
    · rw [hnone]
      exact Nat.zero_le 1
    · rw [hone]
      exact le_refl 1
  · intro trx id hcounted hnames
    rcases hinv.minted id with hnone | ⟨hid, _, hcreate⟩
    · exact hnone
    · have hst := hinv.counted hcounted
      rw [resultId_of_names hid hnames, hcreate] at hst
      cases hst

/-! ### A deposit that is credited twice -/

def sampleDeposit (id : TrxId) (trxId : Text) : Event sampleRegistry Bool :=
  sampleEvent id (.crosschainRecord ⟨⟨trxId, ['d'], ['m'], ['5'], eth⟩, sampleUser, 1⟩)

/-- The result of the withdrawal that `sampleSigned` signs. -/
def sampleResult : HdTrx := ⟨['t', '|', 'y'], ['m'], ['a'], ['5'], eth⟩

/-- Frees the transaction that the final signature `5` names. -/
def sampleChangeAcquire (id : TrxId) : Event sampleRegistry Bool :=
  sampleEvent id (.senatorChangeAcquireTrx ⟨sampleSenator, 0, 5, ⟨0, 0⟩⟩)

/-- A result is counted, and a deposit is reported twice. -/
def sampleCredited : List (Event sampleRegistry Bool) :=
  sampleSigned ++
    [sampleEvent 6 (.withdrawResult sampleResult), sampleDeposit 7 ['z'], sampleDeposit 8 ['z']]

/-- The second report of the deposit is rejected. -/
theorem deposit_credited_once :
    let s := sampleCredited.foldl step sampleState
    mintedFor s.trace ['z'] = [⟨5, 1⟩] ∧ mintedFor s.trace ['y'] = [] ∧
      ∀ id, (mintedFor s.trace id).length ≤ 1 := by
  intro s
  have hs : RunUnder (fun ctx : Context sampleRegistry Bool => Distinct ctx) State.Fresh s :=
    .of_checkRun (.start ⟨rfl, rfl, rfl⟩) (by decide +kernel)
  have hcounted : .counted sampleResult ∈ s.trace := by decide +kernel
  obtain ⟨honce, _, hnone⟩ := credited_once hs
  exact ⟨by decide +kernel, hnone hcounted (.inr (by decide)), honce⟩

/-- A transaction is noted, credited as a deposit, freed by a senator and credited again; and
    an id that was counted as a result is credited as a deposit. -/
theorem credited_again :
    sampleState.Fresh ∧
      (let s := (sampleSigned ++
        [.noted sampleResult, sampleDeposit 6 ['y'], sampleChangeAcquire 7,
          sampleDeposit 8 ['y']]).foldl step sampleState
      mintedFor s.trace ['y'] = [⟨5, 1⟩, ⟨5, 1⟩]) ∧
      let s := (sampleSigned ++
        [sampleEvent 6 (.withdrawResult sampleResult),
          sampleDeposit 7 sampleResult.trxId]).foldl step sampleState
      .counted sampleResult ∈ s.trace ∧ mintedFor s.trace sampleResult.trxId = [⟨5, 1⟩] := by
  refine ⟨⟨rfl, rfl, rfl⟩, ?_, ?_⟩
  all_goals decide +kernel

end HyperExchange.Crosschain
