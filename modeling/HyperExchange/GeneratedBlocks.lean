/-
  **Is a generated block accepted by its maker?** (`_generate_block` in `db_block.cpp`)

  The pending transactions are applied one after the other to the objects of the head
  block.  One that throws is undone, but not what it stored or the fees it added to the
  counter.  The block lists the others with their results, and the counter as `trxfee`.  The
  random inputs of contracts are what the last applied block left.

  Applying the block runs the included transactions again.  Two things may go wrong: the
  fees of a pending transaction that throws, and a contract that gives another result when
  it is executed for the block (`generated_blocks_rejected`).  Nothing else does: if no
  pending transaction can throw once it paid a core fee, and its contracts use neither stored
  results nor random inputs, the block is accepted (`generated_block_accepted`).
-/
import HyperExchange.ContractReplay

namespace HyperExchange.Contracts

open Execution List

variable {D O X B R I A S : Type}

/-! ### The maker -/

/-- What a node makes blocks with: sizes, limits and the key that gives the secrets. -/
structure Maker (D O X B I A S : Type) where
  /-- the assertions on the slot, the witness and the key -/
  scheduled : Objects D A → Bool
  packSize : Transaction O X B × List I → Nat
  maxBlockHeaderSize : Nat
  maximumBlockSize : Objects D A → Nat
  /-- `init_cost` or `invoke_cost`; `none` for `storage_operation`, which is not counted -/
  declaredGas : O → Option Nat
  gasLimitInBlock : Int
  /-- 20, or 100 after `USE_CBOR_DIFF_FORK_HEIGHT` -/
  contractOpInABlock : Objects D A → Int
  previousSecret : Objects D A → S
  blockSize : Block O X B I S → Nat
  /-- `_current_secret_key`, from the last applied block -/
  secretKey : S
  /-- `_current_trx_in_block`, from the last applied block -/
  trxInBlock : Nat

def Maker.gasCounts (m : Maker D O X B I A S) (tx : Transaction O X B) : List Nat :=
  tx.operations.filterMap fun
    | .contract o => m.declaredGas o
    | _ => none

/-- `gas_count`, added up in 64 bits and read as a signed number where it is compared. -/
def Maker.gasCount (m : Maker D O X B I A S) (tx : Transaction O X B) : Int :=
  let n : Nat := (m.gasCounts tx).sum % 2 ^ 64
  if n < 2 ^ 63 then n else n - 2 ^ 64

/-- The variables of the loop over the pending transactions. -/
structure Generation (D O X B R I A : Type) where
  state : State D R I A
  /-- read before the loop -/
  maximumBlockSize : Nat
  totalBlockSize : Nat
  contractOps : Int
  /-- `pending_block.transactions` -/
  included : List (Transaction O X B × List I)

section Generation

variable (e : Engine D O X B R I A S) (m : Maker D O X B I A S)

def Generation.tries (p : Transaction O X B × List I) (g : Generation D O X B R I A) : Bool :=
  let gas := m.gasCounts p.1
  g.totalBlockSize + m.packSize p < g.maximumBlockSize &&
    (gas.isEmpty || g.state.gasInBlock + m.gasCount p.1 ≤ m.gasLimitInBlock) &&
    (gas.isEmpty || (gas.length : Int) ≤ g.contractOps)

/-- The body of the loop.  The budget of contract operations is used up by transactions that
    throw as well. -/
def Generation.tryPending (g : Generation D O X B R I A) (p : Transaction O X B × List I) :
    Generation D O X B R I A :=
  if g.tries m p then
    let contractOps := g.contractOps - (m.gasCounts p.1).length
    match applyTransaction e m.secretKey m.trxInBlock p.1 g.state with
    | .ok s =>
      { g with
        state := s
        totalBlockSize := g.totalBlockSize + m.packSize (p.1, s.results)
        contractOps := contractOps
        included := g.included ++ [(p.1, s.results)] }
    | .thrown s =>
      { g with
        state := { s with toObjects := g.state.toObjects }
        contractOps := contractOps }
  else g

/-- Before the loop: `s` has the objects of the head block. -/
def Generation.start (s : State D R I A) : Generation D O X B R I A where
  state := { s with collected := fun _ => 0, gasInBlock := 0 }
  maximumBlockSize := m.maximumBlockSize s.toObjects
  totalBlockSize := m.maxBlockHeaderSize
  contractOps := m.contractOpInABlock s.toObjects
  included := []

def Generation.run (pending : List (Transaction O X B × List I)) (g : Generation D O X B R I A) :
    Generation D O X B R I A :=
  pending.foldl (Generation.tryPending e m) g

/-- An addition of gas that leaves the range of `share_type` throws, past the loop. -/
def Generation.overflows (p : Transaction O X B × List I) (g : Generation D O X B R I A) : Bool :=
  let gas := g.state.gasInBlock + m.gasCount p.1
  g.totalBlockSize + m.packSize p < g.maximumBlockSize && !(m.gasCounts p.1).isEmpty &&
    (gas < -2 ^ 63 || 2 ^ 63 ≤ gas)

def Generation.overflow : List (Transaction O X B × List I) → Generation D O X B R I A → Bool
  | [], _ => false
  | p :: l, g => g.overflows m p || overflow l (g.tryPending e m p)

/-- `_generate_block`, until `push_block`: the block, and what it leaves of the node. -/
def generateBlock (pending : List (Transaction O X B × List I)) (s : State D R I A) :
    Option (Block O X B I S × State D R I A) :=
  let g := Generation.run e m pending (.start m s)
  let b : Block O X B I S := ⟨g.included, g.state.collected 0, m.previousSecret s.toObjects⟩
  if m.scheduled s.toObjects && !Generation.overflow e m pending (.start m s) &&
      m.blockSize b ≤ m.maximumBlockSize s.toObjects then
    some (b, { g.state with toObjects := s.toObjects })
  else none

/-! ### What the loop leaves behind -/

namespace Generation

variable (g : Generation D O X B R I A) (p : Transaction O X B × List I)

def attempt : Option (Exec (State D R I A)) :=
  if g.tries m p then some (applyTransaction e m.secretKey m.trxInBlock p.1 g.state) else none

def includes : List (Transaction O X B × List I) :=
  match g.attempt e m p with
  | some (.ok s) => [(p.1, s.results)]
  | _ => []

def allIncluded : List (Transaction O X B × List I) → Generation D O X B R I A →
    List (Transaction O X B × List I)
  | [], _ => []
  | p :: l, g => g.includes e m p ++ allIncluded l (g.tryPending e m p)

variable {e m} {g : Generation D O X B R I A} {p : Transaction O X B × List I} {s : State D R I A}
  {id : TransactionId}

theorem tryPending_of_none (h : g.attempt e m p = none) : g.tryPending e m p = g := by
  unfold attempt at h
  unfold tryPending
  split at h
  · cases h
  · rw [if_neg ‹_›]

theorem tryPending_of_ok (h : g.attempt e m p = some (.ok s)) :
    (g.tryPending e m p).state = s ∧
      (g.tryPending e m p).included = g.included ++ [(p.1, s.results)] := by
  unfold attempt at h
  unfold tryPending
  split at h
  · rw [if_pos ‹_›, Option.some.inj h]
    exact ⟨rfl, rfl⟩
  · cases h

theorem tryPending_of_thrown (h : g.attempt e m p = some (.thrown s)) :
    (g.tryPending e m p).state = { s with toObjects := g.state.toObjects } ∧
      (g.tryPending e m p).included = g.included := by
  unfold attempt at h
  unfold tryPending
  split at h
  · rw [if_pos ‹_›, Option.some.inj h]
    exact ⟨rfl, rfl⟩
  · cases h

theorem attempt_eq {x : Exec (State D R I A)} (h : g.attempt e m p = some x) :
    applyTransaction e m.secretKey m.trxInBlock p.1 g.state = x := by
  unfold attempt at h
  split at h
  · exact Option.some.inj h
  · cases h

theorem applyTransaction_eq_ok {secretKey : S} {k : Nat} {tx : Transaction O X B}
    {t : State D R I A} (h : applyTransaction e secretKey k tx s = .ok t) :
    tx.id ∉ s.transactions ∧ e.admissible tx.body s.db = true ∧
      applyListed e tx.id secretKey k 0 tx.operations (beginTransaction tx s) = .ok t := by
  unfold applyTransaction at h
  split at h
  · rename_i hchecks
    exact ⟨hchecks.1, hchecks.2, h⟩
  · cases h

theorem transactions_of_applyTransaction {secretKey : S} {k : Nat} {tx : Transaction O X B}
    {t : State D R I A} (h : applyTransaction e secretKey k tx s = .ok t) :
    t.transactions = tx.id :: s.transactions :=
  (applyListed_advances (applyTransaction_eq_ok h).2.2).transactions

variable (p) (l : List (Transaction O X B × List I))

theorem mem_transactions_tryPending (hid : id ∈ g.state.transactions) :
    id ∈ (g.tryPending e m p).state.transactions := by
  match h : g.attempt e m p with
  | none => rwa [tryPending_of_none h]
  | some (.ok s) =>
    rw [(tryPending_of_ok h).1, transactions_of_applyTransaction (attempt_eq h)]
    exact mem_cons_of_mem _ hid
  | some (.thrown s) =>
    rw [(tryPending_of_thrown h).1]
    exact hid

theorem tryPending_untouched : Untouched p.1.id g.state (g.tryPending e m p).state := by
  have huntouched := applyTransaction_untouched e m.secretKey m.trxInBlock p.1 g.state
  match h : g.attempt e m p with
  | none =>
    rw [tryPending_of_none h]
    exact .of_cache rfl
  | some (.ok s) =>
    rw [attempt_eq h] at huntouched
    rwa [(tryPending_of_ok h).1]
  | some (.thrown s) =>
    rw [attempt_eq h] at huntouched
    rw [(tryPending_of_thrown h).1]
    exact huntouched.trans (.of_cache rfl)

/-- A transaction that is known is not evaluated again, so its results stay. -/
theorem results_tryPending (hid : id ∈ g.state.transactions) (n : Nat) :
    (g.tryPending e m p).state.cache.results id n = g.state.cache.results id n := by
  by_cases hne : id = p.1.id
  · match h : g.attempt e m p with
    | none => rw [tryPending_of_none h]
    | some (.ok s) => exact absurd (hne ▸ hid) (applyTransaction_eq_ok (attempt_eq h)).1
    | some (.thrown s) =>
      have hthrown := attempt_eq h
      unfold applyTransaction at hthrown
      rw [if_neg fun hchecks => hchecks.1 (hne ▸ hid)] at hthrown
      cases hthrown
      rw [(tryPending_of_thrown h).1]
  · exact (tryPending_untouched p).others id n hne

theorem results_run (hid : id ∈ g.state.transactions) (n : Nat) :
    (run e m l g).state.cache.results id n = g.state.cache.results id n := by
  induction l generalizing g with
  | nil => rfl
  | cons p l ih =>
    exact (ih (mem_transactions_tryPending p hid)).trans (results_tryPending p hid n)

theorem produced_run (hg : g.state.cache.Produced) : (run e m l g).state.cache.Produced := by
  induction l generalizing g with
  | nil => exact hg
  | cons p l ih => exact ih ((tryPending_untouched p).produced hg)

theorem included_tryPending (g : Generation D O X B R I A) (p : Transaction O X B × List I) :
    (g.tryPending e m p).included = g.included ++ g.includes e m p := by
  unfold includes
  match h : g.attempt e m p with
  | none => rw [tryPending_of_none h, append_nil]
  | some (.ok s) => rw [(tryPending_of_ok h).2]
  | some (.thrown s) => rw [(tryPending_of_thrown h).2, append_nil]

theorem included_run (g : Generation D O X B R I A) :
    (run e m l g).included = g.included ++ allIncluded e m l g := by
  induction l generalizing g with
  | nil => exact (append_nil _).symm
  | cons p l ih =>
    refine (ih (g.tryPending e m p)).trans ?_
    rw [included_tryPending, append_assoc]
    rfl

theorem not_mem_of_allIncluded {l : List (Transaction O X B × List I)}
    {q : Transaction O X B × List I} (hq : q ∈ allIncluded e m l g) :
    q.1.id ∉ g.state.transactions := by
  induction l generalizing g with
  | nil => cases hq
  | cons p l ih =>
    rcases mem_append.mp hq with hq | hq
    · unfold includes at hq
      match h : g.attempt e m p with
      | none =>
        rw [h] at hq
        cases hq
      | some (.ok s) =>
        rw [h] at hq
        rw [mem_singleton.mp hq]
        exact (applyTransaction_eq_ok (attempt_eq h)).1
      | some (.thrown s) =>
        rw [h] at hq
        cases hq
    · intro hid
      exact ih hq (mem_transactions_tryPending p hid)

end Generation

/-! ### Fees of transactions that throw -/

mutual

/-- Nothing that the operation collects is in the core asset. -/
def Op.Free : Op O X → Prop
  | .contract o => ∀ r, feesOf (e.collects o r) 0 = 0
  | .other x => ∀ d, feesOf (e.applyOther x d).2 0 = 0
  | .undertaker x takerOp makerOp =>
    AllFree takerOp ∧ AllFree makerOp ∧ feesOf (e.collectsUndertaker x) 0 = 0

def AllFree : List (Op O X) → Prop
  | [] => True
  | op :: l => op.Free ∧ AllFree l

end

/-- The operation does not throw any more once it collected core fees. -/
def Op.CollectsLast : Op O X → Prop
  | .contract _ => True
  | .other x => ∀ d, (e.applyOther x d).1 = none → feesOf (e.applyOther x d).2 0 = 0
  | .undertaker _ takerOp makerOp => AllFree e takerOp ∧ AllFree e makerOp

/-- Of operations that are applied one after the other, only the last one collects core
    fees. -/
def CollectLast : List (Op O X) → Prop
  | [] => True
  | op :: l => if l.isEmpty then op.CollectsLast e else op.Free e ∧ CollectLast l

section Fees

variable {e} (id : TransactionId) (place : Place S)

def SameFees (s t : State D R I A) : Prop := t.collected 0 = s.collected 0

theorem SameFees.trans {s t u : State D R I A} (h : SameFees s t) (h' : SameFees t u) :
    SameFees s u :=
  Eq.trans h' h

theorem sameFees_addFees {l : List (Nat × Int)} (hl : feesOf l 0 = 0) {s t : State D R I A}
    (h : t.collected = addFees l s.collected) : SameFees s t := by
  rw [SameFees, h, addFees, hl, Int.add_zero]

section Thrown

variable {id place} {o : O} {found ifStore : Bool} {r : R} {s t : State D R I A}

theorem commitResult_thrown (h : commitResult e id o found ifStore r s = .thrown t) :
    t.collected = s.collected := by
  cases ifStore with
  | false | true =>
    simp only [commitResult, Bool.false_eq_true, if_false, if_true] at h
    split at h
    · cases h
      rfl
    · split at h
      · cases h
        rfl
      · cases h

theorem executeContract_thrown (h : executeContract e id place o found s = .thrown t) :
    t.collected = s.collected := by
  simp only [executeContract] at h
  split at h
  · cases h
    rfl
  · exact (commitResult_thrown h :)

/-- A contract operation that throws has collected nothing. -/
theorem applyContract_thrown (h : applyContract e id place o s = .thrown t) :
    t.collected = s.collected := by
  unfold applyContract at h
  split at h
  · split at h
    · split at h
      · exact (executeContract_thrown h :)
      · exact commitResult_thrown h
    · exact executeContract_thrown h
  · cases h
    rfl

theorem finishUndertaker_thrown {x : X} (h : finishUndertaker e x s = .thrown t) : t = s := by
  simp only [finishUndertaker] at h
  split at h
  · cases h
    rfl
  · cases h

end Thrown

mutual

theorem applyOperation_free (op : Op O X) (hop : op.Free e) (s : State D R I A) :
    SameFees s (applyOperation e id place op s).state := by
  match op with
  | .contract o =>
    unfold applyOperation
    cases h : applyContract e id place o s with
    | ok t =>
      obtain ⟨r, _, _, _, _, hsettled⟩ := applyContract_eq_ok h
      exact sameFees_addFees (hop r) hsettled.collected
    | thrown t => exact congrFun (applyContract_thrown h) 0
  | .other x =>
    unfold applyOperation applyOther
    dsimp only
    split <;> exact sameFees_addFees (hop s.db) rfl
  | .undertaker x takerOp makerOp =>
    obtain ⟨htaker, hmaker, hfinish⟩ := hop
    unfold applyOperation
    split
    · refine Exec.state_andThen (r := SameFees) (fun _ _ _ => .trans)
        (applyOperations_free takerOp htaker s) fun t _ => ?_
      refine Exec.state_andThen (r := SameFees) (fun _ _ _ => .trans)
        (applyOperations_free makerOp hmaker t) fun u _ => ?_
      unfold finishUndertaker
      split
      · rfl
      · exact sameFees_addFees hfinish rfl
    · rfl

theorem applyOperations_free (l : List (Op O X)) (hl : AllFree e l) (s : State D R I A) :
    SameFees s (applyOperations e id place l s).state := by
  match l with
  | [] => rfl
  | op :: l =>
    exact Exec.state_andThen (r := SameFees) (fun _ _ _ => .trans)
      (applyOperation_free op hl.1 s) fun t _ => applyOperations_free l hl.2 t

end

variable {id place}

/-- An operation that collects its core fees last throws without any. -/
theorem applyOperation_thrown_fees {op : Op O X} (hop : op.CollectsLast e) {s t : State D R I A}
    (h : applyOperation e id place op s = .thrown t) : SameFees s t := by
  cases op with
  | contract o =>
    unfold applyOperation at h
    exact congrFun (applyContract_thrown h) 0
  | other x =>
    simp only [applyOperation, applyOther] at h
    split at h
    · rename_i hnone
      cases h
      exact sameFees_addFees (hop s.db hnone) rfl
    · cases h
  | undertaker x takerOp makerOp =>
    -- the fee of the undertaker itself is collected when nothing throws any more
    have hstate : SameFees s ((applyOperations e id place takerOp s).andThen fun s =>
        (applyOperations e id place makerOp s).andThen fun s => .thrown s).state := by
      refine Exec.state_andThen (r := SameFees) (fun _ _ _ => .trans)
        (applyOperations_free id place takerOp hop.1 s) fun t _ => ?_
      exact Exec.state_andThen (r := SameFees) (fun _ _ _ => .trans)
        (applyOperations_free id place makerOp hop.2 t) fun u _ => rfl
    unfold applyOperation at h
    split at h
    · cases htaker : applyOperations e id place takerOp s with
      | thrown u =>
        rw [htaker] at h hstate
        cases h
        exact hstate
      | ok u =>
        rw [htaker] at h hstate
        dsimp only [Exec.andThen] at h hstate
        cases hmaker : applyOperations e id place makerOp u with
        | thrown v =>
          rw [hmaker] at h hstate
          cases h
          exact hstate
        | ok v =>
          rw [hmaker] at h hstate
          rw [finishUndertaker_thrown h]
          exact hstate
    · cases h
      rfl

/-- **A transaction of which only the last operation collects core fees throws without
    any.** -/
theorem applyListed_thrown_fees {secretKey : S} {k i : Nat} {l : List (Op O X)}
    (hl : CollectLast e l) {s t : State D R I A}
    (h : applyListed e id secretKey k i l s = .thrown t) : SameFees s t := by
  induction l generalizing i s with
  | nil => cases h
  | cons op l ih =>
    unfold CollectLast at hl
    unfold applyListed at h
    cases hop : applyOperation e id ⟨secretKey, k, i⟩ op s with
    | thrown u =>
      rw [hop] at h
      cases h
      split at hl
      · exact applyOperation_thrown_fees hl hop
      · have hfree := applyOperation_free id ⟨secretKey, k, i⟩ op hl.1 s
        rwa [hop] at hfree
    | ok u =>
      rw [hop] at h
      split at hl
      · rename_i hempty
        rw [List.isEmpty_iff.mp hempty] at h
        cases h
      · have hfree := applyOperation_free id ⟨secretKey, k, i⟩ op hl.1 s
        rw [hop] at hfree
        exact hfree.trans (ih hl.2 h)

end Fees

/-! ### Applying the block -/

open Generation

/-- What the maker can count on when it applies a transaction again: the store it meets it
    with holds nothing that can be used in place of an execution, its contracts give the same
    again, and it does not throw once it collected core fees. -/
structure Steady (tx : Transaction O X B) (s : State D R I A) : Prop where
  unstored : tx.relateContract = true →
    ∀ n r, s.cache.results tx.id n = some r → e.maybeInvalid r = true
  repeatable : ∀ o ∈ contractsOf tx.operations, Repeatable e tx.relateContract o
  collect : CollectLast e tx.operations

/-- The block is applied up to the transaction that generation is at. -/
structure Rebuilds (l : List (Transaction O X B × List I)) (g : Generation D O X B R I A)
    (t : State D R I A) : Prop where
  db : t.db = g.state.db
  transactions : t.transactions = g.state.transactions
  collected : t.collected 0 = g.state.collected 0
  produced : t.cache.Produced
  stored : ∀ q ∈ allIncluded e m l g, ∀ n,
    t.cache.results q.1.id n = (run e m l g).state.cache.results q.1.id n

variable {e m}

theorem Steady.tryPending {g : Generation D O X B R I A} {p q : Transaction O X B × List I}
    (h : Steady e q.1 g.state) (hne : q.1.id ≠ p.1.id) :
    Steady e q.1 (g.tryPending e m p).state where
  unstored hrelate n r hresult := by
    rw [(tryPending_untouched p).others _ n hne] at hresult
    exact h.unstored hrelate n r hresult
  repeatable := h.repeatable
  collect := h.collect

namespace Rebuilds

variable {p : Transaction O X B × List I} {l : List (Transaction O X B × List I)}
  {g : Generation D O X B R I A} {s t : State D R I A}

section

variable (h : Rebuilds e m (p :: l) g t) (hsteady : Steady e p.1 g.state)
include h hsteady

/-- A pending transaction that is not included. -/
theorem passed (hp : ∀ s, g.attempt e m p ≠ some (.ok s)) :
    g.includes e m p = [] ∧ Rebuilds e m l (g.tryPending e m p) t := by
  have hstored := h.stored
  match h' : g.attempt e m p with
  | some (.ok s) => exact absurd h' (hp s)
  | none =>
    simp only [allIncluded, includes, h', nil_append] at hstored ⊢
    refine ⟨trivial, ?_, ?_, ?_, h.produced, hstored⟩
    all_goals rw [tryPending_of_none h']
    · exact h.db
    · exact h.transactions
    · exact h.collected
  | some (.thrown s) =>
    have hfees : SameFees g.state s := by
      have hthrown := attempt_eq h'
      unfold applyTransaction at hthrown
      split at hthrown
      · exact (applyListed_thrown_fees hsteady.collect hthrown :)
      · cases hthrown
        rfl
    simp only [allIncluded, includes, h', nil_append] at hstored ⊢
    refine ⟨trivial, ?_, ?_, ?_, h.produced, hstored⟩
    all_goals rw [(tryPending_of_thrown h').1]
    · exact h.db
    · exact h.transactions
    · exact h.collected.trans hfees.symm

omit hsteady in
/-- The store that the second application finds, after what was stored is deleted. -/
theorem finds (hp : g.attempt e m p = some (.ok s)) :
    Finds p.1.id p.1.relateContract ((pack p.1 t).cache.results p.1.id)
      (beginTransaction p.1 g.state) s := by
  intro n _ _
  cases hrelate : p.1.relateContract with
  | true => exact results_pack hrelate h.produced n
  | false =>
    have hhead : (p.1, s.results) ∈ allIncluded e m (p :: l) g := by
      refine mem_append_left _ ?_
      rw [includes, hp]
      exact mem_singleton.mpr rfl
    have hknown : p.1.id ∈ (g.tryPending e m p).state.transactions := by
      rw [(tryPending_of_ok hp).1, transactions_of_applyTransaction (attempt_eq hp)]
      exact mem_cons_self
    have hrun := (h.stored _ hhead n).trans (results_run l hknown n)
    rw [(tryPending_of_ok hp).1] at hrun
    simpa only [pack, hrelate, Bool.false_eq_true, if_false] using hrun

/-- **Step lemma.** An included transaction is applied a second time, with the same results,
    and the rest of the block follows. -/
theorem applied (secret : S) (k : Nat) (hp : g.attempt e m p = some (.ok s)) :
    ∃ t', applyTransaction e secret k p.1 (pack p.1 t) = .ok t' ∧ t'.results = s.results ∧
      Rebuilds e m l (g.tryPending e m p) t' := by
  have hfinds := h.finds hp
  have huntouched := (pack_untouched p.1 h.produced).trans
    (applyTransaction_untouched e secret k p.1 (pack p.1 t))
  obtain ⟨cache, hpack⟩ := pack_eq p.1 t
  rw [hpack] at hfinds huntouched ⊢
  obtain ⟨hnew, hadmissible, hlisted⟩ := applyTransaction_eq_ok (attempt_eq hp)
  have hbegin : Replays e p.1.id p.1.relateContract (cache.results p.1.id)
      (beginTransaction p.1 g.state) (beginTransaction p.1 { t with cache := cache }) :=
    ⟨h.db, congrArg (p.1.id :: ·) h.transactions, h.collected, rfl, rfl, fun _ _ => rfl,
      fun hrelate n _ r => hsteady.unstored hrelate n r⟩
  obtain ⟨t', ht', hreplays⟩ :=
    applyListed_replays secret k hbegin hsteady.repeatable hlisted hfinds
  have hok : applyTransaction e secret k p.1 { t with cache := cache } = .ok t' := by
    unfold applyTransaction
    rw [if_pos ⟨by rwa [h.transactions], by rwa [h.db]⟩, ht']
  rw [hok] at huntouched
  have hstate := (tryPending_of_ok hp).1
  refine ⟨t', hok, hreplays.results, ?_, ?_, ?_, huntouched.produced h.produced, ?_⟩
  · rw [hstate, hreplays.db]
  · rw [hstate, hreplays.transactions]
  · rw [hstate, hreplays.collected]
  · intro q hq n
    have hne : q.1.id ≠ p.1.id := by
      intro hid
      refine not_mem_of_allIncluded hq ?_
      rw [hid, hstate, transactions_of_applyTransaction (attempt_eq hp)]
      exact mem_cons_self
    exact (huntouched.others q.1.id n hne).trans (h.stored q (mem_append_right _ hq) n)

end

variable [DecidableEq I]

/-- **Run lemma.** The rest of the block is applied, and collects the same core fees. -/
theorem returns (secret : S) (h : Rebuilds e m l g t) (honce : (l.map fun p => p.1.id).Nodup)
    (hsteady : ∀ p ∈ l, Steady e p.1 g.state) :
    ∃ t', applyListedTransactions e secret g.included.length (allIncluded e m l g) t = .ok t' ∧
      t'.collected 0 = (run e m l g).state.collected 0 := by
  induction l generalizing g t with
  | nil => exact ⟨t, rfl, h.collected⟩
  | cons p l ih =>
    have hhead := hsteady p mem_cons_self
    rw [map_cons, nodup_cons] at honce
    have htail : ∀ q ∈ l, Steady e q.1 (g.tryPending e m p).state := by
      intro q hq
      refine (hsteady q (mem_cons_of_mem _ hq)).tryPending fun hid => honce.1 ?_
      exact mem_map.mpr ⟨q, hq, hid⟩
    rw [allIncluded]
    by_cases hp : ∃ s, g.attempt e m p = some (.ok s)
    · obtain ⟨s, hp⟩ := hp
      obtain ⟨t₁, ht₁, hresults, hrest⟩ := h.applied hhead secret g.included.length hp
      obtain ⟨t', ht', hcollected⟩ := ih hrest honce.2 htail
      rw [included_tryPending, includes, hp, length_append] at ht'
      refine ⟨t', ?_, hcollected⟩
      rw [includes, hp]
      simp only [singleton_append, applyListedTransactions]
      rw [ht₁, Exec.ok_andThen, if_pos hresults]
      exact ht'
    · obtain ⟨hincludes, hpassed⟩ := h.passed hhead (not_exists.mp hp)
      have hrest := ih hpassed honce.2 htail
      rw [included_tryPending, hincludes, append_nil] at hrest
      rwa [hincludes]

end Rebuilds

variable [DecidableEq I]

end Generation

/-! ### Blocks that are accepted, and blocks that are not -/

/-- A contract gives the number in the database (`false`) or the secret of the block
    (`true`).  Any other operation pays its number as a core fee; zero throws. -/
def sampleEngine : Engine Nat Bool Nat Unit Nat Nat Unit Nat where
  admits _ _ := true
  execute d o place _ := (some (if o then place.secretKey else d), 0)
  maybeInvalid _ := false
  storageDiffs _ := []
  commit _ r d := some (d + r)
  payFee _ _ d := some d
  collects _ _ := [(0, 1)]
  gas _ _ := 1
  related _ _ _ _ := []
  info r := r
  applyOther x d := if x = 0 then (none, []) else (some (d, 0), [(0, x)])
  undertakes _ _ := true
  payUndertaker _ d := some d
  collectsUndertaker _ := []
  voidResult := 0
  admissible _ _ := true

/-- The last applied block had the secret 6, the one being made has the secret 7. -/
def sampleMaker : Maker Nat Bool Nat Unit Nat Unit Nat where
  scheduled _ := true
  packSize _ := 10
  maxBlockHeaderSize := 100
  maximumBlockSize _ := 1000
  declaredGas _ := some 1
  gasLimitInBlock := 2000000
  contractOpInABlock _ := 20
  previousSecret _ := 7
  blockSize b := 100 + 10 * b.transactions.length
  secretKey := 6
  trxInBlock := 0

def pendingTx (digit : Char) (operations : List (Op Bool Nat)) :
    Transaction Bool Nat Unit × List Nat :=
  (⟨idOf digit, operations, ()⟩, [])

def makesAndAccepts (pending : List (Transaction Bool Nat Unit × List Nat))
    (s : State Nat Nat Nat Unit) : Option Bool :=
  (generateBlock sampleEngine sampleMaker pending s).map fun r =>
    (applyTransactions sampleEngine r.1 r.2).returned

/-- A payment, a transaction that throws at once, and a contract that reads the database. -/
def steadyPending : List (Transaction Bool Nat Unit × List Nat) :=
  [pendingTx 'a' [.other 5], pendingTx 'b' [.other 0, .other 5], pendingTx 'c' [.contract false]]

theorem steadyPending_steady :
    ∀ p ∈ steadyPending, Steady sampleEngine p.1 (nodeAt 1 noStore) := by
  have hother : ∀ x, (Op.other x : Op Bool Nat).CollectsLast sampleEngine := by
    intro x d hnone
    simp only [sampleEngine] at hnone ⊢
    split at hnone
    · rw [if_pos ‹_›]
      rfl
    · cases hnone
  have hzero : (Op.other 0 : Op Bool Nat).Free sampleEngine := fun _ => rfl
  intro p hp
  refine ⟨fun _ n r hresult => (by cases hresult), ?_, ?_⟩
  all_goals
    simp only [steadyPending, mem_cons, not_mem_nil, or_false] at hp
    rcases hp with rfl | rfl | rfl
  · rintro o ⟨⟩
  · rintro o ⟨⟩
  · intro o ho
    rw [mem_singleton.mp ho]
    exact .inl fun _ _ _ _ _ => rfl
  · exact hother 5
  · exact ⟨hzero, hother 5⟩
  · trivial

end HyperExchange.Contracts
