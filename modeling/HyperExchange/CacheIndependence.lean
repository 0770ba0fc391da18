/-
  **Applying a block does not depend on stored contract results.**

  Before a transaction that lists a contract operation is applied, `contract_packed` deletes
  what is stored for it.  Two nodes with the same object database therefore stay together,
  whatever their stores hold (`same_outcome`).  Contract operations inside an undertaker are
  not looked for: a node that evaluated such a transaction earlier, against another state,
  applies it differently (`wrapped_contract_taken_from_store`).
-/
import HyperExchange.ContractRuns

namespace HyperExchange.Contracts

open Execution

variable {D O X B R I A S : Type} {s : State D R I A}

/-! ### What the operations of a transaction keep -/

mutual

def Op.hasContract : Op O X → Bool
  | .contract _ => true
  | .other _ => false
  | .undertaker _ takerOp makerOp => hasContracts takerOp || hasContracts makerOp

def hasContracts : List (Op O X) → Bool
  | [] => false
  | op :: l => op.hasContract || hasContracts l

end

theorem hasContracts_cons_imp {c : Prop} {op : Op O X} {l : List (Op O X)}
    (h : hasContracts (op :: l) = true → c) :
    (op.hasContract = true → c) ∧ (hasContracts l = true → c) :=
  ⟨fun hop => h (by simp only [hasContracts, hop, Bool.true_or]),
    fun hl => h (by simp only [hasContracts, hl, Bool.or_true])⟩

theorem hasContract_undertaker_imp {c : Prop} {x : X} {takerOp makerOp : List (Op O X)}
    (h : (Op.undertaker x takerOp makerOp : Op O X).hasContract = true → c) :
    (hasContracts takerOp = true → c) ∧ (hasContracts makerOp = true → c) :=
  ⟨fun ht => h (by simp only [Op.hasContract, ht, Bool.true_or]),
    fun hm => h (by simp only [Op.hasContract, hm, Bool.or_true])⟩

/-- A relation between the state before a call and its outcome that holds of the evaluators,
    and of a sequence of calls if it holds of each.  `c` is what is known where a contract is
    executed. -/
structure Kept (e : Engine D O X B R I A S) (id : TransactionId) (c : Prop)
    (q : State D R I A → Exec (State D R I A) → Prop) : Prop where
  ok : ∀ s, q s (.ok s)
  thrown : ∀ s, q s (.thrown s)
  andThen : ∀ {s x f}, q s x → (∀ t, q t (f t)) → q s (x.andThen f)
  contract : c → ∀ place o s, q s (applyContract e id place o s)
  other : ∀ x s, q s (applyOther e x s)
  finish : ∀ x s, q s (finishUndertaker e x s)

namespace Kept

variable {e : Engine D O X B R I A S} {id : TransactionId} {c : Prop}
  {q : State D R I A → Exec (State D R I A) → Prop}

mutual

theorem applyOperation (hq : Kept e id c q) (place : Place S) (op : Op O X)
    (hop : op.hasContract = true → c) (s : State D R I A) :
    q s (applyOperation e id place op s) := by
  match op with
  | .contract o => exact hq.contract (hop rfl) place o s
  | .other x => exact hq.other x s
  | .undertaker x takerOp makerOp =>
    obtain ⟨htaker, hmaker⟩ := hasContract_undertaker_imp hop
    unfold Contracts.applyOperation
    split
    · refine hq.andThen (applyOperations hq place takerOp htaker s) fun t => ?_
      refine hq.andThen (applyOperations hq place makerOp hmaker t) fun u => ?_
      exact hq.finish x u
    · exact hq.thrown s

theorem applyOperations (hq : Kept e id c q) (place : Place S) (l : List (Op O X))
    (hl : hasContracts l = true → c) (s : State D R I A) :
    q s (applyOperations e id place l s) := by
  match l with
  | [] => exact hq.ok s
  | op :: l =>
    obtain ⟨hop, hrest⟩ := hasContracts_cons_imp hl
    exact hq.andThen (applyOperation hq place op hop s) fun t => applyOperations hq place l hrest t

end

theorem applyListed (hq : Kept e id c q) (secretKey : S) (k i : Nat) {l : List (Op O X)}
    (hl : hasContracts l = true → c) (s : State D R I A) :
    q s (applyListed e id secretKey k i l s) := by
  induction l generalizing i s with
  | nil => exact hq.ok s
  | cons op l ih =>
    obtain ⟨hop, hrest⟩ := hasContracts_cons_imp hl
    exact hq.andThen (hq.applyOperation _ op hop s) fun t => ih (i + 1) hrest t

end Kept

/-! ### Transactions only touch their own results -/

/-- The store is changed by its own calls, and the results of other transactions are the
    same. -/
structure Untouched (id : TransactionId) (s t : State D R I A) : Prop where
  produced : s.cache.Produced → t.cache.Produced
  others : ∀ id' n, id' ≠ id → t.cache.results id' n = s.cache.results id' n

namespace Untouched

variable {id : TransactionId} {s t u : State D R I A}

theorem of_cache (h : t.cache = s.cache) : Untouched id s t :=
  ⟨fun hs => h ▸ hs, fun _ _ _ => by rw [h]⟩

theorem trans (h : Untouched id s t) (h' : Untouched id t u) : Untouched id s u :=
  ⟨fun hs => h'.produced (h.produced hs), fun id' n hne =>
    (h'.others id' n hne).trans (h.others id' n hne)⟩

/-- Storing a result of the transaction touches no other. -/
theorem store (n : Nat) (r : R) : Untouched id s
    { s with cache := s.cache.storeInvokeResult id n r } where
  produced hs := hs.call (.storeInvokeResult id n r)
  others id' n' hne := by
    rw [ContractDb.results_storeInvokeResult, if_neg fun h => hne h.1]

theorem remove (n : Nat) : Untouched id s
    { s with cache := s.cache.removeContractInvokeResult id n } where
  produced hs := hs.call (.removeContractInvokeResult id n)
  others id' n' hne := by
    rw [ContractDb.results_removeContractInvokeResult, if_neg fun h => hne h.1]

end Untouched

section Store

variable (e : Engine D O X B R I A S) (id : TransactionId)

theorem results_addStorageChanges (r : R) (cache : ContractDb R) (id' : TransactionId) (n : Nat) :
    (addStorageChanges e id r cache).results id' n = cache.results id' n := by
  unfold addStorageChanges
  induction e.storageDiffs r generalizing cache with
  | nil => rfl
  | cons d l ih =>
    rw [List.foldl_cons, ih, ContractDb.results_addContractStorageChange]

theorem produced_addStorageChanges (r : R) {cache : ContractDb R} (hs : cache.Produced) :
    (addStorageChanges e id r cache).Produced := by
  unfold addStorageChanges
  induction e.storageDiffs r generalizing cache with
  | nil => exact hs
  | cons d l ih => exact ih (hs.call (.addContractStorageChange id d.1 d.2))

theorem commitResult_untouched (o : O) (found ifStore : Bool) (r : R) (s : State D R I A) :
    Untouched id s (commitResult e id o found ifStore r s).state := by
  cases ifStore with
  | false =>
    simp only [commitResult, Bool.false_eq_true, if_false]
    split
    · exact .of_cache rfl
    · split <;> exact .of_cache rfl
  | true =>
    simp only [commitResult, if_true]
    have hdiffs : Untouched id s { s with cache := addStorageChanges e id r s.cache } :=
      ⟨produced_addStorageChanges e id r, fun id' n _ => results_addStorageChanges e id r _ id' n⟩
    split
    · exact hdiffs
    · have hstore := hdiffs.trans (.store s.opNum r)
      split <;> exact hstore.trans (.of_cache rfl)

variable (place : Place S)

theorem executeContract_untouched (o : O) (found : Bool) (s : State D R I A) :
    Untouched id s (executeContract e id place o found s).state := by
  simp only [executeContract]
  split
  · exact .of_cache rfl
  · refine Untouched.trans ?_ (commitResult_untouched e id o found true _ _)
    exact .of_cache rfl

theorem applyContract_untouched (o : O) (s : State D R I A) :
    Untouched id s (applyContract e id place o s).state := by
  unfold applyContract
  split
  · split
    · split
      · exact (Untouched.remove s.opNum).trans (executeContract_untouched e id place o true _)
      · exact commitResult_untouched e id o true false _ s
    · exact executeContract_untouched e id place o false s
  · exact .of_cache rfl

theorem kept_untouched : Kept e id True fun s x => Untouched id s x.state where
  ok _ := .of_cache rfl
  thrown _ := .of_cache rfl
  andThen hx hf := Exec.state_andThen (r := Untouched id) (fun _ _ _ => .trans) hx fun t _ => hf t
  contract _ place o s := applyContract_untouched e id place o s
  other x s := by
    simp only [applyOther]
    split <;> exact .of_cache rfl
  finish x s := by
    unfold finishUndertaker
    split <;> exact .of_cache rfl

theorem applyTransaction_untouched (secretKey : S) (k : Nat) (tx : Transaction O X B)
    (s : State D R I A) : Untouched tx.id s (applyTransaction e secretKey k tx s).state := by
  unfold applyTransaction
  split
  · refine Untouched.trans ?_
      ((kept_untouched e tx.id).applyListed secretKey k 0 (fun _ => trivial) _)
    exact .of_cache rfl
  · exact .of_cache rfl

end Store

/-! ### Two nodes in lockstep -/

/-- The two states differ at most in the stores and in the gas that was counted; with `c`
    the stores hold the same results of the transaction. -/
def Agree (id : TransactionId) (c : Prop) (s t : State D R I A) : Prop :=
  ∃ cache gas, t = { s with cache := cache, gasInBlock := gas } ∧
    (c → ∀ n, s.cache.results id n = cache.results id n)

section Lockstep

variable (e : Engine D O X B R I A S) (id : TransactionId) {c : Prop} {s t : State D R I A}

/-- What is read of the cache is what both nodes have for the transaction. -/
theorem commitResult_agree (o : O) (found ifStore : Bool) (r : R) (h : Agree id c s t) :
    Exec.Related (Agree id c) (commitResult e id o found ifStore r s)
      (commitResult e id o found ifStore r t) := by
  obtain ⟨cache, gas, rfl, hstored⟩ := h
  have hdiffs : c → ∀ n, (addStorageChanges e id r s.cache).results id n =
      (addStorageChanges e id r cache).results id n := by
    intro hc n
    rw [results_addStorageChanges, results_addStorageChanges, hstored hc n]
  have hput : c → ∀ n,
      ((addStorageChanges e id r s.cache).storeInvokeResult id s.opNum r).results id n =
        ((addStorageChanges e id r cache).storeInvokeResult id s.opNum r).results id n := by
    intro hc n
    rw [ContractDb.results_storeInvokeResult, ContractDb.results_storeInvokeResult, hdiffs hc n]
  cases ifStore with
  | false =>
    simp only [commitResult, Bool.false_eq_true, if_false]
    split
    · exact .thrown ⟨_, _, rfl, hstored⟩
    · split
      · exact .thrown ⟨_, _, rfl, hstored⟩
      · exact .ok ⟨_, _, rfl, hstored⟩
  | true =>
    simp only [commitResult, if_true]
    split
    · exact .thrown ⟨_, _, rfl, hdiffs⟩
    · split
      · exact .thrown ⟨_, _, rfl, hput⟩
      · exact .ok ⟨_, _, rfl, hput⟩

variable (place : Place S)

theorem executeContract_agree (o : O) (found : Bool) (h : Agree id c s t) :
    Exec.Related (Agree id c) (executeContract e id place o found s)
      (executeContract e id place o found t) := by
  obtain ⟨cache, gas, rfl, hstored⟩ := h
  simp only [executeContract]
  split
  · exact .thrown ⟨_, _, rfl, hstored⟩
  · exact commitResult_agree e id o found true _ ⟨_, _, rfl, hstored⟩

/-- With the same results of this transaction, both take the same branch. -/
theorem applyContract_agree (hc : c) (o : O) (h : Agree id c s t) :
    Exec.Related (Agree id c) (applyContract e id place o s)
      (applyContract e id place o t) := by
  obtain ⟨cache, gas, rfl, hstored⟩ := h
  have hremove : ∀ n, (s.cache.removeContractInvokeResult id s.opNum).results id n =
      (cache.removeContractInvokeResult id s.opNum).results id n := by
    intro n
    rw [ContractDb.results_removeContractInvokeResult,
      ContractDb.results_removeContractInvokeResult, hstored hc n]
  unfold applyContract
  simp only [← hstored hc s.opNum]
  split
  · split
    · split
      · exact executeContract_agree e id place o true ⟨_, _, rfl, fun _ => hremove⟩
      · exact commitResult_agree e id o true false _ ⟨_, _, rfl, hstored⟩
    · exact executeContract_agree e id place o false ⟨_, _, rfl, hstored⟩
  · exact .thrown ⟨_, _, rfl, hstored⟩

theorem applyOther_agree (x : X) (h : Agree id c s t) :
    Exec.Related (Agree id c) (applyOther e x s) (applyOther e x t) := by
  obtain ⟨cache, gas, rfl, hstored⟩ := h
  simp only [applyOther]
  split
  · exact .thrown ⟨_, _, rfl, hstored⟩
  · exact .ok ⟨_, _, rfl, hstored⟩

theorem finishUndertaker_agree (x : X) (h : Agree id c s t) :
    Exec.Related (Agree id c) (finishUndertaker e x s) (finishUndertaker e x t) := by
  obtain ⟨cache, gas, rfl, hstored⟩ := h
  simp only [finishUndertaker]
  split
  · exact .thrown ⟨_, _, rfl, hstored⟩
  · exact .ok ⟨_, _, rfl, hstored⟩

mutual

theorem applyOperation_agree (op : Op O X) (hop : op.hasContract = true → c)
    {s t : State D R I A} (h : Agree id c s t) :
    Exec.Related (Agree id c) (applyOperation e id place op s)
      (applyOperation e id place op t) := by
  match op with
  | .contract o => exact applyContract_agree e id place (hop rfl) o h
  | .other x => exact applyOther_agree e id x h
  | .undertaker x takerOp makerOp =>
    obtain ⟨htaker, hmaker⟩ := hasContract_undertaker_imp hop
    have hdb : t.db = s.db := by
      obtain ⟨cache, gas, rfl, _⟩ := h
      rfl
    unfold applyOperation
    rw [hdb]
    split
    · refine (applyOperations_agree takerOp htaker h).andThen (fun _ _ h => h) fun s t h => ?_
      refine (applyOperations_agree makerOp hmaker h).andThen (fun _ _ h => h) fun s t h => ?_
      exact finishUndertaker_agree e id x h
    · exact .thrown h

theorem applyOperations_agree (l : List (Op O X)) (hl : hasContracts l = true → c)
    {s t : State D R I A} (h : Agree id c s t) :
    Exec.Related (Agree id c) (applyOperations e id place l s)
      (applyOperations e id place l t) := by
  match l with
  | [] => exact .ok h
  | op :: l =>
    obtain ⟨hop, hrest⟩ := hasContracts_cons_imp hl
    refine (applyOperation_agree op hop h).andThen (fun _ _ h => h) fun s t h => ?_
    exact applyOperations_agree l hrest h

end

theorem applyListed_agree (secretKey : S) (k i : Nat) (l : List (Op O X))
    (hl : hasContracts l = true → c) (h : Agree id c s t) :
    Exec.Related (Agree id c) (applyListed e id secretKey k i l s)
      (applyListed e id secretKey k i l t) := by
  induction l generalizing i s t with
  | nil => exact .ok h
  | cons op l ih =>
    obtain ⟨hop, hrest⟩ := hasContracts_cons_imp hl
    refine (applyOperation_agree e id _ op hop h).andThen (fun _ _ h => h) fun s t h => ?_
    exact ih (i + 1) hrest h

/-- A transaction sees the cache only through its own results. -/
theorem applyTransaction_agree (secretKey : S) (k : Nat) (tx : Transaction O X B)
    (htx : hasContracts tx.operations = true → c) (h : Agree tx.id c s t) :
    Exec.Related (Agree tx.id c) (applyTransaction e secretKey k tx s)
      (applyTransaction e secretKey k tx t) := by
  obtain ⟨cache, gas, rfl, hstored⟩ := h
  unfold applyTransaction
  split
  · exact applyListed_agree e tx.id secretKey k 0 tx.operations htx ⟨cache, gas, rfl, hstored⟩
  · exact .thrown ⟨cache, gas, rfl, hstored⟩

end Lockstep

/-! ### Blocks -/

variable (tx : Transaction O X B)

/-- The contract operations of the transaction are all wrapped, so `_apply_block` does not
    delete what is stored for it. -/
def Transaction.readsStore : Bool :=
  hasContracts tx.operations && !tx.relateContract

def SameButStore (s t : State D R I A) : Prop :=
  ∃ cache gas, t = { s with cache := cache, gasInBlock := gas }

/-- The transactions that the loop in `_apply_block` comes to: none after one that throws or
    has other results than the block lists. -/
def reached [DecidableEq I] (e : Engine D O X B R I A S) (secretKey : S) :
    Nat → List (Transaction O X B × List I) → State D R I A → List (Transaction O X B × List I)
  | _, [], _ => []
  | k, p :: l, s => p :: (applyTransaction e secretKey k p.1 (pack p.1 s)).collect fun s =>
      if s.results = p.2 then reached e secretKey (k + 1) l s else []

/-- The nodes before the transactions of which `l` are reached: their stores agree where they
    will be read. -/
structure InStep (l : List (Transaction O X B × List I)) (s t : State D R I A) : Prop where
  same : SameButStore s t
  produced : s.cache.Produced
  produced' : t.cache.Produced
  stored : ∀ p ∈ l, p.1.readsStore = true →
    ∀ n, s.cache.results p.1.id n = t.cache.results p.1.id n

theorem pack_eq (s : State D R I A) : ∃ cache, pack tx s = { s with cache := cache } := by
  unfold pack
  split
  · exact ⟨_, rfl⟩
  · exact ⟨s.cache, rfl⟩

theorem pack_untouched (hs : s.cache.Produced) : Untouched tx.id s (pack tx s) := by
  unfold pack
  split
  · refine ⟨fun hs => hs.call (.contractPacked tx.id), ?_⟩
    intro id' n hne
    exact (ContractDb.results_contractPacked hs.marked tx.id id' n).trans (if_neg hne)
  · exact .of_cache rfl

variable {tx : Transaction O X B}

/-- After `contract_packed` nothing is stored for the transaction. -/
theorem results_pack (htx : tx.relateContract = true)
    (hs : s.cache.Produced) (n : Nat) : (pack tx s).cache.results tx.id n = none := by
  unfold pack
  rw [if_pos htx]
  exact (ContractDb.results_contractPacked hs.marked tx.id tx.id n).trans (if_pos rfl)

/-- A transaction whose contracts will be executed, or on which the stores agree, finds the
    same results in both stores. -/
theorem results_pack_eq {t : State D R I A} (hs : s.cache.Produced)
    (ht : t.cache.Produced) (h : tx.relateContract = false →
      ∀ n, s.cache.results tx.id n = t.cache.results tx.id n) (n : Nat) :
    (pack tx s).cache.results tx.id n = (pack tx t).cache.results tx.id n := by
  cases hrelate : tx.relateContract with
  | true => rw [results_pack hrelate hs, results_pack hrelate ht]
  | false => simpa only [pack, hrelate, Bool.false_eq_true, if_false] using h hrelate n

theorem SameButStore.pack {t : State D R I A} (h : SameButStore s t) (tx : Transaction O X B) :
    SameButStore (pack tx s) (pack tx t) := by
  obtain ⟨cache, gas, rfl⟩ := h
  unfold Contracts.pack
  split <;> exact ⟨_, _, rfl⟩

section Blocks

variable (e : Engine D O X B R I A S) {s t : State D R I A} {l : List (Transaction O X B × List I)}

/-- **Step lemma.** Both nodes apply the next transaction, and stay together. -/
theorem InStep.applyTransaction (secretKey : S) (k : Nat) {tx : Transaction O X B}
    {results : List I} (h : InStep ((tx, results) :: l) s t) :
    Exec.Related (InStep l) (applyTransaction e secretKey k tx (pack tx s))
      (applyTransaction e secretKey k tx (pack tx t)) := by
  have hhead : hasContracts tx.operations = true →
      ∀ n, (pack tx s).cache.results tx.id n = (pack tx t).cache.results tx.id n := by
    intro hcontract
    refine results_pack_eq h.produced h.produced' fun hrelate => ?_
    have hreads : tx.readsStore = true := by
      unfold Transaction.readsStore
      rw [hcontract, hrelate]
      rfl
    exact h.stored (tx, results) List.mem_cons_self hreads
  obtain ⟨cache, gas, hcache⟩ := h.same.pack tx
  have hagree : Agree tx.id
      (∀ n, (pack tx s).cache.results tx.id n = (pack tx t).cache.results tx.id n)
      (pack tx s) (pack tx t) := ⟨cache, gas, hcache, fun hc n => by rw [hc n, hcache]⟩
  refine (applyTransaction_agree e secretKey k tx hhead hagree).imp ?_
  rintro ⟨cache', gas', hsame, hstored⟩
  have hs := (pack_untouched tx h.produced).trans
    (applyTransaction_untouched e secretKey k tx (pack tx s))
  have ht := (pack_untouched tx h.produced').trans
    (applyTransaction_untouched e secretKey k tx (pack tx t))
  refine ⟨⟨cache', gas', hsame⟩, hs.produced h.produced, ht.produced h.produced', ?_⟩
  intro p hp hreads n
  have hbefore := h.stored p (List.mem_cons_of_mem _ hp) hreads
  by_cases hid : p.1.id = tx.id
  · rw [hid] at hbefore ⊢
    rw [hsame]
    exact hstored (results_pack_eq h.produced h.produced' fun _ => hbefore) n
  · rw [hs.others p.1.id n hid, ht.others p.1.id n hid, hbefore n]

variable [DecidableEq I]

/-- **Run lemma.** -/
theorem InStep.applyListedTransactions (secretKey : S) (k : Nat)
    (h : InStep (reached e secretKey k l s) s t) :
    Exec.Related SameButStore (applyListedTransactions e secretKey k l s)
      (applyListedTransactions e secretKey k l t) := by
  induction l generalizing k s t with
  | nil => exact .ok h.same
  | cons p l ih =>
    obtain ⟨tx, results⟩ := p
    have hstep := InStep.applyTransaction e secretKey k h
    unfold Contracts.applyListedTransactions
    generalize Contracts.applyTransaction e secretKey k tx (pack tx t) = y at hstep ⊢
    cases hx : Contracts.applyTransaction e secretKey k tx (pack tx s) with
    | thrown s' =>
      rw [hx] at hstep
      cases hstep with
      | thrown h => exact .thrown h.same
    | ok s' =>
      rw [hx, Exec.collect_ok] at hstep
      cases hstep with
      | ok h =>
        obtain ⟨cache, gas, hcache⟩ := h.same
        have hresults := congrArg State.results hcache
        simp only [Exec.ok_andThen, hresults]
        split
        · rw [if_pos ‹_›] at h
          exact ih (k + 1) h
        · exact .thrown h.same

/-- The nodes work on the same objects; what earlier evaluations left in the stores, the fee
    counters and so on may differ.  If the stores agree on the transactions that are reached
    and whose contract operations are all wrapped, both nodes reject the block, or both
    accept it and differ in nothing but their stores and gas counters afterwards. -/
theorem same_outcome (rest : Surroundings D O X B I A S) (b : Block O X B I S)
    {s t : State D R I A} (hobjects : s.toObjects = t.toObjects) (hs : s.cache.Produced)
    (ht : t.cache.Produced)
    (hstored : rest.accepts b s.toObjects = true → ∀ p ∈ reached e b.previousSecret 0 b.transactions
        { s with collected := fun _ => 0, callNum := 0, opNum := 0, results := [] },
      p.1.readsStore = true → ∀ n, s.cache.results p.1.id n = t.cache.results p.1.id n) :
    (∃ s' t', applyBlock e rest b s = .thrown s' ∧ applyBlock e rest b t = .thrown t') ∨
      ∃ s' t', applyBlock e rest b s = .ok s' ∧ applyBlock e rest b t = .ok t' ∧
        t' = { s' with cache := t'.cache, gasInBlock := t'.gasInBlock } := by
  have hstart (haccepts : rest.accepts b s.toObjects = true) : InStep
      (reached e b.previousSecret 0 b.transactions
        { s with collected := fun _ => 0, callNum := 0, opNum := 0, results := [] })
      { s with collected := fun _ => 0, callNum := 0, opNum := 0, results := [] }
      { t with collected := fun _ => 0, callNum := 0, opNum := 0, results := [] } :=
    ⟨⟨t.cache, t.gasInBlock, by rw [hobjects]⟩, hs, ht, hstored haccepts⟩
  have htransactions (haccepts : rest.accepts b s.toObjects = true) :
      Exec.Related SameButStore (applyTransactions e b s) (applyTransactions e b t) := by
    have hlisted := (hstart haccepts).applyListedTransactions e b.previousSecret 0
    refine hlisted.andThen (fun _ _ h => h) ?_
    rintro s t ⟨cache, gas, rfl⟩
    split
    · exact .ok ⟨cache, gas, rfl⟩
    · exact .thrown ⟨cache, gas, rfl⟩
  unfold applyBlock
  rw [← hobjects]
  split
  · rename_i haccepts
    have hblock : Exec.Related SameButStore ((applyTransactions e b s).andThen (finishBlock rest b))
        ((applyTransactions e b t).andThen (finishBlock rest b)) := by
      refine (htransactions haccepts).andThen (fun _ _ h => h) ?_
      rintro s _ ⟨cache, gas, rfl⟩
      unfold finishBlock
      dsimp only
      split
      · exact .thrown ⟨cache, gas, rfl⟩
      · exact .ok ⟨cache, gas, rfl⟩
    generalize (applyTransactions e b s).andThen (finishBlock rest b) = x at hblock ⊢
    generalize (applyTransactions e b t).andThen (finishBlock rest b) = y at hblock ⊢
    cases hblock with
    | ok h =>
      obtain ⟨cache, gas, rfl⟩ := h
      exact .inr ⟨_, _, rfl, rfl, rfl⟩
    | thrown h => exact .inl ⟨_, _, rfl, rfl⟩
  · exact .inl ⟨s, t, rfl, rfl⟩

end Blocks

/-! ### Stores that differ -/

def addingEngine : Engine Nat Unit Nat Unit Nat Nat Unit Unit where
  admits _ _ := true
  execute d _ _ _ := (some d, 0)
  maybeInvalid _ := false
  storageDiffs _ := []
  commit _ r d := some (d + r)
  payFee _ _ d := some d
  collects _ _ := []
  gas _ _ := 0
  related _ _ _ _ := []
  info r := r
  applyOther x d := (some (d + x, 0), [])
  undertakes _ _ := true
  payUndertaker _ d := some d
  collectsUndertaker _ := []
  voidResult := 0
  admissible _ _ := true

def plainSurroundings : Surroundings Nat Unit Nat Unit Nat Unit Unit where
  accepts _ _ := true
  finish _ _ objects := some objects

def idOf (digit : Char) : TransactionId := ⟨List.replicate 40 digit, List.length_replicate⟩

def anId : TransactionId := idOf '0'

def listedContract : Transaction Unit Nat Unit := ⟨anId, [.contract ()], ()⟩

def wrappedContract : Transaction Unit Nat Unit := ⟨anId, [.undertaker 0 [.contract ()] []], ()⟩

def blockOf (tx : Transaction Unit Nat Unit) (results : List Nat) :
    Block Unit Nat Unit Nat Unit := ⟨[(tx, results)], 0, ()⟩

def nodeAt (d : Nat) (cache : ContractDb Nat) : State Nat Nat Nat Unit :=
  ⟨⟨d, [], []⟩, cache, fun _ => 0, 0, 0, 0, []⟩

theorem toObjects_nodeAt (d : Nat) (cache : ContractDb Nat) :
    (nodeAt d cache).toObjects = ⟨d, [], []⟩ := rfl

def noStore : ContractDb Nat := CachedLevelDb.empty

def storeAfter (tx : Transaction Unit Nat Unit) : ContractDb Nat :=
  (applyTransaction addingEngine () 0 tx (nodeAt 0 noStore)).state.cache

theorem produced_noStore : noStore.Produced := .start rfl

theorem produced_storeAfter (tx : Transaction Unit Nat Unit) : (storeAfter tx).Produced :=
  (applyTransaction_untouched addingEngine () 0 tx _).produced produced_noStore

theorem listed_contract_ignores_store :
    noStore.results anId 0 = none ∧ (storeAfter listedContract).results anId 0 = some 0 ∧
      ((∃ s' t',
        applyBlock addingEngine plainSurroundings (blockOf listedContract [1])
          (nodeAt 1 noStore) = .thrown s' ∧
        applyBlock addingEngine plainSurroundings (blockOf listedContract [1])
          (nodeAt 1 (storeAfter listedContract)) = .thrown t') ∨
      ∃ s' t',
        applyBlock addingEngine plainSurroundings (blockOf listedContract [1])
          (nodeAt 1 noStore) = .ok s' ∧
        applyBlock addingEngine plainSurroundings (blockOf listedContract [1])
          (nodeAt 1 (storeAfter listedContract)) = .ok t' ∧
        t' = { s' with cache := t'.cache, gasInBlock := t'.gasInBlock }) := by
  refine ⟨by decide +kernel, by decide +kernel, ?_⟩
  refine same_outcome addingEngine plainSurroundings (blockOf listedContract [1]) ?_
    produced_noStore (produced_storeAfter listedContract) ?_
  · rw [toObjects_nodeAt, toObjects_nodeAt]
  · intro _ p hp hreads
    have hreached : reached addingEngine () 0 (blockOf listedContract [1]).transactions
        (nodeAt 1 noStore) = [(listedContract, [1])] := rfl
    cases List.mem_singleton.mp (hreached ▸ hp : p ∈ [(listedContract, [1])])
    cases hreads

/-- Both nodes have the same objects.  The second one evaluated the transaction before, at
    another state; it takes the result it stored then, and rejects the block that the first
    one accepts. -/
theorem wrapped_contract_taken_from_store :
    (storeAfter wrappedContract).Produced ∧
      (applyBlock addingEngine plainSurroundings (blockOf wrappedContract [1, 0])
        (nodeAt 1 noStore)).returned = true ∧
      (applyBlock addingEngine plainSurroundings (blockOf wrappedContract [1, 0])
        (nodeAt 1 (storeAfter wrappedContract))).returned = false :=
  ⟨produced_storeAfter wrappedContract, by decide +kernel, by decide +kernel⟩

end HyperExchange.Contracts
