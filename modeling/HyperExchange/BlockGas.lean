/-
  **The gas of a block that a node makes** (`_generate_block` in `db_block.cpp`,
  `store_invoke_result` in `db_contract_trx.cpp`).

  Before a pending transaction is tried, the gas limits that its contract operations declare
  are added to the counter and compared with the limit for the block.  The counter itself
  grows in `store_invoke_result`, by the gas that the operation reports.  So the gas in the
  block stays within the limit as long as every contract operation of a transaction that is
  tried is among those whose limit was added, uses no more, and is executed and stored
  (`generated_block_gas`); not if its result is taken from the store, or it is wrapped in an
  undertaker (`generated_block_over_limit`).
-/
import HyperExchange.GeneratedBlocks

namespace HyperExchange.Contracts

open Execution List

variable {D O X B R I A S : Type}

/-- What is reported of gas in the results: `contract_operation_result_info` has the number
    that `store_invoke_result` is told, which is unsigned; the other results have none. -/
structure ReportsGas (e : Engine D O X B R I A S) (reported : I → Int) : Prop where
  info : ∀ o r, reported (e.info r) = e.gas o r
  nonneg : ∀ o r, 0 ≤ e.gas o r
  other : ∀ x d d' i, (e.applyOther x d).1 = some (d', i) → reported i = 0
  void : reported e.voidResult = 0

def WithinLimit (e : Engine D O X B R I A S) (m : Maker D O X B I A S) (o : O) : Prop :=
  ∀ d place n r, (e.execute d o place n).1 = some r → e.gas o r ≤ (m.declaredGas o).getD 0

/-! ### The counter -/

section Counter

variable {e : Engine D O X B R I A S} {reported : I → Int} {id : TransactionId} {place : Place S}

def Grows (s t : State D R I A) : Prop := s.gasInBlock ≤ t.gasInBlock

theorem grows_of_eq {s t : State D R I A} (h : t.gasInBlock = s.gasInBlock) : Grows s t :=
  Int.le_of_eq h.symm

variable (hr : ReportsGas e reported)
include hr

theorem commitResult_grows (o : O) (found ifStore : Bool) (r : R)
    (s : State D R I A) : Grows s (commitResult e id o found ifStore r s).state := by
  have hgas := hr.nonneg o r
  unfold commitResult
  cases ifStore with
  | false =>
    simp only [Bool.false_eq_true, if_false]
    split
    · exact grows_of_eq rfl
    · split <;> exact grows_of_eq rfl
  | true =>
    simp only [if_true]
    have hstored : s.gasInBlock ≤ s.gasInBlock + e.gas o r := by omega
    split
    · exact grows_of_eq rfl
    · split <;> exact hstored

theorem executeContract_grows (o : O) (found : Bool)
    (s : State D R I A) : Grows s (executeContract e id place o found s).state := by
  unfold executeContract
  dsimp only
  split
  · exact grows_of_eq rfl
  · exact commitResult_grows hr o found true _ _

theorem applyContract_grows (o : O) (s : State D R I A) :
    Grows s (applyContract e id place o s).state := by
  unfold applyContract
  split
  · split
    · split
      · exact executeContract_grows hr o true _
      · exact commitResult_grows hr o true false _ _
    · exact executeContract_grows hr o false s
  · exact grows_of_eq rfl

omit hr

theorem gasInBlock_applyOther (x : X) (s : State D R I A) :
    (applyOther e x s).state.gasInBlock = s.gasInBlock := by
  unfold applyOther
  dsimp only
  split <;> rfl

theorem kept_grows (hr : ReportsGas e reported) : Kept e id True fun s x => Grows s x.state where
  ok _ := grows_of_eq rfl
  thrown _ := grows_of_eq rfl
  andThen hx hf := Exec.state_andThen (r := Grows) (fun _ _ _ => Int.le_trans) hx fun t _ => hf t
  contract _ _ o s := applyContract_grows hr o s
  other x s := grows_of_eq (gasInBlock_applyOther x s)
  finish x s := by
    unfold finishUndertaker
    split <;> exact grows_of_eq rfl

theorem applyTransaction_grows (hr : ReportsGas e reported) (secretKey : S) (k : Nat)
    (tx : Transaction O X B) (s : State D R I A) :
    Grows s (applyTransaction e secretKey k tx s).state := by
  unfold applyTransaction
  split
  · exact (kept_grows hr).applyListed secretKey k 0 (fun _ => trivial) (beginTransaction tx s)
  · exact grows_of_eq rfl

end Counter

/-! ### Operations that are executed -/

section Metered

variable {e : Engine D O X B R I A S} {m : Maker D O X B I A S} {reported : I → Int}
  {id : TransactionId} {place : Place S} {s t : State D R I A} {o : O}

/-- What operations add to the counter they report, and it is within the bound. -/
def Metered (reported : I → Int) (bound : Int) (s t : State D R I A) : Prop :=
  ∃ l, t.results = s.results ++ l ∧ t.gasInBlock = s.gasInBlock + (l.map reported).sum ∧
    (l.map reported).sum ≤ bound

namespace Metered

variable {s t u : State D R I A} {bound bound' : Int}

theorem refl : Metered reported 0 s s := ⟨[], by simp, by simp, by simp⟩

theorem trans (h : Metered reported bound s t) (h' : Metered reported bound' t u) :
    Metered reported (bound + bound') s u := by
  obtain ⟨l, hl, hgas, hle⟩ := h
  obtain ⟨l', hl', hgas', hle'⟩ := h'
  refine ⟨l ++ l', ?_, ?_, ?_⟩
  · rw [hl', hl, append_assoc]
  · rw [hgas', hgas, map_append, sum_append]
    omega
  · rw [map_append, sum_append]
    omega

theorem idle {i : I} (hi : reported i = 0) (hresults : t.results = s.results ++ [i])
    (hgas : t.gasInBlock = s.gasInBlock) : Metered reported 0 s t := by
  refine ⟨[i], hresults, ?_, ?_⟩
  · simp [hi, hgas]
  · simp [hi]

end Metered

variable (hr : ReportsGas e reported)
include hr

theorem applyOther_metered {x : X} (h : applyOther e x s = .ok t) : Metered reported 0 s t := by
  simp only [applyOther] at h
  split at h
  · cases h
  · next d i hout =>
    cases h
    exact .idle (hr.other x s.db d i hout) rfl rfl

theorem finishUndertaker_metered {x : X}
    (h : finishUndertaker e x s = .ok t) : Metered reported 0 s t := by
  simp only [finishUndertaker] at h
  split at h
  · cases h
  · cases h
    exact .idle hr.void rfl rfl

theorem kept_idle : Kept e id False fun s x => ∀ t, x = .ok t → Metered reported 0 s t where
  ok s t h := by
    cases h
    exact .refl
  thrown s t h := by cases h
  andThen hx hf u h := by
    obtain ⟨t, ht, hu⟩ := Exec.andThen_eq_ok.mp h
    exact (hx t ht).trans (hf t u hu)
  contract := False.elim
  other _ _ _ h := applyOther_metered hr h
  finish _ _ _ h := finishUndertaker_metered hr h

omit hr

/-- An executed contract counts the gas of its result. -/
theorem executeContract_executed {found : Bool} (h : executeContract e id place o found s = .ok t) :
    ∃ r, (e.execute s.db o place s.callNum).1 = some r ∧
      t.gasInBlock = s.gasInBlock + e.gas o r ∧ t.results = s.results ++ [e.info r] := by
  simp only [executeContract] at h
  split at h
  · cases h
  · next r hr =>
    simp only [commitResult, if_true] at h
    split at h
    · cases h
    · split at h
      · cases h
      · cases h
        exact ⟨r, hr, rfl, rfl⟩

theorem applyContract_executed (hs : Unstored e id s) (h : applyContract e id place o s = .ok t) :
    ∃ r, (e.execute s.db o place s.callNum).1 = some r ∧
      t.gasInBlock = s.gasInBlock + e.gas o r ∧ t.results = s.results ++ [e.info r] := by
  simp only [applyContract] at h
  split at h
  · split at h
    · next r hfound =>
      rw [if_pos (hs s.opNum (Nat.le_refl _) r hfound)] at h
      have hexecute := executeContract_executed h
      exact hexecute
    · exact executeContract_executed h
  · cases h

variable (hr : ReportsGas e reported)
include hr

/-- Gas that is counted was reported, and within what was declared. -/
theorem applyContract_metered (ho : WithinLimit e m o) (hs : Unstored e id s)
    (h : applyContract e id place o s = .ok t) :
    Metered reported ((m.declaredGas o).getD 0 : Nat) s t := by
  obtain ⟨r, hexecute, hgas, hresults⟩ := applyContract_executed hs h
  have hinfo := hr.info o r
  have hlimit := ho s.db place s.callNum r hexecute
  refine ⟨[e.info r], hresults, ?_, ?_⟩
  · simpa [hinfo] using hgas
  · simpa [hinfo] using hlimit

def declaredGases (m : Maker D O X B I A S) (l : List (Op O X)) : List Nat :=
  l.filterMap fun
    | .contract o => m.declaredGas o
    | _ => none

def Listed (e : Engine D O X B R I A S) (m : Maker D O X B I A S) (op : Op O X) : Prop :=
  match op with
  | .contract o => WithinLimit e m o
  | op => op.hasContract = false

/-- The declared amounts add up over the list. -/
theorem applyListed_metered {secretKey : S} {k i : Nat} {l : List (Op O X)}
    (hl : ∀ op ∈ l, Listed e m op) (hs : Unstored e id s)
    (h : applyListed e id secretKey k i l s = .ok t) :
    Metered reported ((declaredGases m l).sum : Nat) s t := by
  induction l generalizing i s with
  | nil =>
    cases h
    exact .refl
  | cons op l ih =>
    obtain ⟨t₁, hop, hrest⟩ := Exec.andThen_eq_ok.mp h
    have hlisted := hl op (mem_cons_self ..)
    have hl' : ∀ op ∈ l, Listed e m op := fun op hop => hl op (mem_cons_of_mem _ hop)
    have h₂ := ih hl' (hs.advances (applyOperation_advances hop)) hrest
    cases op with
    | contract o =>
      have h₁ := applyContract_metered hr hlisted hs (by unfold applyOperation at hop; exact hop)
      have hsum : (declaredGases m (.contract o :: l)).sum =
          (m.declaredGas o).getD 0 + (declaredGases m l).sum := by
        simp only [declaredGases, filterMap_cons]
        cases m.declaredGas o <;> simp
      rw [hsum, Int.natCast_add]
      exact h₁.trans h₂
    | other | undertaker =>
      have hidle : Op.hasContract _ = false := hlisted
      have h₁ := (kept_idle hr).applyOperation _ _ (by simp [hidle]) s t₁ hop
      have h := h₁.trans h₂
      rwa [Int.zero_add] at h

/-- **What a transaction adds to the counter it reports, and it declared as much.** -/
theorem applyTransaction_metered {secretKey : S} {k : Nat} {tx : Transaction O X B}
    (htx : ∀ op ∈ tx.operations, Listed e m op)
    (hs : ∀ n r, s.cache.results tx.id n = some r → e.maybeInvalid r = true)
    (h : applyTransaction e secretKey k tx s = .ok t) :
    t.gasInBlock = s.gasInBlock + (t.results.map reported).sum ∧
      (t.results.map reported).sum ≤ ((m.gasCounts tx).sum : Nat) := by
  unfold applyTransaction at h
  split at h
  · have hmetered := applyListed_metered hr htx
      (fun n _ r hresult => hs n r hresult : Unstored e tx.id (beginTransaction tx s)) h
    obtain ⟨l, hl, hgas, hle⟩ := hmetered
    have hresults : t.results = l := hl
    rw [hresults]
    exact ⟨hgas, hle⟩
  · cases h

end Metered

/-! ### The block -/

section Generated

variable {e : Engine D O X B R I A S} {m : Maker D O X B I A S} {reported : I → Int}
  {g : Generation D O X B R I A} {p : Transaction O X B × List I}
  {l : List (Transaction O X B × List I)}

/-- What the test of the gas relies on: no result of the transaction that is stored can be
    used, its contract operations are listed and keep to their limits, and the sum of the
    limits is a `share_type`. -/
structure Counted (e : Engine D O X B R I A S) (m : Maker D O X B I A S)
    (tx : Transaction O X B) (s : State D R I A) : Prop where
  unstored : ∀ n r, s.cache.results tx.id n = some r → e.maybeInvalid r = true
  listed : ∀ op ∈ tx.operations, Listed e m op
  exact_sum : (m.gasCounts tx).sum < 2 ^ 63

/-- This holds of each transaction that is tried, in the state before it. -/
def Countable (e : Engine D O X B R I A S) (m : Maker D O X B I A S) :
    List (Transaction O X B × List I) → Generation D O X B R I A → Prop
  | [], _ => True
  | p :: l, g => (g.tries m p = true → Counted e m p.1 g.state) ∧
      Countable e m l (g.tryPending e m p)

def reportedGas (reported : I → Int) (l : List (Transaction O X B × List I)) : Int :=
  ((l.flatMap fun p => p.2).map reported).sum

theorem reportedGas_append (l : List (Transaction O X B × List I)) (tx : Transaction O X B)
    (results : List I) :
    reportedGas reported (l ++ [(tx, results)]) =
      reportedGas reported l + (results.map reported).sum := by
  simp [reportedGas]

theorem Maker.gasCount_eq {tx : Transaction O X B} (h : (m.gasCounts tx).sum < 2 ^ 63) :
    m.gasCount tx = (m.gasCounts tx).sum := by
  have hmod : (m.gasCounts tx).sum % 2 ^ 64 = (m.gasCounts tx).sum := Nat.mod_eq_of_lt (by omega)
  simp only [Maker.gasCount, hmod, h, if_true]

open Generation

theorem attempt_tries {x : Exec (State D R I A)} (h : g.attempt e m p = some x) :
    g.tries m p = true := by
  unfold attempt at h
  split at h
  · assumption
  · cases h

/-- The gas in the block is within the counter and within the limit. -/
structure WithinCount (reported : I → Int) (m : Maker D O X B I A S)
    (g : Generation D O X B R I A) : Prop where
  counter : reportedGas reported g.included ≤ g.state.gasInBlock
  limit : reportedGas reported g.included ≤ m.gasLimitInBlock

/-- **Step lemma.** -/
theorem WithinCount.tryPending (hr : ReportsGas e reported)
    (hc : g.tries m p = true → Counted e m p.1 g.state) (h : WithinCount reported m g) :
    WithinCount reported m (g.tryPending e m p) := by
  match hp : g.attempt e m p with
  | none =>
    rw [tryPending_of_none hp]
    exact h
  | some (.thrown t) =>
    have hgrows := applyTransaction_grows hr m.secretKey m.trxInBlock p.1 g.state
    rw [attempt_eq hp] at hgrows
    obtain ⟨hstate, hincluded⟩ := tryPending_of_thrown hp
    have hle : g.state.gasInBlock ≤ t.gasInBlock := hgrows
    have hcounter := h.counter
    refine ⟨?_, by rw [hincluded]; exact h.limit⟩
    rw [hincluded, hstate]
    show _ ≤ t.gasInBlock
    omega
  | some (.ok t) =>
    have htries := attempt_tries hp
    have hcounted := hc htries
    obtain ⟨hgas, hle⟩ := applyTransaction_metered hr hcounted.listed hcounted.unstored
      (attempt_eq hp)
    obtain ⟨hstate, hincluded⟩ := tryPending_of_ok hp
    have hcounter := h.counter
    refine ⟨?_, ?_⟩
    · rw [hincluded, hstate, reportedGas_append, hgas]
      omega
    · rw [hincluded, reportedGas_append]
      simp only [tries, Bool.and_eq_true, Bool.or_eq_true, decide_eq_true_eq] at htries
      rcases htries.1.2 with hempty | hlimit
      · -- no limit is declared, so no gas is used
        rw [List.isEmpty_iff.mp hempty] at hle
        have hlimit := h.limit
        simp only [sum_nil, Int.natCast_zero] at hle
        omega
      · rw [Maker.gasCount_eq hcounted.exact_sum] at hlimit
        omega

/-- **Run lemma.** -/
theorem WithinCount.run (hr : ReportsGas e reported) (hc : Countable e m l g)
    (h : WithinCount reported m g) : WithinCount reported m (Generation.run e m l g) := by
  induction l generalizing g with
  | nil => exact h
  | cons p l ih => exact ih hc.2 (h.tryPending hr hc.1)

/-- **The gas reported in a generated block is within the limit for the block**, if every
    contract operation of the transactions that are tried is counted. -/
theorem generated_block_gas (hr : ReportsGas e reported) (hlimit : 0 ≤ m.gasLimitInBlock)
    {pending : List (Transaction O X B × List I)} {s s' : State D R I A} {b : Block O X B I S}
    (hc : Countable e m pending (.start m s))
    (hgenerate : generateBlock e m pending s = some (b, s')) :
    reportedGas reported b.transactions ≤ m.gasLimitInBlock := by
  have hstart : WithinCount reported m (Generation.start m s) :=
    ⟨Int.le_refl 0, hlimit⟩
  have hrun := WithinCount.run hr hc hstart
  simp only [generateBlock] at hgenerate
  split at hgenerate
  · cases hgenerate
    exact hrun.limit
  · cases hgenerate

end Generated

/-! ### A block over the limit -/

def gasEngine : Engine Unit Nat Unit Unit Nat Nat Unit Unit where
  admits _ _ := true
  execute _ o _ _ := (some o, 0)
  maybeInvalid _ := false
  storageDiffs _ := []
  commit _ _ d := some d
  payFee _ _ d := some d
  collects _ _ := []
  gas _ r := r
  related _ _ _ _ := []
  info r := r
  applyOther _ d := (some (d, 0), [])
  undertakes _ _ := true
  payUndertaker _ d := some d
  collectsUndertaker _ := []
  voidResult := 0
  admissible _ _ := true

def gasMaker : Maker Unit Nat Unit Unit Nat Unit Unit where
  scheduled _ := true
  packSize _ := 10
  maxBlockHeaderSize := 10
  maximumBlockSize _ := 1000
  declaredGas o := some o
  gasLimitInBlock := 2000000
  contractOpInABlock _ := 100
  previousSecret _ := ()
  blockSize _ := 0
  secretKey := ()
  trxInBlock := 0

def gasOf (i : Nat) : Int := i

theorem gasEngine_reports : ReportsGas gasEngine gasOf where
  info _ _ := rfl
  nonneg _ r := Int.natCast_nonneg r
  other _ _ _ _ h := by
    cases h
    rfl
  void := rfl

/-- Two calls of which the block has room for one. -/
def twoCalls : List (Transaction Nat Unit Unit × List Nat) :=
  [(⟨idOf '0', [.contract 1500000], ()⟩, []), (⟨idOf '1', [.contract 1500000], ()⟩, [])]

/-- A call that declares more than the limit is never tried. -/
def largeCall : Transaction Nat Unit Unit × List Nat := (⟨idOf '2', [.contract 3000000], ()⟩, [])

def wrappedCall : List (Transaction Nat Unit Unit × List Nat) :=
  [(⟨idOf '0', [.undertaker () [.contract 3000000] []], ()⟩, [])]

def nodeWith (cache : ContractDb Nat) : State Unit Nat Nat Unit :=
  ⟨⟨(), [], []⟩, cache, fun _ => 0, 0, 0, 0, []⟩

/-- The results of both calls, from when they came in. -/
def bothStored : ContractDb Nat :=
  (noStore.storeInvokeResult (idOf '0') 0 1500000).storeInvokeResult (idOf '1') 0 1500000

/-- Neither call was evaluated before: one of them waits.  So does the large call, although
    its result is stored. -/
theorem second_call_waits :
    (generateBlock gasEngine gasMaker (largeCall :: twoCalls)
        (nodeWith (noStore.storeInvokeResult (idOf '2') 0 3000000))).map
        (fun r => reportedGas gasOf r.1.transactions) = some 1500000 ∧
      ∀ b s', generateBlock gasEngine gasMaker (largeCall :: twoCalls)
          (nodeWith (noStore.storeInvokeResult (idOf '2') 0 3000000)) = some (b, s') →
        reportedGas gasOf b.transactions ≤ 2000000 := by
  refine ⟨by decide +kernel, fun b s' h => ?_⟩
  refine generated_block_gas gasEngine_reports (by decide) (?_ : Countable _ gasMaker
    (largeCall :: twoCalls) _) h
  refine ⟨?_, ?_, ?_, trivial⟩
  · intro htries
    exact absurd htries (by decide +kernel)
  · intro _
    refine ⟨?_, ?_, by decide⟩
    · intro n r hresult
      refine absurd ((ContractDb.results_storeInvokeResult ..).symm.trans hresult) ?_
      rw [if_neg fun h => absurd h.1 (by decide)]
      rintro ⟨⟩
    · intro op hop
      rw [mem_singleton.mp hop]
      rintro _ _ _ r ⟨⟩
      exact Int.le_refl _
  · intro htries
    exact absurd htries (by decide +kernel)

/-- Both results are stored: both calls are in the block.  Wrapped in an undertaker, a call
    beyond the limit is in it too. -/
theorem generated_block_over_limit :
    (generateBlock gasEngine gasMaker twoCalls (nodeWith bothStored)).map
        (fun r => reportedGas gasOf r.1.transactions) = some 3000000 ∧
      (generateBlock gasEngine gasMaker wrappedCall (nodeWith noStore)).map
        (fun r => reportedGas gasOf r.1.transactions) = some 3000000 ∧
      ¬ (3000000 : Int) ≤ gasMaker.gasLimitInBlock := by
  refine ⟨by decide +kernel, by decide +kernel, by decide⟩

end HyperExchange.Contracts
