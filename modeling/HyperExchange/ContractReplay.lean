/-
  **Applying the same operations a second time.**

  A contract operation is applied with the stored result, or with the one its execution
  gives (`useResult`).  Everything else about it follows from that result
  (`applyContract_spec`).

  A transaction that was applied to a state is applied again, as part of a block: at another
  place, with other random calls, and with a store that holds nothing for it or the results
  of the first time.  If its contracts give the same whatever the random inputs are, the
  second run follows the first one (`applyListed_replays`).
-/
import HyperExchange.CacheIndependence

namespace HyperExchange.Contracts

open Execution List Exec

variable {D O X B R I A S : Type}

/-! ### One contract operation -/

section Contract

variable (e : Engine D O X B R I A S) (id : TransactionId)

def useResult (place : Place S) (o : O) (s : State D R I A) : Option R :=
  match s.cache.results id s.opNum with
  | some r => if e.maybeInvalid r then (e.execute s.db o place s.callNum).1 else some r
  | none => (e.execute s.db o place s.callNum).1

def settle (o : O) (r : R) (d : D) : Option D := (e.commit o r d).bind (e.payFee o r)

/-- The operation was applied with the result `r`, which is stored now. -/
structure Settled (o : O) (r : R) (d : D) (s t : State D R I A) : Prop where
  db : t.db = d
  transactions : t.transactions = s.transactions
  collected : t.collected = addFees (e.collects o r) s.collected
  opNum : t.opNum = s.opNum + 1
  results : t.results = s.results ++ [e.info r]
  stored : t.cache.results id s.opNum = some r
  others : ∀ n, n ≠ s.opNum → t.cache.results id n = s.cache.results id n

variable {e}

theorem commitResult_ok {o : O} {r : R} {d : D} {s : State D R I A}
    (found ifStore : Bool) (hd : settle e o r s.db = some d)
    (hstored : ifStore = false → s.cache.results id s.opNum = some r) :
    ∃ t, commitResult e id o found ifStore r s = .ok t ∧ Settled e id o r d s t := by
  obtain ⟨d', hcommit, hpay⟩ := Option.bind_eq_some_iff.mp hd
  cases ifStore with
  | false =>
    simp only [commitResult, Bool.false_eq_true, if_false, hcommit, hpay]
    exact ⟨_, rfl, rfl, rfl, rfl, rfl, rfl, hstored rfl, fun _ _ => rfl⟩
  | true =>
    simp only [commitResult, if_true, hcommit, hpay]
    refine ⟨_, rfl, rfl, rfl, rfl, rfl, rfl, ?_, ?_⟩
    · exact (ContractDb.results_storeInvokeResult ..).trans (if_pos ⟨rfl, rfl⟩)
    · intro n hn
      refine (ContractDb.results_storeInvokeResult ..).trans ?_
      rw [if_neg fun h => hn h.2]
      exact results_addStorageChanges e id r s.cache id n

theorem commitResult_not_returned {o : O} {r : R} {s : State D R I A} (found ifStore : Bool)
    (hd : settle e o r s.db = none) :
    (commitResult e id o found ifStore r s).returned = false := by
  have hdb : (if ifStore then { s with cache := addStorageChanges e id r s.cache } else s).db =
      s.db := by
    split
    · rfl
    · rfl
  unfold commitResult
  cases hcommit : e.commit o r s.db with
  | none => simp only [hdb, hcommit, returned_thrown]
  | some d =>
    have hpay : e.payFee o r d = none := by
      simpa only [settle, hcommit, Option.bind_some] using hd
    simp only [hdb, hcommit, hpay, returned_thrown]

/-- Either the result is settled and noted, or the operation throws. -/
theorem executeContract_spec (place : Place S) (o : O) (found : Bool) (s : State D R I A) :
    (∃ r d t, (e.execute s.db o place s.callNum).1 = some r ∧ settle e o r s.db = some d ∧
      executeContract e id place o found s = .ok t ∧
      Settled e id o r d s t) ∨
    ((∀ r, (e.execute s.db o place s.callNum).1 = some r → settle e o r s.db = none) ∧
      (executeContract e id place o found s).returned = false) := by
  unfold executeContract
  cases hout : (e.execute s.db o place s.callNum).1 with
  | none =>
    right
    constructor
    · intro r hr
      cases hr
    · simp only [hout, returned_thrown]
  | some r =>
    simp only [hout]
    cases hd : settle e o r s.db with
    | none =>
      right
      refine ⟨?_, commitResult_not_returned id found true hd⟩
      rintro r' ⟨⟩
      exact hd
    | some d =>
      left
      obtain ⟨t, ht, hsettled⟩ := commitResult_ok id
        (s := { s with callNum := s.callNum + (e.execute s.db o place s.callNum).2 })
        found true hd (fun h => by cases h)
      refine ⟨r, d, t, rfl, hd, ht, ?_⟩
      exact ⟨hsettled.db, hsettled.transactions, hsettled.collected, hsettled.opNum,
        hsettled.results, hsettled.stored, hsettled.others⟩

/-- **What a contract operation does.** It returns exactly if it is admitted and the result
    it uses can be settled. -/
theorem applyContract_spec (place : Place S) (o : O) (s : State D R I A) :
    (∃ r d t, e.admits o s.db = true ∧ useResult e id place o s = some r ∧
      settle e o r s.db = some d ∧ applyContract e id place o s = .ok t ∧
      Settled e id o r d s t) ∨
    ((e.admits o s.db = true → ∀ r, useResult e id place o s = some r →
      settle e o r s.db = none) ∧ (applyContract e id place o s).returned = false) := by
  by_cases hadmits : e.admits o s.db = true
  · cases hfound : s.cache.results id s.opNum with
    | none =>
      have huse : useResult e id place o s = (e.execute s.db o place s.callNum).1 := by
        simp only [useResult, hfound]
      have happly : applyContract e id place o s = executeContract e id place o false s := by
        simp only [applyContract, hadmits, hfound, if_true]
      rw [huse, happly]
      rcases executeContract_spec (e := e) id place o false s with
        ⟨r, d, t, hout, hd, ht, hsettled⟩ | ⟨hnone, hnot⟩
      · exact .inl ⟨r, d, t, hadmits, hout, hd, ht, hsettled⟩
      · exact .inr ⟨fun _ => hnone, hnot⟩
    | some r =>
      cases hinvalid : e.maybeInvalid r with
      | true =>
        have huse : useResult e id place o s = (e.execute s.db o place s.callNum).1 := by
          simp only [useResult, hfound, hinvalid, if_true]
        have happly : applyContract e id place o s = executeContract e id place o true
            { s with cache := s.cache.removeContractInvokeResult id s.opNum } := by
          simp only [applyContract, hadmits, hfound, hinvalid, if_true]
        rw [huse, happly]
        rcases executeContract_spec (e := e) id place o true
            { s with cache := s.cache.removeContractInvokeResult id s.opNum } with
          ⟨r, d, t, hout, hd, ht, hsettled⟩ | ⟨hnone, hnot⟩
        · refine .inl ⟨r, d, t, hadmits, hout, hd, ht, ?_⟩
          refine ⟨hsettled.db, hsettled.transactions, hsettled.collected, hsettled.opNum,
            hsettled.results, hsettled.stored, ?_⟩
          intro n hn
          refine (hsettled.others n hn).trans ?_
          exact (ContractDb.results_removeContractInvokeResult ..).trans
            (if_neg fun h => hn h.2)
        · exact .inr ⟨fun _ => hnone, hnot⟩
      | false =>
        have huse : useResult e id place o s = some r := by
          simp only [useResult, hfound, hinvalid, Bool.false_eq_true, if_false]
        have happly : applyContract e id place o s = commitResult e id o true false r s := by
          simp only [applyContract, hadmits, hfound, hinvalid, if_true, Bool.false_eq_true,
            if_false]
        rw [huse, happly]
        cases hd : settle e o r s.db with
        | none =>
          right
          refine ⟨?_, commitResult_not_returned id true false hd⟩
          rintro _ r' ⟨⟩
          exact hd
        | some d =>
          left
          obtain ⟨t, ht, hsettled⟩ := commitResult_ok id true false hd fun _ => hfound
          exact ⟨r, d, t, hadmits, rfl, hd, ht, hsettled⟩
  · right
    refine ⟨fun h => absurd h hadmits, ?_⟩
    unfold applyContract
    rw [if_neg hadmits]
    rfl

end Contract

/-! ### Operations that return -/

/-- What operations that return leave of the state of their transaction: the results of
    operations that came before or are still to come. -/
structure Advances (id : TransactionId) (s t : State D R I A) : Prop where
  transactions : t.transactions = s.transactions
  opNum : s.opNum ≤ t.opNum
  others : ∀ n, n < s.opNum ∨ t.opNum ≤ n → t.cache.results id n = s.cache.results id n

namespace Advances

variable {id : TransactionId} {s t u : State D R I A}

theorem refl : Advances id s s := ⟨rfl, Nat.le_refl _, fun _ _ => rfl⟩

theorem trans (h : Advances id s t) (h' : Advances id t u) : Advances id s u := by
  have hopNum := h.opNum
  have hopNum' := h'.opNum
  refine ⟨h'.transactions.trans h.transactions, by omega, ?_⟩
  intro n hn
  rw [h'.others n (by omega), h.others n (by omega)]

theorem one (htransactions : t.transactions = s.transactions) (hopNum : t.opNum = s.opNum + 1)
    (hcache : t.cache = s.cache) : Advances id s t :=
  ⟨htransactions, by omega, fun _ _ => by rw [hcache]⟩

end Advances

section Advance

variable {e : Engine D O X B R I A S} {id : TransactionId} {place : Place S} {s t : State D R I A}

theorem applyContract_eq_ok {o : O} (h : applyContract e id place o s = .ok t) :
    ∃ r d, e.admits o s.db = true ∧ useResult e id place o s = some r ∧
      settle e o r s.db = some d ∧ Settled e id o r d s t := by
  rcases applyContract_spec (e := e) id place o s with
    ⟨r, d, t', hadmits, hr, hd, ht, hsettled⟩ | ⟨_, hnot⟩
  · rw [h] at ht
    cases ht
    exact ⟨r, d, hadmits, hr, hd, hsettled⟩
  · rw [h] at hnot
    cases hnot

theorem Settled.advances {o : O} {r : R} {d : D} (h : Settled e id o r d s t) :
    Advances id s t := by
  have hopNum := h.opNum
  exact ⟨h.transactions, by omega, fun n hn => h.others n (by omega)⟩

theorem kept_advances : Kept e id True fun s x => ∀ t, x = .ok t → Advances id s t where
  ok s t h := by
    cases h
    exact .refl
  thrown s t h := by cases h
  andThen hx hf u h := by
    obtain ⟨t, ht, hu⟩ := andThen_eq_ok.mp h
    exact (hx t ht).trans (hf t u hu)
  contract _ _ _ _ _ h := by
    obtain ⟨_, _, _, _, _, hsettled⟩ := applyContract_eq_ok h
    exact hsettled.advances
  other x s t h := by
    simp only [applyOther] at h
    split at h
    · cases h
    · cases h
      exact .one rfl rfl rfl
  finish x s t h := by
    simp only [finishUndertaker] at h
    split at h
    · cases h
    · cases h
      exact .one rfl rfl rfl

theorem applyOperation_advances {op : Op O X} (h : applyOperation e id place op s = .ok t) :
    Advances id s t :=
  kept_advances.applyOperation place op (fun _ => trivial) s t h

theorem applyOperations_advances {l : List (Op O X)} (h : applyOperations e id place l s = .ok t) :
    Advances id s t :=
  kept_advances.applyOperations place l (fun _ => trivial) s t h

theorem applyListed_advances {secretKey : S} {k i : Nat} {l : List (Op O X)}
    (h : applyListed e id secretKey k i l s = .ok t) : Advances id s t :=
  kept_advances.applyListed secretKey k i (fun _ => trivial) s t h

/-- The two lists of an undertaker run one after the other. -/
theorem applyOperation_undertaker_eq_ok {x : X} {takerOp makerOp : List (Op O X)}
    {u : State D R I A} (h : applyOperation e id place (.undertaker x takerOp makerOp) s = .ok u) :
    e.undertakes x s.db = true ∧ ∃ t t', applyOperations e id place takerOp s = .ok t ∧
      applyOperations e id place makerOp t = .ok t' ∧ finishUndertaker e x t' = .ok u := by
  unfold applyOperation at h
  split at h
  · obtain ⟨t, ht, h⟩ := andThen_eq_ok.mp h
    obtain ⟨t', ht', h⟩ := andThen_eq_ok.mp h
    exact ⟨‹_›, t, t', ht, ht', h⟩
  · cases h

/-- No result that is stored for an operation to come can be used. -/
def Unstored (e : Engine D O X B R I A S) (id : TransactionId) (s : State D R I A) : Prop :=
  ∀ n, s.opNum ≤ n → ∀ r, s.cache.results id n = some r → e.maybeInvalid r = true

/-- Operations that ran have stored nothing for those to come. -/
theorem Unstored.advances (h : Unstored e id s) (ht : Advances id s t) : Unstored e id t := by
  have hopNum := ht.opNum
  intro n hn r hresult
  rw [ht.others n (.inr hn)] at hresult
  exact h n (by omega) r hresult

/-- A result in use was executed for, or is stored and can be used. -/
theorem useResult_cases {o : O} {r : R} (h : useResult e id place o s = some r) :
    (e.execute s.db o place s.callNum).1 = some r ∨
      s.cache.results id s.opNum = some r ∧ e.maybeInvalid r = false := by
  unfold useResult at h
  split at h
  · rename_i r' hfound
    split at h
    · exact .inl h
    · cases h
      exact .inr ⟨hfound, Bool.eq_false_of_not_eq_true ‹_›⟩
  · exact .inl h

end Advance

/-! ### Contracts that give the same again -/

mutual

/-- The contract operations in an operation, those wrapped in undertakers included. -/
def Op.contracts : Op O X → List O
  | .contract o => [o]
  | .other _ => []
  | .undertaker _ takerOp makerOp => contractsOf takerOp ++ contractsOf makerOp

def contractsOf : List (Op O X) → List O
  | [] => []
  | op :: l => op.contracts ++ contractsOf l

end

section Replay

variable (e : Engine D O X B R I A S) (id : TransactionId) (packed : Bool)

/-- The contract uses no random inputs; or the stored results are not deleted before the
    block is applied, and its results are never empty. -/
def Repeatable (o : O) : Prop :=
  (∀ d place place' n n', (e.execute d o place n).1 = (e.execute d o place' n').1) ∨
    packed = false ∧ ∀ d place n r, (e.execute d o place n).1 = some r → e.maybeInvalid r = false

/-- The second run is where the first one is.  `stored` is what it found in its store. -/
structure Replays (stored : Nat → Option R) (s t : State D R I A) : Prop where
  db : t.db = s.db
  transactions : t.transactions = s.transactions
  collected : t.collected 0 = s.collected 0
  opNum : t.opNum = s.opNum
  results : t.results = s.results
  found : ∀ n, s.opNum ≤ n → t.cache.results id n = stored n
  unstored : packed = true → Unstored e id s

/-- From `s` to `s'`, the store of the second run holds nothing for a packed transaction, and
    otherwise what the first run used. -/
def Finds (stored : Nat → Option R) (s s' : State D R I A) : Prop :=
  ∀ n, s.opNum ≤ n → n < s'.opNum → stored n = if packed then none else s'.cache.results id n

variable {e id packed} {stored : Nat → Option R} {place place' : Place S}
  {s s₁ s' t t' : State D R I A}

/-- What is found over a whole run is found in both of its parts. -/
theorem Finds.split (h : Finds id packed stored s s') (hs : Advances id s s₁)
    (hs' : Advances id s₁ s') : Finds id packed stored s s₁ ∧ Finds id packed stored s₁ s' := by
  have hopNum := hs.opNum
  have hopNum' := hs'.opNum
  constructor
  · intro n hn hlt
    rw [h n hn (by omega), hs'.others n (.inl hlt)]
  · intro n hn hlt
    exact h n (by omega) hlt

variable (h : Replays e id packed stored s t)
include h

theorem Replays.after (hs : Advances id s s') (ht : Advances id t t') (hdb : t'.db = s'.db)
    (hfees : ∃ l, s'.collected = addFees l s.collected ∧ t'.collected = addFees l t.collected)
    (hopNum : t'.opNum = s'.opNum) (hresults : t'.results = s'.results) :
    Replays e id packed stored s' t' := by
  obtain ⟨l, hl, hl'⟩ := hfees
  have hle := hs.opNum
  refine ⟨hdb, ?_, ?_, hopNum, hresults, ?_, fun hp => (h.unstored hp).advances hs⟩
  · rw [ht.transactions, hs.transactions, h.transactions]
  · rw [hl, hl']
    simp only [addFees, h.collected]
  · intro n hn
    rw [ht.others n (.inr (by omega)), h.found n (by omega)]

/-- The second run uses the result of the first one. -/
theorem Replays.useResult {o : O} {r : R} (place' : Place S) (ho : Repeatable e packed o)
    (hr : useResult e id place o s = some r)
    (hfound : stored s.opNum = if packed then none else some r) :
    useResult e id place' o t = some r := by
  have hused := useResult_cases hr
  have hstored := h.found s.opNum (Nat.le_refl _)
  unfold Contracts.useResult
  rw [h.opNum, h.db, hstored, hfound]
  cases packed with
  | true =>
    have hagain := ho.resolve_right fun h => Bool.noConfusion h.1
    rcases hused with hexecuted | ⟨hfirst, hvalid⟩
    · exact (hagain ..).trans hexecuted
    · have hinvalid := h.unstored rfl s.opNum (Nat.le_refl _) r hfirst
      rw [hvalid] at hinvalid
      cases hinvalid
  | false =>
    rw [if_neg Bool.false_ne_true]
    simp only
    split
    · rename_i hinvalid
      rcases hused with hexecuted | ⟨_, hvalid⟩
      · rcases ho with hagain | ⟨_, hvalid⟩
        · exact (hagain ..).trans hexecuted
        · rw [hvalid _ _ _ _ hexecuted] at hinvalid
          cases hinvalid
      · rw [hvalid] at hinvalid
        cases hinvalid
    · rfl

/-- The stored result settles as the execution did. -/
theorem applyContract_replays {o : O} (ho : Repeatable e packed o)
    (hok : applyContract e id place o s = .ok s') (hfinds : Finds id packed stored s s') :
    ∃ t', applyContract e id place' o t = .ok t' ∧ Replays e id packed stored s' t' := by
  obtain ⟨r, d, hadmits, hr, hd, hsettled⟩ := applyContract_eq_ok hok
  have hopNum := hsettled.opNum
  have hfound := hfinds s.opNum (Nat.le_refl _) (by omega)
  rw [hsettled.stored] at hfound
  have hr' := h.useResult place' ho hr hfound
  rcases applyContract_spec (e := e) id place' o t with
    ⟨r', d', t', _, hr'', hd', hok', hsettled'⟩ | ⟨hnone, _⟩
  · rw [hr'] at hr''
    cases hr''
    rw [h.db, hd] at hd'
    cases hd'
    refine ⟨t', hok', ?_⟩
    refine h.after hsettled.advances hsettled'.advances ?_ ⟨_, hsettled.collected,
      hsettled'.collected⟩ ?_ ?_
    · rw [hsettled'.db, hsettled.db]
    · rw [hsettled'.opNum, hopNum, h.opNum]
    · rw [hsettled'.results, hsettled.results, h.results]
  · have hsettle := hnone (by rw [h.db, hadmits]) r hr'
    rw [h.db, hd] at hsettle
    cases hsettle

theorem applyOther_replays {x : X} (hok : applyOther e x s = .ok s') :
    ∃ t', applyOther e x t = .ok t' ∧ Replays e id packed stored s' t' := by
  simp only [applyOther] at hok ⊢
  rw [h.db]
  split at hok
  · cases hok
  cases hok
  refine ⟨_, rfl, h.after (.one rfl rfl rfl) (.one rfl rfl rfl) rfl ⟨_, rfl, rfl⟩ ?_ ?_⟩
  · simp only [h.opNum]
  · simp only [h.results]

theorem finishUndertaker_replays {x : X} (hok : finishUndertaker e x s = .ok s') :
    ∃ t', finishUndertaker e x t = .ok t' ∧ Replays e id packed stored s' t' := by
  simp only [finishUndertaker] at hok ⊢
  rw [h.db]
  split at hok
  · cases hok
  cases hok
  refine ⟨_, rfl, h.after (.one rfl rfl rfl) (.one rfl rfl rfl) rfl ⟨_, rfl, rfl⟩ ?_ ?_⟩
  · simp only [h.opNum]
  · simp only [h.results]

omit h

mutual

theorem applyOperation_replays (op : Op O X) {s s' t : State D R I A}
    (h : Replays e id packed stored s t) (hop : ∀ o ∈ op.contracts, Repeatable e packed o)
    (hok : applyOperation e id place op s = .ok s') (hfinds : Finds id packed stored s s') :
    ∃ t', applyOperation e id place' op t = .ok t' ∧ Replays e id packed stored s' t' := by
  match op with
  | .contract o => exact applyContract_replays h (hop o (mem_singleton.mpr rfl)) hok hfinds
  | .other x => exact applyOther_replays h hok
  | .undertaker x takerOp makerOp =>
    obtain ⟨hundertakes, s₁, s₂, htaker, hmaker, hfinish⟩ := applyOperation_undertaker_eq_ok hok
    have hrest := (applyOperations_advances hmaker).trans
      (kept_advances.finish (e := e) x s₂ s' hfinish)
    obtain ⟨hfinds₁, hfinds'⟩ := hfinds.split (applyOperations_advances htaker) hrest
    obtain ⟨hfinds₂, _⟩ := hfinds'.split (applyOperations_advances hmaker)
      (kept_advances.finish (e := e) x s₂ s' hfinish)
    obtain ⟨t₁, ht₁, h₁⟩ := applyOperations_replays takerOp h
      (fun o ho => hop o (mem_append_left _ ho)) htaker hfinds₁
    obtain ⟨t₂, ht₂, h₂⟩ := applyOperations_replays makerOp h₁
      (fun o ho => hop o (mem_append_right _ ho)) hmaker hfinds₂
    obtain ⟨t', ht', h'⟩ := finishUndertaker_replays h₂ hfinish
    refine ⟨t', ?_, h'⟩
    unfold applyOperation
    rw [if_pos (by rw [h.db, hundertakes]), ht₁, ok_andThen, ht₂, ok_andThen, ht']

theorem applyOperations_replays (l : List (Op O X)) {s s' t : State D R I A}
    (h : Replays e id packed stored s t) (hl : ∀ o ∈ contractsOf l, Repeatable e packed o)
    (hok : applyOperations e id place l s = .ok s') (hfinds : Finds id packed stored s s') :
    ∃ t', applyOperations e id place' l t = .ok t' ∧ Replays e id packed stored s' t' := by
  match l with
  | [] =>
    cases hok
    exact ⟨t, rfl, h⟩
  | op :: l =>
    obtain ⟨s₁, hop, hrest⟩ := andThen_eq_ok.mp hok
    obtain ⟨hfinds₁, hfinds₂⟩ := hfinds.split (applyOperation_advances hop)
      (applyOperations_advances hrest)
    obtain ⟨t₁, ht₁, h₁⟩ := applyOperation_replays op h
      (fun o ho => hl o (mem_append_left _ ho)) hop hfinds₁
    obtain ⟨t', ht', h'⟩ := applyOperations_replays l h₁
      (fun o ho => hl o (mem_append_right _ ho)) hrest hfinds₂
    refine ⟨t', ?_, h'⟩
    unfold applyOperations
    rw [ht₁, ok_andThen, ht']

end

/-- The list may be replayed under another key and at another place of the block. -/
theorem applyListed_replays {secretKey : S} {j i : Nat} {l : List (Op O X)} (secret : S) (k : Nat)
    (h : Replays e id packed stored s t) (hl : ∀ o ∈ contractsOf l, Repeatable e packed o)
    (hok : applyListed e id secretKey j i l s = .ok s') (hfinds : Finds id packed stored s s') :
    ∃ t', applyListed e id secret k i l t = .ok t' ∧ Replays e id packed stored s' t' := by
  induction l generalizing i s t with
  | nil =>
    cases hok
    exact ⟨t, rfl, h⟩
  | cons op l ih =>
    obtain ⟨s₁, hop, hrest⟩ := andThen_eq_ok.mp hok
    obtain ⟨hfinds₁, hfinds₂⟩ := hfinds.split (applyOperation_advances hop)
      (applyListed_advances hrest)
    obtain ⟨t₁, ht₁, h₁⟩ := applyOperation_replays op h
      (fun o ho => hl o (mem_append_left _ ho)) hop hfinds₁
    obtain ⟨t', ht', h'⟩ := ih h₁ (fun o ho => hl o (mem_append_right _ ho)) hrest hfinds₂
    refine ⟨t', ?_, h'⟩
    unfold applyListed
    rw [ht₁, ok_andThen, ht']

end Replay

end HyperExchange.Contracts
