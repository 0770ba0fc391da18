/-
  **What an accepted operation did.**

  `applyOperation_ran` reads the evaluator and the `do_apply` of every operation once: the
  cases of `Ran` are what was checked and what became of the state.  Whatever is proved of
  all operations starts from these cases.
-/
import HyperExchange.WithdrawalSteps

namespace HyperExchange.Crosschain

open Keyed Fees Option CrosschainTrxIndex

variable {H : Type} {reg : Registry} {s s' : State H} {ctx : Context reg H}
  {trx : SignedTransaction H}

/-! ### Changes of the supply and of a balance -/

theorem addSupply_eq {a : Nat} {n : Int} (h : s.addSupply a n = some s') :
    s'.trxs = s.trxs ∧ s'.acquired = s.acquired ∧ s'.trace = s.trace := by
  obtain ⟨m, _, rfl⟩ := map_eq_some_iff.1 h
  exact ⟨rfl, rfl, rfl⟩

/-- Only the supply of the asset changes, and by the amount. -/
theorem addSupply_spec {i : Nat} {n : Int} (h : s.addSupply i n = some s') (a : Nat) :
    s'.currentSupply a = s.currentSupply a + Asset.of ⟨n, i⟩ a ∧ s'.ledger = s.ledger := by
  obtain ⟨m, hm, rfl⟩ := map_eq_some_iff.1 h
  refine ⟨?_, rfl⟩
  unfold Asset.of
  by_cases ha : a = i
  · simp only [ha, if_true, share_eq hm]
  · simp only [ha, if_false, Int.add_zero]

/-- The supply and the balance of the account change by the same amount, of which `e` is the
    entry. -/
structure Issues [DecidableEq H] (s : State H) (t : CrosschainTrxIndex H)
    (q : AcquiredCrosschainIndex) (account : Address H) (delta : Asset) (e : Entry H)
    (s' : State H) : Prop where
  trxs : s'.trxs = t
  acquired : s'.acquired = q
  trace : s'.trace = s.trace ++ [e]
  ledger : Moves account.addr delta s.ledger s'.ledger
  supply : ∀ a, s'.currentSupply a = s.currentSupply a + delta.of a

section Balances

variable [DecidableEq H] [Inhabited H] {account : Address H} {delta : Asset} {e : Entry H}

theorem adjustBalance_eq (h : s.adjustBalance account delta e = some s') :
    s'.trxs = s.trxs ∧ s'.acquired = s.acquired ∧ s'.trace = s.trace ++ [e] := by
  obtain ⟨l, _, rfl⟩ := map_eq_some_iff.1 h
  exact ⟨rfl, rfl, rfl⟩

theorem issues_of {t : CrosschainTrxIndex H} {q : AcquiredCrosschainIndex} {s₁ : State H}
    {i : Nat} (h : s.adjustBalance account delta e = some s₁) (hi : delta.assetId = i)
    (h' : { s₁ with trxs := t, acquired := q }.addSupply i delta.amount = some s') :
    Issues s t q account delta e s' := by
  obtain ⟨l, hl, rfl⟩ := map_eq_some_iff.1 h
  subst hi
  obtain ⟨htrxs, hacquired, htrace⟩ := addSupply_eq h'
  refine ⟨htrxs, hacquired, htrace, ?_, fun a => (addSupply_spec h' a).1⟩
  rw [(addSupply_spec h' 0).2]
  exact moves_adjustBalance hl

end Balances

/-! ### Inversion -/

theorem Context.amountFromString_eq {id : Nat} {text : Text} {x : Asset}
    (h : ctx.amountFromString id text = some x) : x.assetId = id ∧
      ∃ m, Crosschain.amountFromString (reg.precision id) m text = some x.amount := by
  obtain ⟨a, _, h⟩ := bind_eq_some_iff.1 h
  obtain ⟨n, hn, rfl⟩ := map_eq_some_iff.1 h
  exact ⟨rfl, a.maxSupply, hn⟩

/-- The record belongs to a batch.  Above the checkpoint it is in the state `st`, and the
    withdrawals of the batch were checked. -/
structure Batched (ctx : Context reg H) (s : State H) (id : TrxId) (st : TransactionStata)
    (r : CrosschainTrxObject H) (b : TrxId) (u : CrosschainTrxObject H)
    (op : WithdrawWithoutSign) : Prop where
  record : s.trxs.find id = some r
  related : r.relateTransactionId = some b
  batch : s.trxs.find b = some u
  names : withoutSignOf u = some op
  state : checkPointBlock < ctx.headBlockNum → r.trxState = st
  checked : checkPointBlock < ctx.headBlockNum → checkSources ctx s.trxs op = some ()

variable {r : CrosschainTrxObject H}

/-- The check is of the batch that the record is related to, and of its withdrawals. -/
theorem checkBatch_eq {u : CrosschainTrxObject H} {b : TrxId} {op : WithdrawWithoutSign}
    (hb : r.relateTransactionId = some b) (hu : s.trxs.find b = some u)
    (hop : withoutSignOf u = some op) (h : checkBatch ctx s r = some ()) :
    u.realTransaction.operations.length = 1 ∧ checkSources ctx s.trxs op = some () := by
  simp only [checkBatch, findRelated, hb, hu, hop, bind_eq_bind, bind_some,
    bind_eq_some_iff, fcAssert_eq_some] at h
  obtain ⟨_, hone, hcheck⟩ := h
  exact ⟨hone, hcheck⟩

theorem startsCombined_of {op : Operation H} {o : WithdrawCombineSign}
    (h : r.realTransaction.first = some op ∧ op.getCombineSign = some o) : StartsCombined r := by
  rw [StartsCombined, h.1, bind_some, h.2]
  rfl

theorem getSignFinal_plain (op : Operation H) (h : op.getSignFinal.isSome) :
    op.getWithoutSign = none ∧ op.getCombineSign = none := by
  cases op <;> first | exact ⟨rfl, rfl⟩ | cases h

theorem getChangeSigner_plain (op : Operation H) (h : op.getChangeSigner.isSome) :
    op.getWithoutSign = none ∧ op.getCombineSign = none := by
  cases op <;> first | exact ⟨rfl, rfl⟩ | cases h

variable [DecidableEq H] [Inhabited H]

theorem payFee_eq {op : Operation H} (h : payFee op s = some s') :
    s'.trxs = s.trxs ∧ s'.acquired = s.acquired ∧ s'.trace = s.trace ∧
      s'.currentSupply = s.currentSupply := by
  unfold payFee at h
  split at h
  · cases h
    exact ⟨rfl, rfl, rfl, rfl⟩
  · obtain ⟨_, _, rfl⟩ := map_eq_some_iff.1 h
    exact ⟨rfl, rfl, rfl, rfl⟩

/-- What was done when the operation was accepted, and what was checked before: up to the
    checkpoint only the operations that are always evaluated are checked. -/
inductive Ran (ctx : Context reg H) (trx : SignedTransaction H) (s : State H) :
    Operation H → State H → Prop
  | record {o tunnel amount q s'} :
      (checkPointBlock < ctx.headBlockNum → (∀ r ∈ s.acquired.find o.crossChainTrx.trxId,
        r.acquiredTransactionState = .acquiredTrxUncreate) ∧
          reg.symbol o.assetId = o.crossChainTrx.assetSymbol) →
      tunnel ∈ ctx.bindings ∧ tunnel.bindAccount = o.crossChainTrx.fromAccount →
      ctx.amountFromString o.assetId o.crossChainTrx.amount = some amount →
      s.acquired.adjustDepositToLinkTrx o.crossChainTrx = some q →
      Issues s s.trxs q tunnel.owner amount (.minted o.crossChainTrx tunnel.owner amount) s' →
      Ran ctx trx s (.crosschainRecord o) s'
  | withdraw {o amount t s'} :
      ctx.amountFromString o.assetId o.amount = some amount →
      adjustWithdraw ctx.headBlockNum trx s.trxs = some t →
      Issues s t s.acquired o.withdrawAccount amount.neg
        (.debited trx.id o.withdrawAccount amount) s' →
      Ran ctx trx s (.crosschainWithdraw o) s'
  | withoutSign {o t s'} :
      (checkPointBlock < ctx.headBlockNum →
        (∀ w ∈ o.ccwTrxIds, (s.trxs.find w).isSome) ∧ s.trxs.find trx.id = none) →
      o.ccwTrxIds.foldlM (fun t id =>
        adjustWithoutSign ctx.headBlockNum trx o.ccwTrxIds id t) s.trxs =
          some t →
      (t.find trx.id).isSome →
      { s with trxs := t.modify trx.id (setFee o.crosschainFee) }.addSupply o.assetId
        o.crosschainFee.amount = some s' →
      Ran ctx trx s (.withdrawWithoutSign o) s'
  | withSign {o t} : adjustWithSign ctx.headBlockNum o.ccwTrxId trx s.trxs = some t →
      Ran ctx trx s (.withdrawWithSign o) { s with trxs := t }
  | combineSign {o b t} : trx.operations.length = 1 → combinedBatch s o = some b →
      adjustCombineSign ctx.headBlockNum b trx s.trxs = some t →
      Ran ctx trx s (.withdrawCombineSign o) { s with trxs := t }
  | result {result c b u l q t} :
      (∀ r ∈ s.acquired.find result.resultId,
        r.acquiredTransactionState = .acquiredTrxUncreate) →
      findCombine ctx s result = some c → c.relateTransactionId = some b →
      s.trxs.find b = some u → s.ledger.modifyCurrentCollectedFee u.crosschainFee = some l →
      s.acquired.adjustCrosschainConfirmTrx result = some q →
      adjustResult ctx.headBlockNum b s.trxs = some t →
      Ran ctx trx s (.withdrawResult result)
        { s with trxs := t, acquired := q, ledger := l, trace := s.trace ++ [.counted result] }
  | refundBalance {o r w amount s'} : s.trxs.find o.txid = some r →
      (checkPointBlock < ctx.headBlockNum → r.trxState = .withdrawWithoutSignTrxUncreate ∧
        r.realTransaction.operations.length = 1) →
      withdrawOf r = some w → ctx.amountFromString w.assetId w.amount = some amount →
      Issues s (s.trxs.modify o.txid (setState .withdrawCanceled ctx.headBlockNum)) s.acquired
        o.refundAddr amount (.refunded o.txid o.refundAddr amount) s' →
      Ran ctx trx s (.guardRefundBalance o) s'
  | refundTrx {o u op s'} : s.trxs.find o.trxId = some u → withoutSignOf u = some op →
      (checkPointBlock < ctx.headBlockNum → u.trxState = .withdrawWithoutSignTrxCreate ∧
        checkSources ctx s.trxs op = some ()) →
      cancelBatch ctx s o.trxId o.trxId = some s' →
      Ran ctx trx s (.guardRefundCrosschainTrx o) s'
  | cancelCombine {o r b u op s'} :
      Batched ctx s o.trxId .withdrawCombineTrxCreate r b u op →
      cancelBatch ctx s o.trxId b = some s' → Ran ctx trx s (.guardCancelCombineTrx o) s'
  | cancelFail {o r b u op s'} : Batched ctx s o.trxId .withdrawEthGuardSign r b u op →
      cancelBatch ctx s o.trxId b = some s' → Ran ctx trx s (.ethCancelFailCrosschainTrx o) s'
  | passSuccess {o r b u op} : Batched ctx s o.trxId .withdrawCombineTrxCreate r b u op →
      Ran ctx trx s (.senatorPassSuccessTrx o)
        { s with
          trxs := closeBatch [o.trxId] b op.ccwTrxIds
            (setState .withdrawTransactionConfirm ctx.headBlockNum)
            (setState .withdrawTransactionConfirm ctx.headBlockNum) s.trxs }
  | cancelUnsigned {o r b u op} : Batched ctx s o.trxId .withdrawEthGuardNeedSign r b u op →
      (checkPointBlock < ctx.headBlockNum →
        StartsCombined r ∧ u.realTransaction.operations.length = 1) →
      Ran ctx trx s (.ethsCancelUnsignedTransaction o)
        { s with
          trxs := (((s.trxs.modifyWhere (relatesTo b) (resetState .withdrawSignTrx)).modifyEach
            op.ccwTrxIds (resetState .withdrawWithoutSignTrxCreate)).modify b
              (resetState .withdrawWithoutSignTrxCreate)).erase o.trxId }
  | changeAcquire {o op} : namedSignFinal s o = some op →
      Ran ctx trx s (.senatorChangeAcquireTrx o)
        { s with acquired := s.acquired.modify (acquiredId op) (setAcquired .acquiredTrxUncreate) }
  | signFinal {o c t} : s.trxs.find o.combineTrxId = some c →
      (checkPointBlock < ctx.headBlockNum → StartsCombined c) →
      adjustGuardSign ctx.headBlockNum .ethsGuardSignFinal
        Operation.getSignFinal o.combineTrxId trx s.trxs = some t →
      Ran ctx trx s (.ethsGuardSignFinal o) { s with trxs := t }
  | changeSigner {o c t} : s.trxs.find o.combineTrxId = some c →
      (checkPointBlock < ctx.headBlockNum →
        StartsCombined c ∧ c.trxState = .withdrawEthGuardNeedSign) →
      adjustGuardSign ctx.headBlockNum .ethsGuardChangeSigner
        Operation.getChangeSigner o.combineTrxId trx s.trxs = some t →
      Ran ctx trx s (.ethsGuardChangeSigner o) { s with trxs := t }
  | other : Ran ctx trx s .other s

theorem applyOperation_eq {op : Operation H} (h : applyOperation ctx trx s op = some s') :
    (op.alwaysEvaluated = true ∨ checkPointBlock < ctx.headBlockNum →
      evaluateOperation ctx trx s op = some ()) ∧
      ∃ s₁, doApply ctx trx s op = some s₁ ∧ payFee op s₁ = some s' := by
  obtain ⟨⟨⟩, ⟨⟩, _, heval, h⟩ := bind_bind_eq_some h
  refine ⟨?_, bind_eq_some_iff.1 h⟩
  intro hevaluated
  simpa [evaluateAbove, hevaluated] using heval

/-- Past the checkpoint the evaluator has approved what is applied. -/
theorem doApply_ran {op : Operation H}
    (heval : op.alwaysEvaluated = true ∨ checkPointBlock < ctx.headBlockNum →
      evaluateOperation ctx trx s op = some ())
    (h : doApply ctx trx s op = some s') : Ran ctx trx s op s' := by
  cases op with
  | crosschainRecord o =>
    simp only [doApply, applyRecord, bind_eq_bind, bind_eq_some_iff] at h
    obtain ⟨tunnel, htunnel, amount, hamount, s₁, hs₁, q, hq, hs'⟩ := h
    have hmem := List.mem_filter.1 (ctx.findBinding.mem htunnel)
    rw [(adjustBalance_eq hs₁).2.1] at hq
    obtain ⟨htrxs, _⟩ := adjustBalance_eq hs₁
    refine .record ?_ ⟨hmem.1, of_decide_eq_true hmem.2⟩ hamount hq ?_
    · intro hhead
      have heval := heval (.inr hhead)
      simp only [evaluateOperation, evaluateRecord, bind_eq_bind, bind_eq_some_iff,
        fcAssert_eq_some] at heval
      obtain ⟨_, hfree, _, _, _, _, _, _, _, hsymbol, _⟩ := heval
      exact ⟨hfree, hsymbol⟩
    · rw [← htrxs]
      exact issues_of hs₁ (Context.amountFromString_eq hamount).1 hs'
  | crosschainWithdraw o =>
    simp only [doApply, applyWithdraw, bind_eq_bind, bind_eq_some_iff] at h
    obtain ⟨amount, hamount, s₁, hs₁, t, ht, hs'⟩ := h
    obtain ⟨htrxs, hacquired, _⟩ := adjustBalance_eq hs₁
    rw [htrxs] at ht
    refine .withdraw hamount ht ?_
    rw [← hacquired]
    exact issues_of hs₁ (Context.amountFromString_eq hamount).1 hs'
  | withdrawWithoutSign o =>
    simp only [doApply, applyWithoutSign, bind_eq_bind, bind_eq_some_iff] at h
    obtain ⟨t, ht, made, hmade, _, _, hs'⟩ := h
    refine .withoutSign ?_ ht (isSome_iff_exists.2 ⟨made, hmade⟩) hs'
    intro hhead
    have heval := heval (.inr hhead)
    simp only [evaluateOperation, evaluateWithoutSign, bind_eq_bind,
      bind_eq_some_iff, fcAssert_eq_some, isNone_iff_eq_none] at heval
    obtain ⟨_, _, _, _, _, hfound, _, _, _, _, _, hnone, _⟩ := heval
    exact ⟨hfound, hnone⟩
  | withdrawWithSign o =>
    obtain ⟨t, ht, rfl⟩ := map_eq_some_iff.1 h
    exact .withSign ht
  | withdrawCombineSign o =>
    have heval := heval (.inl rfl)
    simp only [evaluateOperation, evaluateCombineSign, bind_eq_bind,
      bind_eq_some_iff, fcAssert_eq_some] at heval
    obtain ⟨_, _, _, _, _, _, _, _, _, _, _, _, hone⟩ := heval
    simp only [doApply, applyCombineSign, bind_eq_bind, bind_eq_some_iff] at h
    obtain ⟨b, hb, t, ht, heq⟩ := h
    cases heq
    exact .combineSign hone hb ht
  | withdrawResult result =>
    have heval := heval (.inl rfl)
    simp only [evaluateOperation, evaluateResult, bind_eq_bind, bind_eq_some_iff,
      fcAssert_eq_some] at heval
    obtain ⟨_, _, _, _, _, _, _, _, _, hfree, _⟩ := heval
    simp only [doApply, applyResult, bind_eq_bind, bind_eq_some_iff] at h
    obtain ⟨c, hc, b, hb, u, hu, l, hl, q, hq, t, ht, heq⟩ := h
    cases heq
    exact .result hfree hc hb hu hl hq ht
  | guardRefundBalance o =>
    simp only [doApply, applyRefundBalance, bind_eq_bind, bind_eq_some_iff] at h
    obtain ⟨r, hr, w, hw, amount, hamount, s₁, hs₁, hs'⟩ := h
    obtain ⟨htrxs, hacquired, _⟩ := adjustBalance_eq hs₁
    refine .refundBalance hr ?_ hw hamount ?_
    · intro hhead
      have heval := heval (.inr hhead)
      simp only [evaluateOperation, evaluateRefundBalance, hr, bind_eq_bind, bind_some,
        bind_eq_some_iff, fcAssert_eq_some] at heval
      obtain ⟨_, hst, _, hone, _⟩ := heval
      exact ⟨hst, hone⟩
    · rw [← htrxs, ← hacquired]
      exact issues_of hs₁ (Context.amountFromString_eq hamount).1 hs'
  | guardRefundCrosschainTrx o =>
    obtain ⟨u, op, hu, hop, _⟩ := bind_bind_eq_some h
    refine .refundTrx hu hop ?_ h
    intro hhead
    have heval := heval (.inr hhead)
    simp only [evaluateOperation, evaluateRefundCrosschainTrx, bind_eq_bind,
      bind_eq_some_iff] at heval
    obtain ⟨u', hnamed, op', hop', hcheck⟩ := heval
    obtain ⟨hu', hst⟩ := namedRecord_eq hnamed
    cases hu.symm.trans hu'
    cases hop.symm.trans hop'
    exact ⟨hst, hcheck⟩
  | guardCancelCombineTrx o =>
    obtain ⟨r, b, hr, hb, h⟩ := bind_bind_eq_some h
    obtain ⟨u, op, hu, hop, _⟩ := bind_bind_eq_some h
    have hchecked : checkPointBlock < ctx.headBlockNum →
        r.trxState = .withdrawCombineTrxCreate ∧ checkSources ctx s.trxs op = some () := by
      intro hhead
      have heval := heval (.inr hhead)
      simp only [evaluateOperation, evaluateCancelCombineTrx, bind_eq_bind,
        bind_eq_some_iff] at heval
      obtain ⟨r', hnamed, _, _, hcheck⟩ := heval
      obtain ⟨hr', hst⟩ := namedRecord_eq hnamed
      cases hr.symm.trans hr'
      exact ⟨hst, (checkBatch_eq hb hu hop hcheck).2⟩
    exact .cancelCombine
      ⟨hr, hb, hu, hop, fun hhead => (hchecked hhead).1, fun hhead => (hchecked hhead).2⟩ h
  | senatorPassSuccessTrx o =>
    obtain ⟨r, b, hr, hb, h⟩ := bind_bind_eq_some h
    obtain ⟨u, op, hu, hop, h⟩ := bind_bind_eq_some h
    have hchecked : checkPointBlock < ctx.headBlockNum →
        r.trxState = .withdrawCombineTrxCreate ∧ checkSources ctx s.trxs op = some () := by
      intro hhead
      have heval := heval (.inr hhead)
      simp only [evaluateOperation, evaluatePassSuccessTrx, bind_eq_bind,
        bind_eq_some_iff] at heval
      obtain ⟨_, _, r', hnamed, _, _, hcheck⟩ := heval
      obtain ⟨hr', hst⟩ := namedRecord_eq hnamed
      cases hr.symm.trans hr'
      exact ⟨hst, (checkBatch_eq hb hu hop hcheck).2⟩
    cases h
    exact .passSuccess
      ⟨hr, hb, hu, hop, fun hhead => (hchecked hhead).1, fun hhead => (hchecked hhead).2⟩
  | ethsCancelUnsignedTransaction o =>
    obtain ⟨r, b, hr, hb, h⟩ := bind_bind_eq_some h
    obtain ⟨u, op, hu, hop, h⟩ := bind_bind_eq_some h
    have hchecked : checkPointBlock < ctx.headBlockNum →
        (r.trxState = .withdrawEthGuardNeedSign ∧ checkSources ctx s.trxs op = some ()) ∧
          StartsCombined r ∧ u.realTransaction.operations.length = 1 := by
      intro hhead
      have heval := heval (.inr hhead)
      simp only [evaluateOperation, evaluateCancelUnsigned, bind_eq_bind,
        bind_eq_some_iff] at heval
      obtain ⟨r', hnamed, _, ⟨_, hcombine⟩, _, _, hcheck⟩ := heval
      obtain ⟨hr', hst⟩ := namedRecord_eq hnamed
      cases hr.symm.trans hr'
      obtain ⟨hone, hsources⟩ := checkBatch_eq hb hu hop hcheck
      exact ⟨⟨hst, hsources⟩, startsCombined_of hcombine, hone⟩
    cases h
    exact .cancelUnsigned
      ⟨hr, hb, hu, hop, fun hhead => (hchecked hhead).1.1, fun hhead => (hchecked hhead).1.2⟩
      fun hhead => (hchecked hhead).2
  | ethCancelFailCrosschainTrx o =>
    obtain ⟨r, b, hr, hb, h⟩ := bind_bind_eq_some h
    obtain ⟨u, op, hu, hop, _⟩ := bind_bind_eq_some h
    have hchecked : checkPointBlock < ctx.headBlockNum →
        r.trxState = .withdrawEthGuardSign ∧ checkSources ctx s.trxs op = some () := by
      intro hhead
      have heval := heval (.inr hhead)
      simp only [evaluateOperation, evaluateCancelFail, findRelated, bind_eq_bind,
        bind_eq_some_iff] at heval
      obtain ⟨r', hnamed, _, _, _, _, u', ⟨b', hb', hu'⟩, op', hop', _, _, _, hcheck, _⟩ := heval
      obtain ⟨hr', hst⟩ := namedRecord_eq hnamed
      cases hr.symm.trans hr'
      cases hb.symm.trans hb'
      cases hu.symm.trans hu'
      cases hop.symm.trans hop'
      exact ⟨hst, hcheck⟩
    exact .cancelFail
      ⟨hr, hb, hu, hop, fun hhead => (hchecked hhead).1, fun hhead => (hchecked hhead).2⟩ h
  | senatorChangeAcquireTrx o =>
    obtain ⟨op, hop, heq⟩ := bind_eq_some_iff.1 h
    cases heq
    exact .changeAcquire hop
  | ethsGuardSignFinal o =>
    obtain ⟨t, ht, rfl⟩ := map_eq_some_iff.1 h
    obtain ⟨c, hc, _⟩ := bind_eq_some_iff.1 ht
    refine .signFinal hc ?_ ht
    intro hhead
    have heval := heval (.inr hhead)
    simp only [evaluateOperation, evaluateSignFinal, hc, bind_eq_bind, bind_some,
      bind_eq_some_iff] at heval
    obtain ⟨_, _, _, ⟨_, hcombine⟩, _⟩ := heval
    exact startsCombined_of hcombine
  | ethsGuardChangeSigner o =>
    obtain ⟨t, ht, rfl⟩ := map_eq_some_iff.1 h
    obtain ⟨c, hc, _⟩ := bind_eq_some_iff.1 ht
    refine .changeSigner hc ?_ ht
    intro hhead
    have heval := heval (.inr hhead)
    simp only [evaluateOperation, evaluateChangeSigner, hc, bind_eq_bind, bind_some,
      bind_eq_some_iff, fcAssert_eq_some] at heval
    obtain ⟨_, _, _, _, _, hst, _, ⟨_, hcombine⟩, _⟩ := heval
    exact ⟨startsCombined_of hcombine, hst⟩
  | other =>
    cases h
    exact .other

theorem applyOperation_ran {op : Operation H} (h : applyOperation ctx trx s op = some s') :
    ∃ s₁, Ran ctx trx s op s₁ ∧ payFee op s₁ = some s' := by
  obtain ⟨heval, s₁, happly, hpay⟩ := applyOperation_eq h
  exact ⟨s₁, doApply_ran heval happly, hpay⟩

end HyperExchange.Crosschain
