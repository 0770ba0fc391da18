/-
  **What an operation can do to the records and the trace.**

  Every operation edits records, adds one of its own transaction, or removes one that belongs
  to a batch; and it writes entries that fit it (`Writes`).  `applyOperation_does` says so
  once, for every description of the edits that meets `EditLaws`: that records keep what they
  belong to, or that in addition no signature is brought back.
-/
import HyperExchange.TableChanges
import HyperExchange.WithdrawalRefunds

namespace HyperExchange.Crosschain

open Keyed Fees Execution List Option CrosschainTrxIndex

variable {H : Type} {reg : Registry}

/-! ### Edits -/

def TransactionStata.Late (st : TransactionStata) : Prop :=
  st ≠ .withdrawWithoutSignTrxUncreate ∧ st ≠ .withdrawWithoutSignTrxCreate

def TransactionStata.Sent (st : TransactionStata) : Prop := st.Late ∧ st ≠ .withdrawSignTrx

/-- The edit brings a record to a state in which it waits neither for a batch nor to be
    combined. -/
structure SetsSent (e : TrxEdit H) : Prop where
  links : ∀ r, SameLinks r (e.run r)
  sent : ∀ r, (e.run r).trxState.Sent

variable {st : TransactionStata}

theorem setsSent_setState (hst : st.Sent) (n : Nat) :
    SetsSent (setState st n : TrxEdit H) := ⟨fun _ => ⟨rfl, rfl, rfl, rfl⟩, fun _ => hst⟩

theorem setsSent_setStateAndId (hst : st.Sent) (id : Text) (n : Nat) :
    SetsSent (setStateAndId st id n : TrxEdit H) := ⟨fun _ => ⟨rfl, rfl, rfl, rfl⟩, fun _ => hst⟩

theorem combinedState_sent (symbol : Text) : (combinedState symbol).Sent := by
  unfold combinedState
  split <;> exact ⟨⟨nofun, nofun⟩, nofun⟩

theorem sent_confirm : TransactionStata.Sent .withdrawTransactionConfirm :=
  ⟨⟨nofun, nofun⟩, nofun⟩

theorem sent_canceled : TransactionStata.Sent .withdrawCanceled := ⟨⟨nofun, nofun⟩, nofun⟩

/-- What is asked of a description of the changes of records. -/
structure EditLaws (keep : CrosschainTrxObject H → CrosschainTrxObject H → Prop)
    (new gone : CrosschainTrxObject H → Prop) : Prop extends Laws keep new gone where
  sent : ∀ {e : TrxEdit H}, SetsSent e → ∀ r, keep r (e.run r)
  links : ∀ {r r'}, keep r r' → SameLinks r r'

section Branches

variable {keep : CrosschainTrxObject H → CrosschainTrxObject H → Prop}
  {new gone : CrosschainTrxObject H → Prop} (laws : EditLaws keep new gone)

theorem EditLaws.edits (laws : EditLaws keep new gone) : EditLaws keep (fun _ => False) gone :=
  { laws with new_keep := fun h _ => h }

variable {e : TrxEdit H} {t t' : CrosschainTrxIndex H}
include laws

/-- Moving a record on to a later state is a kept change, whatever `keep` looks at. -/
theorem EditLaws.modify (he : SetsSent e) (k : TrxId) (t : CrosschainTrxIndex H) :
    Evolves keep new gone t (t.modify k e) :=
  Evolves.modify laws.toLaws fun _ => laws.sent he _

theorem EditLaws.modifyWhere (he : SetsSent e) (q : CrosschainTrxObject H → Bool)
    (t : CrosschainTrxIndex H) : Evolves keep new gone t (t.modifyWhere q e) :=
  Evolves.modifyWhere laws.toLaws fun _ _ => laws.sent he _

theorem EditLaws.modifyEach (he : SetsSent e) (ks : List TrxId) (t : CrosschainTrxIndex H) :
    Evolves keep new gone t (t.modifyEach ks e) :=
  Evolves.modifyEach laws.toLaws fun _ _ _ => laws.sent he _

/-! ### The branches of `adjust_crosschain_transaction` -/

variable {n : Nat} {trx : SignedTransaction H} {b : TrxId}

/-- The withdrawals of a batch go back to a state that not every record may go back to. -/
theorem adjustWithoutSign_evolves {ids l : List TrxId}
    (hnew : ∀ r : CrosschainTrxObject H, r.transactionId = trx.id → r.realTransaction = trx →
      r.opType = .withdrawWithoutSign → r.trxState ≠ .withdrawSignTrx → new r)
    (hl : ∀ id ∈ l, ∀ {r r'}, t.find id = some r → keep r r' →
      keep r' ((setState .withdrawWithoutSignTrxCreate n).run r'))
    (hadded : ∀ {r}, new r → keep r ((setState .withdrawWithoutSignTrxCreate n).run r))
    (h : l.foldlM (fun t id => adjustWithoutSign n trx ids id t) t = some t') :
    Evolves keep new gone t t' := by
  refine foldlM_invariant (fun _ t' => Evolves keep new gone t t')
    (Evolves.refl laws.toLaws t) ?_ h
  intro done id rest t₁ t₂ hsplit hdone h₂
  obtain ⟨withdraw, _, h₂⟩ := bind_eq_some_iff.1 h₂
  have hmodify : Evolves keep new gone t
      (t₁.modify id (setState .withdrawWithoutSignTrxCreate n)) := by
    refine hdone.trans laws.toLaws (Evolves.modify laws.toLaws ?_)
    intro r' hr'
    rcases hdone.back hr' with ⟨r, hr, hkeep⟩ | hr'
    · exact hl id (mem_of_split hsplit) hr hkeep
    · exact hadded hr'
  split at h₂
  · cases h₂
    exact hmodify
  · exact hmodify.trans laws.toLaws (Evolves.insert laws.toLaws (hnew _ rfl rfl rfl (by simp)) h₂)

theorem adjustCombineSign_evolves
    (hnew : ∀ r : CrosschainTrxObject H, r.transactionId = trx.id → r.realTransaction = trx →
      r.opType = .withdrawCombineSign → r.trxState ≠ .withdrawSignTrx → new r)
    (h : adjustCombineSign n b trx t = some t') :
    Evolves keep new gone t t' := by
  obtain ⟨op, u, _, _, h⟩ := bind_bind_eq_some h
  have hsent := combinedState_sent op.assetSymbol
  have hset := setsSent_setState (H := H) hsent n
  have hsources := (laws.modify hset b t).trans laws.toLaws
    (laws.modifyEach (setsSent_setStateAndId hsent op.crosschainTrxId n)
      u.allRelatedOriginTransactionIds _)
  exact (hsources.trans laws.toLaws (laws.modifyWhere hset _ _)).trans laws.toLaws
    (Evolves.insert laws.toLaws (hnew _ rfl rfl rfl hsent.2) h)

theorem adjustResult_evolves (h : adjustResult n b t = some t') :
    Evolves keep new gone t t' := by
  obtain ⟨u, _, h⟩ := bind_eq_some_iff.1 h
  dsimp only at h
  split at h
  · cases h
    have hset := setsSent_setState (H := H) sent_confirm n
    exact ((laws.modify hset b t).trans laws.toLaws (laws.modifyEach hset _ _)).trans laws.toLaws
      (laws.modifyWhere hset _ _)
  · cases h

theorem adjustGuardSign_evolves {opType : OpType} {get : Operation H → Option EthsGuardSign}
    {combineId : TrxId}
    (hnew : ∀ r : CrosschainTrxObject H, r.transactionId = trx.id → r.realTransaction = trx →
      r.opType = opType → r.trxState ≠ .withdrawSignTrx → new r)
    (h : adjustGuardSign n opType get combineId trx t = some t') :
    Evolves keep new gone t t' := by
  obtain ⟨_, b, _, _, h⟩ := bind_bind_eq_some h
  obtain ⟨u, op, _, _, h⟩ := bind_bind_eq_some h
  have hsent : TransactionStata.Sent .withdrawEthGuardSign := ⟨⟨nofun, nofun⟩, nofun⟩
  have hset := setsSent_setStateAndId (H := H) hsent (afterBar op.signedCrosschainTrxId) n
  have hbatch := (laws.modify hset combineId t).trans laws.toLaws
    (laws.modify (setsSent_setState hsent n) b _)
  exact ((hbatch.trans laws.toLaws (laws.modifyEach hset _ _)).trans laws.toLaws
    (laws.modifyWhere hset _ _)).trans laws.toLaws
      (Evolves.insert laws.toLaws (hnew _ rfl rfl rfl (by nofun)) h)

end Branches

/-! ### What is stored and what is written -/

/-- The record of the withdrawal with the id is that of a transaction with nothing else. -/
def Stored (t : CrosschainTrxIndex H) (id : TrxId) (w : CrosschainWithdraw H) : Prop :=
  ∃ r, t.find id = some r ∧ r.realTransaction.operations = [.crosschainWithdraw w]

namespace Stored

variable {t t' : CrosschainTrxIndex H} {id : TrxId} {w : CrosschainWithdraw H}
  {r : CrosschainTrxObject H}

theorem of_withdrawOf (hr : t.find id = some r)
    (hone : r.realTransaction.operations.length = 1) (hw : withdrawOf r = some w) :
    Stored t id w := by
  refine ⟨r, hr, ?_⟩
  obtain ⟨op, hop⟩ := length_eq_one_iff.1 hone
  simp only [Crosschain.withdrawOf, SignedTransaction.first, hop, List.head?_cons,
    bind_some] at hw
  rw [hop]
  cases op with
  | crosschainWithdraw o =>
    cases hw
    rfl
  | _ => cases hw

variable (h : Stored t id w)
include h

theorem exists_withdrawOf : ∃ r, t.find id = some r ∧ Crosschain.withdrawOf r = some w := by
  obtain ⟨r, hr, hops⟩ := h
  refine ⟨r, hr, ?_⟩
  rw [Crosschain.withdrawOf, SignedTransaction.first, hops]
  rfl

end Stored

/-- The operation gives back the withdrawals of a batch. -/
def Operation.refundsBatch : Operation H → Bool
  | .guardRefundCrosschainTrx _ | .guardCancelCombineTrx _ | .ethCancelFailCrosschainTrx _ => true
  | _ => false

/-- The entries that an operation may write.  What is given back is known to be that of a
    stored withdrawal only where the operation was evaluated. -/
inductive Writes (ctx : Context reg H) (trx : SignedTransaction H) (s : State H) :
    Operation H → Entry H → Prop
  | debited {o : CrosschainWithdraw H} {x : Asset} :
      ctx.amountFromString o.assetId o.amount = some x →
      Writes ctx trx s (.crosschainWithdraw o) (.debited trx.id o.withdrawAccount x)
  | minted {o : CrosschainRecord H} {account : Address H} {x : Asset} :
      Writes ctx trx s (.crosschainRecord o) (.minted o.crossChainTrx account x)
  | counted {result : HdTrx} : Writes ctx trx s (.withdrawResult result) (.counted result)
  | refundBalance {o : GuardRefundBalance H} {w : CrosschainWithdraw H} {x : Asset} :
      (checkPointBlock < ctx.headBlockNum → Stored s.trxs o.txid w) →
      ctx.amountFromString w.assetId w.amount = some x →
      Writes ctx trx s (.guardRefundBalance o) (.refunded o.txid o.refundAddr x)
  | refundSource {op : Operation H} {id : TrxId} {w : CrosschainWithdraw H} {x : Asset} :
      op.refundsBatch = true →
      (checkPointBlock < ctx.headBlockNum →
        Stored s.trxs id w ∧ ctx.amountFromString w.assetId w.amount = some x) →
      Writes ctx trx s op (.refunded id w.withdrawAccount x)

/-- The operation credits a deposit, counts a result, or frees a transaction of another
    chain. -/
def Operation.touchesAcquired : Operation H → Bool
  | .crosschainRecord _ => true
  | .withdrawResult _ => true
  | .senatorChangeAcquireTrx _ => true
  | _ => false

def Operation.makes : Operation H → Option OpType
  | .crosschainWithdraw _ => some .crosschainWithdraw
  | .withdrawWithoutSign _ => some .withdrawWithoutSign
  | .withdrawWithSign _ => some .withdrawWithSign
  | .withdrawCombineSign _ => some .withdrawCombineSign
  | .ethsGuardSignFinal _ => some .ethsGuardSignFinal
  | .ethsGuardChangeSigner _ => some .ethsGuardChangeSigner
  | _ => none

/-- The records change as described, entries that meet `p` are added, and the transactions
    of other chains are touched by some operations only. -/
structure Does (keep : CrosschainTrxObject H → CrosschainTrxObject H → Prop)
    (new gone : CrosschainTrxObject H → Prop) (p : Entry H → Prop) (touches : Bool)
    (s s' : State H) : Prop where
  records : Evolves keep new gone s.trxs s'.trxs
  trace : ∃ added, s'.trace = s.trace ++ added ∧ ∀ e ∈ added, p e
  acquired : touches = false → s'.acquired = s.acquired

namespace Does

variable {keep : CrosschainTrxObject H → CrosschainTrxObject H → Prop}
  {new gone : CrosschainTrxObject H → Prop} (laws : EditLaws keep new gone) {p : Entry H → Prop}
  {touches : Bool} {s s' s'' : State H} {t : CrosschainTrxIndex H}

theorem of_trxs (h : Evolves keep new gone s.trxs t) :
    Does keep new gone p touches s { s with trxs := t } :=
  ⟨h, ⟨[], (append_nil _).symm, nofun⟩, fun _ => rfl⟩

theorem congr (h : Does keep new gone p touches s s') (htrxs : s''.trxs = s'.trxs)
    (hacquired : s''.acquired = s'.acquired) (htrace : s''.trace = s'.trace) :
    Does keep new gone p touches s s'' :=
  ⟨htrxs ▸ h.records, htrace ▸ h.trace, hacquired ▸ h.acquired⟩

include laws

theorem refl (s : State H) : Does keep new gone p touches s s :=
  of_trxs (Evolves.refl laws.toLaws _)

theorem trans (h : Does keep new gone p touches s s') (h' : Does keep new gone p touches s' s'') :
    Does keep new gone p touches s s'' := by
  refine ⟨h.records.trans laws.toLaws h'.records, ?_,
    fun ht => (h'.acquired ht).trans (h.acquired ht)⟩
  obtain ⟨added, htrace, hadded⟩ := h.trace
  obtain ⟨added', htrace', hadded'⟩ := h'.trace
  refine ⟨added ++ added', by rw [htrace', htrace, append_assoc], fun e he => ?_⟩
  exact (mem_append.1 he).elim (hadded e) (hadded' e)

theorem addSupply {a : Nat} {n : Int} (h : s.addSupply a n = some s') :
    Does keep new gone p touches s s' := by
  obtain ⟨m, _, rfl⟩ := map_eq_some_iff.1 h
  exact ⟨Evolves.refl laws.toLaws _, ⟨[], (append_nil _).symm, nofun⟩, fun _ => rfl⟩

theorem adjustBalance [DecidableEq H] [Inhabited H] {account : Address H} {delta : Asset}
    {e : Entry H} (h : s.adjustBalance account delta e = some s') (he : p e) :
    Does keep new gone p touches s s' := by
  obtain ⟨l, _, rfl⟩ := map_eq_some_iff.1 h
  exact ⟨Evolves.refl laws.toLaws _, ⟨[e], rfl, forall_mem_singleton.2 he⟩, fun _ => rfl⟩

omit laws in
theorem issues [DecidableEq H] {account : Address H} {delta : Asset}
    {q : AcquiredCrosschainIndex} {e : Entry H} (h : Issues s t q account delta e s')
    (ht : Evolves keep new gone s.trxs t) (he : p e)
    (hq : touches = false → q = s.acquired) : Does keep new gone p touches s s' := by
  exact ⟨h.trxs.symm ▸ ht, ⟨[e], h.trace, forall_mem_singleton.2 he⟩,
    fun hf => h.acquired.trans (hq hf)⟩

end Does

/-! ### Operations -/

section Operations

variable {ctx : Context reg H} {trx : SignedTransaction H} {s s' : State H}
  {keep : CrosschainTrxObject H → CrosschainTrxObject H → Prop}
  {new gone : CrosschainTrxObject H → Prop} (laws : EditLaws keep new gone) {p : Entry H → Prop}
  {touches : Bool}

variable [DecidableEq H] [Inhabited H]

include laws

/-- The loop over a batch; `p` allows the refund of each withdrawal in it. -/
theorem refundSources_does {assetId : Nat} {ids : List TrxId}
    (hids : ∀ id ∈ ids, ∀ {r w x}, s.trxs.find id = some r → withdrawOf r = some w →
      ctx.amountFromString assetId w.amount = some x →
        p (.refunded id w.withdrawAccount ⟨x.amount, w.assetId⟩))
    (h : refundSources ctx assetId ids s = some s') :
    Does keep (fun _ => False) gone p touches s s' := by
  have edits := laws.edits
  induction ids generalizing s with
  | nil =>
    cases h
    exact .refl edits _
  | cons k ids ih =>
    simp only [refundSources, bind_eq_bind, bind_eq_some_iff] at h
    obtain ⟨r, hr, w, hw, x, hx, s₁, hs₁, s₂, hs₂, hrest⟩ := h
    have hset := setsSent_setState (H := H) sent_canceled ctx.headBlockNum
    have hcancel : Does keep (fun _ => False) gone p touches s s₂ :=
      ((Does.adjustBalance edits hs₁ (hids k mem_cons_self hr hw hx)).trans edits
        (.of_trxs (edits.modify hset k s₁.trxs))).trans edits (.addSupply edits hs₂)
    refine hcancel.trans edits (ih ?_ hrest)
    intro id hid r' w' y hr' hw' hy
    -- the record is still that of the same transaction
    obtain ⟨r₀, hr₀, hkeep⟩ := (hcancel.records.back hr').resolve_right fun h => h
    rw [withdrawOf, (laws.links hkeep).real] at hw'
    exact hids id (mem_cons_of_mem _ hid) hr₀ hw' hy

variable {op : WithdrawWithoutSign}

/-- Cancelling a batch refunds the withdrawals that it names. -/
theorem cancelBatch_does {o : Operation H} {named batch : TrxId} {r : CrosschainTrxObject H}
    (ho : o.refundsBatch = true) (hr : s.trxs.find batch = some r)
    (hop : withoutSignOf r = some op)
    (hcheck : checkPointBlock < ctx.headBlockNum → checkSources ctx s.trxs op = some ())
    (h : cancelBatch ctx s named batch = some s') :
    Does keep new gone (Writes ctx trx s o) touches s s' := by
  simp only [cancelBatch, hr, hop, bind_eq_bind, bind_some,
    bind_eq_some_iff] at h
  obtain ⟨s₁, hs₁, hs'⟩ := h
  have hset := setsSent_setState (H := H) sent_canceled ctx.headBlockNum
  have hrelated := laws.edits.modifyWhere hset (relatesTo batch) s.trxs
  have hclosed := (laws.modify hset named s₁.trxs).trans laws.toLaws (laws.modify hset batch _)
  have hsources : Does keep (fun _ => False) gone (Writes ctx trx s o) touches s s₁ := by
    refine (Does.of_trxs hrelated).trans laws.edits (refundSources_does laws ?_ hs₁)
    intro id hid r' w x hr' hw hx
    obtain ⟨r₀, hr₀, hkeep⟩ := (hrelated.back hr').resolve_right fun h => h
    rw [withdrawOf, (laws.links hkeep).real] at hw
    refine .refundSource ho fun hhead => ?_
    obtain ⟨x', hx', hone, w', hw', hasset⟩ := checkSources_eq (hcheck hhead) id hid
    cases hr₀.symm.trans hx'
    cases hw.symm.trans hw'
    refine ⟨.of_withdrawOf hr₀ hone hw, ?_⟩
    rw [← hasset, hx, ← (Context.amountFromString_eq hx).1]
  have hadded : Does keep new gone (Writes ctx trx s o) touches s s₁ :=
    ⟨hsources.records.weaken fun h => h.elim, hsources.trace, hsources.acquired⟩
  exact (hadded.trans laws (.of_trxs hclosed)).trans laws (.addSupply laws hs')

omit [DecidableEq H] [Inhabited H] in
/-- The combined transaction is removed, and the batch, its withdrawals and its signatures
    wait again. -/
theorem applyCancelUnsigned_does {k b : TrxId} {r u : CrosschainTrxObject H}
    (hsigns : ∀ {id r}, id ≠ k → s.trxs.find id = some r → r.relateTransactionId = some b →
      keep r ((resetState .withdrawSignTrx).run r))
    (hsources : ∀ id ∈ op.ccwTrxIds, ∀ {r r'}, s.trxs.find id = some r → keep r r' →
      keep r' ((resetState .withdrawWithoutSignTrxCreate).run r'))
    (hbatch : ∀ {r'}, keep u r' → keep r' ((resetState .withdrawWithoutSignTrxCreate).run r'))
    (hr : s.trxs.find k = some r) (hu : s.trxs.find b = some u) (hgone : gone r) :
    Does keep new gone p touches s
      { s with
        trxs := (((s.trxs.modifyWhere (relatesTo b) (resetState .withdrawSignTrx)).modifyEach
          op.ccwTrxIds (resetState .withdrawWithoutSignTrxCreate)).modify b
            (resetState .withdrawWithoutSignTrxCreate)).erase k } := by
  have edits := laws.edits
  -- the removal may as well come first: what is left is only edited
  rw [Table.erase_modify, Table.erase_modifyEach, Table.erase_modifyWhere]
  have herased : Evolves keep (fun _ => False) gone s.trxs (s.trxs.erase k) := by
    refine Evolves.erase edits.toLaws ?_
    intro x hx
    cases hr.symm.trans hx
    exact hgone
  have hrelated := herased.trans edits.toLaws (Evolves.modifyWhere edits.toLaws
    (p := relatesTo b) (e := resetState .withdrawSignTrx) (by
      intro id x hx hrel
      rw [Table.find_erase] at hx
      split at hx
      · cases hx
      · next hne => exact hsigns hne hx (of_decide_eq_true hrel)))
  have hwithdrawals : Evolves keep (fun _ => False) gone s.trxs
      (((s.trxs.erase k).modifyWhere (relatesTo b) (resetState .withdrawSignTrx)).modifyEach
        op.ccwTrxIds (resetState .withdrawWithoutSignTrxCreate)) := by
    refine hrelated.trans edits.toLaws (Evolves.modifyEach edits.toLaws ?_)
    intro id r₁ r₂ hid hr₁ hkeep
    obtain ⟨x, hx, hkeep'⟩ := (hrelated.back hr₁).resolve_right fun h => h
    exact hsources id hid hx (laws.trans hkeep' hkeep)
  have hedited := hwithdrawals.trans edits.toLaws (Evolves.modify edits.toLaws (k := b)
    (e := resetState .withdrawWithoutSignTrxCreate) (by
      intro r₁ hr₁
      obtain ⟨x, hx, hkeep⟩ := (hwithdrawals.back hr₁).resolve_right id
      cases hu.symm.trans hx
      exact hbatch hkeep))
  exact .of_trxs (hedited.weaken fun h => h.elim)

/-- The transaction has one operation, and it is no signature. -/
def Unsigned (r : CrosschainTrxObject H) : Prop :=
  ∃ op, r.realTransaction.operations = [op] ∧ op.getWithSign = none

/-- What is asked of a description for the operation.  A batch and its withdrawals may go
    back to waiting: those that the operation names, and those that were checked to be no
    signatures. -/
structure Permits (keep : CrosschainTrxObject H → CrosschainTrxObject H → Prop)
    (new gone : CrosschainTrxObject H → Prop) (ctx : Context reg H) (trx : SignedTransaction H)
    (t : CrosschainTrxIndex H) (op : Operation H) : Prop extends EditLaws keep new gone where
  added : ∀ r : CrosschainTrxObject H, r.transactionId = trx.id → r.realTransaction = trx →
    op.makes = some r.opType → (r.trxState = .withdrawSignTrx → r.opType = .withdrawWithSign) →
      new r
  fee : ∀ fee (r : CrosschainTrxObject H), keep r ((setFee fee).run r)
  named : ∀ o, op = .withdrawWithoutSign o → ∀ id ∈ o.ccwTrxIds, ∀ {r r' n}, t.find id = some r →
    keep r r' → keep r' ((setState .withdrawWithoutSignTrxCreate n).run r')
  built : ∀ {r n}, new r → keep r ((setState .withdrawWithoutSignTrxCreate n).run r)
  waiting : ∀ o, op = .ethsCancelUnsignedTransaction o → ∀ {c b id r}, t.find o.trxId = some c →
    c.relateTransactionId = some b → id ≠ o.trxId → t.find id = some r →
      r.relateTransactionId = some b → keep r ((resetState .withdrawSignTrx).run r)
  reset : ∀ o, op = .ethsCancelUnsignedTransaction o → ∀ {id r r'}, t.find id = some r →
    (checkPointBlock < ctx.headBlockNum → Unsigned r) → keep r r' →
      keep r' ((resetState .withdrawWithoutSignTrxCreate).run r')
  erased : ∀ o, op = .ethsCancelUnsignedTransaction o → ∀ {id r b}, t.find id = some r →
    r.relateTransactionId = some b → (checkPointBlock < ctx.headBlockNum → StartsCombined r) →
      gone r

omit laws [DecidableEq H] [Inhabited H] in
theorem unsigned_of {r : CrosschainTrxObject H} {α : Type} {x : α} {get : Operation H → Option α}
    (hget : ∀ op, (get op).isSome → op.getWithSign = none)
    (hone : r.realTransaction.operations.length = 1)
    (h : r.realTransaction.first.bind get = some x) : Unsigned r := by
  obtain ⟨op, hop⟩ := length_eq_one_iff.1 hone
  refine ⟨op, hop, hget op ?_⟩
  rw [SignedTransaction.first, hop, head?_cons, bind_some] at h
  rw [h]
  rfl

omit laws in
/-- Case by case, what an operation does to the records and to the trace. -/
theorem ran_does {op : Operation H} (permits : Permits keep new gone ctx trx s.trxs op)
    (hran : Ran ctx trx s op s') :
    Does keep new gone (Writes ctx trx s op) op.touchesAcquired s s' := by
  have laws := permits.toEditLaws
  have hadded : ∀ {r : CrosschainTrxObject H} {t t' : CrosschainTrxIndex H},
      r.transactionId = trx.id → r.realTransaction = trx → op.makes = some r.opType →
        (r.trxState = .withdrawSignTrx → r.opType = .withdrawWithSign) →
          t.insert r = some t' → Evolves keep new gone t t' :=
    fun hid hreal hmakes hstate h =>
      Evolves.insert laws.toLaws (permits.added _ hid hreal hmakes hstate) h
  have hunsent : ∀ {opType : OpType}, op.makes = some opType →
      ∀ r : CrosschainTrxObject H, r.transactionId = trx.id → r.realTransaction = trx →
        r.opType = opType → r.trxState ≠ .withdrawSignTrx → new r :=
    fun hmakes r hid hreal hop hstate =>
      permits.added r hid hreal (hop ▸ hmakes) fun h => absurd h hstate
  cases hran with
  | record _ _ _ _ hissues => exact .issues hissues (Evolves.refl laws.toLaws _) .minted nofun
  | withdraw hamount ht hissues =>
    obtain ⟨_, _, ht⟩ := bind_eq_some_iff.1 ht
    exact .issues hissues (hadded rfl rfl rfl (by nofun) ht) (.debited hamount) fun _ => rfl
  | @withoutSign o t _ _ ht _ hs' =>
    have hbuilt := adjustWithoutSign_evolves laws (hunsent rfl)
      (fun id hid _ _ hr => permits.named o rfl id hid hr) permits.built ht
    have hfee : Evolves keep new gone t (t.modify trx.id (setFee o.crosschainFee)) :=
      Evolves.modify laws.toLaws fun _ => permits.fee _ _
    exact (Does.of_trxs (hbuilt.trans laws.toLaws hfee)).trans laws (.addSupply laws hs')
  | withSign ht =>
    obtain ⟨_, _, ht⟩ := bind_eq_some_iff.1 ht
    exact .of_trxs (hadded rfl rfl rfl (fun _ => rfl) ht)
  | combineSign _ _ ht =>
    exact .of_trxs (adjustCombineSign_evolves laws (hunsent rfl) ht)
  | @result o _ _ _ _ _ _ _ _ _ _ _ _ ht =>
    exact ⟨adjustResult_evolves laws ht,
      ⟨[.counted o], rfl, forall_mem_singleton.2 .counted⟩, nofun⟩
  | refundBalance hr hchecked hw hamount hissues =>
    exact .issues hissues
      (laws.modify (setsSent_setState sent_canceled ctx.headBlockNum) _ _)
      (.refundBalance (fun hhead => .of_withdrawOf hr (hchecked hhead).2 hw) hamount) fun _ => rfl
  | refundTrx hu hop hchecked hcancel =>
    exact cancelBatch_does laws rfl hu hop (fun hhead => (hchecked hhead).2) hcancel
  | cancelCombine hb hcancel =>
    exact cancelBatch_does laws rfl hb.batch hb.names hb.checked hcancel
  | cancelFail hb hcancel => exact cancelBatch_does laws rfl hb.batch hb.names hb.checked hcancel
  | @passSuccess _ _ b _ _ _ =>
    have hset := setsSent_setState (H := H) sent_confirm ctx.headBlockNum
    exact .of_trxs ((((laws.modifyWhere hset _ _).trans laws.toLaws
      (laws.modifyEach hset _ _)).trans laws.toLaws (laws.modify hset _ _)).trans laws.toLaws
        (laws.modify hset b _))
  | @cancelUnsigned o r b u op hb hchecked =>
    refine applyCancelUnsigned_does laws (permits.waiting o rfl hb.record hb.related) ?_ ?_
      hb.record hb.batch (permits.erased o rfl hb.record hb.related fun hhead => (hchecked hhead).1)
    · intro id hid x x' hx
      refine permits.reset o rfl hx fun hhead => ?_
      obtain ⟨y, hy, hone, w, hw, _⟩ := checkSources_eq (hb.checked hhead) id hid
      cases hx.symm.trans hy
      exact unsigned_of (by rintro ⟨⟩ h <;> first | rfl | cases h) hone hw
    · exact permits.reset o rfl hb.batch fun hhead =>
        unsigned_of (by rintro ⟨⟩ h <;> first | rfl | cases h) (hchecked hhead).2 hb.names
  | changeAcquire =>
    exact ⟨Evolves.refl laws.toLaws _, ⟨[], (append_nil _).symm, nofun⟩, nofun⟩
  | signFinal _ _ ht =>
    exact .of_trxs (adjustGuardSign_evolves laws (hunsent rfl) ht)
  | changeSigner _ _ ht =>
    exact .of_trxs (adjustGuardSign_evolves laws (hunsent rfl) ht)
  | other => exact .refl laws s

omit laws in
theorem applyOperation_does {op : Operation H} (permits : Permits keep new gone ctx trx s.trxs op)
    (happly : applyOperation ctx trx s op = some s') :
    Does keep new gone (Writes ctx trx s op) op.touchesAcquired s s' := by
  obtain ⟨s₁, hran, hpay⟩ := applyOperation_ran happly
  obtain ⟨htrxs, hacquired, htrace, _⟩ := payFee_eq hpay
  exact (ran_does permits hran).congr htrxs hacquired htrace

end Operations

/-! ### Without an order of the operations -/

/-- The record of the transaction, as the operation makes it. -/
structure Added (trx : SignedTransaction H) (op : Operation H) (r : CrosschainTrxObject H) :
    Prop where
  id : r.transactionId = trx.id
  real : r.realTransaction = trx
  made : op.makes = some r.opType

structure SameRecord (r r' : CrosschainTrxObject H) : Prop extends SameLinks r r' where
  id : r'.transactionId = r.transactionId

/-- No operation changes what a record was created with. -/
theorem permits_sameRecord (ctx : Context reg H) (trx : SignedTransaction H)
    (t : CrosschainTrxIndex H) (op : Operation H) :
    Permits SameRecord (Added trx op) (fun r => r.relateTransactionId.isSome) ctx trx t op where
  refl r := ⟨.refl r, rfl⟩
  trans h h' := ⟨h.toSameLinks.trans h'.toSameLinks, h'.id.trans h.id⟩
  new_keep hnew h := ⟨h.id.trans hnew.id, h.real.trans hnew.real, by rw [h.opType, hnew.made]⟩
  keep_gone h hgone := by rwa [h.relate] at hgone
  sent {e} he r := ⟨he.links r, e.keeps r⟩
  links h := h.toSameLinks
  added r hid hreal hmade _ := ⟨hid, hreal, hmade⟩
  fee _ _ := ⟨⟨rfl, rfl, rfl, rfl⟩, rfl⟩
  named _ _ _ _ _ _ _ _ _ := ⟨⟨rfl, rfl, rfl, rfl⟩, rfl⟩
  built _ := ⟨⟨rfl, rfl, rfl, rfl⟩, rfl⟩
  waiting _ _ _ _ _ _ _ _ _ _ _ := ⟨⟨rfl, rfl, rfl, rfl⟩, rfl⟩
  reset _ _ _ _ _ _ _ _ := ⟨⟨rfl, rfl, rfl, rfl⟩, rfl⟩
  erased _ _ _ _ _ _ hrel _ := by
    rw [hrel]
    rfl

end HyperExchange.Crosschain
