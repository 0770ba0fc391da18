/-
  **A withdrawal is settled at most once.**

  In a run of `Orderly` operations a withdrawal that is confirmed or cancelled stays so, and
  what is given back for it is at most what it took (`settled_once`).

  The evaluators do not ask for all of that.  The final signature of a combined transaction
  is accepted in every state, so a cancelled withdrawal can come back to life and be given
  back again (`refunded_twice`); a result is accepted for a cancelled batch; a signature may
  be given for a record that is no batch, and be combined; a batch may name a withdrawal
  twice; and an amount may be negative where the node has no handle for the user's symbol.
-/
import HyperExchange.WithdrawalRefunds

namespace HyperExchange.Crosschain

open Keyed Fees Execution Option CrosschainTrxIndex

section

variable {H : Type} {reg : Registry}

/-! ### The order the operations rely on -/

/-- What the evaluators leave out: a withdrawal takes something, a batch names withdrawals
    that are in none and each of them once, signatures are combined for a batch that waits
    for them, and combined transactions are signed and reported while they are open.  Batches,
    refunds, decisions and the signatures of the Ethereum series rely on being evaluated. -/
def Orderly (ctx : Context reg H) (s : State H) : Operation H → Prop
  | .crosschainWithdraw o => ∀ x ∈ ctx.amountFromString o.assetId o.amount, 0 ≤ x.amount
  | .withdrawWithoutSign o => checkPointBlock < ctx.headBlockNum ∧ o.ccwTrxIds.Nodup ∧
      ∀ id ∈ o.ccwTrxIds, ∀ r ∈ s.trxs.find id, r.trxState = .withdrawWithoutSignTrxUncreate
  | .withdrawCombineSign o => ∀ b ∈ combinedBatch s o, ∀ u ∈ s.trxs.find b,
      u.opType = .withdrawWithoutSign ∧
        ∀ id ∈ u.allRelatedOriginTransactionIds, ∀ r ∈ s.trxs.find id,
          r.trxState = .withdrawWithoutSignTrxCreate
  | .withdrawResult result => ∀ c ∈ findCombine ctx s result, c.trxState.phase = some .sent
  | .ethsGuardSignFinal o => checkPointBlock < ctx.headBlockNum ∧
      ∀ c ∈ s.trxs.find o.combineTrxId, c.trxState.phase.isSome
  | .guardRefundBalance _ | .guardRefundCrosschainTrx _ | .guardCancelCombineTrx _
  | .senatorPassSuccessTrx _ | .ethsCancelUnsignedTransaction _ | .ethCancelFailCrosschainTrx _
  | .ethsGuardChangeSigner _ => checkPointBlock < ctx.headBlockNum
  | .crosschainRecord _ | .withdrawWithSign _ | .senatorChangeAcquireTrx _ | .other => True

instance (ctx : Context reg H) (s : State H) : DecidablePred (Orderly ctx s) := by
  rintro ⟨⟩ <;> unfold Orderly <;> infer_instance

/-! ### Where an operation stands in its transaction -/

/-- What is known once the first operation of the transaction was accepted. -/
structure Started (trx : SignedTransaction H) (s : State H) : Prop where
  batch : ∀ o, trx.first = some (.withdrawWithoutSign o) → ∃ u, IsBatch s.trxs trx.id u
  combine : ∀ o, trx.first = some (.withdrawCombineSign o) → trx.operations.length = 1

/-- The operation is the first one of its transaction, or the first one was accepted. -/
structure InPlace (trx : SignedTransaction H) (s : State H) (op : Operation H) : Prop where
  mem : op ∈ trx.operations
  first : trx.first = some op ∨ Started trx s

section Places

variable {trx : SignedTransaction H} {s : State H} {op : Operation H}

variable (h : InPlace trx s op)
include h

theorem InPlace.first_cases (hnone : s.trxs.find trx.id = none) (hcomb : op.getCombineSign = none) :
    trx.first = some op ∨ StartsPlain trx := by
  rcases h.first with hfirst | hstart
  · exact .inl hfirst
  refine .inr ⟨?_, ?_⟩
  · rw [bind_eq_none_iff]
    intro o ho
    cases o with
    | withdrawWithoutSign o =>
      obtain ⟨u, hu⟩ := hstart.batch o ho
      cases hnone.symm.trans hu.1
    | _ => rfl
  · rw [bind_eq_none_iff]
    intro o ho
    cases o with
    | withdrawCombineSign o =>
      -- it is the only operation, but the operation at hand is another one
      obtain ⟨x, hx⟩ := List.length_eq_one_iff.1 (hstart.combine o ho)
      have hmem := h.mem
      rw [hx, List.mem_singleton] at hmem
      unfold SignedTransaction.first at ho
      rw [hx, List.head?_cons, ← hmem] at ho
      rw [Option.some.inj ho] at hcomb
      cases hcomb
    | _ => rfl

theorem InPlace.startsPlain (hnone : s.trxs.find trx.id = none) (hbatch : op.getWithoutSign = none)
    (hcomb : op.getCombineSign = none) : StartsPlain trx := by
  rcases h.first_cases hnone hcomb with hfirst | hplain
  · rw [StartsPlain, hfirst]
    exact ⟨hbatch, hcomb⟩
  · exact hplain

omit h in
theorem InPlace.withoutSign {o : WithdrawWithoutSign}
    (h : InPlace trx s (.withdrawWithoutSign o)) (hnone : s.trxs.find trx.id = none) :
    trx.first.bind Operation.getCombineSign = none ∧
      ∀ {op}, trx.first.bind Operation.getWithoutSign = some op → op = o := by
  rcases h.first_cases hnone rfl with hfirst | hplain
  · rw [hfirst]
    exact ⟨rfl, fun hop => (Option.some.inj hop).symm⟩
  · refine ⟨hplain.2, fun hop => ?_⟩
    rw [hplain.1] at hop
    cases hop

/-- After an operation that keeps the batches, the operations that follow it are in place. -/
theorem InPlace.started [DecidableEq H] [Inhabited H] {ctx : Context reg H} {s' : State H}
    (hran : Ran ctx trx s op s')
    (hbatches : ∀ {b u}, IsBatch s.trxs b u → ∃ u', IsBatch s'.trxs b u')
    (hnew : ∀ o, op = .withdrawWithoutSign o → ∃ u, IsBatch s'.trxs trx.id u) : Started trx s' := by
  rcases h.first with hfirst | hstart
  · refine ⟨fun o ho => hnew o (Option.some.inj (hfirst.symm.trans ho)), fun o ho => ?_⟩
    cases hfirst.symm.trans ho
    cases hran with
    | combineSign hone => exact hone
  · refine ⟨fun o ho => ?_, hstart.combine⟩
    obtain ⟨u, hu⟩ := hstart.batch o ho
    exact hbatches hu

end Places

/-! ### What each operation keeps -/

variable {s s' : State H} {ctx : Context reg H} {trx : SignedTransaction H}
  {r u : CrosschainTrxObject H} {b : TrxId} {op : WithdrawWithoutSign}

variable {t : CrosschainTrxIndex H}

variable (h : Sound reg s)
include h

theorem result_sound {result : HdTrx} {c : CrosschainTrxObject H}
    {l : Ledger H} {q : AcquiredCrosschainIndex}
    (hord : ∀ c ∈ findCombine ctx s result, c.trxState.phase = some .sent)
    (hc : findCombine ctx s result = some c) (hb : c.relateTransactionId = some b)
    (ht : adjustResult ctx.headBlockNum b s.trxs = some t) :
    Sound reg { s with
      trxs := t, acquired := q, ledger := l, trace := s.trace ++ [.counted result] } ∧
        Keeps s.trxs t := by
  have hmem := ctx.findTrx.mem hc
  rw [List.mem_filter, decide_eq_true_eq] at hmem
  obtain ⟨hrow, _, hop⟩ := hmem
  have hfound := Table.find_of_mem hrow
  -- the record found by its kind is a combined transaction, so it belongs to a batch
  obtain ⟨b', u', hb', hu'⟩ := h.coherent.combined hfound (.inl hop)
  cases hb'.symm.trans hb
  have hp := adjustResult_progress h.coherent hu'
    (h.coherent.phase hfound hb hu' (hord c hc)) ht
  refine ⟨⟨hp.coherent, h.booked.progress hp ?_ ?_⟩, hp.keeps⟩
  · intro id a
    rw [debited_append]
    exact add_zero _
  · intro id a
    rw [refunded_append]
    exact add_zero _

omit h in
theorem keeps_insert {t t' : CrosschainTrxIndex H} (ht : t.insert r = some t') : Keeps t t' := by
  constructor
  · intro id x hx _
    exact ⟨x, ⟨Table.find_insert_old ht hx.1, hx.2⟩, rfl⟩
  · intro b u hu
    exact ⟨u, Table.find_insert_old ht hu.1, hu.2⟩

theorem withdraw_sound {o : CrosschainWithdraw H} {amount : Asset}
    (hplace : InPlace trx s (.crosschainWithdraw o)) (hpos : 0 ≤ amount.amount)
    (hamount : ctx.amountFromString o.assetId o.amount = some amount)
    (ht : adjustWithdraw ctx.headBlockNum trx s.trxs = some t) (htrxs : s'.trxs = t)
    (htrace : s'.trace = s.trace ++ [.debited trx.id o.withdrawAccount amount]) : Sound reg s' ∧
    Keeps s.trxs s'.trxs := by
  obtain ⟨r, hins, hid, hop, hreal, hst, hjoins⟩ := adjustWithdraw_eq ht
  rw [← hid] at htrace
  rw [htrxs]
  refine ⟨⟨htrxs ▸ h.coherent.insert hjoins hins, ?_⟩, keeps_insert hins⟩
  rw [htrxs, htrace]
  apply h.booked.withdraw hins hop hst hpos
  intro w m n hone hw hn
  -- the transaction has this operation only, and the text says one amount only
  obtain ⟨x, hx⟩ := List.length_eq_one_iff.1 hone
  have hmem := hplace.mem
  rw [← hreal, hx, List.mem_singleton] at hmem
  unfold withdrawOf SignedTransaction.first at hw
  rw [hx, ← hmem] at hw
  cases hw
  obtain ⟨hasset, m', hm'⟩ := Context.amountFromString_eq hamount
  rw [amountFromString_unique hn hm', ← hasset]

theorem withoutSign_sound {o : WithdrawWithoutSign}
    (hplace : InPlace trx s (.withdrawWithoutSign o))
    (hord : Orderly ctx s (.withdrawWithoutSign o))
    (hfound : ∀ w ∈ o.ccwTrxIds, (s.trxs.find w).isSome) (hnone : s.trxs.find trx.id = none)
    (ht : o.ccwTrxIds.foldlM (fun t id =>
      adjustWithoutSign ctx.headBlockNum trx o.ccwTrxIds id t) s.trxs = some t)
    (hmade : (t.find trx.id).isSome)
    (hs' : { s with trxs := t.modify trx.id (setFee o.crosschainFee) }.addSupply o.assetId
      o.crosschainFee.amount = some s') :
    (Sound reg s' ∧ Keeps s.trxs s'.trxs) ∧ ∃ u, IsBatch s'.trxs trx.id u := by
  obtain ⟨htrxs, _, htrace⟩ := addSupply_eq hs'
  obtain ⟨hcomb, hnamed⟩ := hplace.withoutSign hnone
  have hopen : ∀ w ∈ o.ccwTrxIds, ∃ r, s.trxs.find w = some r ∧
      r.trxState = .withdrawWithoutSignTrxUncreate := by
    intro w hw
    obtain ⟨r, hr⟩ := isSome_iff_exists.1 (hfound w hw)
    exact ⟨r, hr, hord.2.2 w hw r hr⟩
  obtain ⟨hp, hbatch⟩ : Progress s.trxs s'.trxs ∧ ∃ u, IsBatch s'.trxs trx.id u := by
    rw [htrxs]
    exact adjustWithoutSign_progress h.coherent hnone hord.2.1 hopen hcomb
      (fun hop => by rw [hnamed hop]) ht hmade
  exact ⟨h.progress hp htrace, hbatch⟩

variable {st : TransactionStata}

variable [DecidableEq H] [Inhabited H]

theorem cancelRelated_sound {k : TrxId} {p : Phase} (hhead : checkPointBlock < ctx.headBlockNum)
    (hb : Batched ctx s k st r b u op) (hst : st.phase = some p)
    (hcancel : cancelBatch ctx s k b = some s') : Sound reg s' ∧ Keeps s.trxs s'.trxs := by
  have hopen := not_final_of_phase (h.coherent.phase hb.record hb.related
    (h.coherent.isBatch_of_op hb.batch hb.names).1 (by rw [hb.state hhead, hst]))
  refine cancelBatch_sound h hb.batch hb.names hopen ?_ (hb.checked hhead) hcancel
  intro r' hr'
  cases hb.record.symm.trans hr'
  exact .inr hb.related

/-! ### All operations -/

/-- Case by case: each operation moves one batch or adds a record. -/
theorem ran_sound {op : Operation H} (hplace : InPlace trx s op) (hord : Orderly ctx s op)
    (hran : Ran ctx trx s op s') : Sound reg s' ∧ Keeps s.trxs s'.trxs := by
  cases hran with
  | record _ _ _ _ hissues =>
    have hp : Progress s.trxs s'.trxs := by
      rw [hissues.trxs]
      exact Progress.refl h.coherent
    refine ⟨⟨hp.coherent, h.booked.progress hp ?_ ?_⟩, hp.keeps⟩
    · intro id a
      rw [hissues.trace, debited_append]
      exact add_zero _
    · intro id a
      rw [hissues.trace, refunded_append]
      exact add_zero _
  | withdraw hamount ht hissues =>
    exact withdraw_sound h hplace (hord _ hamount) hamount ht hissues.trxs hissues.trace
  | withoutSign hchecked ht hmade hs' =>
    obtain ⟨hfound, hnone⟩ := hchecked hord.1
    exact (withoutSign_sound h hplace hord hfound hnone ht hmade hs').1
  | withSign ht =>
    obtain ⟨_, _, hins⟩ := bind_eq_some_iff.1 ht
    have hnone := (Table.insert_eq_some hins).1
    exact h.progress (adjustWithSign_progress h.coherent (hplace.startsPlain hnone rfl rfl) ht) rfl
  | @combineSign o b t _ hb ht =>
    obtain ⟨u, hu⟩ : ∃ u, s.trxs.find b = some u := by
      obtain ⟨_, u, _, hu, _⟩ := bind_bind_eq_some ht
      exact ⟨u, hu⟩
    obtain ⟨hop, hsources⟩ := hord b hb u hu
    exact h.progress (adjustCombineSign_progress h.coherent ⟨hu, hop⟩ hsources ht) rfl
  | result _ hc hb _ _ _ ht => exact result_sound h hord hc hb ht
  | refundBalance hr hchecked hw hamount hissues =>
    obtain ⟨hst, hone⟩ := hchecked hord
    exact refundBalance_sound h hr hst hone hw hamount hissues.trxs hissues.trace
  | refundTrx hu hop hchecked hcancel =>
    obtain ⟨hst, hcheck⟩ := hchecked hord
    exact cancelBatch_sound h hu hop (by rw [hst]; rfl) (fun _ => .inl rfl) hcheck hcancel
  | cancelCombine hb hcancel => exact cancelRelated_sound h hord hb rfl hcancel
  | cancelFail hb hcancel => exact cancelRelated_sound h hord hb rfl hcancel
  | passSuccess hb =>
    exact h.progress
      (pass_progress h.coherent hb.record hb.related (hb.state hord) hb.batch hb.names) rfl
  | cancelUnsigned hb =>
    exact h.progress (cancelUnsigned_progress h.coherent hb.record hb.related (hb.state hord)
      hb.batch hb.names) rfl
  | changeAcquire => exact h.progress (Progress.refl h.coherent) rfl
  | @signFinal o c t hc hcombined ht =>
    refine h.progress
      (adjustGuardSign_progress h.coherent getSignFinal_plain (by nofun) (by nofun) ?_ ht) rfl
    intro c' hc'
    cases hc.symm.trans hc'
    exact ⟨.inr (hcombined hord.1), hord.2 c hc⟩
  | @changeSigner o c t hc hchecked ht =>
    obtain ⟨hcombined, hst⟩ := hchecked hord
    refine h.progress
      (adjustGuardSign_progress h.coherent getChangeSigner_plain (by nofun) (by nofun) ?_ ht) rfl
    intro c' hc'
    cases hc.symm.trans hc'
    exact ⟨.inr hcombined, by rw [hst]; rfl⟩
  | other => exact h.progress (Progress.refl h.coherent) rfl

omit h [DecidableEq H] [Inhabited H] in
theorem Sound.congr (h : Sound reg s) (htrxs : s'.trxs = s.trxs) (htrace : s'.trace = s.trace) :
    Sound reg s' := by
  refine ⟨htrxs ▸ h.coherent, ?_⟩
  rw [htrxs, htrace]
  exact h.booked

end

variable {H : Type} {reg : Registry} [DecidableEq H] [Inhabited H] {s : State H}

omit [DecidableEq H] [Inhabited H] in
theorem State.Fresh.sound (h : s.Fresh) : Sound reg s := by
  have htrxs : s.trxs = Table.empty := Table.ext h.trxs
  constructor
  · rw [htrxs]
    exact Coherent.empty
  · rw [htrxs, h.trace]
    exact Booked.empty

def OrderlyRun (reg : Registry) (init : State H → Prop) : State H → Prop :=
  RunUnder (fun ctx : Context reg H => Orderly ctx) init

/-- Over a whole run, with any property of the records that their changes keep. -/
theorem OrderlyRun.sound {init : State H → Prop} {P : CrosschainTrxIndex H → Prop}
    (hP : ∀ {t t'}, Keeps t t' → P t → P t') (hinit : ∀ s, init s → Sound reg s ∧ P s.trxs)
    (h : OrderlyRun reg init s) : Sound reg s ∧ P s.trxs := by
  refine RunUnder.invariant_of_operations (fun s => Sound reg s ∧ P s.trxs) Started hinit ?_ ?_ h
  · rintro s q ⟨hs, hkept⟩
    exact ⟨⟨hs.coherent, hs.booked⟩, hkept⟩
  · rintro ctx trx op s s' hmem hplace ⟨hs, hkept⟩ hord happly
    obtain ⟨s₁, hran, hpay⟩ := applyOperation_ran happly
    obtain ⟨hs₁, hkeeps⟩ := ran_sound hs ⟨hmem, hplace⟩ hord hran
    obtain ⟨htrxs, _, htrace, _⟩ := payFee_eq hpay
    refine ⟨⟨hs₁.congr htrxs htrace, htrxs ▸ hP hkeeps hkept⟩, ?_⟩
    have hstarted : Started trx s₁ := by
      refine InPlace.started ⟨hmem, hplace⟩ hran hkeeps.batches ?_
      rintro o rfl
      cases hran with
      | withoutSign hchecked ht hmade hs' =>
        obtain ⟨hfound, hnone⟩ := hchecked hord.1
        exact (withoutSign_sound hs ⟨hmem, hplace⟩ hord hfound hnone ht hmade hs').2
    exact ⟨htrxs ▸ hstarted.batch, hstarted.combine⟩

/-- In every run whose accepted operations are orderly, a withdrawal that is confirmed or
    cancelled keeps its state, and what is given back for a withdrawal is at most what it
    took. -/
theorem settled_once {s s' : State H} (hs : OrderlyRun reg State.Fresh s)
    (hs' : OrderlyRun reg (· = s) s') :
    (∀ {id r}, IsWithdraw s.trxs id r → r.trxState.isFinal = true →
      ∃ r', IsWithdraw s'.trxs id r' ∧ r'.trxState = r.trxState) ∧
    ∀ id a, refunded s'.trace id a ≤ debited s'.trace id a := by
  obtain ⟨hbefore, _⟩ := hs.sound (P := fun _ => True) (fun _ h => h)
    fun _ hfresh => ⟨hfresh.sound, trivial⟩
  obtain ⟨hsound, hkeeps⟩ := hs'.sound (P := Keeps s.trxs) (fun h h' => h'.trans h) (by
    rintro _ rfl
    exact ⟨hbefore, Keeps.refl _⟩)
  exact ⟨hkeeps.settled, hsound.booked.refunded_le⟩

/-- In every run whose accepted operations are orderly, a withdrawal is in one batch at most,
    once, and in the state of that batch; and a combined transaction is that of a batch. -/
theorem withdrawal_in_one_batch (hs : OrderlyRun reg State.Fresh s) :
    (∀ {b u w}, IsBatch s.trxs b u → w ∈ u.allRelatedOriginTransactionIds →
      u.allRelatedOriginTransactionIds.Nodup ∧
      (∃ r, IsWithdraw s.trxs w r ∧ r.trxState = u.trxState) ∧
      ∀ {c v}, IsBatch s.trxs c v → w ∈ v.allRelatedOriginTransactionIds → c = b) ∧
    ∀ {id r}, s.trxs.find id = some r → IsCombine r →
      ∃ b u, r.relateTransactionId = some b ∧ IsBatch s.trxs b u := by
  obtain ⟨⟨h, _⟩, _⟩ := hs.sound (P := fun _ => True) (fun _ h => h)
    fun _ hfresh => ⟨hfresh.sound, trivial⟩
  refine ⟨fun hb hw => ⟨h.nodup hb, h.sources hb hw, fun hc hw' => ?_⟩, h.combined⟩
  exact h.disjoint hc hb hw' hw

theorem signed_withdrawal_in_batch :
    let s := sampleSigned.foldl step sampleState
    ∃ u r, IsBatch s.trxs 2 u ∧ IsWithdraw s.trxs 1 r ∧ r.trxState = u.trxState := by
  intro s
  have hs : OrderlyRun sampleRegistry State.Fresh s :=
    .of_checkRun (.start ⟨rfl, rfl, rfl⟩) (by decide +kernel)
  have hbatch : (s.trxs.find 2).any (fun u => decide (u.opType = .withdrawWithoutSign ∧
      1 ∈ u.allRelatedOriginTransactionIds)) = true := by decide +kernel
  obtain ⟨u, hu, hp⟩ := (any_eq_true _ _).1 hbatch
  obtain ⟨hop, hmem⟩ := of_decide_eq_true hp
  obtain ⟨_, ⟨r, hr, hst⟩, _⟩ := (withdrawal_in_one_batch hs).1 ⟨hu, hop⟩ hmem
  exact ⟨u, r, ⟨hu, hop⟩, hr, hst⟩

/-! ### A withdrawal that is given back twice -/

def sampleCancelFail (id signed : TrxId) : Event sampleRegistry Bool :=
  sampleEvent id (.ethCancelFailCrosschainTrx ⟨sampleSenator, 0, signed, ⟨0, 0⟩⟩)

/-- The transaction on the other chain failed, and the withdrawal is cancelled. -/
def sampleCancelled : List (Event sampleRegistry Bool) := sampleSigned ++ [sampleCancelFail 6 5]

/-- The state of a record after a run from `sampleState`. -/
def stateAfter (l : List (Event sampleRegistry Bool)) (id : TrxId) : Option TransactionStata :=
  ((l.foldl step sampleState).trxs.find id).map CrosschainTrxObject.trxState

/-- A second withdrawal leaves the cancelled one as it is. -/
theorem cancelled_stays :
    let s := sampleCancelled.foldl step sampleState
    let s' := [sampleWithdraw 9].foldl step s
    (∃ r, IsWithdraw s'.trxs 1 r ∧ r.trxState = .withdrawCanceled) ∧
      ∀ id a, refunded s'.trace id a ≤ debited s'.trace id a := by
  intro s s'
  have hs : OrderlyRun sampleRegistry State.Fresh s :=
    .of_checkRun (.start ⟨rfl, rfl, rfl⟩) (by decide +kernel)
  have hs' : OrderlyRun sampleRegistry (· = s) s' :=
    .of_checkRun (.start rfl) (by decide +kernel)
  have hcancelled : (s.trxs.find 1).any (fun r =>
      decide (r.opType = .crosschainWithdraw ∧ r.trxState = .withdrawCanceled)) = true := by
    decide +kernel
  obtain ⟨hsome, hp⟩ := (any_eq_true_iff_get _ _).1 hcancelled
  obtain ⟨hop, hst⟩ := of_decide_eq_true hp
  obtain ⟨hkept, hle⟩ := settled_once hs hs'
  obtain ⟨r, hr, hsame⟩ := hkept ⟨(some_get hsome).symm, hop⟩ (by rw [hst]; rfl)
  exact ⟨⟨r, hr, hsame.trans hst⟩, hle⟩

/-- The combined transaction of a cancelled withdrawal is signed once more, and the
    withdrawal is open again; cancelling it a second time gives the amount back a second
    time. -/
theorem refunded_twice :
    sampleState.Fresh ∧
      stateAfter sampleCancelled 1 = some .withdrawCanceled ∧
      stateAfter (sampleCancelled ++ [sampleSignFinal 7]) 1 = some .withdrawEthGuardSign ∧
      let s := (sampleCancelled ++ [sampleSignFinal 7, sampleCancelFail 8 7]).foldl step sampleState
      debited s.trace 1 1 = 5 ∧ refunded s.trace 1 1 = 10 := by
  refine ⟨⟨rfl, rfl, rfl⟩, ?_, ?_, ?_⟩
  all_goals decide +kernel

end HyperExchange.Crosschain
