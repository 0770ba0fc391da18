/-
  **A transfer between cold and hot accounts ends once** (`db_coldhot_trx.cpp`).

  An operation that finds the records in the state its stage follows on keeps them coherent
  and leaves finished transfers alone.  Above the checkpoint, cancelling and passing check that
  state themselves; what is left out is what `InOrder` asks for.  Over runs of such
  operations a transfer that is confirmed or has failed stays so, and one transaction at most
  is combined for it.  Without that order a transfer that was called off can be built, and
  one that was combined can be combined again.
-/
import HyperExchange.ColdhotRecords
import HyperExchange.BridgeRuns

namespace HyperExchange.Coldhot

open Keyed Option TransferIndex
open Crosschain (Registry TrxId Text HdTrx EthsGuardSign fcAssert fcAssert_eq_some Finder)

variable {H : Type} {reg : Registry}

/-! ### The order the operations rely on -/

/-- What the evaluators leave out: a transaction is built for a transfer that waits for one,
    it is combined while it waits for signatures, and a combined transaction is signed and
    reported while it is open.  Cancelling and passing have to be evaluated. -/
def InOrder (ctx : Context reg H) (s : State H) : Operation H → Prop
  | .transferWithoutSign o => ∀ r ∈ s.transfers.find o.coldhotTrxId,
      r.curretTrxState = .coldhotWithoutSignTrxUncreate
  | .transferCombineSign o => ∀ r ∈ s.transfers.find o.coldhotTransferTrxId,
      r.curretTrxState = .coldhotWithoutSignTrxCreate
  | .transferResult result => ∀ r ∈ s.transfers.rows, r.originalTrxId = result.resultId →
      r.opType = .transferCombineSign → r.curretTrxState.phase = some .sent
  | .ethsColdhotGuardSignFinal o => ∀ r ∈ s.transfers.find o.combineTrxId,
      r.curretTrxState.phase.isSome
  | .ethsGuardColdhotChangeSigner o => ∀ r ∈ s.transfers.find o.combineTrxId,
      r.curretTrxState.phase.isSome
  | .cancelTransferTransaction _ | .cancelUncombinedTrx _ | .cancelCombinedTrx _
  | .passCombineTrx _ | .ethCancelColdhotFailTrx _ => checkPointBlock < ctx.headBlockNum
  | _ => True

instance (ctx : Context reg H) (s : State H) : DecidablePred (InOrder ctx s) := by
  rintro ⟨⟩ <;> unfold InOrder <;> infer_instance

/-! ### Whose record it is -/

section Owners

variable {t : TransferIndex H} (h : Coherent t) {k w o : TrxId} {r u : TransferObject H}
include h

section

variable (hr : t.find k = some r)
include hr

/-- What is related to a `without_sign` record is neither a transfer nor such a record. -/
theorem Coherent.related_opType (hrel : r.relateTrxId = some w) (hu : IsWithoutSign t w u) :
    r.opType ≠ .transfer ∧ r.opType ≠ .transferWithoutSign := by
  constructor
  · intro hop
    rw [h.unrelated ⟨hr, hop⟩] at hrel
    cases hrel
  · intro hop
    obtain ⟨o', r', ho', hr', _⟩ := h.built ⟨hr, hop⟩
    cases hrel.symm.trans ho'
    exact hr'.not_withoutSign hu

theorem Coherent.related_phase (hrel : r.relateTrxId = some w) (hu : IsWithoutSign t w u)
    {p : Phase} (hp : r.curretTrxState.phase = some p) : u.curretTrxState.phase = some p := by
  obtain ⟨hT, hW⟩ := h.related_opType hr hrel hu
  obtain ⟨w', u', hw', hu', hp'⟩ := h.waiting hr hp hT hW
  cases hrel.symm.trans hw'
  cases hu.1.symm.trans hu'.1
  exact hp'

/-- A record that waits leads to a `without_sign` record, if the links go on from there. -/
theorem Coherent.owner {p : Phase} (hp : r.curretTrxState.phase = some p)
    (hrel : r.relateTrxId = some w) (hu : t.find w = some u) (ho : u.relateTrxId = some o) :
    IsWithoutSign t w u := by
  by_cases hT : r.opType = .transfer
  · rw [h.unrelated ⟨hr, hT⟩] at hrel
    cases hrel
  · by_cases hW : r.opType = .transferWithoutSign
    · -- the record it is related to is a transfer, and has no link
      obtain ⟨o', r', ho', hr', _⟩ := h.built ⟨hr, hW⟩
      cases hrel.symm.trans ho'
      cases hu.symm.trans hr'.1
      rw [h.unrelated hr'] at ho
      cases ho
    · obtain ⟨w', u', hw', hu', _⟩ := h.waiting hr hp hT hW
      cases hrel.symm.trans hw'
      cases hu.symm.trans hu'.1
      exact hu'

end

/-- A record that waits for signatures and has a link is a `without_sign` record. -/
theorem Coherent.withoutSign_of_create (hu : t.find w = some u)
    (hst : u.curretTrxState = .coldhotWithoutSignTrxCreate) (ho : u.relateTrxId = some o) :
    IsWithoutSign t w u := by
  rcases h.create hu hst with hT | hW
  · rw [h.unrelated ⟨hu, hT⟩] at ho
    cases ho
  · exact ⟨hu, hW⟩

end Owners

/-! ### Adjusting the records -/

namespace TransferIndex

variable {t t' : TransferIndex H} {trx : SignedTransaction H} {n : Nat} {k : TrxId}
  {r : TransferObject H} {w : TrxId}

/-- The records are coherent afterwards, and finished transfers stay as they are. -/
structure Orderly (t t' : TransferIndex H) : Prop where
  coherent : Coherent t'
  keeps : Keeps t t'

theorem Orderly.insert {t₁ : TransferIndex H} (h : Orderly t t₁) (hr : Joins t₁ r)
    (ht : t₁.insert r = some t') : Orderly t t' :=
  ⟨h.coherent.insert hr ht, h.keeps.trans (Keeps.insert ht)⟩

section

variable (h : Coherent t)
include h

theorem adjustTransfer_orderly (ht : t.adjustTransfer n trx = some t') : Orderly t t' := by
  refine Orderly.insert ⟨h, Keeps.refl t⟩ ?_ ht
  constructor
  · intro _
    rfl
  · intro _
    rfl
  all_goals nofun

section

variable (hst : ∀ r ∈ t.find k, r.curretTrxState = .coldhotWithoutSignTrxUncreate)
include hst

theorem adjustWithoutSign_orderly (ht : t.adjustWithoutSign n k trx = some t') : Orderly t t' := by
  obtain ⟨r, hr, ht⟩ := bind_eq_some_iff.1 ht
  have huncreate := hst r hr
  have hmoved := Moved.modify (sets_setState .coldhotWithoutSignTrxCreate n) k t
  have horderly : Orderly t (t.modify k (setState .coldhotWithoutSignTrxCreate n)) :=
    ⟨hmoved.coherent_uncreated h hr huncreate, hmoved.keeps_uncreated hr huncreate⟩
  obtain ⟨r', hr', hlinks, hcreate, _⟩ := hmoved.kept hr
  refine horderly.insert ?_ ht
  constructor
  case built =>
    intro _
    refine ⟨k, r', rfl, ⟨hr', hlinks.opType.trans (h.uncreate hr huncreate)⟩, hcreate rfl, ?_⟩
    intro w u' hu' hrel
    obtain ⟨u, hu, hsame, _⟩ := hmoved.found hu'.1
    exact h.not_built hr huncreate ⟨hu, hsame.opType.symm.trans hu'.2⟩
      (hsame.relate.symm.trans hrel)
  case create =>
    intro _
    exact .inr rfl
  all_goals nofun

omit hst in
theorem adjustWithSign_orderly (ht : t.adjustWithSign n k trx = some t') : Orderly t t' := by
  obtain ⟨r, _, ht⟩ := bind_eq_some_iff.1 ht
  refine Orderly.insert ⟨h, Keeps.refl t⟩ ?_ ht
  exact .of_side nofun nofun nofun ⟨nofun, nofun⟩ rfl

theorem adjustCancelTransfer_orderly
    (ht : t.adjustCancelTransfer n k trx = some t') : Orderly t t' := by
  obtain ⟨r, hr, ht⟩ := bind_eq_some_iff.1 ht
  have hmoved := Moved.modify (sets_setState .coldhotTransactionFail n) k t
  have horderly : Orderly t (t.modify k (setState .coldhotTransactionFail n)) :=
    ⟨hmoved.coherent_uncreated h hr (hst r hr), hmoved.keeps_uncreated hr (hst r hr)⟩
  refine horderly.insert ?_ ht
  exact .of_side nofun nofun nofun ⟨nofun, nofun⟩ rfl

end

/-! ### Moving a transfer with what belongs to it -/

omit h in
theorem relatesTo_iff : relatesTo w r = true ↔ r.relateTrxId = some w := decide_eq_true_iff

variable {u : TransferObject H} {st : ColdhotTrxState}

theorem Orderly.of_advance {o : TrxId} {p : TrxId → TransferObject H → Prop}
    (a : Advance t t' w o st p) (hu : IsWithoutSign t w u) (ho : u.relateTrxId = some o)
    (hopen : u.curretTrxState.isFinal = false) : Orderly t t' :=
  ⟨a.coherent h hu ho, a.keeps h hu ho hopen⟩

end

variable (h : Coherent t)
include h

theorem adjustCombineSign_orderly
    (hst : ∀ r ∈ t.find k, r.curretTrxState = .coldhotWithoutSignTrxCreate)
    (ht : t.adjustCombineSign n k trx = some t') : Orderly t t' := by
  obtain ⟨u, o, hu, ho, ht⟩ := bind_bind_eq_some ht
  obtain ⟨r₀, op, _, _, ht⟩ := bind_bind_eq_some ht
  have hcreate := hst u hu
  have hW : IsWithoutSign t k u := h.withoutSign_of_create hu hcreate ho
  have hset := sets_setState (H := H) (combinedState op.assetSymbol) n
  have hadvance : Advance t _ k o (combinedState op.assetSymbol) _ :=
    { moved := ((Moved.modify hset o t).trans (Moved.modify hset k _) (fun _ _ => Iff.rfl)).trans
        (Moved.modifyWhere hset
          (fun r => relatesTo k r && decide (r.curretTrxState = .coldhotSignTrx)) _)
        (fun hlinks hstate => by simp only [relatesTo, hlinks.relate, hstate])
      base := fun _ => ⟨.inl (.inr rfl), .inl (.inl rfl)⟩
      only := by
        rintro id r _ ((rfl | rfl) | hp)
        · exact .inr (.inl rfl)
        · exact .inl rfl
        · exact .inr (.inr (relatesTo_iff.1 (Bool.and_eq_true_iff.1 hp).1))
      rest := by
        -- while signatures are collected, nothing waits for the combined transaction
        intro id r q hr hrel _ hq
        have hphase := h.related_phase hr hrel hW hq
        rw [hcreate] at hphase
        cases hphase
      late := combinedState_late op.assetSymbol }
  refine (Orderly.of_advance h hadvance hW ho (by rw [hcreate]; rfl)).insert ?_ ht
  obtain ⟨u', hu', hst'⟩ := hadvance.withoutSign_after hW
  constructor
  case combined =>
    intro _
    refine ⟨k, u', rfl, hu', by rw [hst']; exact (combinedState_late _).2, ?_⟩
    intro c r' hr' hrel
    obtain ⟨r, hr, hlinks, _⟩ := hadvance.moved.found hr'.1
    obtain ⟨w, v, hw, hv, hne⟩ := h.combined ⟨hr, hlinks.opType.symm.trans hr'.2⟩
    cases (hlinks.relate.symm.trans hrel).symm.trans hw
    cases hv.1.symm.trans hu
    exact hne hcreate
  case waiting =>
    intro p hp _ _
    exact ⟨k, u', rfl, hu', by rw [hst']; exact hp⟩
  case uncreate => exact fun hst => absurd hst (combinedState_late _).1
  case create => exact fun hst => absurd hst (combinedState_late _).2
  all_goals nofun

theorem adjustResult_orderly {c : TrxId} (hr : IsCombine t c r)
    (hsent : r.curretTrxState.phase = some .sent) (hrel : r.relateTrxId = some k)
    (ht : t.adjustResult n k = some t') : Orderly t t' := by
  obtain ⟨u, o, hu, ho, ht⟩ := bind_bind_eq_some ht
  obtain ⟨r₀, _, ht⟩ := bind_eq_some_iff.1 ht
  cases ht
  obtain ⟨w, v, hw, hv, _⟩ := h.combined hr
  cases hrel.symm.trans hw
  cases hu.symm.trans hv.1
  have hphase := h.related_phase hr.1 hrel hv hsent
  have hset := sets_setState (H := H) .coldhotTransactionConfirm n
  have hadvance : Advance t _ k o .coldhotTransactionConfirm _ :=
    { moved := ((Moved.modify hset k t).trans (Moved.modify hset o _) (fun _ _ => Iff.rfl)).trans
        (Moved.modifyWhere hset
          (fun r => relatesTo k r && (decide (r.curretTrxState = .coldhotCombineTrxCreate) ||
            decide (r.curretTrxState = .coldhotEthGuardSign))) _)
        (fun hlinks hstate => by simp only [relatesTo, hlinks.relate, hstate])
      base := fun _ => ⟨.inl (.inl rfl), .inl (.inr rfl)⟩
      only := by
        rintro id x _ ((rfl | rfl) | hp)
        · exact .inl rfl
        · exact .inr (.inl rfl)
        · exact .inr (.inr (relatesTo_iff.1 (Bool.and_eq_true_iff.1 hp).1))
      rest := by
        -- whatever belongs to it waits for the same, and is moved with it
        intro id x q hx hrelx hp hq
        cases hphase.symm.trans (h.related_phase hx hrelx hv hq)
        refine absurd (.inr ?_) hp
        rcases state_of_sent hq with hst | hst <;> simp [relatesTo, hrelx, hst]
      late := ⟨nofun, nofun⟩ }
  exact Orderly.of_advance h hadvance hv ho (not_final_of_phase hphase)

theorem close_orderly (hlate : st.Late) {named o : TrxId}
    (hr : t.find named = some r) (hp : r.curretTrxState.phase.isSome)
    (hrel : r.relateTrxId = some w) (hu : t.find w = some u) (ho : u.relateTrxId = some o) :
    Orderly t (t.close (setState st n) named w o) := by
  obtain ⟨q, hq⟩ := isSome_iff_exists.1 hp
  have hW := h.owner hr hq hrel hu ho
  have hset := sets_setState (H := H) st n
  have hadvance : Advance t (t.close (setState st n) named w o) w o st _ :=
    { moved := (((Moved.modify hset named t).trans (Moved.modify hset w _)
        (fun _ _ => Iff.rfl)).trans (Moved.modifyWhere hset (relatesTo w) _)
        (fun hlinks _ => by simp only [relatesTo, hlinks.relate])).trans
        (Moved.modify hset o _) (fun _ _ => Iff.rfl)
      base := fun _ => ⟨.inl (.inl (.inr rfl)), .inr rfl⟩
      only := by
        rintro id x hx (((rfl | rfl) | hp) | rfl)
        · cases hx.symm.trans hr
          exact .inr (.inr hrel)
        · exact .inl rfl
        · exact .inr (.inr (relatesTo_iff.1 hp))
        · exact .inr (.inl rfl)
      rest := by
        intro id x q _ hx hp
        exact absurd (.inl (.inr (relatesTo_iff.2 hx))) hp
      late := hlate }
  exact Orderly.of_advance h hadvance hW ho
    (not_final_of_phase (h.related_phase hr hrel hW hq))

theorem adjustPass_orderly (hp : ∀ r ∈ t.find k, r.curretTrxState.phase.isSome)
    (ht : t.adjustPass n k = some t') :
    Orderly t t' := by
  obtain ⟨r, w, hr, hrel, ht⟩ := bind_bind_eq_some ht
  obtain ⟨u, o, hu, ho, ht⟩ := bind_bind_eq_some ht
  obtain ⟨r₀, _, ht⟩ := bind_eq_some_iff.1 ht
  cases ht
  have hlate : ColdhotTrxState.Late .coldhotTransactionConfirm := ⟨nofun, nofun⟩
  exact close_orderly h hlate hr (hp r hr) hrel hu ho

theorem adjustCancelCombined_orderly {opType : OpType} {toNamed : Bool}
    (hT : opType ≠ .transfer) (hW : opType ≠ .transferWithoutSign)
    (hC : opType ≠ .transferCombineSign)
    (hp : ∀ r ∈ t.find k, r.curretTrxState.phase.isSome)
    (ht : t.adjustCancelCombined n opType toNamed k trx = some t') : Orderly t t' := by
  obtain ⟨r, w, hr, hrel, ht⟩ := bind_bind_eq_some ht
  obtain ⟨u, o, hu, ho, ht⟩ := bind_bind_eq_some ht
  obtain ⟨r₀, _, ht⟩ := bind_eq_some_iff.1 ht
  have hlate : ColdhotTrxState.Late .coldhotTransactionFail := ⟨nofun, nofun⟩
  refine (close_orderly h hlate hr (hp r hr) hrel hu ho).insert ?_ ht
  exact .of_side hT hW hC ⟨nofun, nofun⟩ rfl

theorem adjustCancelUncombined_orderly
    (hst : ∀ r ∈ t.find k, r.curretTrxState = .coldhotWithoutSignTrxCreate)
    (ht : t.adjustCancelUncombined n k trx = some t') : Orderly t t' := by
  obtain ⟨u, o, hu, ho, ht⟩ := bind_bind_eq_some ht
  obtain ⟨r₀, _, ht⟩ := bind_eq_some_iff.1 ht
  have hW := h.withoutSign_of_create hu (hst u hu) ho
  have hset := sets_setState (H := H) .coldhotTransactionFail n
  have hadvance : Advance t _ k o .coldhotTransactionFail _ :=
    { moved := ((Moved.modify hset k t).trans (Moved.modifyWhere hset (relatesTo k) _)
        (fun hlinks _ => by simp only [relatesTo, hlinks.relate])).trans
        (Moved.modify hset o _) (fun _ _ => Iff.rfl)
      base := fun _ => ⟨.inl (.inl rfl), .inr rfl⟩
      only := by
        rintro id x _ ((rfl | hp) | rfl)
        · exact .inl rfl
        · exact .inr (.inr (relatesTo_iff.1 hp))
        · exact .inr (.inl rfl)
      rest := by
        intro id x q _ hx hp
        exact absurd (.inl (.inr (relatesTo_iff.2 hx))) hp
      late := ⟨nofun, nofun⟩ }
  refine (Orderly.of_advance h hadvance hW ho (by rw [hst u hu]; rfl)).insert ?_ ht
  exact .of_side nofun nofun nofun ⟨nofun, nofun⟩ rfl

theorem adjustGuardSign_orderly {opType : OpType} {set : Text → TransferEdit H}
    {get : Operation H → Option EthsGuardSign} (hT : opType ≠ .transfer)
    (hW : opType ≠ .transferWithoutSign) (hC : opType ≠ .transferCombineSign)
    (hset : ∀ id, Sets (set id) .coldhotEthGuardSign)
    (hp : ∀ r ∈ t.find k, r.curretTrxState.phase.isSome)
    (ht : t.adjustGuardSign n opType set get k trx = some t') : Orderly t t' := by
  obtain ⟨r, w, hr, hrel, ht⟩ := bind_bind_eq_some ht
  obtain ⟨u, op, hu, _, ht⟩ := bind_bind_eq_some ht
  obtain ⟨o, r₀, ho, _, ht⟩ := bind_bind_eq_some ht
  obtain ⟨p, hp⟩ := isSome_iff_exists.1 (hp r hr)
  have hown := h.owner hr hp hrel hu ho
  have hset := hset (Crosschain.afterBar op.signedCrosschainTrxId)
  have hadvance : Advance t _ w o .coldhotEthGuardSign _ :=
    { moved := (((Moved.modify hset k t).trans (Moved.modify hset w _)
        (fun _ _ => Iff.rfl)).trans (Moved.modify hset o _) (fun _ _ => Iff.rfl)).trans
        (Moved.modifyWhere hset
          (fun r => relatesTo w r && decide (r.curretTrxState = .coldhotEthGuardNeedSign)) _)
        (fun hlinks hstate => by simp only [relatesTo, hlinks.relate, hstate])
      base := fun _ => ⟨.inl (.inl (.inr rfl)), .inl (.inr rfl)⟩
      only := by
        rintro id x hx (((rfl | rfl) | rfl) | hx')
        · cases hx.symm.trans hr
          exact .inr (.inr hrel)
        · exact .inl rfl
        · exact .inr (.inl rfl)
        · exact .inr (.inr (relatesTo_iff.1 (Bool.and_eq_true_iff.1 hx').1))
      rest := by
        -- what is not moved was sent already
        intro id x q _ hx hn hq
        rcases needSign_or_sent hq with hst | rfl
        · exact absurd (.inr (by simp [relatesTo, hx, hst])) hn
        · rfl
      late := ⟨nofun, nofun⟩ }
  refine (Orderly.of_advance h hadvance hown ho
    (not_final_of_phase (h.related_phase hr hrel hown hp))).insert ?_ ht
  obtain ⟨u', hu', hst'⟩ := hadvance.withoutSign_after hown
  constructor
  case waiting =>
    intro q hq _ _
    exact ⟨w, u', rfl, hu', by rw [hst']; exact hq⟩
  case unrelated => exact fun hop => absurd hop hT
  case built => exact fun hop => absurd hop hW
  case combined => exact fun hop => absurd hop hC
  all_goals nofun

end TransferIndex

/-! ### Operations -/

section Operations

variable {ctx : Context reg H} {trx : SignedTransaction H} {s s' : State H} {st : ColdhotTrxState}
  {id : TrxId} {r : TransferObject H} (h : namedRecord s st id = some r)
include h

theorem namedRecord_eq : s.transfers.find id = some r ∧ r.curretTrxState = st := by
  obtain ⟨r', _, hr, hst, h⟩ := bind_bind_eq_some h
  obtain ⟨_, _, h⟩ := bind_eq_some_iff.1 h
  cases h
  exact ⟨hr, fcAssert_eq_some.1 hst⟩

theorem namedRecord_state : ∀ x ∈ s.transfers.find id, x.curretTrxState = st := by
  intro x hx
  obtain ⟨hr, hst⟩ := namedRecord_eq h
  cases hr.symm.trans hx
  exact hst

theorem namedRecord_phase (hst : st.phase.isSome) :
    ∀ x ∈ s.transfers.find id, x.curretTrxState.phase.isSome := by
  intro x hx
  rw [namedRecord_state h x hx]
  exact hst

omit h

/-- An accepted operation that comes in its order keeps the records coherent. -/
theorem applyOperation_orderly (h : Coherent s.transfers) {op : Operation H}
    (hord : InOrder ctx s op) (happly : applyOperation ctx trx s op = some s') :
    TransferIndex.Orderly s.transfers s'.transfers := by
  obtain ⟨heval, happly⟩ := applyOperation_eq happly
  cases op
  case transferResult result =>
    obtain ⟨⟨r, w, hfind, hrel, ht⟩, _⟩ := applyResult_eq happly
    -- the record is one of a combined transaction
    have hmem := ctx.findTransfer.mem hfind
    simp only [List.mem_filter, decide_eq_true_eq] at hmem
    obtain ⟨hmem, hid, hop⟩ := hmem
    exact adjustResult_orderly h ⟨Table.find_of_mem hmem, hop⟩ (hord r hmem hid hop) hrel ht
  case other =>
    cases happly
    exact ⟨h, Keeps.refl _⟩
  all_goals obtain ⟨t, ht, rfl⟩ := map_eq_some_iff.1 happly
  case transfer o => exact adjustTransfer_orderly h ht
  case transferWithoutSign o => exact adjustWithoutSign_orderly h hord ht
  case transferWithSign o => exact adjustWithSign_orderly h ht
  case transferCombineSign o => exact adjustCombineSign_orderly h hord ht
  case cancelTransferTransaction o =>
    refine adjustCancelTransfer_orderly h ?_ ht
    intro r hr
    obtain ⟨r', hr', hstate⟩ := bind_eq_some_iff.1 (heval hord)
    cases hr'.symm.trans hr
    exact fcAssert_eq_some.1 hstate
  case cancelUncombinedTrx o =>
    obtain ⟨r, hr, _⟩ := bind_eq_some_iff.1 (heval hord)
    exact adjustCancelUncombined_orderly h (namedRecord_state hr) ht
  case cancelCombinedTrx o =>
    obtain ⟨r, hr, _⟩ := bind_eq_some_iff.1 (heval hord)
    exact adjustCancelCombined_orderly h (by decide) (by decide) (by decide)
      (namedRecord_phase hr rfl) ht
  case passCombineTrx o =>
    obtain ⟨_, r, _, hr, _⟩ := bind_bind_eq_some (heval hord)
    exact adjustPass_orderly h (namedRecord_phase hr rfl) ht
  case ethCancelColdhotFailTrx o =>
    obtain ⟨_, r, _, hr, _⟩ := bind_bind_eq_some (heval hord)
    exact adjustCancelCombined_orderly h (by decide) (by decide) (by decide)
      (namedRecord_phase hr rfl) ht
  case ethsColdhotGuardSignFinal o =>
    exact adjustGuardSign_orderly h (by decide) (by decide) (by decide) sets_setSigned hord ht
  case ethsGuardColdhotChangeSigner o =>
    exact adjustGuardSign_orderly h (by decide) (by decide) (by decide)
      (sets_setSignedAt ctx.headBlockNum) hord ht

end Operations

end HyperExchange.Coldhot

namespace HyperExchange.Bridge

open Keyed Execution Coldhot Option
open Crosschain (Registry TrxId Text sampleRegistry)

variable {H : Type} {reg : Registry}

def InOrder (ctx : Coldhot.Context reg H) (_ : SignedTransaction H) (s : State H) :
    Operation H → Prop
  | .crosschain _ => True
  | .coldhot op => Coldhot.InOrder ctx s.toState op

instance (ctx : Coldhot.Context reg H) (trx : SignedTransaction H) (s : State H) :
    DecidablePred (InOrder ctx trx s)
  | .crosschain _ => .isTrue trivial
  | .coldhot op => inferInstanceAs (Decidable (Coldhot.InOrder ctx s.toState op))

section Runs

variable [DecidableEq H] [Inhabited H]

abbrev OrderedRun (reg : Registry) (init : State H → Prop) : State H → Prop :=
  RunUnder (@InOrder H reg) init

theorem applyOperation_transfers {ctx : Coldhot.Context reg H} {trx : SignedTransaction H}
    {s s' : State H} {op : Operation H} (h : Coherent s.transfers) (hord : InOrder ctx trx s op)
    (happly : applyOperation ctx trx s op = some s') :
    TransferIndex.Orderly s.transfers s'.transfers := by
  cases op with
  | crosschain op =>
    obtain ⟨c, _, rfl⟩ := map_eq_some_iff.1 happly
    exact ⟨h, Keeps.refl _⟩
  | coldhot op =>
    obtain ⟨c, hc, rfl⟩ := map_eq_some_iff.1 happly
    exact applyOperation_orderly h hord hc

/-- From a state with coherent records on, finished transfers stay as they are. -/
theorem OrderedRun.orderly {s s' : State H} (h : Coherent s.transfers)
    (hrun : OrderedRun reg (· = s) s') : TransferIndex.Orderly s.transfers s'.transfers := by
  refine RunUnder.invariant (fun x => TransferIndex.Orderly s.transfers x.transfers)
    ?_ ?_ ?_ ?_ hrun
  · rintro _ rfl
    exact ⟨h, Keeps.refl _⟩
  · exact fun _ hx => hx
  · exact fun hx => hx
  · intro ctx trx op x x' _ hx hord happly
    have hx' := applyOperation_transfers hx.coherent hord happly
    exact ⟨hx'.coherent, hx.keeps.trans hx'.keeps⟩

theorem OrderedRun.coherent {s : State H} (hrun : OrderedRun reg State.Fresh s) :
    Coherent s.transfers := by
  refine RunUnder.invariant (fun x => Coherent x.transfers) ?_ ?_ ?_ ?_ hrun
  · intro x hx
    have hempty : x.transfers = Table.empty := Table.ext hx.transfers
    rw [hempty]
    exact Coherent.empty
  · exact fun _ hx => hx
  · exact fun hx => hx
  · intro ctx trx op x x' _ hx hord happly
    exact (applyOperation_transfers hx hord happly).coherent

end Runs

/-! ### Combined transactions of a transfer -/

/-- The record is one of a transaction that was combined for the transfer `o`. -/
def CombinedFor (t : TransferIndex H) (o : TrxId) (r : TransferObject H) : Prop :=
  r.opType = .transferCombineSign ∧
    ∃ w u, r.relateTrxId = some w ∧ t.find w = some u ∧ u.relateTrxId = some o

theorem CombinedFor.unique {t : TransferIndex H} (h : Coherent t) {o : TrxId}
    {r r' : TransferObject H} (hr : r ∈ t.rows) (hr' : r' ∈ t.rows) (hc : CombinedFor t o r)
    (hc' : CombinedFor t o r') : r.currentId = r'.currentId := by
  obtain ⟨hop, w, u, hw, hu, ho⟩ := hc
  obtain ⟨hop', w', u', hw', hu', ho'⟩ := hc'
  have hcombine : IsCombine t r.currentId r := ⟨Table.find_of_mem hr, hop⟩
  have hcombine' : IsCombine t r'.currentId r' := ⟨Table.find_of_mem hr', hop'⟩
  -- both are related to `without_sign` records, and those to the same transfer
  obtain ⟨v, x, hv, hx, _⟩ := h.combined hcombine
  obtain ⟨v', x', hv', hx', _⟩ := h.combined hcombine'
  cases hw.symm.trans hv
  cases hw'.symm.trans hv'
  cases hu.symm.trans hx.1
  cases hu'.symm.trans hx'.1
  obtain rfl := h.once hx hx' (ho.trans ho'.symm)
  exact h.single hcombine hcombine' (hw.trans hw'.symm)

theorem combined_once {t : TransferIndex H} (h : Coherent t) (o : TrxId) :
    t.rows.Pairwise fun r r' => CombinedFor t o r → ¬CombinedFor t o r' := by
  have hne : t.rows.Pairwise fun r r' => r.currentId ≠ r'.currentId :=
    List.pairwise_map.1 t.nodup
  refine hne.imp_of_mem ?_
  intro r r' hr hr' hne hc hc'
  exact hne (CombinedFor.unique h hr hr' hc hc')

/-- Once a transfer is confirmed or has failed it stays so, and of two transactions that were
    combined for a transfer the earlier one was cancelled. -/
theorem finished_transfer_stays_finished [DecidableEq H] [Inhabited H] {s s' : State H}
    (hs : OrderedRun reg State.Fresh s) (hs' : OrderedRun reg (· = s) s') :
    (∀ id r, IsTransfer s.transfers id r → r.curretTrxState.isFinal = true →
      ∃ r', IsTransfer s'.transfers id r' ∧ r'.curretTrxState = r.curretTrxState) ∧
    ∀ o, s'.transfers.rows.Pairwise fun r r' => CombinedFor s'.transfers o r →
      CombinedFor s'.transfers o r' → r.curretTrxState = .coldhotTransactionFail := by
  have horderly := OrderedRun.orderly hs.coherent hs'
  refine ⟨horderly.keeps, ?_⟩
  intro o
  refine (combined_once horderly.coherent o).imp ?_
  intro r r' hnone hc hc'
  exact absurd hc' (hnone hc)

/-! ### A transfer that is built after it was called off -/

/-- A transfer is called off. -/
def sampleCalledOff : List (Event sampleRegistry Bool) :=
  [sampleTransfer 1, sampleColdhot 2 (.cancelTransferTransaction ⟨7, 1⟩)]

/-- The kind and the state of a record after a run from `sampleStart`. -/
def recordAfter (l : List (Event sampleRegistry Bool)) (id : TrxId) :
    Option (OpType × Option TrxId × ColdhotTrxState) :=
  ((l.foldl step sampleStart).transfers.find id).map fun r =>
    (r.opType, r.relateTrxId, r.curretTrxState)

/-- A transfer that was called off is left alone by the next one. -/
theorem called_off_stays_failed :
    let s := sampleCalledOff.foldl step sampleStart
    let s' := [sampleTransfer 3, sampleTransferWithoutSign 4 3,
      sampleTransferCombine 5 4 [] ['x']].foldl step s
    (s'.transfers.find 5).isSome = true ∧
      ∃ r, IsTransfer s'.transfers 1 r ∧ r.curretTrxState = .coldhotTransactionFail := by
  intro s s'
  have hs : OrderedRun sampleRegistry State.Fresh s :=
    .of_checkRun (.start sampleStart_fresh) (by decide +kernel)
  have hs' : OrderedRun sampleRegistry (· = s) s' :=
    .of_checkRun (.start rfl) (by decide +kernel)
  have hfail : (s.transfers.find 1).any (fun r =>
      decide (r.opType = .transfer ∧ r.curretTrxState = .coldhotTransactionFail)) = true := by
    decide +kernel
  obtain ⟨hsome, hp⟩ := (any_eq_true_iff_get _ _).1 hfail
  obtain ⟨hop, hst⟩ := of_decide_eq_true hp
  obtain ⟨hkept, _⟩ := finished_transfer_stays_finished hs hs'
  obtain ⟨r, hr, hsame⟩ :=
    hkept 1 _ ⟨(some_get hsome).symm, hop⟩ (by rw [hst]; rfl)
  refine ⟨?_, r, hr, hsame.trans hst⟩
  decide +kernel

/-- A transaction is built for a transfer that was called off, and the transfer is open again.
    For another transfer two transactions are combined, and neither is cancelled. -/
theorem called_off_is_built :
    sampleStart.Fresh ∧
      recordAfter sampleCalledOff 1 = some (.transfer, none, .coldhotTransactionFail) ∧
      recordAfter (sampleCalledOff ++ [sampleTransferWithoutSign 3 1]) 1 =
        some (.transfer, none, .coldhotWithoutSignTrxCreate) ∧
      let twice := [sampleTransfer 1, sampleTransferWithoutSign 2 1,
        sampleTransferCombine 3 2 [] ['x'], sampleTransferCombine 4 2 [] ['y']]
      recordAfter twice 2 = some (.transferWithoutSign, some 1, .coldhotEthGuardNeedSign) ∧
        recordAfter twice 3 = some (.transferCombineSign, some 2, .coldhotEthGuardNeedSign) ∧
        recordAfter twice 4 = some (.transferCombineSign, some 2, .coldhotEthGuardNeedSign) := by
  refine ⟨sampleStart_fresh, ?_, ?_, ?_⟩
  all_goals decide +kernel

end HyperExchange.Bridge
