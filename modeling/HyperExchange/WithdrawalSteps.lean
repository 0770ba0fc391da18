/-
  **What each operation does to the records of withdrawals.**

  Every branch of `adjust_crosschain_transaction` and every decision of a senator is shown
  to be a move of one batch, a new batch, or a new record, so that the records stay coherent
  and a settled withdrawal stays as it is (`Progress`).

  Each lemma names what the branch needs and does not check: that the combined transaction
  it works on is still open, that the record it takes for a batch is one, and that a new
  batch names only withdrawals that are in no batch, each of them once.
-/
import HyperExchange.WithdrawalRecords

namespace HyperExchange.Crosschain

open Keyed Fees List Option Table CrosschainTrxIndex

variable {H : Type} {t t' : CrosschainTrxIndex H} {st : TransactionStata}

/-! ### Progress -/

/-- The records stay coherent; no withdrawal is added, none is cancelled, and those that are
    settled stay as they are. -/
structure Progress (t t' : CrosschainTrxIndex H) : Prop where
  coherent : Coherent t'
  kept : ∀ {id r}, IsWithdraw t id r → ∃ r', IsWithdraw t' id r' ∧
    r'.realTransaction = r.realTransaction ∧
      (r.trxState.isFinal = true → r'.trxState = r.trxState) ∧
        (r'.trxState = .withdrawCanceled → r.trxState = .withdrawCanceled)
  known : ∀ {id r'}, IsWithdraw t' id r' → ∃ r, IsWithdraw t id r
  batches : ∀ {b u}, IsBatch t b u → ∃ u', IsBatch t' b u'

theorem Progress.refl (h : Coherent t) : Progress t t :=
  ⟨h, fun {_ r} hr => ⟨r, hr, rfl, fun _ => rfl, id⟩, fun {_ r'} hr' => ⟨r', hr'⟩,
    fun {_ u} hu => ⟨u, hu⟩⟩

theorem Progress.trans {t'' : CrosschainTrxIndex H} (h : Progress t t') (h' : Progress t' t'') :
    Progress t t'' := by
  refine ⟨h'.coherent, ?_, ?_, ?_⟩
  · intro id r hr
    obtain ⟨r₁, hr₁, hreal₁, hfinal₁, hcancel₁⟩ := h.kept hr
    obtain ⟨r₂, hr₂, hreal₂, hfinal₂, hcancel₂⟩ := h'.kept hr₁
    refine ⟨r₂, hr₂, hreal₂.trans hreal₁, ?_, ?_⟩
    · intro hf
      have h₁ := hfinal₁ hf
      rw [← h₁] at hf
      exact (hfinal₂ hf).trans h₁
    · intro hc
      exact hcancel₁ (hcancel₂ hc)
  · intro id r hr
    obtain ⟨r₁, hr₁⟩ := h'.known hr
    exact h.known hr₁
  · intro b u hu
    obtain ⟨u₁, hu₁⟩ := h.batches hu
    exact h'.batches hu₁

variable {g : TrxId → CrosschainTrxObject H → CrosschainTrxObject H}

theorem CarriesOver.progress
    (c : CarriesOver t t' g) (hcoherent : Coherent t')
    (hfinal : ∀ {id r}, IsWithdraw t id r → r.trxState.isFinal = true →
      (g id r).trxState = r.trxState)
    (hcancel : ∀ {id r}, IsWithdraw t id r → (g id r).trxState = .withdrawCanceled →
      r.trxState = .withdrawCanceled) : Progress t t' where
  coherent := hcoherent
  kept {id r} hr := ⟨g id r, c.toWithdraw hr, (c.links id r).real, hfinal hr, hcancel hr⟩
  known hr' := by
    obtain ⟨r, hr, _⟩ := c.isWithdraw hr'
    exact ⟨r, hr⟩
  batches {b u} hu := ⟨g b u, c.toBatch hu⟩

variable {u : CrosschainTrxObject H}

/-- A batch that is not final may move on, and its withdrawals with it. -/
theorem Advance.progress {b : TrxId}
    (a : Advance t t' b u st g)
    (h : Coherent t) (hu : IsBatch t b u) (hopen : u.trxState.isFinal = false)
    (hst : st ≠ .withdrawWithoutSignTrxUncreate) (hcancel : st ≠ .withdrawCanceled) :
    Progress t t' := by
  refine a.carries.progress (a.coherent h hu hst) (a.keeps_final h hu hopen) ?_
  intro id r hr hc
  by_cases hmem : id ∈ u.allRelatedOriginTransactionIds
  · rw [a.sources r hmem] at hc
    exact absurd hc hcancel
  · rwa [a.withdraw_of_not_mem h hu hr hmem] at hc

/-- Withdrawals without a batch may be collected in a new one. -/
theorem Collects.progress {k : TrxId}
    (c : Collects t t' k u g)
    (h : Coherent t) : Progress t t' := by
  refine ⟨c.coherent h, ?_, ?_, fun {b v} hv => ⟨g b v, c.toBatch hv⟩⟩
  · intro id r hr
    refine ⟨g id r, c.toWithdraw hr, (c.links id r).real, c.keeps_final hr.1, ?_⟩
    intro hc
    by_cases hmem : id ∈ u.allRelatedOriginTransactionIds
    · rw [c.sources r hmem] at hc
      cases hc
    · rwa [c.others r hmem] at hc
  · rintro id r' ⟨hr', hop⟩
    rcases c.found hr' with ⟨_, rfl⟩ | ⟨r, hr, rfl⟩
    · rw [c.opType] at hop
      cases hop
    · rw [(c.links id r).opType] at hop
      exact ⟨r, hr, hop⟩

theorem Coherent.insert_progress {r : CrosschainTrxObject H} (h : Coherent t) (hr : Joins t r)
    (hop : r.opType ≠ .crosschainWithdraw) (ht : t.insert r = some t') : Progress t t' := by
  refine ⟨h.insert hr ht, ?_, ?_, fun {b u} hu => ⟨u, find_insert_old ht hu.1, hu.2⟩⟩
  · intro id x hx
    exact ⟨x, ⟨find_insert_old ht hx.1, hx.2⟩, rfl, fun _ => rfl, fun hc => hc⟩
  · intro id x hx
    rcases find_insert_cases ht hx.1 with ⟨_, rfl⟩ | hx'
    · exact absurd hx.2 hop
    · exact ⟨x, hx', hx.2⟩

theorem Coherent.erase_progress (h : Coherent t) {k : TrxId} (hw : ∀ {r}, ¬ IsWithdraw t k r)
    (hb : ∀ {u}, ¬ IsBatch t k u) : Progress t (t.erase k) := by
  have c := carriesOver_erase hw hb
  exact c.progress (c.coherent h h.uncreate (fun _ _ _ hst => hst) h.phase h.waiting)
    (fun _ _ => rfl) fun _ hc => hc

/-! ### The shapes of the moves -/

/-- The edit brings a record to the state `st` and keeps its links. -/
structure Sets (e : TrxEdit H) (st : TransactionStata) : Prop where
  links : ∀ r, SameLinks r (e.run r)
  trxState : ∀ r, (e.run r).trxState = st
  idem : ∀ r, e.run (e.run r) = e.run r

variable (st)

theorem sets_setState (n : Nat) : Sets (setState st n : TrxEdit H) st :=
  ⟨fun _ => ⟨rfl, rfl, rfl, rfl⟩, fun _ => rfl, fun _ => rfl⟩

theorem sets_setStateAndId (id : Text) (n : Nat) : Sets (setStateAndId st id n : TrxEdit H) st :=
  ⟨fun _ => ⟨rfl, rfl, rfl, rfl⟩, fun _ => rfl, fun _ => rfl⟩

theorem sets_resetState : Sets (resetState st : TrxEdit H) st :=
  ⟨fun _ => ⟨rfl, rfl, rfl, rfl⟩, fun _ => rfl, fun _ => rfl⟩

variable {st}

theorem SameLinks.ite {r r' : CrosschainTrxObject H} {e : TrxEdit H} (he : Sets e st)
    (h : SameLinks r r') (p : Prop) [Decidable p] : SameLinks r (if p then e.run r' else r') := by
  split
  · exact h.trans (he.links r')
  · exact h

theorem Sets.ite_trxState {e : TrxEdit H} (he : Sets e st) (r : CrosschainTrxObject H) (p : Prop)
    [Decidable p] : (if p then e.run r else r).trxState = if p then st else r.trxState := by
  split
  · exact he.trxState r
  · rfl

/-- The move of `adjust_crosschain_transaction`: the named records, the batch, its
    withdrawals, and those of its other records whose state meets `q`. -/
def moveBatch (named : List TrxId) (b : TrxId) (ids : List TrxId) (q : TransactionStata → Bool)
    (e₁ e₂ e₃ : TrxEdit H) (t : CrosschainTrxIndex H) : CrosschainTrxIndex H :=
  (((t.modifyEach named e₂).modify b e₁).modifyEach ids e₂).modifyWhere
    (fun r => relatesTo b r && q r.trxState) e₃

/-- The move of a senator's decision: all that belongs to the batch, its withdrawals, the
    named records and the batch. -/
def closeBatch (named : List TrxId) (b : TrxId) (ids : List TrxId) (e₁ e₂ : TrxEdit H)
    (t : CrosschainTrxIndex H) : CrosschainTrxIndex H :=
  (((t.modifyWhere (relatesTo b) e₁).modifyEach ids e₂).modifyEach named e₂).modify b e₂

section Moves

variable {t : CrosschainTrxIndex H} {b : TrxId} {u : CrosschainTrxObject H}
  {st : TransactionStata} {e₁ e₂ e₃ : TrxEdit H} {named ids : List TrxId}
  {q : TransactionStata → Bool} {st₁ : TransactionStata}

/-- What `moveBatch` does to one record. -/
def moveRecord (named : List TrxId) (b : TrxId) (ids : List TrxId) (q : TransactionStata → Bool)
    (e₁ e₂ e₃ : TrxEdit H) (id : TrxId) (r : CrosschainTrxObject H) : CrosschainTrxObject H :=
  let r₀ := if id ∈ named then e₂.run r else r
  let r₁ := if id = b then e₁.run r₀ else r₀
  let r₂ := if id ∈ ids then e₂.run r₁ else r₁
  if (relatesTo b r₂ && q r₂.trxState) = true then e₃.run r₂ else r₂

theorem find_moveBatch (h₂ : Sets e₂ st) (id : TrxId) :
    (moveBatch named b ids q e₁ e₂ e₃ t).find id =
      (t.find id).map (moveRecord named b ids q e₁ e₂ e₃ id) := by
  unfold moveBatch
  rw [find_modifyWhere, find_modifyEach h₂.idem, find_modify,
    find_modifyEach h₂.idem, Option.map_map, Option.map_map, Option.map_map]
  rfl

theorem moveRecord_links (h₁ : Sets e₁ st) (h₂ : Sets e₂ st) (h₃ : Sets e₃ st) (id : TrxId)
    (r : CrosschainTrxObject H) : SameLinks r (moveRecord named b ids q e₁ e₂ e₃ id r) :=
  .ite h₃ (.ite h₂ (.ite h₁ (.ite h₂ (.refl r) _) _) _) _

/-- A record that is moved at all ends in the state `st`. -/
theorem moveRecord_trxState (h₁ : Sets e₁ st) (h₂ : Sets e₂ st) (h₃ : Sets e₃ st) (id : TrxId)
    (r : CrosschainTrxObject H) : (moveRecord named b ids q e₁ e₂ e₃ id r).trxState =
      if id ∈ ids ∨ id = b ∨ id ∈ named ∨ (relatesTo b r && q r.trxState) = true then st
      else r.trxState := by
  unfold moveRecord
  by_cases hids : id ∈ ids
  · simp [hids, h₃.ite_trxState, h₂.trxState]
  by_cases hb : id = b
  · subst hb
    simp [hids, h₃.ite_trxState, h₁.trxState]
  · by_cases hnamed : id ∈ named
    · simp [hids, hb, hnamed, h₃.ite_trxState, h₂.trxState]
    · simp [hids, hb, hnamed, h₃.ite_trxState]

/-- The three edits of the source bring one batch to one state. -/
theorem moveBatch_advance (h : Coherent t) (q : TransactionStata → Bool) (h₁ : Sets e₁ st)
    (h₂ : Sets e₂ st) (h₃ : Sets e₃ st) (named : List TrxId)
    (hnamed : ∀ c ∈ named, ∀ {r}, t.find c = some r → r.relateTransactionId = some b)
    (hrange : ∀ {id r p}, t.find id = some r → r.relateTransactionId = some b →
      q r.trxState = false → r.trxState.phase = some p → st.phase = some p)
    (hst : st ≠ .withdrawWithoutSignTrxUncreate) :
    Advance t (moveBatch named b u.allRelatedOriginTransactionIds q e₁ e₂ e₃ t) b u st
      (moveRecord named b u.allRelatedOriginTransactionIds q e₁ e₂ e₃) := by
  constructor
  · exact find_moveBatch h₂
  · exact moveRecord_links h₁ h₂ h₃
  · intro r
    rw [moveRecord_trxState h₁ h₂ h₃, if_pos (.inr (.inl rfl))]
  · intro w r hw
    rw [moveRecord_trxState h₁ h₂ h₃, if_pos (.inl hw)]
  · intro id r p hr hrel hp
    rw [moveRecord_trxState h₁ h₂ h₃] at hp
    split at hp
    · exact hp
    rename_i huntouched
    refine hrange hr hrel ?_ hp
    by_contra hq
    rw [Bool.not_eq_false] at hq
    apply huntouched
    simp [relatesTo, hrel, hq]
  · intro id r hr hrel hunc
    rw [moveRecord_trxState h₁ h₂ h₃] at hunc
    split at hunc
    · exact hst hunc
    · exact h.not_withdraw_of_related ⟨hr, h.uncreate hr hunc⟩ hrel
  · intro id r hr hid hmem hrel
    rw [moveRecord_trxState h₁ h₂ h₃, if_neg]
    rintro (h | h | h | h)
    · exact hmem h
    · exact hid h
    · exact hrel (hnamed id h hr)
    · rw [Bool.and_eq_true, relatesTo, decide_eq_true_eq] at h
      exact hrel h.1

/-- What `closeBatch` does to one record. -/
def closeRecord (named : List TrxId) (b : TrxId) (ids : List TrxId) (e₁ e₂ : TrxEdit H)
    (id : TrxId) (r : CrosschainTrxObject H) : CrosschainTrxObject H :=
  let r₁ := if relatesTo b r = true then e₁.run r else r
  let r₂ := if id ∈ ids then e₂.run r₁ else r₁
  let r₃ := if id ∈ named then e₂.run r₂ else r₂
  if id = b then e₂.run r₃ else r₃

theorem find_closeBatch (h₂ : Sets e₂ st) (id : TrxId) : (closeBatch named b ids e₁ e₂ t).find id =
      (t.find id).map (closeRecord named b ids e₁ e₂ id) := by
  unfold closeBatch
  rw [find_modify, find_modifyEach h₂.idem, find_modifyEach h₂.idem,
    find_modifyWhere, Option.map_map, Option.map_map, Option.map_map]
  rfl

variable (h₁ : Sets e₁ st₁)
include h₁

theorem closeRecord_links (h₂ : Sets e₂ st) (id : TrxId) (r : CrosschainTrxObject H) : SameLinks r
    (closeRecord named b ids e₁ e₂ id r) :=
  .ite h₂ (.ite h₂ (.ite h₂ (.ite h₁ (.refl r) _) _) _) _

theorem closeRecord_trxState (h₂ : Sets e₂ st) (id : TrxId)
    (r : CrosschainTrxObject H) : (closeRecord named b ids e₁ e₂ id r).trxState =
      if id = b ∨ id ∈ named ∨ id ∈ ids then st
      else if relatesTo b r = true then st₁ else r.trxState := by
  unfold closeRecord
  by_cases hb : id = b
  · simp [hb, h₂.trxState]
  by_cases hnamed : id ∈ named
  · simp [hb, hnamed, h₂.trxState]
  · by_cases hids : id ∈ ids
    · simp [hb, hnamed, hids, h₂.trxState]
    · simp only [hb, hnamed, hids, if_false, or_self_iff]
      exact h₁.ite_trxState r _

/-- What is related to the batch gets a state of its own here. -/
theorem closeBatch_advance (h₂ : Sets e₂ st) (named : List TrxId)
    (hnamed : ∀ c ∈ named, ∀ {r}, t.find c = some r → c = b ∨ r.relateTransactionId = some b)
    (hphase : ∀ {p}, st₁.phase = some p → st.phase = some p)
    (hst₁ : st₁ ≠ .withdrawWithoutSignTrxUncreate) (hst : st ≠ .withdrawWithoutSignTrxUncreate) :
    Advance t (closeBatch named b u.allRelatedOriginTransactionIds e₁ e₂ t) b u st
    (closeRecord named b u.allRelatedOriginTransactionIds e₁ e₂) := by
  have hrelates : ∀ {r : CrosschainTrxObject H}, r.relateTransactionId = some b →
      relatesTo b r = true := fun hrel => decide_eq_true hrel
  constructor
  · exact find_closeBatch h₂
  · exact closeRecord_links h₁ h₂
  · intro r
    rw [closeRecord_trxState h₁ h₂, if_pos (.inl rfl)]
  · intro w r hw
    rw [closeRecord_trxState h₁ h₂, if_pos (.inr (.inr hw))]
  · intro id r p _ hrel hp
    rw [closeRecord_trxState h₁ h₂, if_pos (hrelates hrel)] at hp
    split at hp
    · exact hp
    · exact hphase hp
  · intro id r _ hrel hunc
    rw [closeRecord_trxState h₁ h₂, if_pos (hrelates hrel)] at hunc
    split at hunc
    · exact hst hunc
    · exact hst₁ hunc
  · intro id r hr hid hmem hrel
    have hnot : ¬ (id = b ∨ id ∈ named ∨ id ∈ u.allRelatedOriginTransactionIds) := by
      rintro (h | h | h)
      · exact hid h
      · rcases hnamed id h hr with h | h
        · exact hid h
        · exact hrel h
      · exact hmem h
    rw [closeRecord_trxState h₁ h₂, if_neg hnot, if_neg]
    rw [relatesTo, decide_eq_true_eq]
    exact hrel

end Moves

/-! ### New records -/

section Branches

variable {t t' : CrosschainTrxIndex H} {b : TrxId} {u : CrosschainTrxObject H}
  {trx : SignedTransaction H} {n : Nat} {r : CrosschainTrxObject H} {ids : List TrxId}

def StartsPlain (trx : SignedTransaction H) : Prop :=
  trx.first.bind Operation.getWithoutSign = none ∧ trx.first.bind Operation.getCombineSign = none

variable {get : Operation H → Option EthsGuardSign}

theorem startsPlain_of_get {op : EthsGuardSign}
    (hget : ∀ o, (get o).isSome → o.getWithoutSign = none ∧ o.getCombineSign = none)
    (h : trx.first.bind get = some op) : StartsPlain trx := by
  obtain ⟨o, ho, hop⟩ := bind_eq_some_iff.1 h
  obtain ⟨h₁, h₂⟩ := hget o (by rw [hop]; rfl)
  constructor
  · rw [ho]
    exact h₁
  · rw [ho]
    exact h₂

theorem not_isCombine (hop : r.opType ≠ .withdrawCombineSign)
    (hplain : StartsPlain r.realTransaction) : ¬ IsCombine r := by
  rintro (h | h)
  · exact hop h
  · rw [hplain.2] at h
    cases h

theorem joins_batch (hu : IsBatch t b u) (hrel : r.relateTransactionId = some b)
    (hst : r.trxState = u.trxState) (hunc : u.trxState ≠ .withdrawWithoutSignTrxUncreate)
    (hop : r.opType ≠ .withdrawWithoutSign) (hop' : r.opType ≠ .crosschainWithdraw)
    (hnamed : withoutSignOf r = none) : Joins t r := by
  refine ⟨hop, fun h => absurd h hop', ?_, fun _ => ⟨b, u, hrel, hu⟩, ?_,
    fun _ => ⟨b, u, hrel, hu⟩, hnamed⟩
  · intro h
    rw [hst] at h
    exact absurd h hunc
  · intro c v p hc hv hp
    cases hc.symm.trans hrel
    cases hv.1.symm.trans hu.1
    rw [← hst]
    exact hp

theorem adjustWithdraw_eq (hadj : adjustWithdraw n trx t = some t') :
    ∃ r, t.insert r = some t' ∧ r.transactionId = trx.id ∧ r.opType = .crosschainWithdraw ∧
      r.realTransaction = trx ∧ r.trxState = .withdrawWithoutSignTrxUncreate ∧ Joins t r := by
  obtain ⟨op, hop, hins⟩ := bind_eq_some_iff.1 hadj
  obtain ⟨o, ho, hget⟩ := bind_eq_some_iff.1 hop
  refine ⟨_, hins, rfl, rfl, rfl, rfl, ?_⟩
  -- the first operation is the withdrawal, so it is no other one
  have hplain : StartsPlain trx := by
    constructor <;> rw [ho] <;> cases o <;> first | rfl | cases hget
  refine ⟨nofun, fun _ => rfl, fun _ => rfl, ?_, nofun, nofun, hplain.1⟩
  intro hcomb
  exact absurd hcomb (not_isCombine nofun hplain)

variable (h : Coherent t)
include h

/-- A signature is a new record; nothing else moves. -/
theorem adjustWithSign_progress (hplain : StartsPlain trx)
    (hadj : adjustWithSign n b trx t = some t') : Progress t t' := by
  obtain ⟨r, _, hins⟩ := bind_eq_some_iff.1 hadj
  apply h.insert_progress _ _ hins
  · refine ⟨nofun, nofun, nofun, ?_, nofun, nofun, hplain.1⟩
    intro hcomb
    exact absurd hcomb (not_isCombine nofun hplain)
  · nofun

/-! ### Moves of a batch -/

omit h in
theorem combinedState_cases (symbol : Text) :
    combinedState symbol = .withdrawEthGuardNeedSign ∨
      combinedState symbol = .withdrawCombineTrxCreate := by
  unfold combinedState
  split
  · exact .inl rfl
  · exact .inr rfl

/-- Combining the signatures of a batch whose withdrawals still wait for them. -/
theorem adjustCombineSign_progress (hu : IsBatch t b u)
    (hsources : ∀ w ∈ u.allRelatedOriginTransactionIds, ∀ r, t.find w = some r →
      r.trxState = .withdrawWithoutSignTrxCreate)
    (hadj : adjustCombineSign n b trx t = some t') : Progress t t' := by
  obtain ⟨op, u', hop, hu', hins⟩ := bind_bind_eq_some hadj
  cases hu'.symm.trans hu.1
  have hcreate : u.trxState = .withdrawWithoutSignTrxCreate := by
    obtain ⟨w, hw, _⟩ := h.first hu
    obtain ⟨r, hr, hst⟩ := h.sources hu hw
    rw [← hst]
    exact hsources w hw r hr.1
  generalize hst : combinedState op.assetSymbol = st at hins
  have hunc : st ≠ .withdrawWithoutSignTrxUncreate := by
    rcases combinedState_cases op.assetSymbol with hs | hs <;> rw [← hst, hs] <;> nofun
  have hcancel : st ≠ .withdrawCanceled := by
    rcases combinedState_cases op.assetSymbol with hs | hs <;> rw [← hst, hs] <;> nofun
  -- before the combination nothing of the batch waits
  have hrange : ∀ {id r p}, t.find id = some r → r.relateTransactionId = some b →
      decide (r.trxState = .withdrawSignTrx) = false → r.trxState.phase = some p →
        st.phase = some p := by
    intro id r p hr hrel _ hp
    have hphase := h.phase hr hrel hu hp
    rw [hcreate] at hphase
    cases hphase
  have a := moveBatch_advance (u := u) h (fun x => decide (x = .withdrawSignTrx))
    (sets_setState st n) (sets_setStateAndId st op.crosschainTrxId n) (sets_setState st n) []
    nofun hrange hunc
  have hprogress := a.progress h hu (by rw [hcreate]; rfl) hunc hcancel
  refine hprogress.trans (hprogress.coherent.insert_progress ?_ ?_ hins)
  · refine joins_batch (a.carries.toBatch hu) rfl ?_ ?_ nofun nofun ?_
    · rw [a.batch]
    · rw [a.batch]
      exact hunc
    · obtain ⟨o, ho, hget⟩ := bind_eq_some_iff.1 hop
      unfold withoutSignOf
      rw [ho]
      cases o <;> first | rfl | cases hget
  · nofun

/-- The result of the other chain confirms the batch that was sent. -/
theorem adjustResult_progress (hu : IsBatch t b u) (hsent : u.trxState.phase = some .sent)
    (hadj : adjustResult n b t = some t') : Progress t t' := by
  obtain ⟨u', hu', hadj⟩ := bind_eq_some_iff.1 hadj
  cases hu'.symm.trans hu.1
  dsimp only at hadj
  split at hadj
  · cases hadj
    have hset := sets_setState (H := H) .withdrawTransactionConfirm n
    -- what waits in the batch was sent, like the batch itself
    have hrange : ∀ {id r p}, t.find id = some r → r.relateTransactionId = some b →
        (decide (r.trxState = .withdrawCombineTrxCreate) ||
          decide (r.trxState = .withdrawEthGuardSign)) = false → r.trxState.phase = some p →
          TransactionStata.phase .withdrawTransactionConfirm = some p := by
      intro id r p hr hrel hq hp
      have hphase := h.phase hr hrel hu hp
      rw [hsent] at hphase
      cases hphase
      rcases phase_eq_sent hp with hst | hst <;> rw [hst] at hq <;> cases hq
    have a := moveBatch_advance (u := u) h
      (fun x => decide (x = .withdrawCombineTrxCreate) || decide (x = .withdrawEthGuardSign))
      hset hset hset [] (by simp) hrange (by decide)
    exact a.progress h hu (not_final_of_phase hsent) (by decide) (by decide)
  · cases hadj

/-- A batch on eth moves on with the transaction that was combined for it. -/
theorem adjustGuardSign_progress {opType : OpType} {combineId : TrxId}
    (hget : ∀ o, (get o).isSome → o.getWithoutSign = none ∧ o.getCombineSign = none)
    (hop : opType ≠ .withdrawWithoutSign) (hop' : opType ≠ .crosschainWithdraw)
    (hcombine : ∀ c, t.find combineId = some c → IsCombine c ∧ c.trxState.phase.isSome)
    (hadj : adjustGuardSign n opType get combineId trx t = some t') : Progress t t' := by
  obtain ⟨c, b, hc, hrel, hadj⟩ := bind_bind_eq_some hadj
  obtain ⟨u, op, hfound, hfirst, hins⟩ := bind_bind_eq_some hadj
  obtain ⟨hcomb, hopen⟩ := hcombine c hc
  obtain ⟨p₀, hp₀⟩ := isSome_iff_exists.1 hopen
  have hu : IsBatch t b u := by
    obtain ⟨b', u', hrel', hu'⟩ := h.combined hc hcomb
    cases hrel'.symm.trans hrel
    cases hu'.1.symm.trans hfound
    exact hu'
  have hphase := h.phase hc hrel hu hp₀
  have hset :=
    sets_setStateAndId (H := H) .withdrawEthGuardSign (afterBar op.signedCrosschainTrxId) n
  have hnamed : ∀ d ∈ [combineId], ∀ {r}, t.find d = some r →
      r.relateTransactionId = some b := by
    intro d hd r hr
    rw [mem_singleton.1 hd, hc] at hr
    cases hr
    exact hrel
  have hrange : ∀ {id r p}, t.find id = some r → r.relateTransactionId = some b →
      decide (r.trxState = .withdrawEthGuardNeedSign) = false → r.trxState.phase = some p →
        TransactionStata.phase .withdrawEthGuardSign = some p := by
    intro id r p _ _ hq hp
    cases p with
    | unsigned =>
      rw [phase_eq_unsigned hp] at hq
      cases hq
    | sent => rfl
  have a := moveBatch_advance (u := u) h (fun x => decide (x = .withdrawEthGuardNeedSign))
    (sets_setState .withdrawEthGuardSign n) hset hset [combineId] hnamed hrange nofun
  have hprogress := a.progress h hu (not_final_of_phase hphase) nofun nofun
  refine hprogress.trans (hprogress.coherent.insert_progress ?_ hop' hins)
  refine joins_batch (a.carries.toBatch hu) rfl ?_ ?_ hop hop' (startsPlain_of_get hget hfirst).1
  · rw [a.batch]
  · rw [a.batch]
    nofun

variable {op : WithdrawWithoutSign}

theorem Coherent.isBatch_of_op (hfound : t.find b = some u) (hop : withoutSignOf u = some op) :
    IsBatch t b u ∧ u.allRelatedOriginTransactionIds = op.ccwTrxIds := by
  obtain ⟨htype, hids⟩ := h.named hfound hop
  exact ⟨⟨hfound, htype⟩, hids⟩

/-- Senators may confirm a batch that has been sent. -/
theorem pass_progress {k : TrxId}
    (hr : t.find k = some r) (hrel : r.relateTransactionId = some b)
    (hst : r.trxState = .withdrawCombineTrxCreate) (hfound : t.find b = some u)
    (hop : withoutSignOf u = some op) :
    Progress t (closeBatch [k] b op.ccwTrxIds (setState .withdrawTransactionConfirm n)
      (setState .withdrawTransactionConfirm n) t) := by
  obtain ⟨hu, hids⟩ := h.isBatch_of_op hfound hop
  have hphase : u.trxState.phase = some .sent := h.phase hr hrel hu (by rw [hst]; rfl)
  have hnamed : ∀ c ∈ [k], ∀ {x}, t.find c = some x →
      c = b ∨ x.relateTransactionId = some b := by
    intro c hc x hx
    rw [mem_singleton.1 hc, hr] at hx
    cases hx
    exact .inr hrel
  have hset := sets_setState (H := H) .withdrawTransactionConfirm n
  have a := closeBatch_advance (u := u) hset hset [k] hnamed nofun nofun nofun
  rw [← hids]
  exact a.progress h hu (not_final_of_phase hphase) nofun nofun

/-- A transaction that nobody signed is dropped, and the batch collects signatures again. -/
theorem cancelUnsigned_progress {k : TrxId}
    (hr : t.find k = some r) (hrel : r.relateTransactionId = some b)
    (hst : r.trxState = .withdrawEthGuardNeedSign) (hfound : t.find b = some u)
    (hop : withoutSignOf u = some op) :
    Progress t ((closeBatch [] b op.ccwTrxIds (resetState .withdrawSignTrx)
      (resetState .withdrawWithoutSignTrxCreate) t).erase k) := by
  obtain ⟨hu, hids⟩ := h.isBatch_of_op hfound hop
  have hphase : u.trxState.phase = some .unsigned := h.phase hr hrel hu (by rw [hst]; rfl)
  have a := closeBatch_advance (t := t) (b := b) (u := u)
    (sets_resetState (H := H) .withdrawSignTrx)
    (sets_resetState .withdrawWithoutSignTrxCreate) [] nofun nofun nofun nofun
  rw [← hids]
  have hprogress := a.progress h hu (not_final_of_phase hphase) nofun nofun
  refine hprogress.trans (hprogress.coherent.erase_progress ?_ ?_)
  · intro x hx
    obtain ⟨x₀, hx₀, _⟩ := a.carries.isWithdraw hx
    cases hx₀.1.symm.trans hr
    exact h.not_withdraw_of_related hx₀ hrel
  · intro v hv
    obtain ⟨v₀, hv₀, _⟩ := a.carries.isBatch hv
    cases hv₀.1.symm.trans hr
    exact h.not_batch_of_related hv₀ hrel hu

/-! ### A new batch -/

omit h in
/-- Once the batch has its record, the loop only moves the withdrawals. -/
theorem foldlM_adjustWithoutSign (l : List TrxId) (t : CrosschainTrxIndex H)
    (hk : (t.find trx.id).isSome)
    (hfold : l.foldlM (fun t id => adjustWithoutSign n trx ids id t) t =
      some t') : t' = t.modifyEach l (setState .withdrawWithoutSignTrxCreate n) := by
  induction l generalizing t with
  | nil => exact (Option.some.inj hfold).symm
  | cons w l ih =>
    rw [foldlM_cons] at hfold
    obtain ⟨t₁, hadj, hfold⟩ := bind_eq_some_iff.1 hfold
    obtain ⟨r, _, hadj⟩ := bind_eq_some_iff.1 hadj
    rw [if_pos hk] at hadj
    cases hadj
    apply ih _ _ hfold
    rw [find_modify, isSome_map]
    exact hk

/-- The record of the batch that `trx` makes of the withdrawals `ids`. -/
structure MadeBatch (trx : SignedTransaction H) (ids : List TrxId) (fee : Asset)
    (u : CrosschainTrxObject H) : Prop where
  origins : u.allRelatedOriginTransactionIds = ids
  first : ∃ w ∈ ids, u.relateTransactionId = some w
  real : u.realTransaction = trx
  opType : u.opType = .withdrawWithoutSign
  trxState : u.trxState = .withdrawWithoutSignTrxCreate
  crosschainFee : u.crosschainFee = fee

omit h in
theorem adjustWithoutSign_find (fee : Asset) (hk : t.find trx.id = none)
    (hfound : ∀ w ∈ ids, (t.find w).isSome)
    (hfold : ids.foldlM (fun t id => adjustWithoutSign n trx ids id t) t =
      some t') (hmade : (t'.find trx.id).isSome) :
    ∃ u, MadeBatch trx ids fee u ∧ ∀ id, (t'.modify trx.id (setFee fee)).find id =
      if id = trx.id then some u
      else (t.find id).map fun x =>
        if id ∈ ids then (setState .withdrawWithoutSignTrxCreate n).run x else x := by
  cases ids with
  | nil =>
    cases hfold
    rw [hk] at hmade
    cases hmade
  | cons w l =>
    rw [foldlM_cons] at hfold
    obtain ⟨t₁, hadj, hfold⟩ := bind_eq_some_iff.1 hfold
    obtain ⟨r, hr, hadj⟩ := bind_eq_some_iff.1 hadj
    have hnone : ¬ (t.find trx.id).isSome := by
      rw [hk]
      nofun
    rw [if_neg hnone] at hadj
    obtain ⟨u, hins, hid, hu⟩ : ∃ u,
        (t.modify w (setState .withdrawWithoutSignTrxCreate n)).insert u = some t₁ ∧
          u.transactionId = trx.id ∧ MadeBatch trx (w :: l) ⟨0, coreAsset⟩ u :=
      ⟨_, hadj, rfl, rfl, ⟨w, mem_cons_self, rfl⟩, rfl, rfl, rfl, rfl⟩
    obtain ⟨_, hfind₁⟩ := insert_eq_some hins
    rw [hid] at hfind₁
    have hk₁ : (t₁.find trx.id).isSome := by
      rw [hfind₁, if_pos rfl]
      rfl
    have ht' := foldlM_adjustWithoutSign l t₁ hk₁ hfold
    have hset := sets_setState (H := H) .withdrawWithoutSignTrxCreate n
    -- the new id is none of those that are named
    have hkl : trx.id ∉ l := by
      intro hmem
      exact hnone (hfound trx.id (mem_cons_of_mem w hmem))
    refine ⟨(setFee fee).run u, ⟨hu.origins, hu.first, hu.real, hu.opType, hu.trxState, rfl⟩, ?_⟩
    intro id
    rw [find_modify, ht', find_modifyEach hset.idem, hfind₁]
    by_cases hidk : id = trx.id
    · rw [if_pos hidk, if_pos hidk, map_some, map_some, if_pos hidk, hidk,
        if_neg hkl]
    · rw [if_neg hidk, if_neg hidk, find_modify, Option.map_map, Option.map_map]
      congr 1
      funext x
      simp only [Function.comp, if_neg hidk]
      by_cases hw : id = w <;> by_cases hl : id ∈ l <;> simp [hw, hl, hset.idem]

/-- Making a batch of withdrawals that are in none, each of them named once. -/
theorem adjustWithoutSign_progress {fee : Asset} (hk : t.find trx.id = none) (hids : ids.Nodup)
    (hopen : ∀ w ∈ ids, ∃ r, t.find w = some r ∧ r.trxState = .withdrawWithoutSignTrxUncreate)
    (hcomb : trx.first.bind Operation.getCombineSign = none)
    (hnamed : ∀ {op}, trx.first.bind Operation.getWithoutSign = some op → ids = op.ccwTrxIds)
    (hfold : ids.foldlM (fun t id => adjustWithoutSign n trx ids id t) t = some t')
    (hmade : (t'.find trx.id).isSome) : Progress t (t'.modify trx.id (setFee fee)) ∧ ∃ u, IsBatch
    (t'.modify trx.id (setFee fee)) trx.id u := by
  have hfound : ∀ w ∈ ids, (t.find w).isSome := by
    intro w hw
    obtain ⟨r, hr, _⟩ := hopen w hw
    rw [hr]
    rfl
  obtain ⟨u, hu, hfind⟩ := adjustWithoutSign_find fee hk hfound hfold hmade
  have hset := sets_setState (H := H) .withdrawWithoutSignTrxCreate n
  have c : Collects t (t'.modify trx.id (setFee fee)) trx.id u
      (fun id x => if id ∈ ids then (setState .withdrawWithoutSignTrxCreate n).run x else x) := by
    refine ⟨hk, hfind, fun id x => .ite hset (.refl x) _, ?_, ?_, hu.opType, hu.trxState, ?_, ?_,
      ?_, ?_, ?_⟩
    · intro id x hx
      rw [hu.origins] at hx
      rw [if_pos hx]
      rfl
    · intro id x hx
      rw [hu.origins] at hx
      rw [if_neg hx]
    · rw [hu.origins]
      exact hu.first
    · rw [hu.origins]
      exact hids
    · intro id hx
      rw [hu.origins] at hx
      exact hopen id hx
    · rintro (hop | hop)
      · exact nomatch hu.opType.symm.trans hop
      · rw [hu.real, hcomb] at hop
        cases hop
    · intro op hop
      unfold withoutSignOf at hop
      rw [hu.real] at hop
      exact hu.origins.trans (hnamed hop)
  exact ⟨c.progress h, u, by rw [hfind, if_pos rfl], hu.opType⟩

end Branches

end HyperExchange.Crosschain
