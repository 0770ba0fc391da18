/-
  **The signatures of a transfer between cold and hot accounts.**

  The records of `with_sign` transactions are the signatures of the `without_sign` transaction
  they are related to; `combine_coldhot_sign_transaction` collects them.  The evaluator refuses
  a second signature of the same guard while the first one waits; it waits as long as no later
  operation brings it back to the state of a transaction that was just built.  Whether the
  guard is a senator of the account that pays is nothing the evaluator asks of `sign_guard`.
-/
import HyperExchange.ColdhotRecords
import HyperExchange.ColdhotEvaluators
import HyperExchange.SignatureSets
import HyperExchange.TableChanges

namespace HyperExchange.Coldhot

open Keyed Signatures Option
open Crosschain (Registry TrxId Text HdTrx EthsGuardSign fcAssert fcAssert_eq_some)

variable {H : Type} {reg : Registry}

/-! ### Signatures and who may sign -/

/-- What the record is a signature of, and of which guard: it is that of a transaction with
    the one operation. -/
def signOf : TransferObject H → Option (TrxId × Nat) :=
  signatureOf (fun r => decide (r.opType = .transferWithSign)) (·.relateTrxId)
    (·.currentTrx.operations) fun op => op.getWithSign.map fun o => (o.coldhotTrxId, o.signGuard)

theorem signOf_eq_some {r : TransferObject H} {w : TrxId} {g : Nat} :
    signOf r = some (w, g) ↔ r.opType = .transferWithSign ∧ r.relateTrxId = some w ∧
      ∃ o, r.currentTrx.operations = [.transferWithSign o] ∧ o.coldhotTrxId = w ∧
        o.signGuard = g := by
  rw [signOf, signatureOf_eq_some, decide_eq_true_eq]
  refine and_congr_right fun _ => and_congr_right fun _ => ⟨?_, ?_⟩
  · rintro ⟨op, hops, hget⟩
    cases op with
    | transferWithSign o =>
      cases hget
      exact ⟨o, hops, rfl, rfl⟩
    | _ => cases hget
  · rintro ⟨o, hops, rfl, rfl⟩
    exact ⟨_, hops, rfl⟩

variable (senators : Text → Text → List Nat)

/-- The senators of the account that pays the transfer for which the transaction was built. -/
def payingSenators (t : TransferIndex H) (w : TrxId) : Option (List Nat) := do
  let withoutSign ← t.find w
  fcAssert (withoutSign.opType = .transferWithoutSign)
  let original ← withoutSign.relateTrxId
  let transfer ← t.find original
  let o ← transfer.currentTrx.first.bind Operation.getTransfer
  some (senators o.multiAccountWithdraw o.assetSymbol)

variable {senators}

/-- The senators of a transaction stay as long as its records keep their links. -/
theorem payingSenators_kept {t t' : TransferIndex H}
    (hkept : ∀ {k r}, t.find k = some r → ∃ r', t'.find k = some r' ∧ SameLinks r r') {w : TrxId}
    {l : List Nat} (hl : payingSenators senators t w = some l) :
    payingSenators senators t' w = some l := by
  simp only [payingSenators, bind_eq_bind, bind_eq_some_iff,
    fcAssert_eq_some] at hl ⊢
  obtain ⟨u, hu, _, hop, o, ho, r, hr, transfer, htransfer, hl⟩ := hl
  obtain ⟨u', hu', hlinks⟩ := hkept hu
  obtain ⟨r', hr', hlinks'⟩ := hkept hr
  refine ⟨u', hu', (), hlinks.opType.trans hop, o, hlinks.relate.trans ho, r', hr', transfer, ?_,
    hl⟩
  rw [hlinks'.currentTrx]
  exact htransfer

variable (senators)

/-- What `combine_coldhot_sign_transaction` reads of the transaction it combines. -/
def withoutSignOf (t : TransferIndex H) (w : TrxId) : Option TransferWithoutSign := do
  let withoutSign ← t.find w
  fcAssert (withoutSign.curretTrxState = .coldhotWithoutSignTrxCreate)
  withoutSign.currentTrx.first.bind Operation.getWithoutSign

/-- `combine_coldhot_sign_transaction`: the transactions it lists, up to their order, if it
    combines the one that was built.  A negative count is a large one where sizes are
    compared. -/
def combineColdhotSignTransaction (t : TransferIndex H) (w : TrxId) : Option (List TrxId) := do
  let op ← withoutSignOf t w
  let signed := t.rows.filter fun r =>
    decide (r.opType = .transferWithSign ∧ r.relateTrxId = some w)
  let needed := (op.withdrawAccountCount * 2).tdiv 3 + 1
  fcAssert (signed ≠ [] ∧ 0 ≤ needed ∧ needed ≤ signed.length)
  some (signed.map (·.currentId))

abbrev Signed (t : TransferIndex H) : Prop :=
  Signatures.Signed (fun r : TransferObject H => r.opType = .transferWithSign)
    (·.curretTrxState.Late) signOf (payingSenators senators) t

variable {senators} in
/-- What is combined lists signatures only, and enough of them for a panel that is not larger
    than `withdraw_account_count`. -/
theorem enough_of_signed {t : TransferIndex H} (hs : Signed senators t) {w : TrxId}
    {listed ids : List TrxId} (h : combineColdhotSignTransaction t w = some ids)
    (hperm : listed.Perm ids)
    (hpanel : ∀ l ∈ payingSenators senators t w, ∀ op ∈ withoutSignOf t w,
      (l.length : Int) ≤ op.withdrawAccountCount) :
    EnoughSignatures signOf (payingSenators senators) t w listed := by
  simp only [combineColdhotSignTransaction, bind_eq_bind, bind_eq_some_iff, fcAssert_eq_some] at h
  obtain ⟨op, hop, _, ⟨hsome, _, hcount⟩, hids⟩ := h
  cases hids
  have hlength : listed.length = (t.rows.filter fun r =>
      decide (r.opType = .transferWithSign ∧ r.relateTrxId = some w)).length :=
    hperm.length_eq.trans (List.length_map _)
  have hpanel' : ∀ l ∈ payingSenators senators t w, quorum l.length ≤ listed.length := by
    intro l hl
    have hle := hpanel l hl op hop
    rw [Int.tdiv_eq_ediv_of_nonneg (by omega)] at hcount
    unfold quorum
    omega
  have hsign : ∀ id ∈ listed, ∃ r ∈ t.find id, ∃ g, signOf r = some (w, g) := by
    intro id hid
    obtain ⟨r, hr, rfl⟩ := List.mem_map.1 (hperm.mem_iff.1 hid)
    obtain ⟨hmem, hkind⟩ := List.mem_filter.1 hr
    obtain ⟨hop', hrel⟩ := of_decide_eq_true hkind
    have hfind := Table.find_of_mem hmem
    obtain ⟨⟨w', g⟩, hx⟩ := hs.real hfind hop'
    cases hrel.symm.trans (signOf_eq_some.1 hx).2.1
    exact ⟨r, hfind, g, hx⟩
  have hnodup : listed.Nodup :=
    hperm.nodup_iff.2 (t.nodup.sublist (List.filter_sublist.map _))
  have hpos : 0 < listed.length := by
    rw [hlength]
    exact List.length_pos_of_ne_nil hsome
  exact hs.sound.enough hsign hnodup hpos hpanel'

/-! ### Operations other than signatures -/

/-- The record is still the same, and a signature is not brought back. -/
structure Carries (r r' : TransferObject H) : Prop where
  links : SameLinks r r'
  late : r.opType = .transferWithSign → r.curretTrxState.Late → r'.curretTrxState.Late

abbrev NoSignature (t t' : TransferIndex H) : Prop :=
  Evolves Carries (fun r => r.opType ≠ .transferWithSign) (fun _ => False) t t'

theorem carries_laws : Laws (Carries (H := H)) (fun r => r.opType ≠ .transferWithSign)
    (fun _ => False) where
  refl r := ⟨.refl r, fun _ h => h⟩
  trans h h' := ⟨h.links.trans h'.links,
    fun hop hlate => h'.late (h.links.opType.trans hop) (h.late hop hlate)⟩
  new_keep hnew h := by
    rw [h.links.opType]
    exact hnew
  keep_gone _ h := h

theorem Sets.carries {e : TransferEdit H} {st : ColdhotTrxState} (he : Sets e st) (hst : st.Late)
    (r : TransferObject H) : Carries r (e.run r) where
  links := he.links r
  late _ _ := by
    rw [he.state]
    exact hst

namespace NoSignature

variable {t t' : TransferIndex H} {st : ColdhotTrxState}

theorem modify {e : TransferEdit H} (he : Sets e st) (hst : st.Late)
    (k : TrxId) (t : TransferIndex H) : NoSignature t (t.modify k e) :=
  Evolves.modify carries_laws fun _ => he.carries hst _

theorem modifyWhere {e : TransferEdit H} (he : Sets e st) (hst : st.Late)
    (p : TransferObject H → Bool) (t : TransferIndex H) : NoSignature t (t.modifyWhere p e) :=
  Evolves.modifyWhere carries_laws fun _ _ => he.carries hst _

variable {senators : Text → Text → List Nat}

theorem panels (h : NoSignature t t') {w : TrxId}
    {l : List Nat} (hl : payingSenators senators t w = some l) :
    payingSenators senators t' w = some l := by
  refine payingSenators_kept ?_ hl
  intro k r hr
  obtain ⟨r', hr', hkeep⟩ := h.forth hr id
  exact ⟨r', hr', hkeep.links⟩

theorem signed (h : NoSignature t t') (hs : Signed senators t) : Signed senators t' := by
  refine hs.evolves h (fun hx => (signOf_eq_some.1 hx).1) (fun hnew => hnew) ?_ (·.late) h.panels
  intro r r' hkeep
  refine ⟨hkeep.links.opType.symm.trans, ?_⟩
  simp only [signOf, signatureOf, hkeep.links.opType, hkeep.links.relate, hkeep.links.currentTrx]

end NoSignature

section Branches

variable {t t' : TransferIndex H} {n : Nat} {trx : SignedTransaction H} {k : TrxId}

theorem NoSignature.trans {t'' : TransferIndex H} (h : NoSignature t t') (h' : NoSignature t' t'') :
    NoSignature t t'' :=
  Evolves.trans carries_laws h h'

theorem NoSignature.record {t₁ : TransferIndex H} (h : NoSignature t t₁) {r : TransferObject H}
    (hop : r.opType ≠ .transferWithSign) (ht : t₁.insert r = some t') : NoSignature t t' :=
  h.trans (Evolves.insert carries_laws hop ht)

theorem adjustTransfer_noSignature (ht : t.adjustTransfer n trx = some t') : NoSignature t t' :=
  Evolves.insert carries_laws (by nofun) ht

theorem adjustWithoutSign_noSignature
    (hst : ∀ r ∈ t.find k, r.curretTrxState = .coldhotWithoutSignTrxUncreate)
    (ht : t.adjustWithoutSign n k trx = some t') : NoSignature t t' := by
  obtain ⟨r, _, ht⟩ := bind_eq_some_iff.1 ht
  have hnamed : NoSignature t (t.modify k (setState .coldhotWithoutSignTrxCreate n)) := by
    refine Evolves.modify carries_laws ?_
    intro x hx
    exact ⟨(sets_setState _ n).links x, fun _ hlate => absurd (hst x hx) hlate.1⟩
  exact hnamed.record (by nofun) ht

theorem adjustCombineSign_noSignature (ht : t.adjustCombineSign n k trx = some t') :
    NoSignature t t' := by
  obtain ⟨u, o, _, _, ht⟩ := bind_bind_eq_some ht
  obtain ⟨r₀, op, _, _, ht⟩ := bind_bind_eq_some ht
  have hset := sets_setState (H := H) (TransferIndex.combinedState op.assetSymbol) n
  have hlate := TransferIndex.combinedState_late op.assetSymbol
  exact (((NoSignature.modify hset hlate o t).trans (.modify hset hlate k _)).trans
    (.modifyWhere hset hlate _ _)).record (by nofun) ht

theorem adjustResult_noSignature (ht : t.adjustResult n k = some t') : NoSignature t t' := by
  obtain ⟨u, o, _, _, ht⟩ := bind_bind_eq_some ht
  obtain ⟨r₀, _, ht⟩ := bind_eq_some_iff.1 ht
  cases ht
  have hset := sets_setState (H := H) .coldhotTransactionConfirm n
  have hlate : ColdhotTrxState.Late .coldhotTransactionConfirm := ⟨nofun, nofun⟩
  exact ((NoSignature.modify hset hlate k t).trans (.modify hset hlate o _)).trans
    (.modifyWhere hset hlate _ _)

theorem close_noSignature {e : TransferEdit H} {st : ColdhotTrxState} (he : Sets e st)
    (hlate : st.Late) (named relate original : TrxId) (t : TransferIndex H) :
    NoSignature t (t.close e named relate original) :=
  (((NoSignature.modify he hlate named t).trans (.modify he hlate relate _)).trans
    (.modifyWhere he hlate _ _)).trans (.modify he hlate original _)

theorem adjustPass_noSignature (ht : t.adjustPass n k = some t') : NoSignature t t' := by
  obtain ⟨r, w, _, _, ht⟩ := bind_bind_eq_some ht
  obtain ⟨u, o, _, _, ht⟩ := bind_bind_eq_some ht
  obtain ⟨r₀, _, ht⟩ := bind_eq_some_iff.1 ht
  cases ht
  exact close_noSignature (sets_setState .coldhotTransactionConfirm n) ⟨nofun, nofun⟩ _ _ _ t

theorem adjustCancelTransfer_noSignature (ht : t.adjustCancelTransfer n k trx = some t') :
    NoSignature t t' := by
  obtain ⟨r, _, ht⟩ := bind_eq_some_iff.1 ht
  exact (NoSignature.modify (sets_setState .coldhotTransactionFail n) ⟨nofun, nofun⟩ k t).record
    (by nofun) ht

theorem adjustCancelUncombined_noSignature (ht : t.adjustCancelUncombined n k trx = some t') :
    NoSignature t t' := by
  obtain ⟨u, o, _, _, ht⟩ := bind_bind_eq_some ht
  obtain ⟨r₀, _, ht⟩ := bind_eq_some_iff.1 ht
  have hset := sets_setState (H := H) .coldhotTransactionFail n
  have hlate : ColdhotTrxState.Late .coldhotTransactionFail := ⟨nofun, nofun⟩
  exact (((NoSignature.modify hset hlate k t).trans (.modifyWhere hset hlate _ _)).trans
    (.modify hset hlate o _)).record (by nofun) ht

theorem adjustCancelCombined_noSignature {opType : OpType} {toNamed : Bool}
    (hop : opType ≠ .transferWithSign)
    (ht : t.adjustCancelCombined n opType toNamed k trx = some t') : NoSignature t t' := by
  obtain ⟨r, w, _, _, ht⟩ := bind_bind_eq_some ht
  obtain ⟨u, o, _, _, ht⟩ := bind_bind_eq_some ht
  obtain ⟨r₀, _, ht⟩ := bind_eq_some_iff.1 ht
  exact (close_noSignature (sets_setState .coldhotTransactionFail n) ⟨nofun, nofun⟩ _ _ _ t).record
    hop ht

theorem adjustGuardSign_noSignature {opType : OpType} {set : Text → TransferEdit H}
    {get : Operation H → Option EthsGuardSign} (hop : opType ≠ .transferWithSign)
    (hset : ∀ id, Sets (set id) .coldhotEthGuardSign)
    (ht : t.adjustGuardSign n opType set get k trx = some t') : NoSignature t t' := by
  obtain ⟨r, w, _, _, ht⟩ := bind_bind_eq_some ht
  obtain ⟨u, op, _, _, ht⟩ := bind_bind_eq_some ht
  obtain ⟨o, r₀, _, _, ht⟩ := bind_bind_eq_some ht
  have hset := hset (Crosschain.afterBar op.signedCrosschainTrxId)
  have hlate : ColdhotTrxState.Late .coldhotEthGuardSign := ⟨nofun, nofun⟩
  exact ((((NoSignature.modify hset hlate k t).trans (.modify hset hlate w _)).trans
    (.modify hset hlate o _)).trans (.modifyWhere hset hlate _ _)).record hop ht

end Branches

/-! ### A signature -/

section Sign

variable {ctx : Context reg H} {trx : SignedTransaction H} {s s' : State H} {o : TransferWithSign H}
  {senators : Text → Text → List Nat}

variable (hs : Signed senators s.transfers)
include hs

theorem evaluateWithSign_new (heval : evaluateWithSign ctx trx s o = some ()) {k : TrxId}
    {r : TransferObject H} (hr : s.transfers.find k = some r) : signOf r ≠ some
    (o.coldhotTrxId, o.signGuard) := by
  intro hx
  obtain ⟨hop, hrel, o', ho', _, hg⟩ := signOf_eq_some.1 hx
  simp only [evaluateWithSign, bind_eq_bind, bind_eq_some_iff,
    fcAssert_eq_some] at heval
  obtain ⟨_, _, _, _, _, hstates, _, hsigns, _⟩ := heval
  have hmem : r ∈ s.transfers.rows.filter (relatesTo o.coldhotTrxId) :=
    List.mem_filter.2 ⟨Table.mem_of_find hr, decide_eq_true hrel⟩
  have hstate : r.curretTrxState = .coldhotSignTrx :=
    (hstates r hmem).resolve_left (hs.late hr hop).2
  obtain ⟨_, sign, hsign, hne⟩ := hsigns r hmem hstate
  rw [SignedTransaction.first, ho'] at hsign
  cases hsign
  exact hne hg

theorem adjustWithSign_signed {t : TransferIndex H} {n : Nat}
    (hops : trx.operations = [.transferWithSign o])
    (hsenator : ∃ l ∈ payingSenators senators s.transfers o.coldhotTrxId, o.signGuard ∈ l)
    (heval : evaluateWithSign ctx trx s o = some ())
    (ht : s.transfers.adjustWithSign n o.coldhotTrxId trx = some t) : Signed senators t := by
  obtain ⟨u, _, ht⟩ := bind_eq_some_iff.1 ht
  exact hs.insert ht ⟨nofun, nofun⟩ (signOf_eq_some.2 ⟨rfl, rfl, o, hops, rfl, rfl⟩) hsenator
    (evaluateWithSign_new hs heval)
    (payingSenators_kept fun hr => ⟨_, Table.find_insert_old ht hr, .refl _⟩)

end Sign

/-! ### Operations -/

section Operations

/-- A transaction is built for a transfer that waits for one; a signature is evaluated, stands
    alone in its transaction and is that of a senator of the account that pays; and what is
    combined is what `combine_coldhot_sign_transaction` builds, for a transaction whose
    `withdraw_account_count` counts all senators of that account. -/
def SignedInOrder (ctx : Context reg H) (trx : SignedTransaction H) (t : TransferIndex H) :
    Operation H → Prop
  | .transferWithoutSign o => ∀ r ∈ t.find o.coldhotTrxId,
      r.curretTrxState = .coldhotWithoutSignTrxUncreate
  | .transferWithSign o => checkPointBlock < ctx.headBlockNum ∧ trx.operations.length = 1 ∧
      ∃ l ∈ payingSenators senators t o.coldhotTrxId, o.signGuard ∈ l
  | .transferCombineSign o =>
    (∃ ids ∈ combineColdhotSignTransaction t o.coldhotTransferTrxId, o.signedTrxIds.Perm ids) ∧
      ∀ l ∈ payingSenators senators t o.coldhotTransferTrxId,
        ∀ op ∈ withoutSignOf t o.coldhotTransferTrxId, (l.length : Int) ≤ op.withdrawAccountCount
  | _ => True

instance (ctx : Context reg H) (trx : SignedTransaction H) (t : TransferIndex H) :
    DecidablePred (SignedInOrder senators ctx trx t) := by
  rintro ⟨⟩ <;> unfold SignedInOrder <;> infer_instance

variable {senators} {ctx : Context reg H} {trx : SignedTransaction H} {s s' : State H}

theorem applyOperation_signed (hs : Signed senators s.transfers) {op : Operation H}
    (hmem : op ∈ trx.operations) (hord : SignedInOrder senators ctx trx s.transfers op)
    (happly : applyOperation ctx trx s op = some s') : Signed senators s'.transfers := by
  obtain ⟨heval, happly⟩ := applyOperation_eq happly
  cases op
  case transferResult result =>
    obtain ⟨⟨_, _, _, _, ht⟩, _⟩ := applyResult_eq happly
    exact (adjustResult_noSignature ht).signed hs
  case other =>
    cases happly
    exact hs
  all_goals obtain ⟨t, ht, rfl⟩ := map_eq_some_iff.1 happly
  case transferWithSign o =>
    obtain ⟨hhead, hone, hsenator⟩ := hord
    obtain ⟨op, hop⟩ := List.length_eq_one_iff.1 hone
    rw [hop] at hmem
    cases List.mem_singleton.1 hmem
    exact adjustWithSign_signed hs hop hsenator (heval hhead) ht
  case transfer o => exact (adjustTransfer_noSignature ht).signed hs
  case transferWithoutSign o => exact (adjustWithoutSign_noSignature hord ht).signed hs
  case transferCombineSign o => exact (adjustCombineSign_noSignature ht).signed hs
  case cancelTransferTransaction o => exact (adjustCancelTransfer_noSignature ht).signed hs
  case cancelUncombinedTrx o => exact (adjustCancelUncombined_noSignature ht).signed hs
  case cancelCombinedTrx o =>
    exact (adjustCancelCombined_noSignature (by decide) ht).signed hs
  case passCombineTrx o => exact (adjustPass_noSignature ht).signed hs
  case ethCancelColdhotFailTrx o =>
    exact (adjustCancelCombined_noSignature (by decide) ht).signed hs
  case ethsColdhotGuardSignFinal o =>
    exact (adjustGuardSign_noSignature (by decide) sets_setSigned ht).signed hs
  case ethsGuardColdhotChangeSigner o =>
    exact (adjustGuardSign_noSignature (by decide) (sets_setSignedAt ctx.headBlockNum) ht).signed hs

end Operations

end HyperExchange.Coldhot
