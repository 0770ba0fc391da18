/-
  **The signatures of a batch of withdrawals.**

  The records of `with_sign` transactions are the signatures of the batch they are related
  to.  As with transfers, a guard cannot sign a batch twice as long as no signature is brought
  back to the state of a batch that was just built.  `eths_cancel_unsigned_transaction` does
  bring records back, and removes one: the batch, its withdrawals and the combined
  transaction, none of which is a signature.  The signatures that wait are then the records
  that `combine_sign_transaction` collects.
-/
import HyperExchange.CrosschainSteps
import HyperExchange.SignatureSets

namespace HyperExchange.Crosschain

open Keyed Signatures Option

variable {H : Type} {reg : Registry}

/-! ### Signatures and who may sign -/

/-- What the record is a signature of, and of which guard: it is that of a transaction with
    the one operation. -/
def signOf : CrosschainTrxObject H → Option (TrxId × Nat) :=
  signatureOf (fun r => decide (r.opType = .withdrawWithSign)) (·.relateTransactionId)
    (·.realTransaction.operations) fun op =>
      op.getWithSign.map fun o => (o.ccwTrxId, o.signGuard)

theorem signOf_eq_some {r : CrosschainTrxObject H} {b : TrxId} {g : Nat} :
    signOf r = some (b, g) ↔ r.opType = .withdrawWithSign ∧ r.relateTransactionId = some b ∧
      ∃ o, r.realTransaction.operations = [.withdrawWithSign o] ∧ o.ccwTrxId = b ∧
        o.signGuard = g := by
  rw [signOf, signatureOf_eq_some, decide_eq_true_eq]
  refine and_congr_right fun _ => and_congr_right fun _ => ⟨?_, ?_⟩
  · rintro ⟨op, hops, hget⟩
    cases op with
    | withdrawWithSign o =>
      cases hget
      exact ⟨o, hops, rfl, rfl⟩
    | _ => cases hget
  · rintro ⟨o, hops, rfl, rfl⟩
    exact ⟨_, hops, rfl⟩

/-- What the other chain's transaction of a batch is paid from, who the senators of such an
    account are, and how many `get_guard_members` finds. -/
structure Payers where
  payer : Text → VariantObject → Text
  senators : Text → Text → List Nat
  guardMembers : Nat

variable (p : Payers)

def payingSenators (t : CrosschainTrxIndex H) (b : TrxId) : Option (List Nat) := do
  let withoutSign ← t.find b
  fcAssert (withoutSign.opType = .withdrawWithoutSign)
  let op ← withoutSignOf withoutSign
  some (p.senators (p.payer op.assetSymbol op.withdrawSourceTrx) op.assetSymbol)

/-- `combine_sign_transaction`: the transactions it lists for the batch, if it combines it.
    They are the records that wait as signatures. -/
def combineSignTransaction (t : CrosschainTrxIndex H) (b : TrxId) : Option (List TrxId) := do
  let signed := t.rows.filter fun r => relatesTo b r && decide (r.trxState = .withdrawSignTrx)
  fcAssert (quorum p.guardMembers ≤ signed.length)
  let withoutSign ← t.find b
  fcAssert (withoutSign.trxState = .withdrawWithoutSignTrxCreate)
  let _ ← withoutSignOf withoutSign
  some (signed.map (·.transactionId))

/-- The signatures are in order, and whatever waits as a signature is one. -/
structure Signed (t : CrosschainTrxIndex H) : Prop extends
    Signatures.Signed (fun r : CrosschainTrxObject H => r.opType = .withdrawWithSign)
      (·.trxState.Late) signOf (payingSenators p) t where
  waiting : ∀ {id r}, t.find id = some r → r.trxState = .withdrawSignTrx →
    r.opType = .withdrawWithSign

variable {p}

/-- The senators of a batch stay as long as its record keeps its links. -/
theorem payingSenators_kept {t t' : CrosschainTrxIndex H}
    (hkept : ∀ {k r op}, t.find k = some r → withoutSignOf r = some op →
      ∃ r', t'.find k = some r' ∧ SameLinks r r') {b : TrxId} {l : List Nat}
    (hl : payingSenators p t b = some l) : payingSenators p t' b = some l := by
  simp only [payingSenators, bind_eq_bind, bind_eq_some_iff, fcAssert_eq_some] at hl ⊢
  obtain ⟨u, hu, _, hop, op, hsign, hl⟩ := hl
  obtain ⟨u', hu', hlinks⟩ := hkept hu hsign
  exact ⟨u', hu', (), hlinks.opType.trans hop, op, hlinks.withoutSignOf_eq.trans hsign, hl⟩

/-- What is combined lists signatures of the batch only, and enough of them for a panel that
    is not larger than the number of guards. -/
theorem Signed.enough {t : CrosschainTrxIndex H} (hs : Signed p t) {b : TrxId} {ids : List TrxId}
    (h : combineSignTransaction p t b = some ids)
    (hpanel : ∀ l ∈ payingSenators p t b, l.length ≤ p.guardMembers) :
    EnoughSignatures signOf (payingSenators p) t b ids := by
  simp only [combineSignTransaction, bind_eq_bind, bind_eq_some_iff, fcAssert_eq_some] at h
  obtain ⟨_, hcount, _, _, _, _, _, _, hids⟩ := h
  cases hids
  have hsign : ∀ id ∈ (t.rows.filter fun r =>
      relatesTo b r && decide (r.trxState = .withdrawSignTrx)).map (·.transactionId),
      ∃ r ∈ t.find id, ∃ g, signOf r = some (b, g) := by
    intro id hid
    obtain ⟨r, hr, rfl⟩ := List.mem_map.1 hid
    obtain ⟨hmem, hkind⟩ := List.mem_filter.1 hr
    obtain ⟨hrel, hstate⟩ := Bool.and_eq_true_iff.1 hkind
    have hfind := Table.find_of_mem hmem
    obtain ⟨⟨b', g⟩, hx⟩ := hs.real hfind (hs.waiting hfind (of_decide_eq_true hstate))
    have hrel' : r.relateTransactionId = some b := of_decide_eq_true hrel
    cases hrel'.symm.trans (signOf_eq_some.1 hx).2.1
    exact ⟨r, hfind, g, hx⟩
  refine hs.sound.enough hsign (t.nodup.sublist (List.filter_sublist.map _)) ?_ ?_
  · rw [List.length_map]
    exact Nat.lt_of_lt_of_le (Nat.succ_pos _) hcount
  · intro l hl
    rw [List.length_map]
    exact Nat.le_trans (quorum_mono (hpanel l hl)) hcount

/-! ### Operations other than signatures -/

/-- The record is still the same, a signature is not brought back, and nothing else comes to
    wait as one. -/
structure Carries (r r' : CrosschainTrxObject H) : Prop where
  links : SameLinks r r'
  late : r.opType = .withdrawWithSign → r.trxState.Late → r'.trxState.Late
  waiting : r'.trxState = .withdrawSignTrx →
    r.trxState = .withdrawSignTrx ∨ r.opType = .withdrawWithSign

/-- The record is no signature and does not wait as one. -/
structure NotSign (r : CrosschainTrxObject H) : Prop where
  opType : r.opType ≠ .withdrawWithSign
  trxState : r.trxState ≠ .withdrawSignTrx

abbrev NoSignature (t t' : CrosschainTrxIndex H) : Prop :=
  Evolves Carries NotSign StartsCombined t t'

theorem carries_laws : EditLaws (Carries (H := H)) NotSign StartsCombined where
  refl r := ⟨.refl r, fun _ h => h, .inl⟩
  trans h h' := by
    refine ⟨h.links.trans h'.links,
      fun hop hlate => h'.late (h.links.opType.trans hop) (h.late hop hlate), ?_⟩
    intro hstate
    rcases h'.waiting hstate with hstate | hop
    · exact h.waiting hstate
    · exact .inr (h.links.opType.symm.trans hop)
  new_keep hnew h := by
    refine ⟨h.links.opType ▸ hnew.opType, ?_⟩
    intro hstate
    exact (h.waiting hstate).elim hnew.trxState hnew.opType
  keep_gone h hgone := by
    unfold StartsCombined at hgone ⊢
    rwa [h.links.real] at hgone
  sent he r := ⟨he.links r, fun _ _ => (he.sent r).1, fun hstate => absurd hstate (he.sent r).2⟩
  links h := h.links

namespace NoSignature

variable {t t' : CrosschainTrxIndex H}

theorem panels (h : NoSignature t t') {b : TrxId} {l : List Nat}
    (hl : payingSenators p t b = some l) : payingSenators p t' b = some l := by
  refine payingSenators_kept ?_ hl
  intro k r op hr hsign
  have hstays : ¬StartsCombined r := by
    intro hcombined
    obtain ⟨x, hx, hget⟩ := bind_eq_some_iff.1 hsign
    rw [StartsCombined, hx] at hcombined
    cases x with
    | withdrawWithoutSign o => exact absurd hcombined (by simp [Operation.getCombineSign])
    | _ => cases hget
  obtain ⟨r', hr', hkeep⟩ := h.forth hr hstays
  exact ⟨r', hr', hkeep.links⟩

theorem signed (h : NoSignature t t') (hs : Signed p t) : Signed p t' where
  toSigned := by
    refine hs.toSigned.evolves h (fun hx => (signOf_eq_some.1 hx).1) (·.opType) ?_ (·.late) h.panels
    intro r r' hkeep
    refine ⟨hkeep.links.opType.symm.trans, ?_⟩
    simp only [signOf, signatureOf, hkeep.links.opType, hkeep.links.relate, hkeep.links.real]
  waiting := by
    intro id r' hr' hstate
    rcases h.back hr' with ⟨r, hr, hkeep⟩ | hnew
    · rw [hkeep.links.opType]
      exact (hkeep.waiting hstate).elim (hs.waiting hr) fun hop => hop
    · exact absurd hstate hnew.trxState

end NoSignature

/-! ### A signature -/

section Sign

variable {ctx : Context reg H} {trx : SignedTransaction H} {s s' : State H} {o : WithdrawWithSign H}

theorem evaluateWithSign_new (hs : Signed p s.trxs)
    (heval : evaluateWithSign ctx trx s o = some ()) {k : TrxId} {r : CrosschainTrxObject H}
    (hr : s.trxs.find k = some r) : signOf r ≠ some (o.ccwTrxId, o.signGuard) := by
  intro hx
  obtain ⟨hop, hrel, o', ho', _, hg⟩ := signOf_eq_some.1 hx
  simp only [evaluateWithSign, bind_eq_bind, bind_eq_some_iff,
    fcAssert_eq_some] at heval
  obtain ⟨_, _, _, _, _, hstates, _, hsigns, _⟩ := heval
  have hmem : r ∈ s.trxs.rows.filter (relatesTo o.ccwTrxId) :=
    List.mem_filter.2 ⟨Table.mem_of_find hr, decide_eq_true hrel⟩
  have hstate : r.trxState = .withdrawSignTrx :=
    (hstates r hmem).resolve_left (hs.late hr hop).2
  obtain ⟨sign, hsign, hne⟩ := hsigns r hmem hstate
  rw [SignedTransaction.first, ho'] at hsign
  cases hsign
  exact hne hg

theorem adjustWithSign_signed (hs : Signed p s.trxs) {t : CrosschainTrxIndex H} {n : Nat}
    (hops : trx.operations = [.withdrawWithSign o])
    (hsenator : ∃ l ∈ payingSenators p s.trxs o.ccwTrxId, o.signGuard ∈ l)
    (heval : evaluateWithSign ctx trx s o = some ())
    (ht : CrosschainTrxIndex.adjustWithSign n o.ccwTrxId trx s.trxs = some t) : Signed p t := by
  obtain ⟨u, _, ht⟩ := bind_eq_some_iff.1 ht
  refine ⟨hs.toSigned.insert ht ⟨nofun, nofun⟩ (signOf_eq_some.2 ⟨rfl, rfl, o, hops, rfl, rfl⟩)
    hsenator (evaluateWithSign_new hs heval)
    (payingSenators_kept fun hr _ => ⟨_, Table.find_insert_old ht hr, .refl _⟩), ?_⟩
  intro id r hr hstate
  rcases Table.find_insert_cases ht hr with ⟨_, rfl⟩ | hr
  · rfl
  · exact hs.waiting hr hstate

end Sign

/-! ### Operations -/

section Operations

variable (p)

/-- A batch is built of withdrawals that wait for one; a signature is evaluated, stands alone
    in its transaction and is that of a senator of the account that pays; what is combined is
    what `combine_sign_transaction` builds; and a combined transaction is taken back only
    while there is nothing but signatures and itself for its batch. -/
def SignedInOrder (ctx : Context reg H) (trx : SignedTransaction H) (s : State H) :
    Operation H → Prop
  | .withdrawWithoutSign o => ∀ id ∈ o.ccwTrxIds, ∀ r ∈ s.trxs.find id,
      r.trxState = .withdrawWithoutSignTrxUncreate
  | .withdrawWithSign o => checkPointBlock < ctx.headBlockNum ∧ trx.operations.length = 1 ∧
      ∃ l ∈ payingSenators p s.trxs o.ccwTrxId, o.signGuard ∈ l
  | .withdrawCombineSign o => ∀ b ∈ combinedBatch s o,
      combineSignTransaction p s.trxs b = some o.signedTrxIds ∧
        ∀ l ∈ payingSenators p s.trxs b, l.length ≤ p.guardMembers
  | .ethsCancelUnsignedTransaction o => checkPointBlock < ctx.headBlockNum ∧
      ∀ c ∈ s.trxs.find o.trxId, ∀ r ∈ s.trxs.rows,
        r.relateTransactionId = c.relateTransactionId →
          r.opType = .withdrawWithSign ∨ r.transactionId = o.trxId
  | _ => True

instance (ctx : Context reg H) (trx : SignedTransaction H) (s : State H) :
    DecidablePred (SignedInOrder p ctx trx s) := by
  rintro ⟨⟩ <;> unfold SignedInOrder <;> infer_instance

variable {p} {ctx : Context reg H} {trx : SignedTransaction H} {s s' : State H}

theorem permits_carries (hs : Signed p s.trxs) {op : Operation H}
    (hnot : op.getWithSign = none) (hord : SignedInOrder p ctx trx s op) :
    Permits Carries NotSign StartsCombined ctx trx s.trxs op where
  toEditLaws := carries_laws
  added r _ _ hmakes hstate := by
    have hop : r.opType ≠ .withdrawWithSign := by
      intro hsign
      rw [hsign] at hmakes
      cases op with
      | withdrawWithSign o => cases hnot
      | _ => cases hmakes
    exact ⟨hop, fun h => hop (hstate h)⟩
  fee _ _ := ⟨⟨rfl, rfl, rfl, rfl⟩, fun _ hlate => hlate, .inl⟩
  named := by
    rintro o rfl id hid r r' n hr hkeep
    refine ⟨⟨rfl, rfl, rfl, rfl⟩, fun hop => ?_, nofun⟩
    have hlate := hs.late hr (hkeep.links.opType.symm.trans hop)
    exact absurd (hord id hid r hr) hlate.1
  built hnew := ⟨⟨rfl, rfl, rfl, rfl⟩, fun hop => absurd hop hnew.opType, nofun⟩
  waiting := by
    rintro o rfl c b id r hc hb hne hr hrel
    refine ⟨⟨rfl, rfl, rfl, rfl⟩, fun _ _ => ⟨nofun, nofun⟩, fun _ => .inr ?_⟩
    refine (hord.2 c hc r (Table.mem_of_find hr) (hrel.trans hb.symm)).resolve_right ?_
    rw [Table.key_of_find hr]
    exact hne
  reset := by
    rintro o rfl id r r' hr hunsigned hkeep
    refine ⟨⟨rfl, rfl, rfl, rfl⟩, fun hop => ?_, nofun⟩
    -- the record would be that of a signature, and its one operation is none
    obtain ⟨x, hx, hget⟩ := hunsigned hord.1
    obtain ⟨⟨b, g⟩, hsign⟩ := hs.real hr (hkeep.links.opType.symm.trans hop)
    obtain ⟨_, _, sign, hsign, _⟩ := signOf_eq_some.1 hsign
    cases hx.symm.trans hsign
    cases hget
  erased := by
    rintro o rfl id r b _ _ hcombined
    exact hcombined hord.1

variable [DecidableEq H] [Inhabited H]

theorem applyOperation_signed (hs : Signed p s.trxs) {op : Operation H}
    (hmem : op ∈ trx.operations) (hord : SignedInOrder p ctx trx s op)
    (happly : applyOperation ctx trx s op = some s') : Signed p s'.trxs := by
  cases hnot : op.getWithSign with
  | none =>
    have hnone : NoSignature s.trxs s'.trxs :=
      (applyOperation_does (permits_carries hs hnot hord) happly).records
    exact hnone.signed hs
  | some sign =>
    cases op with
    | withdrawWithSign o =>
      obtain ⟨hhead, hone, hsenator⟩ := hord
      obtain ⟨heval, s₁, hs₁, hpay⟩ := applyOperation_eq happly
      obtain ⟨t, ht, rfl⟩ := map_eq_some_iff.1 hs₁
      obtain ⟨op, hop⟩ := List.length_eq_one_iff.1 hone
      rw [hop] at hmem
      cases List.mem_singleton.1 hmem
      cases hpay
      exact adjustWithSign_signed hs hop hsenator (heval (.inr hhead)) ht
    | _ => cases hnot

end Operations

end HyperExchange.Crosschain
