/-
  **How the records of withdrawals hang together.**

  While every operation keeps to the order the others expect, the records are `Coherent`:
  a withdrawal is in at most one batch, it is in the state of its batch, and the signatures
  and combined transactions of a batch that are still waiting are in the phase the batch
  itself is in.  All operations after the batch are moves of one batch and what belongs to
  it (`Advance`), and a withdrawal that is confirmed or cancelled takes part in none.
-/
import HyperExchange.CrosschainRuns

namespace HyperExchange.Crosschain

open Keyed Fees

variable {H : Type} {st : TransactionStata} {r r' : CrosschainTrxObject H}

/-! ### States -/

def TransactionStata.isFinal (st : TransactionStata) : Bool :=
  decide (st = .withdrawTransactionConfirm) || decide (st = .withdrawCanceled)

/-- What a combined transaction still waits for: to be signed once more, or to be found on
    the other chain. -/
inductive Phase where
  | unsigned
  | sent
deriving DecidableEq

def TransactionStata.phase : TransactionStata → Option Phase
  | .withdrawEthGuardNeedSign => some .unsigned
  | .withdrawCombineTrxCreate => some .sent
  | .withdrawEthGuardSign => some .sent
  | _ => none

theorem phase_eq_unsigned (h : st.phase = some .unsigned) : st = .withdrawEthGuardNeedSign := by
  cases st <;> first | rfl | cases h

theorem phase_eq_sent (h : st.phase = some .sent) :
    st = .withdrawCombineTrxCreate ∨ st = .withdrawEthGuardSign := by
  cases st <;> first | exact .inl rfl | exact .inr rfl | cases h

theorem not_final_of_phase {p : Phase} (h : st.phase = some p) : st.isFinal = false := by
  cases st <;> first | rfl | cases h

/-! ### Coherence -/

def IsWithdraw (t : CrosschainTrxIndex H) (id : TrxId) (r : CrosschainTrxObject H) : Prop :=
  t.find id = some r ∧ r.opType = .crosschainWithdraw

def IsBatch (t : CrosschainTrxIndex H) (id : TrxId) (u : CrosschainTrxObject H) : Prop :=
  t.find id = some u ∧ u.opType = .withdrawWithoutSign

variable (r)

def IsCombine : Prop :=
  r.opType = .withdrawCombineSign ∨
    (r.realTransaction.first.bind Operation.getCombineSign).isSome

/-- The transaction starts with a combined one.  Records of such transactions may be
    removed. -/
def StartsCombined : Prop :=
  (r.realTransaction.first.bind Operation.getCombineSign).isSome

structure Coherent (t : CrosschainTrxIndex H) : Prop where
  /-- A withdrawal belongs to no other record. -/
  unrelated : ∀ {id r}, IsWithdraw t id r → r.relateTransactionId = none
  uncreate : ∀ {id r}, t.find id = some r → r.trxState = .withdrawWithoutSignTrxUncreate →
    r.opType = .crosschainWithdraw
  /-- The record of a batch is related to one of its withdrawals. -/
  first : ∀ {b u}, IsBatch t b u →
    ∃ w ∈ u.allRelatedOriginTransactionIds, u.relateTransactionId = some w
  nodup : ∀ {b u}, IsBatch t b u → u.allRelatedOriginTransactionIds.Nodup
  sources : ∀ {b u w}, IsBatch t b u → w ∈ u.allRelatedOriginTransactionIds →
    ∃ r, IsWithdraw t w r ∧ r.trxState = u.trxState
  disjoint : ∀ {b c u v w}, IsBatch t b u → IsBatch t c v →
    w ∈ u.allRelatedOriginTransactionIds → w ∈ v.allRelatedOriginTransactionIds → b = c
  /-- A combined transaction belongs to a batch. -/
  combined : ∀ {id r}, t.find id = some r → IsCombine r →
    ∃ b u, r.relateTransactionId = some b ∧ IsBatch t b u
  phase : ∀ {id r b u p}, t.find id = some r → r.relateTransactionId = some b → IsBatch t b u →
    r.trxState.phase = some p → u.trxState.phase = some p
  /-- What waits, and is not itself a withdrawal or a batch, belongs to a batch. -/
  waiting : ∀ {id r p}, t.find id = some r → r.trxState.phase = some p →
    r.opType ≠ .crosschainWithdraw → r.opType ≠ .withdrawWithoutSign →
      ∃ b u, r.relateTransactionId = some b ∧ IsBatch t b u
  /-- A record whose transaction starts with a batch is the record of that batch. -/
  named : ∀ {id r op}, t.find id = some r → withoutSignOf r = some op →
    r.opType = .withdrawWithoutSign ∧ r.allRelatedOriginTransactionIds = op.ccwTrxIds

/-- The records differ at most in what an operation may change. -/
structure SameLinks (r r' : CrosschainTrxObject H) : Prop where
  relate : r'.relateTransactionId = r.relateTransactionId
  origins : r'.allRelatedOriginTransactionIds = r.allRelatedOriginTransactionIds
  real : r'.realTransaction = r.realTransaction
  opType : r'.opType = r.opType

theorem SameLinks.refl : SameLinks r r := ⟨rfl, rfl, rfl, rfl⟩

variable {r}

theorem SameLinks.trans {r'' : CrosschainTrxObject H} (h : SameLinks r r') (h' : SameLinks r' r'') :
    SameLinks r r'' :=
  ⟨h'.relate.trans h.relate, h'.origins.trans h.origins, h'.real.trans h.real,
    h'.opType.trans h.opType⟩

theorem SameLinks.isCombine (h : SameLinks r r') (hr : IsCombine r') : IsCombine r := by
  unfold IsCombine at hr ⊢
  rwa [h.opType, h.real] at hr

theorem SameLinks.withoutSignOf_eq (h : SameLinks r r') : withoutSignOf r' = withoutSignOf r := by
  unfold withoutSignOf
  rw [h.real]

namespace Coherent

variable {t : CrosschainTrxIndex H} {b : TrxId} {r : CrosschainTrxObject H}

theorem empty : Coherent (Table.empty : CrosschainTrxIndex H) := by
  constructor <;> intros <;> simp_all [IsWithdraw, IsBatch]

variable {u : CrosschainTrxObject H}

/-- No record is a withdrawal and a batch. -/
theorem not_withdraw_of_batch (hu : IsBatch t b u)
    (hr : IsWithdraw t b r) : False := by
  cases hu.1.symm.trans hr.1
  cases hu.2.symm.trans hr.2

variable (h : Coherent t)
include h

theorem not_batch_of_related {id : TrxId} (hr : IsBatch t id r)
    (hrel : r.relateTransactionId = some b) (hu : IsBatch t b u) : False := by
  obtain ⟨w, hw, hfirst⟩ := h.first hr
  obtain ⟨x, hx, _⟩ := h.sources hr hw
  cases hfirst.symm.trans hrel
  exact not_withdraw_of_batch hu hx

/-- Withdrawals are not related to a batch themselves; the batch names them. -/
theorem not_withdraw_of_related {id : TrxId} (hr : IsWithdraw t id r)
    (hrel : r.relateTransactionId = some b) : False := by
  rw [h.unrelated hr] at hrel
  cases hrel

end Coherent

/-! ### Carrying records over -/

/-- The records of `t'` are those of `t` as `g` leaves them, with their links; no withdrawal
    and no batch is lost. -/
structure CarriesOver (t t' : CrosschainTrxIndex H)
    (g : TrxId → CrosschainTrxObject H → CrosschainTrxObject H) : Prop where
  found : ∀ {id r'}, t'.find id = some r' → ∃ r, t.find id = some r ∧ r' = g id r
  links : ∀ id r, SameLinks r (g id r)
  withdraw : ∀ {id r}, IsWithdraw t id r → t'.find id = some (g id r)
  batch : ∀ {id r}, IsBatch t id r → t'.find id = some (g id r)

namespace CarriesOver

variable {t t' : CrosschainTrxIndex H} {id : TrxId}
  {g : TrxId → CrosschainTrxObject H → CrosschainTrxObject H} (c : CarriesOver t t' g)
include c

theorem isBatch (h : IsBatch t' id r') : ∃ r, IsBatch t id r ∧ r' = g id r := by
  obtain ⟨r, hr, rfl⟩ := c.found h.1
  exact ⟨r, ⟨hr, (c.links id r).opType.symm.trans h.2⟩, rfl⟩

theorem isWithdraw (h : IsWithdraw t' id r') : ∃ r, IsWithdraw t id r ∧ r' = g id r := by
  obtain ⟨r, hr, rfl⟩ := c.found h.1
  exact ⟨r, ⟨hr, (c.links id r).opType.symm.trans h.2⟩, rfl⟩

theorem toWithdraw (h : IsWithdraw t id r) : IsWithdraw t' id (g id r) :=
  ⟨c.withdraw h, (c.links id r).opType.trans h.2⟩

theorem toBatch (h : IsBatch t id r) : IsBatch t' id (g id r) :=
  ⟨c.batch h, (c.links id r).opType.trans h.2⟩

/-- The links stay as they are; what is left to show is about the states. -/
theorem coherent (h : Coherent t)
    (huncreate : ∀ {id r}, t.find id = some r →
      (g id r).trxState = .withdrawWithoutSignTrxUncreate → r.opType = .crosschainWithdraw)
    (hsources : ∀ {b u w r}, IsBatch t b u → w ∈ u.allRelatedOriginTransactionIds →
      IsWithdraw t w r → r.trxState = u.trxState → (g w r).trxState = (g b u).trxState)
    (hphase : ∀ {id r b u p}, t.find id = some r → r.relateTransactionId = some b →
      IsBatch t b u → (g id r).trxState.phase = some p → (g b u).trxState.phase = some p)
    (hwaiting : ∀ {id r p}, t.find id = some r → (g id r).trxState.phase = some p →
      r.opType ≠ .crosschainWithdraw → r.opType ≠ .withdrawWithoutSign →
        ∃ b u, r.relateTransactionId = some b ∧ IsBatch t b u) : Coherent t' where
  unrelated {id _} hr' := by
    obtain ⟨r, hr, rfl⟩ := c.isWithdraw hr'
    rw [(c.links id r).relate, h.unrelated hr]
  uncreate {id _} hr' hunc := by
    obtain ⟨r, hr, rfl⟩ := c.found hr'
    rw [(c.links id r).opType]
    exact huncreate hr hunc
  first {b _} hv' := by
    obtain ⟨v, hv, rfl⟩ := c.isBatch hv'
    rw [(c.links b v).origins, (c.links b v).relate]
    exact h.first hv
  nodup {b _} hv' := by
    obtain ⟨v, hv, rfl⟩ := c.isBatch hv'
    rw [(c.links b v).origins]
    exact h.nodup hv
  sources {b _ w} hv' hw := by
    obtain ⟨v, hv, rfl⟩ := c.isBatch hv'
    rw [(c.links b v).origins] at hw
    obtain ⟨r, hr, hst⟩ := h.sources hv hw
    exact ⟨g w r, c.toWithdraw hr, hsources hv hw hr hst⟩
  disjoint {b d _ _ _} hv' hx' hw hw' := by
    obtain ⟨v, hv, rfl⟩ := c.isBatch hv'
    obtain ⟨x, hx, rfl⟩ := c.isBatch hx'
    rw [(c.links b v).origins] at hw
    rw [(c.links d x).origins] at hw'
    exact h.disjoint hv hx hw hw'
  combined {id _} hr' hop := by
    obtain ⟨r, hr, rfl⟩ := c.found hr'
    obtain ⟨b, v, hrel, hv⟩ := h.combined hr ((c.links id r).isCombine hop)
    exact ⟨b, g b v, (c.links id r).relate.trans hrel, c.toBatch hv⟩
  phase {id _ _ _ _} hr' hrel hv' hp := by
    obtain ⟨r, hr, rfl⟩ := c.found hr'
    obtain ⟨v, hv, rfl⟩ := c.isBatch hv'
    rw [(c.links id r).relate] at hrel
    exact hphase hr hrel hv hp
  waiting {id _ _} hr' hp hw hb := by
    obtain ⟨r, hr, rfl⟩ := c.found hr'
    rw [(c.links id r).opType] at hw hb
    obtain ⟨b, v, hrel, hv⟩ := hwaiting hr hp hw hb
    exact ⟨b, g b v, (c.links id r).relate.trans hrel, c.toBatch hv⟩
  named {id _ _} hr' hop := by
    obtain ⟨r, hr, rfl⟩ := c.found hr'
    rw [(c.links id r).withoutSignOf_eq] at hop
    rw [(c.links id r).opType, (c.links id r).origins]
    exact h.named hr hop

end CarriesOver

/-! ### Moving a batch -/

/-- The batch `b` goes to the state `st`, with its withdrawals; `g` says what becomes of each
    record. -/
structure Advance (t t' : CrosschainTrxIndex H) (b : TrxId) (u : CrosschainTrxObject H)
    (st : TransactionStata) (g : TrxId → CrosschainTrxObject H → CrosschainTrxObject H) :
    Prop where
  find : ∀ id, t'.find id = (t.find id).map (g id)
  links : ∀ id r, SameLinks r (g id r)
  batch : ∀ r, (g b r).trxState = st
  sources : ∀ {w} r, w ∈ u.allRelatedOriginTransactionIds → (g w r).trxState = st
  range : ∀ {id r p}, t.find id = some r → r.relateTransactionId = some b →
    (g id r).trxState.phase = some p → st.phase = some p
  uncreate : ∀ {id r}, t.find id = some r → r.relateTransactionId = some b →
    (g id r).trxState ≠ .withdrawWithoutSignTrxUncreate
  others : ∀ {id r}, t.find id = some r → id ≠ b → id ∉ u.allRelatedOriginTransactionIds →
    r.relateTransactionId ≠ some b → (g id r).trxState = r.trxState

namespace Advance

variable {t t' : CrosschainTrxIndex H} {b : TrxId} {u : CrosschainTrxObject H}
  {st : TransactionStata} {g : TrxId → CrosschainTrxObject H → CrosschainTrxObject H} {id : TrxId}
  {r' r : CrosschainTrxObject H}

theorem carries (a : Advance t t' b u st g) : CarriesOver t t' g where
  found {id _} h := by
    rw [a.find] at h
    obtain ⟨r, hr, hg⟩ := Option.map_eq_some_iff.1 h
    exact ⟨r, hr, hg.symm⟩
  links := a.links
  withdraw h := by
    rw [a.find, h.1]
    rfl
  batch h := by
    rw [a.find, h.1]
    rfl

variable (a : Advance t t' b u st g) (h : Coherent t) (hu : IsBatch t b u)
include a h hu

/-- Withdrawals of other batches stay where they are. -/
theorem withdraw_of_not_mem (hr : IsWithdraw t id r)
    (hmem : id ∉ u.allRelatedOriginTransactionIds) : (g id r).trxState = r.trxState := by
  apply a.others hr.1 _ hmem
  · rw [h.unrelated hr]
    exact Option.some_ne_none b |>.symm
  · rintro rfl
    exact Coherent.not_withdraw_of_batch hu hr

/-- So do other batches. -/
theorem batch_of_ne (hr : IsBatch t id r) (hne : id ≠ b) : (g id r).trxState = r.trxState := by
  apply a.others hr.1 hne
  · intro hmem
    obtain ⟨w, hw, _⟩ := h.sources hu hmem
    exact Coherent.not_withdraw_of_batch hr hw
  · intro hrel
    exact h.not_batch_of_related hr hrel hu

/-- A settled withdrawal keeps its state when the batch was not settled. -/
theorem keeps_final (hopen : u.trxState.isFinal = false) (hr : IsWithdraw t id r)
    (hfinal : r.trxState.isFinal = true) : (g id r).trxState = r.trxState := by
  apply a.withdraw_of_not_mem h hu hr
  intro hmem
  obtain ⟨r', hr', hst⟩ := h.sources hu hmem
  cases hr'.1.symm.trans hr.1
  rw [hst, hopen] at hfinal
  cases hfinal

/-- Batch and withdrawals move on together. -/
theorem coherent (hst : st ≠ .withdrawWithoutSignTrxUncreate) : Coherent t' := by
  refine a.carries.coherent h ?_ ?_ ?_ ?_
  · intro id r hr hunc
    by_cases hb : id = b
    · subst hb
      exact absurd ((a.batch r).symm.trans hunc) hst
    · by_cases hmem : id ∈ u.allRelatedOriginTransactionIds
      · exact absurd ((a.sources r hmem).symm.trans hunc) hst
      · by_cases hrel : r.relateTransactionId = some b
        · exact absurd hunc (a.uncreate hr hrel)
        · rw [a.others hr hb hmem hrel] at hunc
          exact h.uncreate hr hunc
  · intro c v w r hv hw hr hrv
    by_cases hc : c = b
    · subst hc
      cases hv.1.symm.trans hu.1
      rw [a.batch, a.sources r hw]
    · have hmem : w ∉ u.allRelatedOriginTransactionIds := by
        intro hwu
        exact hc (h.disjoint hv hu hw hwu)
      rw [a.batch_of_ne h hu hv hc, a.withdraw_of_not_mem h hu hr hmem, hrv]
  · intro id r c v p hr hrel hv hp
    by_cases hc : c = b
    · subst hc
      rw [a.batch]
      exact a.range hr hrel hp
    · -- neither the record nor its batch is touched
      have hid : id ≠ b := by
        rintro rfl
        cases hr.symm.trans hu.1
        exact h.not_batch_of_related hu hrel hv
      have hmem : id ∉ u.allRelatedOriginTransactionIds := by
        intro hmem
        obtain ⟨r₀, hr₀, _⟩ := h.sources hu hmem
        cases hr.symm.trans hr₀.1
        exact h.not_withdraw_of_related hr₀ hrel
      have hne : r.relateTransactionId ≠ some b := by
        rw [hrel]
        rintro ⟨⟩
        exact hc rfl
      rw [a.others hr hid hmem hne] at hp
      rw [a.batch_of_ne h hu hv hc]
      exact h.phase hr hrel hv hp
  · intro id r p hr hp hw hb
    by_cases hrel : r.relateTransactionId = some b
    · exact ⟨b, u, hrel, hu⟩
    have hid : id ≠ b := by
      rintro rfl
      cases hr.symm.trans hu.1
      exact hb hu.2
    have hmem : id ∉ u.allRelatedOriginTransactionIds := by
      intro hmem
      obtain ⟨r₀, hr₀, _⟩ := h.sources hu hmem
      cases hr.symm.trans hr₀.1
      exact hw hr₀.2
    rw [a.others hr hid hmem hrel] at hp
    exact h.waiting hr hp hw hb

end Advance

/-! ### Adding and removing records -/

/-- A record that may be added to the table: it is that of a withdrawal, or it belongs to
    another record. -/
structure Joins (t : CrosschainTrxIndex H) (r : CrosschainTrxObject H) : Prop where
  opType : r.opType ≠ .withdrawWithoutSign
  unrelated : r.opType = .crosschainWithdraw → r.relateTransactionId = none
  uncreate : r.trxState = .withdrawWithoutSignTrxUncreate → r.opType = .crosschainWithdraw
  combined : IsCombine r → ∃ b u, r.relateTransactionId = some b ∧ IsBatch t b u
  phase : ∀ {b u p}, r.relateTransactionId = some b → IsBatch t b u →
    r.trxState.phase = some p → u.trxState.phase = some p
  waiting : ∀ {p}, r.trxState.phase = some p →
    ∃ b u, r.relateTransactionId = some b ∧ IsBatch t b u
  named : withoutSignOf r = none

namespace Coherent

variable {t t' : CrosschainTrxIndex H} {r : CrosschainTrxObject H}

theorem insert (h : Coherent t) (hr : Joins t r) (ht : t.insert r = some t') : Coherent t' := by
  have hcases : ∀ {id x}, t'.find id = some x → _ := fun hx => Table.find_insert_cases ht hx
  have hold : ∀ {id x}, t.find id = some x → t'.find id = some x := Table.find_insert_old ht
  have hbatch : ∀ {b u}, IsBatch t' b u → IsBatch t b u := by
    intro b u hu
    rcases hcases hu.1 with ⟨_, rfl⟩ | hu'
    · exact absurd hu.2 hr.opType
    · exact ⟨hu', hu.2⟩
  constructor
  · intro id x hx
    rcases hcases hx.1 with ⟨_, rfl⟩ | hx'
    · exact hr.unrelated hx.2
    · exact h.unrelated ⟨hx', hx.2⟩
  · intro id x hx hunc
    rcases hcases hx with ⟨_, rfl⟩ | hx'
    · exact hr.uncreate hunc
    · exact h.uncreate hx' hunc
  · intro b u hu
    exact h.first (hbatch hu)
  · intro b u hu
    exact h.nodup (hbatch hu)
  · intro b u w hu hw
    obtain ⟨x, hx, hst⟩ := h.sources (hbatch hu) hw
    exact ⟨x, ⟨hold hx.1, hx.2⟩, hst⟩
  · intro b c u v w hu hv hw hw'
    exact h.disjoint (hbatch hu) (hbatch hv) hw hw'
  · intro id x hx hop
    rcases hcases hx with ⟨_, rfl⟩ | hx'
    · obtain ⟨b, u, hrel, hu⟩ := hr.combined hop
      exact ⟨b, u, hrel, hold hu.1, hu.2⟩
    · obtain ⟨b, u, hrel, hu⟩ := h.combined hx' hop
      exact ⟨b, u, hrel, hold hu.1, hu.2⟩
  · intro id x b u p hx hrel hu hp
    rcases hcases hx with ⟨_, rfl⟩ | hx'
    · exact hr.phase hrel (hbatch hu) hp
    · exact h.phase hx' hrel (hbatch hu) hp
  · intro id x p hx hp hw hb
    rcases hcases hx with ⟨_, rfl⟩ | hx'
    · obtain ⟨b, u, hrel, hu⟩ := hr.waiting hp
      exact ⟨b, u, hrel, hold hu.1, hu.2⟩
    · obtain ⟨b, u, hrel, hu⟩ := h.waiting hx' hp hw hb
      exact ⟨b, u, hrel, hold hu.1, hu.2⟩
  · intro id x op hx hop
    rcases hcases hx with ⟨_, rfl⟩ | hx'
    · rw [hr.named] at hop
      cases hop
    · exact h.named hx' hop

theorem carriesOver_erase {k : TrxId} (hw : ∀ {r}, ¬ IsWithdraw t k r)
    (hb : ∀ {u}, ¬ IsBatch t k u) : CarriesOver t (t.erase k) fun _ r => r where
  found {id r} hr := by
    rw [Table.find_erase] at hr
    split at hr
    · cases hr
    · exact ⟨r, hr, rfl⟩
  links _ r := .refl r
  withdraw hr := by
    rw [Table.find_erase, if_neg]
    · exact hr.1
    · rintro rfl
      exact hw hr
  batch hu := by
    rw [Table.find_erase, if_neg]
    · exact hu.1
    · rintro rfl
      exact hb hu

end Coherent

/-! ### A new batch -/

/-- The batch `u` is added under the id `k`, and its withdrawals go to the state of a batch. -/
structure Collects (t t' : CrosschainTrxIndex H) (k : TrxId) (u : CrosschainTrxObject H)
    (g : TrxId → CrosschainTrxObject H → CrosschainTrxObject H) : Prop where
  fresh : t.find k = none
  find : ∀ id, t'.find id = if id = k then some u else (t.find id).map (g id)
  links : ∀ id r, SameLinks r (g id r)
  sources : ∀ {w} r, w ∈ u.allRelatedOriginTransactionIds →
    (g w r).trxState = .withdrawWithoutSignTrxCreate
  others : ∀ {id} r, id ∉ u.allRelatedOriginTransactionIds → (g id r).trxState = r.trxState
  opType : u.opType = .withdrawWithoutSign
  trxState : u.trxState = .withdrawWithoutSignTrxCreate
  first : ∃ w ∈ u.allRelatedOriginTransactionIds, u.relateTransactionId = some w
  nodup : u.allRelatedOriginTransactionIds.Nodup
  uncreate : ∀ {w}, w ∈ u.allRelatedOriginTransactionIds →
    ∃ r, t.find w = some r ∧ r.trxState = .withdrawWithoutSignTrxUncreate
  combined : ¬ IsCombine u
  named : ∀ {op}, withoutSignOf u = some op → u.allRelatedOriginTransactionIds = op.ccwTrxIds

namespace Collects

variable {t t' : CrosschainTrxIndex H} {k : TrxId} {u : CrosschainTrxObject H}
  {g : TrxId → CrosschainTrxObject H → CrosschainTrxObject H} {id : TrxId}
  {r : CrosschainTrxObject H} {r' : CrosschainTrxObject H}

section

variable (c : Collects t t' k u g)
include c

/-- A record of the new table is the batch or comes from one of the old table. -/
theorem found (h : t'.find id = some r') :
    (id = k ∧ r' = u) ∨ ∃ r, t.find id = some r ∧ r' = g id r := by
  rw [c.find] at h
  split at h
  · rename_i hid
    exact .inl ⟨hid, (Option.some.inj h).symm⟩
  · obtain ⟨r, hr, hg⟩ := Option.map_eq_some_iff.1 h
    exact .inr ⟨r, hr, hg.symm⟩

theorem kept (h : t.find id = some r) : t'.find id = some (g id r) := by
  rw [c.find, if_neg, h]
  · rfl
  · rintro rfl
    rw [c.fresh] at h
    cases h

theorem toWithdraw (h : IsWithdraw t id r) : IsWithdraw t' id (g id r) :=
  ⟨c.kept h.1, (c.links id r).opType.trans h.2⟩

theorem toBatch (h : IsBatch t id r) : IsBatch t' id (g id r) :=
  ⟨c.kept h.1, (c.links id r).opType.trans h.2⟩

theorem isBatch (h : IsBatch t' id r') : (id = k ∧ r' = u) ∨ ∃ r, IsBatch t id r ∧ r' = g id r := by
  rcases c.found h.1 with hk | ⟨r, hr, rfl⟩
  · exact .inl hk
  · exact .inr ⟨r, ⟨hr, (c.links id r).opType.symm.trans h.2⟩, rfl⟩

end

variable (c : Collects t t' k u g) (h : Coherent t)
include c h

variable {v : CrosschainTrxObject H}

/-- A withdrawal that is collected was in no batch before. -/
theorem source_fresh {b w : TrxId} (hv : IsBatch t b v)
    (hw : w ∈ v.allRelatedOriginTransactionIds) : w ∉ u.allRelatedOriginTransactionIds := by
  intro hmem
  obtain ⟨r, hr, hunc⟩ := c.uncreate hmem
  obtain ⟨r', hr', hst⟩ := h.sources hv hw
  cases hr'.1.symm.trans hr
  have hop := h.uncreate hv.1 (hst.symm.trans hunc)
  rw [hv.2] at hop
  cases hop

theorem batch_not_source {b : TrxId} (hv : IsBatch t b v) :
    b ∉ u.allRelatedOriginTransactionIds := by
  intro hmem
  obtain ⟨r, hr, hunc⟩ := c.uncreate hmem
  cases hr.symm.trans hv.1
  have hop := h.uncreate hr hunc
  rw [hv.2] at hop
  cases hop

omit h in
/-- Nothing that is final is collected. -/
theorem keeps_final (hr : t.find id = some r) (hfinal : r.trxState.isFinal = true) :
    (g id r).trxState = r.trxState := by
  apply c.others
  intro hmem
  obtain ⟨r', hr', hunc⟩ := c.uncreate hmem
  cases hr'.symm.trans hr
  rw [hunc] at hfinal
  cases hfinal

theorem coherent : Coherent t' where
  unrelated := by
    rintro id r' ⟨hr', hop⟩
    rcases c.found hr' with ⟨_, rfl⟩ | ⟨r, hr, rfl⟩
    · rw [c.opType] at hop
      cases hop
    · rw [(c.links id r).opType] at hop
      rw [(c.links id r).relate, h.unrelated ⟨hr, hop⟩]
  uncreate := by
    intro id r' hr' hunc
    rcases c.found hr' with ⟨_, rfl⟩ | ⟨r, hr, rfl⟩
    · rw [c.trxState] at hunc
      cases hunc
    · rw [(c.links id r).opType]
      by_cases hmem : id ∈ u.allRelatedOriginTransactionIds
      · rw [c.sources r hmem] at hunc
        cases hunc
      · rw [c.others r hmem] at hunc
        exact h.uncreate hr hunc
  first := by
    intro b v' hv'
    rcases c.isBatch hv' with ⟨_, rfl⟩ | ⟨v, hv, rfl⟩
    · exact c.first
    · rw [(c.links b v).origins, (c.links b v).relate]
      exact h.first hv
  nodup := by
    intro b v' hv'
    rcases c.isBatch hv' with ⟨_, rfl⟩ | ⟨v, hv, rfl⟩
    · exact c.nodup
    · rw [(c.links b v).origins]
      exact h.nodup hv
  sources := by
    intro b v' w hv' hw
    rcases c.isBatch hv' with ⟨_, rfl⟩ | ⟨v, hv, rfl⟩
    · obtain ⟨r, hr, hunc⟩ := c.uncreate hw
      refine ⟨g w r, c.toWithdraw ⟨hr, h.uncreate hr hunc⟩, ?_⟩
      rw [c.sources r hw, c.trxState]
    · rw [(c.links b v).origins] at hw
      obtain ⟨r, hr, hst⟩ := h.sources hv hw
      refine ⟨g w r, c.toWithdraw hr, ?_⟩
      rw [c.others r (c.source_fresh h hv hw), c.others v (c.batch_not_source h hv), hst]
  disjoint := by
    intro b d v' x' w hv' hx' hw hw'
    rcases c.isBatch hv' with ⟨rfl, rfl⟩ | ⟨v, hv, rfl⟩
    · rcases c.isBatch hx' with ⟨rfl, rfl⟩ | ⟨x, hx, rfl⟩
      · rfl
      · rw [(c.links d x).origins] at hw'
        exact absurd hw (c.source_fresh h hx hw')
    · rw [(c.links b v).origins] at hw
      rcases c.isBatch hx' with ⟨rfl, rfl⟩ | ⟨x, hx, rfl⟩
      · exact absurd hw' (c.source_fresh h hv hw)
      · rw [(c.links d x).origins] at hw'
        exact h.disjoint hv hx hw hw'
  combined := by
    intro id r' hr' hop
    rcases c.found hr' with ⟨_, rfl⟩ | ⟨r, hr, rfl⟩
    · exact absurd hop c.combined
    · obtain ⟨b, v, hrel, hv⟩ := h.combined hr ((c.links id r).isCombine hop)
      exact ⟨b, g b v, (c.links id r).relate.trans hrel, c.toBatch hv⟩
  phase := by
    intro id r' b v' p hr' hrel hv' hp
    rcases c.found hr' with ⟨_, rfl⟩ | ⟨r, hr, rfl⟩
    · rw [c.trxState] at hp
      cases hp
    · have hmem : id ∉ u.allRelatedOriginTransactionIds := by
        intro hmem
        rw [c.sources r hmem] at hp
        cases hp
      rw [(c.links id r).relate] at hrel
      rw [c.others r hmem] at hp
      rcases c.isBatch hv' with ⟨rfl, rfl⟩ | ⟨v, hv, rfl⟩
      · -- nothing that waits is related to an id without a record
        by_cases hw : r.opType = .crosschainWithdraw
        · exact (h.not_withdraw_of_related ⟨hr, hw⟩ hrel).elim
        have hknown : ∃ x, t.find b = some x := by
          by_cases hb : r.opType = .withdrawWithoutSign
          · obtain ⟨w, hwo, hfirst⟩ := h.first ⟨hr, hb⟩
            obtain ⟨x, hx, _⟩ := h.sources ⟨hr, hb⟩ hwo
            exact ⟨x, Option.some.inj (hfirst.symm.trans hrel) ▸ hx.1⟩
          · obtain ⟨b', x, hb', hx⟩ := h.waiting hr hp hw hb
            exact ⟨x, Option.some.inj (hb'.symm.trans hrel) ▸ hx.1⟩
        obtain ⟨x, hx⟩ := hknown
        rw [c.fresh] at hx
        cases hx
      · rw [c.others v (c.batch_not_source h hv)]
        exact h.phase hr hrel hv hp
  waiting := by
    intro id r' p hr' hp hw hb
    rcases c.found hr' with ⟨_, rfl⟩ | ⟨r, hr, rfl⟩
    · exact absurd c.opType hb
    have hmem : id ∉ u.allRelatedOriginTransactionIds := by
      intro hmem
      rw [c.sources r hmem] at hp
      cases hp
    rw [(c.links id r).opType] at hw hb
    rw [c.others r hmem] at hp
    obtain ⟨b, v, hrel, hv⟩ := h.waiting hr hp hw hb
    exact ⟨b, g b v, (c.links id r).relate.trans hrel, c.toBatch hv⟩
  named := by
    intro id r' op hr' hop
    rcases c.found hr' with ⟨_, rfl⟩ | ⟨r, hr, rfl⟩
    · exact ⟨c.opType, c.named hop⟩
    · rw [(c.links id r).withoutSignOf_eq] at hop
      rw [(c.links id r).opType, (c.links id r).origins]
      exact h.named hr hop

end Collects

end HyperExchange.Crosschain
