/-
  **What was taken for a withdrawal and what was given back.**

  The trace of a run is `Booked` when it fits the records: a withdrawal that is not cancelled
  was not given back, one that is cancelled was given back exactly what it took, and what is
  not a withdrawal took and got nothing.  The operations that only move a batch do not touch
  this.  Cancelling a batch that is not settled cancels each of its withdrawals once and gives
  back the amount its own transaction names; the same holds for a withdrawal that is called
  off before it is in a batch.
-/
import HyperExchange.CrosschainCases

namespace HyperExchange.Crosschain

open Keyed Fees List Option Table

section

variable {H : Type} {reg : Registry}

/-! ### Sums over the trace -/

/-- How much of asset `a` an entry takes for the withdrawal. -/
def Entry.debitOf (id : TrxId) (a : Nat) : Entry H → Int
  | .debited w _ amount => if w = id then amount.of a else 0
  | _ => 0

/-- How much of asset `a` an entry gives back for the withdrawal. -/
def Entry.refundOf (id : TrxId) (a : Nat) : Entry H → Int
  | .refunded w _ amount => if w = id then amount.of a else 0
  | _ => 0

variable (trace : List (Entry H))

/-- How much of asset `a` was taken for the withdrawal in the whole run. -/
def debited (id : TrxId) (a : Nat) : Int :=
  (trace.map (Entry.debitOf id a)).sum

/-- How much of asset `a` was given back for the withdrawal in the whole run. -/
def refunded (id : TrxId) (a : Nat) : Int :=
  (trace.map (Entry.refundOf id a)).sum

@[simp] theorem debited_nil (id : TrxId) (a : Nat) : debited ([] : List (Entry H)) id a = 0 := rfl

@[simp] theorem refunded_nil (id : TrxId) (a : Nat) : refunded ([] : List (Entry H)) id a = 0 := rfl

theorem debited_append (e : Entry H) (id : TrxId) (a : Nat) :
    debited (trace ++ [e]) id a = debited trace id a + e.debitOf id a := by
  simp [debited]

theorem refunded_append (e : Entry H) (id : TrxId) (a : Nat) :
    refunded (trace ++ [e]) id a = refunded trace id a + e.refundOf id a := by
  simp [refunded]

/-! ### Amounts -/

/-- The bound on the supply decides whether an amount is read, not which one. -/
theorem amountFromString_unique {p : Nat} {m m' n n' : Int} {s : Text}
    (h : amountFromString p m s = some n) (h' : amountFromString p m' s = some n') : n = n' := by
  unfold amountFromString at h h'
  split at h
  · rename_i hform
    rw [if_pos hform] at h'
    simp only [bind_eq_some_iff] at h h'
    obtain ⟨scaled, hscaled, whole, hwhole, fraction, hfraction, sat, hsat, h⟩ := h
    obtain ⟨scaled', hscaled', whole', hwhole', fraction', hfraction', sat', hsat', h'⟩ := h'
    cases hscaled.symm.trans hscaled'
    cases hwhole.symm.trans hwhole'
    cases hfraction.symm.trans hfraction'
    cases hsat.symm.trans hsat'
    split at h
    · split at h'
      · exact (Option.some.inj h).symm.trans (Option.some.inj h')
      · cases h'
    · cases h
  · cases h

/-! ### The trace fits the records -/

structure Booked (reg : Registry) (t : CrosschainTrxIndex H) (trace : List (Entry H)) : Prop where
  absent : ∀ {id} (a : Nat), (∀ r, ¬ IsWithdraw t id r) →
    debited trace id a = 0 ∧ refunded trace id a = 0
  nonneg : ∀ (id : TrxId) (a : Nat), 0 ≤ debited trace id a
  unpaid : ∀ {id r} (a : Nat), IsWithdraw t id r → r.trxState ≠ .withdrawCanceled →
    refunded trace id a = 0
  paid : ∀ {id r} (a : Nat), IsWithdraw t id r → r.trxState = .withdrawCanceled →
    refunded trace id a = debited trace id a
  /-- What was taken is what the transaction of the withdrawal names. -/
  amount : ∀ {id r w m n} (a : Nat), IsWithdraw t id r →
    r.realTransaction.operations.length = 1 → withdrawOf r = some w →
      amountFromString (reg.precision w.assetId) m w.amount = some n →
        debited trace id a = Asset.of ⟨n, w.assetId⟩ a

namespace Booked

variable {t t' : CrosschainTrxIndex H} {trace trace' : List (Entry H)}

theorem empty : Booked reg (empty : CrosschainTrxIndex H) [] := by
  constructor <;> intros <;> simp_all [IsWithdraw]

variable (h : Booked reg t trace)
include h

/-- No withdrawal is refunded beyond its debit. -/
theorem refunded_le (id : TrxId) (a : Nat) : refunded trace id a ≤ debited trace id a := by
  by_cases hr : ∃ r, IsWithdraw t id r
  · obtain ⟨r, hr⟩ := hr
    by_cases hst : r.trxState = .withdrawCanceled
    · rw [h.paid a hr hst]
    · rw [h.unpaid a hr hst]
      exact h.nonneg id a
  · obtain ⟨hd, hf⟩ := h.absent a (fun r h' => hr ⟨r, h'⟩)
    rw [hd, hf]

/-- A step that cancels the withdrawals `ids` and gives back what they took. -/
theorem cancel (ids : List TrxId)
    (hopen : ∀ id ∈ ids, ∃ r, IsWithdraw t id r ∧ r.trxState ≠ .withdrawCanceled)
    (hkept : ∀ {id r}, IsWithdraw t id r → ∃ r', IsWithdraw t' id r' ∧
      r'.realTransaction = r.realTransaction ∧
        (r'.trxState = .withdrawCanceled ↔ id ∈ ids ∨ r.trxState = .withdrawCanceled))
    (hknown : ∀ {id r'}, IsWithdraw t' id r' → ∃ r, IsWithdraw t id r)
    (hdebit : ∀ id a, debited trace' id a = debited trace id a)
    (hrefund : ∀ id a, refunded trace' id a =
      refunded trace id a + if id ∈ ids then debited trace id a else 0) :
    Booked reg t' trace' := by
  -- the record of a withdrawal after the step, and the one it comes from
  have hback : ∀ {id r'}, IsWithdraw t' id r' → ∃ r, IsWithdraw t id r ∧
      r'.realTransaction = r.realTransaction ∧
        (r'.trxState = .withdrawCanceled ↔ id ∈ ids ∨ r.trxState = .withdrawCanceled) := by
    intro id r' hr'
    obtain ⟨r, hr⟩ := hknown hr'
    obtain ⟨r'', hr'', hreal, hst⟩ := hkept hr
    cases hr''.1.symm.trans hr'.1
    exact ⟨r, hr, hreal, hst⟩
  constructor
  · intro id a hnone
    have hnone₀ : ∀ r, ¬ IsWithdraw t id r := by
      intro r hr
      obtain ⟨r', hr', _⟩ := hkept hr
      exact hnone r' hr'
    have hid : id ∉ ids := by
      intro hmem
      obtain ⟨r, hr, _⟩ := hopen id hmem
      exact hnone₀ r hr
    obtain ⟨hd, hf⟩ := h.absent a hnone₀
    rw [hdebit, hrefund, if_neg hid, hd, hf]
    exact ⟨rfl, rfl⟩
  · intro id a
    rw [hdebit]
    exact h.nonneg id a
  · intro id r' a hr' hst
    obtain ⟨r, hr, _, hiff⟩ := hback hr'
    have hid : id ∉ ids := fun hmem => hst (hiff.2 (.inl hmem))
    rw [hrefund, if_neg hid, h.unpaid a hr (fun hc => hst (hiff.2 (.inr hc)))]
    rfl
  · intro id r' a hr' hst
    obtain ⟨r, hr, _, hiff⟩ := hback hr'
    rw [hrefund, hdebit]
    by_cases hid : id ∈ ids
    · obtain ⟨r₀, hr₀, hopen₀⟩ := hopen id hid
      rw [if_pos hid, h.unpaid a hr₀ hopen₀, Int.zero_add]
    · rcases hiff.1 hst with hmem | hc
      · exact absurd hmem hid
      · rw [if_neg hid, h.paid a hr hc, Int.add_zero]
  · intro id r' w m n a hr' hlen hw hn
    obtain ⟨r, hr, hreal, _⟩ := hback hr'
    rw [hdebit]
    unfold withdrawOf at hw
    rw [hreal] at hlen hw
    exact h.amount a hr hlen hw hn

/-- Records that move on without money leave the books in order. -/
theorem progress (hp : Progress t t') (hdebit : ∀ id a, debited trace' id a = debited trace id a)
    (hrefund : ∀ id a, refunded trace' id a = refunded trace id a) : Booked reg t' trace' := by
  refine h.cancel [] nofun ?_ hp.known hdebit ?_
  · intro id r hr
    obtain ⟨r', hr', hreal, hfinal, hcancel⟩ := hp.kept hr
    refine ⟨r', hr', hreal, fun hc => .inr (hcancel hc), ?_⟩
    rintro (hmem | hc)
    · cases hmem
    · rw [hfinal (by rw [hc]; rfl), hc]
  · intro id a
    rw [hrefund, if_neg not_mem_nil, Int.add_zero]

/-- A new withdrawal comes with its debit. -/
theorem withdraw {r : CrosschainTrxObject H} {account : Address H}
    {x : Asset} (hins : t.insert r = some t') (hop : r.opType = .crosschainWithdraw)
    (hst : r.trxState = .withdrawWithoutSignTrxUncreate) (hx : 0 ≤ x.amount)
    (hamount : ∀ {w m n}, r.realTransaction.operations.length = 1 → withdrawOf r = some w →
      amountFromString (reg.precision w.assetId) m w.amount = some n → x = ⟨n, w.assetId⟩) :
    Booked reg t' (trace ++ [.debited r.transactionId account x]) := by
  obtain ⟨hnone, hfind⟩ := insert_eq_some hins
  have hfresh : ∀ y, ¬ IsWithdraw t r.transactionId y := by
    intro y hy
    have hy' := hy.1
    rw [hnone] at hy'
    cases hy'
  have hnew : IsWithdraw t' r.transactionId r := ⟨by rw [hfind, if_pos rfl], hop⟩
  have hold : ∀ {id y}, id ≠ r.transactionId → (IsWithdraw t' id y ↔ IsWithdraw t id y) := by
    intro id y hid
    unfold IsWithdraw
    rw [hfind, if_neg hid]
  have hdebit : ∀ id a, debited (trace ++ [.debited r.transactionId account x]) id a =
      debited trace id a + if r.transactionId = id then x.of a else 0 :=
    fun id a => debited_append _ _ id a
  have hrefund : ∀ id a, refunded (trace ++ [.debited r.transactionId account x]) id a =
      refunded trace id a := by
    intro id a
    rw [refunded_append]
    exact Int.add_zero _
  have hother : ∀ {id} a, id ≠ r.transactionId →
      debited (trace ++ [.debited r.transactionId account x]) id a = debited trace id a := by
    intro id a hid
    rw [hdebit, if_neg (fun h => hid h.symm), Int.add_zero]
  constructor
  · intro id a hno
    have hid : id ≠ r.transactionId := by
      rintro rfl
      exact hno r hnew
    rw [hother a hid, hrefund]
    exact h.absent a fun y hy => hno y ((hold hid).2 hy)
  · intro id a
    rw [hdebit]
    have hof : 0 ≤ x.of a := by
      unfold Asset.of
      split
      · exact hx
      · exact Int.le_refl 0
    have hold₀ := h.nonneg id a
    split <;> omega
  · intro id y a hy hopen
    rw [hrefund]
    by_cases hid : id = r.transactionId
    · subst hid
      exact (h.absent a hfresh).2
    · exact h.unpaid a ((hold hid).1 hy) hopen
  · intro id y a hy hcancel
    by_cases hid : id = r.transactionId
    · subst hid
      cases hy.1.symm.trans hnew.1
      rw [hst] at hcancel
      cases hcancel
    · rw [hrefund, hother a hid]
      exact h.paid a ((hold hid).1 hy) hcancel
  · intro id y w m n a hy hlen hw hn
    by_cases hid : id = r.transactionId
    · subst hid
      cases hy.1.symm.trans hnew.1
      rw [hdebit, if_pos rfl, (h.absent a hfresh).1, Int.zero_add, hamount hlen hw hn]
    · rw [hother a hid]
      exact h.amount a ((hold hid).1 hy) hlen hw hn

end Booked

/-! ### Cancelling one withdrawal -/

section Cancel

variable {t : CrosschainTrxIndex H} {e : TrxEdit H}

theorem carriesOver_modify {st : TransactionStata} (he : Sets e st) (k : TrxId) :
    CarriesOver t (t.modify k e) fun id r => if id = k then e.run r else r where
  found {id _} hr' := by
    rw [find_modify] at hr'
    obtain ⟨r, hr, hg⟩ := map_eq_some_iff.1 hr'
    exact ⟨r, hr, hg.symm⟩
  links _ r := .ite he (.refl r) _
  withdraw hr := by rw [find_modify, hr.1, map_some]
  batch hu := by rw [find_modify, hu.1, map_some]

/-- A withdrawal in no batch may be cancelled on its own. -/
theorem Coherent.cancel (h : Coherent t) {k : TrxId} {x : CrosschainTrxObject H}
    (hx : t.find k = some x) (hunc : x.trxState = .withdrawWithoutSignTrxUncreate)
    (he : Sets e .withdrawCanceled) : Coherent (t.modify k e) := by
  have hbatch : ∀ {b u}, IsBatch t b u → b ≠ k := by
    rintro b u hu rfl
    exact not_withdraw_of_batch hu ⟨hx, h.uncreate hx hunc⟩
  refine (carriesOver_modify he k).coherent h ?_ ?_ ?_ ?_
  · intro id r hr hst
    rw [he.ite_trxState] at hst
    split at hst
    · cases hst
    · exact h.uncreate hr hst
  · intro b u w r hu _ hr hst
    -- a withdrawal that can be called off is in no batch
    have hw : w ≠ k := by
      rintro rfl
      cases hr.1.symm.trans hx
      have hop := h.uncreate hu.1 (hst.symm.trans hunc)
      rw [hu.2] at hop
      cases hop
    rw [if_neg hw, if_neg (hbatch hu), hst]
  · intro id r b u p hr hrel hu hp
    rw [he.ite_trxState] at hp
    split at hp
    · cases hp
    · rw [if_neg (hbatch hu)]
      exact h.phase hr hrel hu hp
  · intro id r p hr hp hopw hopb
    rw [he.ite_trxState] at hp
    split at hp
    · cases hp
    · exact h.waiting hr hp hopw hopb

end Cancel

end

variable {H : Type} {reg : Registry} {s s' : State H} {t : CrosschainTrxIndex H}
  {ctx : Context reg H}

/-! ### The state -/

/-- The records are coherent and the trace fits them. -/
structure Sound (reg : Registry) (s : State H) : Prop where
  coherent : Coherent s.trxs
  booked : Booked reg s.trxs s.trace

/-- Settled withdrawals stay as they are, and batches keep their records. -/
structure Keeps (t t' : CrosschainTrxIndex H) : Prop where
  settled : ∀ {id r}, IsWithdraw t id r → r.trxState.isFinal = true →
    ∃ r', IsWithdraw t' id r' ∧ r'.trxState = r.trxState
  batches : ∀ {b u}, IsBatch t b u → ∃ u', IsBatch t' b u'

theorem Keeps.refl (t : CrosschainTrxIndex H) : Keeps t t :=
  ⟨fun {_ r} hr _ => ⟨r, hr, rfl⟩, fun {_ u} hu => ⟨u, hu⟩⟩

theorem Keeps.trans {t' t'' : CrosschainTrxIndex H} (h : Keeps t t') (h' : Keeps t' t'') :
    Keeps t t'' := by
  constructor
  · intro id r hr hfinal
    obtain ⟨r₁, hr₁, hst₁⟩ := h.settled hr hfinal
    obtain ⟨r₂, hr₂, hst₂⟩ := h'.settled hr₁ (by rw [hst₁]; exact hfinal)
    exact ⟨r₂, hr₂, hst₂.trans hst₁⟩
  · intro b u hu
    obtain ⟨u₁, hu₁⟩ := h.batches hu
    exact h'.batches hu₁

theorem Progress.keeps {t' : CrosschainTrxIndex H} (h : Progress t t') : Keeps t t' := by
  refine ⟨?_, h.batches⟩
  intro id r hr hfinal
  obtain ⟨r', hr', _, hst, _⟩ := h.kept hr
  exact ⟨r', hr', hst hfinal⟩

theorem Sound.progress (h : Sound reg s) (hp : Progress s.trxs s'.trxs)
    (htrace : s'.trace = s.trace) : Sound reg s' ∧ Keeps s.trxs s'.trxs :=
  ⟨⟨hp.coherent, h.booked.progress hp (fun _ _ => by rw [htrace]) (fun _ _ => by rw [htrace])⟩,
    hp.keeps⟩

/-! ### The loop over a batch -/

theorem refundBalance_sound {o : GuardRefundBalance H} {r : CrosschainTrxObject H}
    {w : CrosschainWithdraw H} {amount : Asset} (h : Sound reg s) (hr : s.trxs.find o.txid = some r)
    (hunc : r.trxState = .withdrawWithoutSignTrxUncreate)
    (hlen : r.realTransaction.operations.length = 1) (hw : withdrawOf r = some w)
    (hamount : ctx.amountFromString w.assetId w.amount = some amount)
    (htable : s'.trxs = s.trxs.modify o.txid (setState .withdrawCanceled ctx.headBlockNum))
    (htrace : s'.trace = s.trace ++ [.refunded o.txid o.refundAddr amount]) :
    Sound reg s' ∧ Keeps s.trxs s'.trxs := by
  obtain ⟨hasset, m, hm⟩ := ctx.amountFromString_eq hamount
  have hwithdraw : IsWithdraw s.trxs o.txid r := ⟨hr, h.coherent.uncreate hr hunc⟩
  have hset := sets_setState (H := H) .withdrawCanceled ctx.headBlockNum
  have c := carriesOver_modify (t := s.trxs) hset o.txid
  rw [← htable] at c
  refine ⟨⟨htable ▸ h.coherent.cancel hr hunc hset, ?_⟩, ?_, fun {_ v} hv => ⟨_, c.toBatch hv⟩⟩
  · apply h.booked.cancel [o.txid]
    · intro id hid
      rw [mem_singleton.1 hid]
      exact ⟨r, hwithdraw, by rw [hunc]; nofun⟩
    · intro id y hy
      refine ⟨_, c.toWithdraw hy, (c.links id y).real, ?_⟩
      rw [hset.ite_trxState, mem_singleton]
      split
      · rename_i hid
        exact ⟨fun _ => .inl hid, fun _ => rfl⟩
      · rename_i hid
        exact ⟨.inr, fun h => h.resolve_left hid⟩
    · intro id y' hy'
      obtain ⟨y, hy, _⟩ := c.isWithdraw hy'
      exact ⟨y, hy⟩
    · intro id a
      rw [htrace, debited_append]
      exact Int.add_zero _
    · intro id a
      rw [htrace, refunded_append]
      by_cases hid : id = o.txid
      · subst hid
        rw [if_pos (mem_singleton.2 rfl)]
        have heq : (⟨amount.amount, w.assetId⟩ : Asset) = amount := by rw [← hasset]
        rw [h.booked.amount a hwithdraw hlen hw hm, heq]
        simp [Entry.refundOf]
      · have hne : ¬ o.txid = id := fun h => hid h.symm
        simp [Entry.refundOf, hid, hne]
  · intro id y hy hfinal
    refine ⟨_, c.toWithdraw hy, ?_⟩
    rw [hset.ite_trxState, if_neg]
    rintro rfl
    cases hy.1.symm.trans hr
    rw [hunc] at hfinal
    cases hfinal

variable [DecidableEq H] [Inhabited H]

theorem refundSources_spec {assetId : Nat} (ids : List TrxId) (hnodup : ids.Nodup)
    (h : refundSources ctx assetId ids s = some s') :
    s'.trxs = s.trxs.modifyEach ids (setState .withdrawCanceled ctx.headBlockNum) ∧
      s'.acquired = s.acquired ∧
      (∀ id a, debited s'.trace id a = debited s.trace id a) ∧
      (∀ id a, id ∉ ids → refunded s'.trace id a = refunded s.trace id a) ∧
      ∀ id ∈ ids, ∃ r w m n, s.trxs.find id = some r ∧ withdrawOf r = some w ∧
        amountFromString (reg.precision assetId) m w.amount = some n ∧
          ∀ a, refunded s'.trace id a = refunded s.trace id a + Asset.of ⟨n, w.assetId⟩ a := by
  induction ids generalizing s with
  | nil =>
    cases h
    exact ⟨rfl, rfl, fun _ _ => rfl, fun _ _ _ => rfl, nofun⟩
  | cons k ids ih =>
    obtain ⟨hk, hnodup⟩ := nodup_cons.1 hnodup
    simp only [refundSources, bind_eq_bind, bind_eq_some_iff] at h
    obtain ⟨r, hr, w, hw, x, hx, s₁, hs₁, s₂, hs₂, hrest⟩ := h
    obtain ⟨htrxs₁, hacq₁, htrace₁⟩ := adjustBalance_eq hs₁
    obtain ⟨htrxs₂, hacq₂, htrace₂⟩ := addSupply_eq hs₂
    obtain ⟨htrxs, hacq, hdebit, hsame, hrefund⟩ := ih hnodup hrest
    obtain ⟨_, m, hm⟩ := ctx.amountFromString_eq hx
    have hfind₂ : ∀ id, id ≠ k → s₂.trxs.find id = s.trxs.find id := by
      intro id hid
      rw [htrxs₂, find_modify, htrxs₁]
      simp [hid]
    have hother : ∀ id a, id ≠ k → refunded s₂.trace id a = refunded s.trace id a := by
      intro id a hid
      have hne : k ≠ id := fun h => hid h.symm
      rw [htrace₂, htrace₁, refunded_append]
      simp [Entry.refundOf, hne]
    refine ⟨?_, ?_, ?_, ?_, ?_⟩
    · rw [htrxs, htrxs₂, htrxs₁]
      rfl
    · rw [hacq, hacq₂]
      exact hacq₁
    · intro id a
      rw [hdebit, htrace₂, htrace₁, debited_append]
      exact Int.add_zero _
    · intro id a hid
      rw [mem_cons, not_or] at hid
      rw [hsame id a hid.2, hother id a hid.1]
    · intro id hid
      rcases mem_cons.1 hid with rfl | hid
      · refine ⟨r, w, m, x.amount, hr, hw, hm, ?_⟩
        intro a
        rw [hsame id a hk, htrace₂, htrace₁, refunded_append]
        simp [Entry.refundOf]
      · have hne : id ≠ k := fun h => hk (h ▸ hid)
        obtain ⟨r', w', m', n', hr', hw', hm', hsum⟩ := hrefund id hid
        refine ⟨r', w', m', n', (hfind₂ id hne).symm.trans hr', hw', hm', ?_⟩
        intro a
        rw [hsum, hother id a hne]

/-! ### Refunds -/

variable {op : WithdrawWithoutSign}

omit [DecidableEq H] [Inhabited H] in
theorem checkSources_eq (h : checkSources ctx t op = some ()) :
    ∀ id ∈ op.ccwTrxIds, ∃ r, t.find id = some r ∧ r.realTransaction.operations.length = 1 ∧
      ∃ w, withdrawOf r = some w ∧ op.assetId = w.assetId := by
  simp only [checkSources, bind_eq_bind, bind_eq_some_iff, fcAssert_eq_some] at h
  obtain ⟨_, _, _, _, h⟩ := h
  intro id hid
  obtain ⟨r, hr, hlen, w, hw, _, hasset⟩ := h id hid
  exact ⟨r, hr, hlen, w, hw, hasset⟩

theorem cancelBatch_sound {k b : TrxId} {u : CrosschainTrxObject H}
    (h : Sound reg s) (hfound : s.trxs.find b = some u) (hop : withoutSignOf u = some op)
    (hopen : u.trxState.isFinal = false)
    (hnamed : ∀ {r}, s.trxs.find k = some r → k = b ∨ r.relateTransactionId = some b)
    (hcheck : checkSources ctx s.trxs op = some ()) (hcancel : cancelBatch ctx s k b = some s') :
    Sound reg s' ∧ Keeps s.trxs s'.trxs := by
  obtain ⟨hu, hids⟩ := h.coherent.isBatch_of_op hfound hop
  simp only [cancelBatch, hfound, hop, bind_eq_bind, bind_some,
    bind_eq_some_iff] at hcancel
  obtain ⟨s₁, hs₁, hsupply⟩ := hcancel
  obtain ⟨htrxs₁, _, hdebit, hsame, hrefund⟩ :=
    refundSources_spec op.ccwTrxIds (hids ▸ h.coherent.nodup hu) hs₁
  obtain ⟨htrxs, _, htrace⟩ := addSupply_eq hsupply
  have hset := sets_setState (H := H) .withdrawCanceled ctx.headBlockNum
  have hnamed' : ∀ c ∈ [k], ∀ {r}, s.trxs.find c = some r →
      c = b ∨ r.relateTransactionId = some b := by
    intro c hc r hr
    rw [mem_singleton.1 hc] at hr ⊢
    exact hnamed hr
  have htable : s'.trxs = closeBatch [k] b u.allRelatedOriginTransactionIds
      (setState .withdrawCanceled ctx.headBlockNum)
      (setState .withdrawCanceled ctx.headBlockNum) s.trxs := by
    rw [htrxs, hids]
    rw [htrxs₁]
    rfl
  have a := closeBatch_advance (t := s.trxs) (u := u) hset hset [k] hnamed' id (by decide)
    (by decide)
  rw [← htable] at a
  have hsources : ∀ id ∈ op.ccwTrxIds, ∃ r, IsWithdraw s.trxs id r ∧
      r.trxState = u.trxState := by
    intro id hid
    exact h.coherent.sources hu (hids ▸ hid)
  refine ⟨⟨a.coherent h.coherent hu (by decide), ?_⟩, ?_, fun {_ v} hv => ⟨_, a.carries.toBatch hv⟩⟩
  · apply h.booked.cancel op.ccwTrxIds
    · intro id hid
      obtain ⟨r, hr, hst⟩ := hsources id hid
      refine ⟨r, hr, ?_⟩
      intro hc
      rw [← hst, hc] at hopen
      cases hopen
    · intro id r hr
      refine ⟨_, a.carries.toWithdraw hr, (a.links id r).real, ?_⟩
      by_cases hid : id ∈ u.allRelatedOriginTransactionIds
      · rw [a.sources r hid]
        exact ⟨fun _ => .inl (hids ▸ hid), fun _ => rfl⟩
      · rw [a.withdraw_of_not_mem h.coherent hu hr hid]
        refine ⟨.inr, ?_⟩
        rintro (hmem | hc)
        · exact absurd (hids.symm ▸ hmem) hid
        · exact hc
    · intro id r' hr'
      obtain ⟨r, hr, _⟩ := a.carries.isWithdraw hr'
      exact ⟨r, hr⟩
    · intro id c
      rw [htrace]
      exact hdebit id c
    · intro id c
      rw [htrace]
      by_cases hid : id ∈ op.ccwTrxIds
      · rw [if_pos hid]
        obtain ⟨r₁, w, m, n, hr₁, hw, hn, hsum⟩ := hrefund id hid
        obtain ⟨r, hr, hlen, w', hw', hasset⟩ := checkSources_eq hcheck id hid
        obtain ⟨r₀, hr₀, _⟩ := hsources id hid
        cases hr.symm.trans hr₀.1
        -- the loop reads the record after the first move, which keeps the transaction
        have hreal : withdrawOf r₁ = withdrawOf r := by
          have hr₁' : (s.trxs.modifyWhere (relatesTo b)
              (setState .withdrawCanceled ctx.headBlockNum)).find id = some r₁ := hr₁
          rw [find_modifyWhere, hr, map_some] at hr₁'
          rw [← Option.some.inj hr₁']
          split <;> rfl
        cases hw.symm.trans (hreal.trans hw')
        rw [hasset] at hn
        rw [h.booked.amount c hr₀ hlen hw' hn]
        exact hsum c
      · rw [if_neg hid, Int.add_zero]
        exact hsame id c hid
  · intro id r hr hfinal
    exact ⟨_, a.carries.toWithdraw hr, a.keeps_final h.coherent hu hopen hr hfinal⟩

end HyperExchange.Crosschain
