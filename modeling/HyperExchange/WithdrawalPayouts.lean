/-
  **The asset a batch pays out is the asset that was taken.**

  A user names the asset of a withdrawal twice: the amount is taken in `asset_id`, and the
  batch reads it in the asset with the symbol `asset_symbol`.  Where the two agree, and the
  batch is one of that symbol, what the batch accounts for is what was taken
  (`burned_is_paid`).  The comparison of the two is commented out in the evaluator of
  withdrawals, and the evaluator of batches compares no symbol with its own, so that one
  asset can be taken and another one paid (`other_asset_paid`).
-/
import HyperExchange.CrosschainSteps

namespace HyperExchange.Crosschain

open Keyed Fees Execution Option

variable {H : Type} {reg : Registry} {id : TrxId} {w : CrosschainWithdraw H}
  {r : CrosschainTrxObject H}

/-! ### The condition -/

def Agreeing (_ : Context reg H) (s : State H) : Operation H → Prop
  | .crosschainWithdraw o => reg.symbol o.assetId = o.assetSymbol
  | .withdrawWithoutSign o => ∀ id ∈ o.ccwTrxIds, ∀ r ∈ s.trxs.find id, ∀ w ∈ withdrawOf r,
      w.assetSymbol = o.assetSymbol
  | _ => True

instance (ctx : Context reg H) (s : State H) : DecidablePred (Agreeing ctx s) := by
  rintro ⟨⟩ <;> unfold Agreeing <;> infer_instance

/-! ### What was taken -/

/-- `x` was taken for the withdrawal `w` with the id. -/
structure Taken (reg : Registry) (trace : List (Entry H)) (id : TrxId)
    (w : CrosschainWithdraw H) (x : Asset) : Prop where
  debited : .debited id w.withdrawAccount x ∈ trace
  asset : x.assetId = w.assetId
  amount : ∃ m, amountFromString (reg.precision w.assetId) m w.amount = some x.amount

variable {trace : List (Entry H)}

theorem Taken.amount_eq {ctx : Context reg H} {x y : Asset}
    (h : Taken reg trace id w x) (hy : ctx.amountFromString w.assetId w.amount = some y) :
    y = x := by
  obtain ⟨hasset, m, hm⟩ := Context.amountFromString_eq hy
  obtain ⟨m', hm'⟩ := h.amount
  have hamount : y.amount = x.amount := amountFromString_unique hm hm'
  have hid : y.assetId = x.assetId := hasset.trans h.asset.symm
  cases x
  cases y
  simp only at hamount hid
  rw [hamount, hid]

/-! ### Withdrawals outlast what is done with them -/

/-- The withdrawals are those there were before, and none that belongs to nothing is lost. -/
structure SameWithdrawals (t t' : CrosschainTrxIndex H) : Prop where
  known : ∀ {id r'}, IsWithdraw t' id r' → ∃ r, IsWithdraw t id r ∧
    r'.realTransaction = r.realTransaction ∧ r'.relateTransactionId = r.relateTransactionId
  kept : ∀ {id r}, IsWithdraw t id r → r.relateTransactionId = none → ∃ r', IsWithdraw t' id r'

/-- The withdrawals are the same, and what is in the trace stays there. -/
structure Carried (s s' : State H) : Prop where
  trxs : SameWithdrawals s.trxs s'.trxs
  trace : ∀ e ∈ s.trace, e ∈ s'.trace

variable {trx : SignedTransaction H} {s s' : State H}

/-- Every operation but a withdrawal itself carries the withdrawals over. -/
theorem applyOperation_carried [DecidableEq H] [Inhabited H] {ctx : Context reg H}
    {op : Operation H} (hop : op.getWithdraw = none)
    (happly : applyOperation ctx trx s op = some s') : Carried s s' := by
  have hdoes := applyOperation_does (permits_sameRecord ctx trx s.trxs op) happly
  refine ⟨⟨?_, ?_⟩, ?_⟩
  · rintro id r' ⟨hr', hwithdraw⟩
    rcases hdoes.records.back hr' with ⟨r, hr, hsame⟩ | hadded
    · exact ⟨r, ⟨hr, hsame.opType.symm.trans hwithdraw⟩, hsame.real, hsame.relate⟩
    -- only a withdrawal makes such a record
    have hmade := hadded.made
    rw [hwithdraw] at hmade
    cases op with
    | crosschainWithdraw o => cases hop
    | _ => cases hmade
  · rintro id r ⟨hr, hwithdraw⟩ hrel
    obtain ⟨r', hr', hsame⟩ := hdoes.records.forth hr (by simp [hrel])
    exact ⟨r', hr', hsame.opType.trans hwithdraw⟩
  · obtain ⟨added, htrace, _⟩ := hdoes.trace
    intro e he
    rw [htrace]
    exact List.mem_append_left _ he

/-- Every record of a withdrawal goes with a debit of what its transaction names, and the
    symbol in it is that of the asset. -/
def Withdrawn (reg : Registry) (s : State H) : Prop :=
  ∀ id r, IsWithdraw s.trxs id r → ∃ w x, withdrawOf r = some w ∧ Taken reg s.trace id w x ∧
    reg.symbol w.assetId = w.assetSymbol

theorem Withdrawn.carried (h : Withdrawn reg s) (hc : Carried s s') :
    Withdrawn reg s' := by
  intro id r' hr'
  obtain ⟨r, hr, hreal, _⟩ := hc.trxs.known hr'
  obtain ⟨w, x, hw, htaken, hsymbol⟩ := h id r hr
  refine ⟨w, x, ?_, ⟨hc.trace _ htaken.debited, htaken.asset, htaken.amount⟩, hsymbol⟩
  unfold withdrawOf at hw ⊢
  rw [hreal]
  exact hw

/-- Once a transaction that starts with a withdrawal is under way, its record is there. -/
def Entered (trx : SignedTransaction H) (s : State H) : Prop :=
  ∀ o, trx.first = some (.crosschainWithdraw o) →
    ∃ r, IsWithdraw s.trxs trx.id r ∧ r.relateTransactionId = none

theorem Entered.carried (h : Entered trx s)
    (hc : Carried s s') : Entered trx s' := by
  intro o ho
  obtain ⟨r, hr, hrel⟩ := h o ho
  obtain ⟨r', hr'⟩ := hc.trxs.kept hr hrel
  obtain ⟨r₁, hr₁, _, hrelate⟩ := hc.trxs.known hr'
  have heq : r₁ = r := Option.some.inj (hr₁.1.symm.trans hr.1)
  exact ⟨r', hr', by rw [hrelate, heq, hrel]⟩

variable {ctx : Context reg H} {trx : SignedTransaction H} {s s' : State H}

theorem State.Fresh.withdrawn (hs : s.Fresh) : Withdrawn reg s := by
  intro id r hr
  have htrxs : s.trxs = Table.empty := Table.ext hs.trxs
  rw [htrxs] at hr
  cases hr.1

theorem accounted_eq {x y : Asset} (htaken : Taken reg trace id w x)
    (hsymbol : reg.symbol w.assetId = w.assetSymbol) (h : accounted ctx w = some y) : y = x := by
  obtain ⟨a, ha, h⟩ := bind_eq_some_iff.1 h
  have hasset : a = w.assetId := reg.symbol_injective ((ctx.getAsset_eq ha).trans hsymbol.symm)
  rw [hasset] at h
  exact htaken.amount_eq h

variable [DecidableEq H] [Inhabited H] {o : CrosschainWithdraw H} {t : CrosschainTrxIndex H}

omit [DecidableEq H] [Inhabited H] in
/-- A withdrawal that is accepted is the first operation of its transaction. -/
theorem withdraw_first {n : Nat}
    (hplace : trx.first = some (.crosschainWithdraw o) ∨ Entered trx s)
    (ht : CrosschainTrxIndex.adjustWithdraw n trx s.trxs = some t) :
    trx.first = some (.crosschainWithdraw o) := by
  rcases hplace with hfirst | hentered
  · exact hfirst
  obtain ⟨_, hget, hins⟩ := bind_eq_some_iff.1 ht
  obtain ⟨op, hop, hget⟩ := bind_eq_some_iff.1 hget
  cases op with
  | crosschainWithdraw o' =>
    -- the record of the first one is already there
    obtain ⟨r, hr, _⟩ := hentered o' hop
    cases (Table.insert_eq_some hins).1.symm.trans hr.1
  | _ => cases hget

omit [Inhabited H] in
theorem withdraw_withdrawn {amount : Asset}
    (h : Withdrawn reg s) (hfirst : trx.first = some (.crosschainWithdraw o))
    (hsymbol : reg.symbol o.assetId = o.assetSymbol)
    (hamount : ctx.amountFromString o.assetId o.amount = some amount)
    (ht : CrosschainTrxIndex.adjustWithdraw ctx.headBlockNum trx s.trxs = some t)
    (hissues : Issues s t s.acquired o.withdrawAccount amount.neg
      (.debited trx.id o.withdrawAccount amount) s') : Withdrawn reg s' ∧ Entered trx s' := by
  obtain ⟨r, hins, hid, hop, hreal, _, hjoins⟩ := adjustWithdraw_eq ht
  obtain ⟨_, hfind⟩ := Table.insert_eq_some hins
  have hw : withdrawOf r = some o := by
    unfold withdrawOf
    rw [hreal, hfirst]
    rfl
  have hfind' : ∀ k, s'.trxs.find k = if k = trx.id then some r else s.trxs.find k := by
    intro k
    rw [hissues.trxs, ← hid]
    exact hfind k
  constructor
  · rintro id x ⟨hx, hwithdraw⟩
    rw [hfind'] at hx
    split at hx
    · rename_i heq
      cases hx
      obtain ⟨hasset, hm⟩ := Context.amountFromString_eq hamount
      refine ⟨o, amount, hw, ⟨?_, hasset, hm⟩, hsymbol⟩
      rw [hissues.trace, heq]
      exact List.mem_append_right _ List.mem_cons_self
    · obtain ⟨w, y, hw', htaken, hsymbol'⟩ := h id x ⟨hx, hwithdraw⟩
      refine ⟨w, y, hw', ⟨?_, htaken.asset, htaken.amount⟩, hsymbol'⟩
      rw [hissues.trace]
      exact List.mem_append_left _ htaken.debited
  · intro o' _
    refine ⟨r, ⟨?_, hop⟩, hjoins.unrelated hop⟩
    rw [hfind', if_pos rfl]

theorem applyOperation_withdrawn {op : Operation H}
    (hplace : trx.first = some op ∨ Entered trx s) (h : Withdrawn reg s)
    (hagree : Agreeing ctx s op) (happly : applyOperation ctx trx s op = some s') :
    Withdrawn reg s' ∧ Entered trx s' := by
  cases hop : op.getWithdraw with
  | some o =>
    obtain ⟨s₁, hran, hpay⟩ := applyOperation_ran happly
    cases hran with
    | withdraw hamount ht hissues =>
      cases hpay
      exact withdraw_withdrawn h (withdraw_first hplace ht) hagree hamount ht hissues
    | _ => cases hop
  | none =>
    have hc := applyOperation_carried hop happly
    refine ⟨h.carried hc, ?_⟩
    rcases hplace with hfirst | hentered
    · intro o ho
      cases hfirst.symm.trans ho
      cases hop
    · exact hentered.carried hc

/-! ### Batches -/

variable {o : WithdrawWithoutSign}

omit [DecidableEq H] [Inhabited H] in
/-- A node that checks the batch accounts for each of its withdrawals. -/
theorem tallyEach_accounted {created : CrosschainTrx} {fee : Int} {ids : List TrxId}
    {m m' : Table Tally.account}
    (h : tallyEach ctx t o created fee ids m = some m') (hid : id ∈ ids) (hr : t.find id = some r)
    (hw : withdrawOf r = some w) : (accounted ctx w).isSome := by
  induction ids generalizing m with
  | nil => cases hid
  | cons k ids ih =>
    obtain ⟨r', _, hr', _, h⟩ := bind_bind_eq_some h
    obtain ⟨w', _, hw', _, h⟩ := bind_bind_eq_some h
    obtain ⟨_, _, _, _, h⟩ := bind_bind_eq_some h
    obtain ⟨amount, _, hamount, _, h⟩ := bind_bind_eq_some h
    rcases List.mem_cons.1 hid with rfl | hid
    · cases hr.symm.trans hr'
      cases hw.symm.trans hw'
      rw [hamount]
      rfl
    · exact ih h hid

omit [DecidableEq H] [Inhabited H] in
theorem evaluateWithoutSign_accounted {x : Unit}
    (heval : evaluateWithoutSign ctx trx s o = some x) (hhandle : (ctx.handle o.assetSymbol).isSome)
    (hlate : ctx.late = false) (hid : id ∈ o.ccwTrxIds) (hr : s.trxs.find id = some r)
    (hw : withdrawOf r = some w) : (accounted ctx w).isSome := by
  obtain ⟨h, hh⟩ := isSome_iff_exists.1 hhandle
  simp only [evaluateWithoutSign, Context.withHandle, hh, hlate, Bool.false_eq_true, if_false,
    bind_eq_bind, bind_eq_some_iff] at heval
  obtain ⟨a, _, asset, _, _, _, _, _, _, _, _, _, created, _, heval⟩ := heval
  have hcheck : ∃ y, checkAmounts ctx s.trxs o a asset created = some y := by
    split at heval
    · obtain ⟨_, _, hcheck⟩ := bind_eq_some_iff.1 heval
      exact ⟨x, hcheck⟩
    · exact ⟨x, heval⟩
  obtain ⟨y, hcheck⟩ := hcheck
  obtain ⟨m, hm, _⟩ := bind_eq_some_iff.1 hcheck
  exact tallyEach_accounted hm hid hr hw

/-- The batch `o` pays out what the withdrawal `w` took. -/
structure PaysOut (ctx : Context reg H) (o : WithdrawWithoutSign) (w : CrosschainWithdraw H)
    (x : Asset) : Prop where
  /-- The asset that was taken is the one with the symbol in the withdrawal. -/
  symbol : reg.symbol x.assetId = w.assetSymbol
  /-- The transaction of the other chain is made for that symbol. -/
  batch : o.assetSymbol = w.assetSymbol
  amount : ∀ y, accounted ctx w = some y → y = x
  /-- A node that checks the batch does account for the withdrawal. -/
  checked : checkPointBlock < ctx.headBlockNum → (ctx.handle o.assetSymbol).isSome →
    ctx.late = false → accounted ctx w = some x

/-- In every run in which the symbol in a withdrawal is that of its asset and a batch has the
    symbol of its withdrawals, every batch that is accepted pays out what was taken. -/
theorem burned_is_paid {id : TrxId} {r : CrosschainTrxObject H}
    (happlied : Applied (fun ctx : Context reg H => Agreeing ctx) State.Fresh ctx trx s
      (.withdrawWithoutSign o)) (hid : id ∈ o.ccwTrxIds) (hr : IsWithdraw s.trxs id r) :
    ∃ w x, withdrawOf r = some w ∧ Taken reg s.trace id w x ∧ PaysOut ctx o w x := by
  obtain ⟨hwithdrawn, hagree, hop⟩ := happlied.invariant_of_operations (Withdrawn reg) Entered
    (fun _ hs => hs.withdrawn) (fun _ hs => hs) fun _ => applyOperation_withdrawn
  obtain ⟨w, x, hw, htaken, hsymbol⟩ := hwithdrawn id r hr
  refine ⟨w, x, hw, htaken, ?_, ?_, ?_, ?_⟩
  · rw [htaken.asset, hsymbol]
  · exact (hagree id hid r hr.1 w hw).symm
  · intro y hy
    exact accounted_eq htaken hsymbol hy
  · intro hhead hhandle hlate
    obtain ⟨s', hs'⟩ := isSome_iff_exists.1 hop
    have heval := (applyOperation_eq hs').1 (.inr hhead)
    obtain ⟨y, hy⟩ := isSome_iff_exists.1
      (evaluateWithoutSign_accounted heval hhandle hlate hid hr.1 hw)
    rw [hy, accounted_eq htaken hsymbol hy]

/-! ### A withdrawal of one asset that is paid in another -/

/-- The batch of the withdrawal `1`. -/
def sampleBatch : WithdrawWithoutSign := ⟨[1], [], eth, 1, ⟨0, 1⟩⟩

def sampleBatchTrx : SignedTransaction Bool := ⟨2, [.withdrawWithoutSign sampleBatch], [sampleUser]⟩

/-- The batch of `sampleWithdraw` pays what was taken. -/
theorem sampleBatch_pays :
    let s := step sampleState (sampleWithdraw 1)
    ∃ r w x, IsWithdraw s.trxs 1 r ∧ withdrawOf r = some w ∧ Taken sampleRegistry s.trace 1 w x ∧
      PaysOut sampleContext sampleBatch w x := by
  intro s
  have hrun : RunUnder (fun ctx : Context sampleRegistry Bool => Agreeing ctx) State.Fresh s :=
    .call (.start ⟨rfl, rfl, rfl⟩) (by decide +kernel)
  have happlied : Applied (fun ctx : Context sampleRegistry Bool => Agreeing ctx) State.Fresh
      sampleContext sampleBatchTrx s (.withdrawWithoutSign sampleBatch) :=
    .intro 1 [] [] hrun (by decide +kernel) (by decide +kernel) rfl rfl
  have hfound : (s.trxs.find 1).any (fun r => decide (r.opType = .crosschainWithdraw)) = true := by
    decide +kernel
  obtain ⟨hsome, hop⟩ := (any_eq_true_iff_get _ _).1 hfound
  have hr : IsWithdraw s.trxs 1 _ := ⟨(some_get hsome).symm, of_decide_eq_true hop⟩
  obtain ⟨w, x, hw, htaken, hpays⟩ := burned_is_paid happlied (by decide) hr
  exact ⟨_, w, x, hr, hw, htaken, hpays⟩

/-- A withdrawal of the asset `2` under the symbol of the asset `1`. -/
def sampleMismatch : CrosschainWithdraw Bool := ⟨sampleUser, ['5'], eth, 2, ['a']⟩

/-- The user loses five of the asset `2`, and the batch that is accepted pays five of the
    asset `1`. -/
theorem other_asset_paid :
    let s := step sampleState (sampleEvent 1 (.crosschainWithdraw sampleMismatch))
    sampleState.Fresh ∧ .debited 1 sampleUser ⟨5, 2⟩ ∈ s.trace ∧
      (applyOperation sampleContext sampleBatchTrx s (.withdrawWithoutSign sampleBatch)).isSome ∧
      accounted sampleContext sampleMismatch = some ⟨5, 1⟩ := by
  refine ⟨⟨rfl, rfl, rfl⟩, ?_, ?_, ?_⟩
  all_goals decide +kernel

end HyperExchange.Crosschain
