/-
  **What a node with a handle has validated of what it accepts.**

  A node whose handle for a chain is configured, and whose clock is not late, asks that
  handle about the transactions of the chain.  `Validated` says what it has to have learnt
  about an operation that it accepts.  Results of withdrawals are validated, and above the
  checkpoint deposits and transactions that are built; up to it these are not evaluated.
  Combined transactions and results of transfers between cold and hot accounts are not
  validated, because their evaluators return early when the handle is configured.
-/
import HyperExchange.BridgeRuns
import HyperExchange.CrosschainCases
import HyperExchange.HandleIndependence

namespace HyperExchange.Bridge

open Keyed Execution Option
open Crosschain

variable {H : Type} {reg : Registry} (ctx : Coldhot.Context reg H)

def onNode (handle unconfigured : Text → Option Handle) : Coldhot.Context reg H :=
  { ctx with handle := handle, unconfigured := unconfigured, late := false }

def Operation.symbol : Operation H → Text
  | .crosschain (.crosschainRecord o) => o.crossChainTrx.assetSymbol
  | .crosschain (.withdrawWithoutSign o) => o.assetSymbol
  | .crosschain (.withdrawResult trx) => trx.assetSymbol
  | .coldhot (.transferWithoutSign o) => o.assetSymbol
  | .coldhot (.transferCombineSign o) => o.assetSymbol
  | .coldhot (.transferResult trx) => trx.assetSymbol
  | _ => []

/-! ### What has to be validated -/

/-- `validate_link_trx` (`validate_link_trx_v1` for deposits since block 220000) returns true
    for the transaction. -/
def LinkValidated (ctx : Crosschain.Context reg H) (h : Handle) (v1 : Bool) (trx : HdTrx) : Prop :=
  ctx.AssetKnown trx.assetSymbol ∧ ctx.LinkTrxValid h v1 trx

def MatchesBatch (ctx : Crosschain.Context reg H) (t : CrosschainTrxIndex H)
    (o : WithdrawWithoutSign) (id : Nat) (a : AssetObject) (created : CrosschainTrx) : Prop :=
  (∀ w ∈ o.ccwTrxIds, ∃ p ∈ readWithdrawal ctx t w,
    Pays created (crosschainAccount ctx o p.1) p.1.assetSymbol) ∧
  ∃ m ∈ tallyLocal ctx t o a.feePool o.ccwTrxIds .empty, AmountsAgree ctx o id created m

def MatchesTransfer (symbol : Text) (r : Coldhot.TransferObject H)
    (created : CrosschainTrx) : Prop :=
  ∃ transfer ∈ r.currentTrx.first.bind Coldhot.Operation.getTransfer,
    ∃ one ∈ created.trxs.find transfer.multiAccountDeposit,
      one.2.toAccount = transfer.multiAccountDeposit ∧
      Coldhot.paidFrom symbol one.2 = some transfer.multiAccountWithdraw ∧
      one.2.assetSymbol = transfer.assetSymbol ∧
      ∃ id ∈ ctx.getAsset transfer.assetSymbol, ∃ paid ∈ ctx.amountFromString id one.2.amount,
        ∃ amount ∈ ctx.amountFromString id transfer.amount, paid.amount = amount.amount

def Validated (h : Handle) (s : State H) : Operation H → Prop
  | .crosschain (.crosschainRecord o) =>
    LinkValidated ctx.toContext h (decide (220000 ≤ ctx.headBlockNum)) o.crossChainTrx
  | .crosschain (.withdrawResult trx) => LinkValidated ctx.toContext h false trx
  | .crosschain (.withdrawWithoutSign o) =>
    ∃ id ∈ ctx.getAsset o.assetSymbol, ∃ a ∈ ctx.assets id,
      ∃ created ∈ h.turnTrxs (sourceForm o a.description) o.withdrawSourceTrx,
        MatchesBatch ctx.toContext s.chain.trxs o id a created
  | .coldhot (.transferWithoutSign o) =>
    ∃ id ∈ ctx.getAsset o.assetSymbol, ∃ a ∈ ctx.assets id,
      ∃ created ∈ h.turnTrxs (Coldhot.sourceForm o.assetSymbol a.description)
          o.coldhotTrxOriginalChain,
        ∃ r ∈ s.transfers.find o.coldhotTrxId, MatchesTransfer ctx o.assetSymbol r created
  | .coldhot (.transferCombineSign o) =>
    ∃ decoded ∈ h.turnTrxs .plain o.coldhotTrxOriginalChain,
      (∃ one ∈ decoded.trxs.rows.head?, one.2.trxId = o.originalTrxId) ∧
      ∃ w ∈ s.transfers.find o.coldhotTransferTrxId,
        ∃ r ∈ w.relateTrxId.bind s.transfers.find, MatchesTransfer ctx o.assetSymbol r decoded
  | .coldhot (.transferResult trx) => LinkValidated ctx.toContext h false trx
  | _ => True

/-- The handle is not asked about the operation: its evaluator does not ask a handle that is
    configured, or the operation is not evaluated at this height. -/
def Operation.unasked (headBlockNum : Nat) : Operation H → Bool
  | .coldhot (.transferCombineSign _) => true
  | .coldhot (.transferResult _) => true
  | .crosschain (.crosschainRecord _) => decide (headBlockNum ≤ checkPointBlock)
  | .crosschain (.withdrawWithoutSign _) => decide (headBlockNum ≤ checkPointBlock)
  | .coldhot (.transferWithoutSign _) => decide (headBlockNum ≤ checkPointBlock)
  | _ => false

/-! ### The evaluators that ask the handle -/

section Crosschain

variable {ctx : Crosschain.Context reg H} {h : Handle} {s : Crosschain.State H}

theorem linkValidated_of_validate {v1 : Bool} {trx : HdTrx} (hlate : ctx.late = false)
    (hvalid : ctx.validateLinkTrx h v1 trx = some ()) : LinkValidated ctx h v1 trx := by
  obtain ⟨id, a, hid, ha, hvalid⟩ := bind_bind_eq_some hvalid
  have hasset : (ctx.getAsset trx.assetSymbol).bind ctx.assets = some a := by
    rw [hid]
    exact ha
  rw [hlate] at hvalid
  refine ⟨by rw [Context.AssetKnown, hasset]; rfl, ?_⟩
  unfold Context.LinkTrxValid
  split at hvalid
  · contradiction
  split at hvalid
  · next herc =>
    rw [if_pos herc]
    intro b hb
    cases hasset.symm.trans hb
    exact fcAssert_eq_some.1 hvalid
  · next herc =>
    rw [if_neg herc]
    split at hvalid
    · next hv1 =>
      rw [if_pos hv1]
      exact fcAssert_eq_some.1 hvalid
    · next hv1 =>
      rw [if_neg hv1]
      exact fcAssert_eq_some.1 hvalid

variable {t : CrosschainTrxIndex H} {o : WithdrawWithoutSign} {created : CrosschainTrx}

/-- Every withdrawal of the batch was looked for in the transaction built for it. -/
theorem paid_of_tallyEach {fee : Int} {ids : List TrxId} {m m' : Table Tally.account}
    (h : tallyEach ctx t o created fee ids m = some m') :
    ∀ id ∈ ids, ∃ p ∈ readWithdrawal ctx t id,
      Pays created (crosschainAccount ctx o p.1) p.1.assetSymbol := by
  induction ids generalizing m with
  | nil => nofun
  | cons id ids ih =>
    simp only [tallyEach, bind_eq_bind, bind_eq_some_iff, fcAssert_eq_some] at h
    obtain ⟨r, hr, _, hone, w, ⟨op, hop, hw⟩, one, hfind, _, hto, _, hsymbol, amount, hamount,
      m₁, _, h⟩ := h
    intro id' hid'
    rcases List.mem_cons.1 hid' with rfl | hid'
    · refine ⟨(w, amount), ?_, one, hfind, hto, hsymbol⟩
      simp [readWithdrawal, hr, hone, hop, hw, hamount, fcAssert]
    · exact ih h id' hid'

theorem matchesBatch_of_check {id : Nat}
    {a : AssetObject}
    (h : checkAmounts ctx t o id a created = some ()) : MatchesBatch ctx t o id a created := by
  obtain ⟨m, hm, hagree, _⟩ := checkAmounts_iff.1 h
  have hpaid := paid_of_tallyEach hm
  refine ⟨hpaid, m, ?_, hagree⟩
  refine (tallyEach_eq_tallyLocal ?_ _).symm.trans hm
  intro w hw p hp
  obtain ⟨p', hp', hpays⟩ := hpaid w hw
  cases hp.symm.trans hp'
  exact hpays

theorem withHandle_eq {symbol : Text} {f : Handle → Option Unit}
    (hh : ctx.handle symbol = some h) : ctx.withHandle symbol f = f h := by
  rw [Context.withHandle, hh]

/-- A check that is made in one case only does not keep what follows from being checked. -/
theorem rest_of_ite {c : Prop} [Decidable c] {check rest : Option Unit}
    (h : (if c then check.bind fun _ => rest else (some ()).bind fun _ => rest) = some ()) :
    rest = some () := by
  split at h
  · obtain ⟨_, _, hrest⟩ := bind_eq_some_iff.1 h
    exact hrest
  · exact h

theorem evaluateRecord_validated [DecidableEq H] {o : CrosschainRecord H}
    (hh : ctx.handle o.crossChainTrx.assetSymbol = some h) (hlate : ctx.late = false)
    (heval : evaluateRecord ctx s o = some ()) :
    LinkValidated ctx h (decide (220000 ≤ ctx.headBlockNum)) o.crossChainTrx := by
  simp only [evaluateRecord, bind_eq_bind, bind_eq_some_iff, withHandle_eq hh] at heval
  obtain ⟨_, _, _, _, _, _, _, _, _, _, _, _, _, _, _, _, _, _, _, _, heval⟩ := heval
  exact linkValidated_of_validate hlate heval

theorem evaluateResult_validated {trx : HdTrx} (hh : ctx.handle trx.assetSymbol = some h)
    (hlate : ctx.late = false) (heval : evaluateResult ctx s trx = some ()) :
    LinkValidated ctx h false trx := by
  simp only [evaluateResult, bind_eq_bind, bind_eq_some_iff, withHandle_eq hh] at heval
  obtain ⟨_, _, _, _, _, _, _, _, _, _, heval⟩ := heval
  exact linkValidated_of_validate hlate heval

theorem evaluateWithoutSign_validated {trx : Crosschain.SignedTransaction H}
    (hh : ctx.handle o.assetSymbol = some h) (hlate : ctx.late = false)
    (heval : evaluateWithoutSign ctx trx s o = some ()) :
    ∃ id ∈ ctx.getAsset o.assetSymbol, ∃ a ∈ ctx.assets id,
      ∃ created ∈ h.turnTrxs (sourceForm o a.description) o.withdrawSourceTrx,
        MatchesBatch ctx s.trxs o id a created := by
  simp only [evaluateWithoutSign, bind_eq_bind, bind_eq_some_iff, withHandle_eq hh,
    hlate] at heval
  obtain ⟨id, hid, a, ha, _, _, _, _, _, _, _, _, heval⟩ := heval
  obtain ⟨created, hcreated, heval⟩ := bind_eq_some_iff.1 heval
  exact ⟨id, hid, a, ha, created, hcreated, matchesBatch_of_check (rest_of_ite heval)⟩

end Crosschain

section Transfers

variable {ctx : Coldhot.Context reg H} {o : Coldhot.TransferWithoutSign}

theorem matchesTransfer_of_check {r : Coldhot.TransferObject H}
    {created : CrosschainTrx} (h : Coldhot.checkTransfer ctx o r created = some ()) :
    MatchesTransfer ctx o.assetSymbol r created := by
  simp only [Coldhot.checkTransfer, bind_eq_bind, bind_eq_some_iff,
    fcAssert_eq_some] at h
  obtain ⟨_, _, transfer, ⟨op, hop, hget⟩, _, _, one, hfind, _, hto, payer, hpayer, _, hfrom, id,
    hid, _, hsymbol, paid, hpaid, amount, hamount, heq⟩ := h
  refine ⟨transfer, bind_eq_some_iff.2 ⟨op, hop, hget⟩, one, hfind, hto, ?_, hsymbol, id,
    hid, paid, hpaid, amount, hamount, heq⟩
  rw [hpayer, hfrom]

theorem evaluateTransferWithoutSign_validated {h : Handle} {trx : Coldhot.SignedTransaction H}
    {s : Coldhot.State H}
    (hh : ctx.handle o.assetSymbol = some h) (hlate : ctx.late = false)
    (heval : Coldhot.evaluateWithoutSign ctx trx s o = some ()) :
    ∃ id ∈ ctx.getAsset o.assetSymbol, ∃ a ∈ ctx.assets id,
      ∃ created ∈ h.turnTrxs (Coldhot.sourceForm o.assetSymbol a.description)
          o.coldhotTrxOriginalChain,
        ∃ r ∈ s.transfers.find o.coldhotTrxId, MatchesTransfer ctx o.assetSymbol r created := by
  simp only [Coldhot.evaluateWithoutSign, bind_eq_bind, bind_eq_some_iff,
    withHandle_eq hh, hlate] at heval
  obtain ⟨id, hid, a, ha, r, hr, _, _, _, _, heval⟩ := heval
  obtain ⟨created, hcreated, heval⟩ := bind_eq_some_iff.1 heval
  exact ⟨id, hid, a, ha, created, hcreated, r, hr, matchesTransfer_of_check (rest_of_ite heval)⟩

end Transfers

/-! ### What is accepted -/

section Accepted

variable {ctx : Coldhot.Context reg H} {trx : SignedTransaction H} {s : State H}
  {op : Operation H} {handle unconfigured : Text → Option Handle} {h : Handle}

theorem tallyLocal_onNode {t : CrosschainTrxIndex H} {o : WithdrawWithoutSign} {fee : Int}
    (ids : List TrxId) (m : Table Tally.account) :
    tallyLocal (onNode ctx handle unconfigured).toContext t o fee ids m =
      tallyLocal ctx.toContext t o fee ids m := by
  induction ids generalizing m with
  | nil => rfl
  | cons id ids ih =>
    simp only [tallyLocal, ih]
    rfl

theorem withUnconfigured_onNode {symbol : Text} {f : Handle → Option Unit}
    (hh : handle symbol = some h) :
    (onNode ctx handle unconfigured).withUnconfigured symbol f = some () := by
  have hhandle : (onNode ctx handle unconfigured).handle symbol = some h := hh
  rw [Coldhot.Context.withUnconfigured, hhandle]

variable [DecidableEq H] [Inhabited H]

theorem validated_of_accepted (hkind : op.unasked ctx.headBlockNum = false)
    (hh : handle op.symbol = some h)
    (haccepted : (applyOperation (onNode ctx handle unconfigured) trx s op).isSome) :
    Validated ctx h s op := by
  obtain ⟨s', hs'⟩ := isSome_iff_exists.1 haccepted
  have hhandle : (onNode ctx handle unconfigured).handle op.symbol = some h := hh
  cases op with
  | crosschain op =>
    obtain ⟨c, hc, _⟩ := map_eq_some_iff.1 hs'
    obtain ⟨heval, _⟩ := Crosschain.applyOperation_eq hc
    cases op with
    | crosschainRecord o =>
      have heval := heval (.inr (Nat.lt_of_not_le (of_decide_eq_false hkind)))
      have hvalidated := evaluateRecord_validated hhandle rfl heval
      exact hvalidated
    | withdrawResult result =>
      have hvalidated := evaluateResult_validated hhandle rfl (heval (.inl rfl))
      exact hvalidated
    | withdrawWithoutSign o =>
      have heval := heval (.inr (Nat.lt_of_not_le (of_decide_eq_false hkind)))
      obtain ⟨id, hid, a, ha, created, hcreated, hpaid, m, hm, hagree⟩ :=
        evaluateWithoutSign_validated hhandle rfl heval
      rw [tallyLocal_onNode] at hm
      exact ⟨id, hid, a, ha, created, hcreated, hpaid, m, hm, hagree⟩
    | _ => trivial
  | coldhot op =>
    obtain ⟨c, hc, _⟩ := map_eq_some_iff.1 hs'
    obtain ⟨heval, _⟩ := Coldhot.applyOperation_eq hc
    cases op with
    | transferWithoutSign o =>
      have heval := heval (Nat.lt_of_not_le (of_decide_eq_false hkind))
      have hvalidated := evaluateTransferWithoutSign_validated hhandle rfl heval
      exact hvalidated
    | transferCombineSign | transferResult => cases hkind
    | _ => trivial

/-- What the handle is not asked about is accepted by a node with the handle as by one
    without. -/
theorem applyOperation_unasked (hkind : op.unasked ctx.headBlockNum = true)
    (hh : handle op.symbol = some h) :
    applyOperation (onNode ctx handle unconfigured) trx s op =
      applyOperation (onNode ctx (fun _ => none) fun _ => none) trx s op := by
  have hhead : ctx.headBlockNum ≤ checkPointBlock → ∀ handle unconfigured,
      (onNode ctx handle unconfigured).headBlockNum ≤ checkPointBlock := fun hle _ _ => hle
  cases op with
  | crosschain op =>
    cases op with
    | crosschainRecord o | withdrawWithoutSign o =>
      simp only [applyOperation, Crosschain.applyOperation, Operation.alwaysEvaluated,
        evaluateAbove_of_le (hhead (of_decide_eq_true hkind) _ _)]
      rfl
    | _ => cases hkind
  | coldhot op =>
    cases op with
    | transferWithoutSign o =>
      simp only [applyOperation, Coldhot.applyOperation,
        evaluateAbove_of_le (hhead (of_decide_eq_true hkind) _ _)]
      rfl
    | transferCombineSign o =>
      have hsymbol : handle o.assetSymbol = some h := hh
      simp only [applyOperation, Coldhot.applyOperation, Coldhot.evaluateOperation,
        Coldhot.evaluateCombineSign, withUnconfigured_onNode hsymbol]
      rfl
    | transferResult result =>
      have hsymbol : handle result.assetSymbol = some h := hh
      simp only [applyOperation, Coldhot.applyOperation, Coldhot.evaluateOperation,
        Coldhot.evaluateResult, withUnconfigured_onNode hsymbol]
      rfl
    | _ => cases hkind

end Accepted

def unknowing : Handle where
  validateAddress := fun _ => false
  validateLinkTrx := fun _ => false
  validateLinkTrxV1 := fun _ => false
  turnTrxs := fun _ _ => none
  withoutSign := fun _ => none
  changeSigner := fun _ => none
  failed := fun _ => false

theorem not_linkValidated_unknowing (ctx : Crosschain.Context reg H) (v1 : Bool) (trx : HdTrx) :
    ¬LinkValidated ctx unknowing v1 trx := by
  rintro ⟨hknown, hvalid⟩
  unfold Context.LinkTrxValid at hvalid
  split at hvalid
  · obtain ⟨a, ha⟩ := isSome_iff_exists.1 hknown
    cases hvalid a ha
  · split at hvalid <;> cases hvalid

/-- A handle that knows no transaction confirms none. -/
theorem not_validated_unknowing (s : State H) {op : Operation H} {n : Nat}
    (hkind : op.unasked n = true) : ¬Validated ctx unknowing s op := by
  cases op with
  | crosschain op =>
    cases op with
    | crosschainRecord o => exact not_linkValidated_unknowing ctx.toContext _ o.crossChainTrx
    | withdrawWithoutSign o =>
      rintro ⟨_, _, _, _, created, hcreated, _⟩
      cases hcreated
    | _ => cases hkind
  | coldhot op =>
    cases op with
    | transferWithoutSign o =>
      rintro ⟨_, _, _, _, created, hcreated, _⟩
      cases hcreated
    | transferCombineSign o =>
      rintro ⟨decoded, hdecoded, _⟩
      cases hdecoded
    | transferResult result => exact not_linkValidated_unknowing ctx.toContext _ result
    | _ => cases hkind

/-- **External validation.** What nodes in time with a configured handle accept has been
    validated by the handle, whatever the handle is, exactly when the handle is asked about
    the operation, or the checks that every node makes reject it. -/
theorem validated_when_accepted_iff [DecidableEq H] [Inhabited H] (ctx : Coldhot.Context reg H)
    (trx : SignedTransaction H) (s : State H) (op : Operation H) :
    (∀ handle unconfigured h, handle op.symbol = some h →
      (applyOperation (onNode ctx handle unconfigured) trx s op).isSome → Validated ctx h s op) ↔
    (op.unasked ctx.headBlockNum = true →
      applyOperation (onNode ctx (fun _ => none) fun _ => none) trx s op = none) := by
  constructor
  · intro hvalidated hkind
    by_contra haccepted
    refine not_validated_unknowing ctx s hkind
      (hvalidated (fun _ => some unknowing) (fun _ => none) _ rfl ?_)
    rw [applyOperation_unasked hkind rfl]
    exact isSome_iff_ne_none.2 haccepted
  · intro hrejected handle unconfigured h hh haccepted
    cases hkind : op.unasked ctx.headBlockNum with
    | false => exact validated_of_accepted hkind hh haccepted
    | true =>
      rw [applyOperation_unasked hkind hh, hrejected hkind] at haccepted
      cases haccepted

/-! ### A transfer that nobody validates -/

/-- The node has a handle that knows nothing. -/
def sampleBlind : Coldhot.Context sampleRegistry Bool :=
  onNode sampleBridge (fun _ => some unknowing) fun _ => none

/-- The transfer `1` was built as `2`. -/
def sampleBuilt : State Bool :=
  [sampleTransfer 1, sampleTransferWithoutSign 2 1].foldl step sampleStart

/-- It was combined as `3` and signed once more as `y`. -/
def sampleFinal : State Bool :=
  [sampleTransferCombine 3 2 [] ['x'],
    sampleColdhot 4 (.ethsColdhotGuardSignFinal ⟨0, 3, [], ['y'], eth⟩)].foldl step sampleBuilt

/-- The node accepts a combined transaction that its handle cannot decode, and a result that
    its handle does not find. -/
theorem unknown_transfer_accepted :
    let combine : Operation Bool := .coldhot (sampleCombineOp 2 [] ['x'])
    let result : Operation Bool := .coldhot (.transferResult ⟨['y'], ['m'], ['a'], ['5'], eth⟩)
    ((applyOperation sampleBlind ⟨3, [combine], []⟩ sampleBuilt combine).isSome ∧
      ¬Validated sampleBridge unknowing sampleBuilt combine) ∧
    (applyOperation sampleBlind ⟨5, [result], []⟩ sampleFinal result).isSome ∧
      ¬Validated sampleBridge unknowing sampleFinal result := by
  refine ⟨⟨?_, not_validated_unknowing (n := 0) _ _ rfl⟩, ?_,
    not_validated_unknowing (n := 0) _ _ rfl⟩
  all_goals decide +kernel

end HyperExchange.Bridge
