/-
  **Acceptance and the node's configuration** (`account_evaluator.cpp`,
  `crosschain_record_evaluate.cpp`).

  An evaluator returns early on a node without a handle, and some also on a node whose clock
  is late.  The checks behind such a return are made by some nodes only.  Where the handle
  itself has nothing to object (`Approves`), what is left of them are checks of the chain
  state (`LocalChecks`): all nodes agree about an operation that passes these.  Up to the
  checkpoint most operations are not evaluated at all, and all nodes agree about them.
-/
import HyperExchange.NodeHandles

namespace HyperExchange.Crosschain

open Keyed Fees Option

variable {H : Type} {reg : Registry}

/-- A node without handles. -/
def plainNode : NodeConfig := ⟨fun _ => none, false⟩

/-! ### Deposits and results -/

/-- `get_asset` finds the asset of a symbol. -/
def Context.AssetKnown (ctx : Context reg H) (symbol : Text) : Prop :=
  ((ctx.getAsset symbol).bind ctx.assets).isSome

def Context.LinkTrxValid (ctx : Context reg H) (h : Handle) (v1 : Bool) (trx : HdTrx) : Prop :=
  if Text.holds trx.assetSymbol erc then
    ∀ a ∈ (ctx.getAsset trx.assetSymbol).bind ctx.assets,
      h.validateLinkTrx { trx with assetSymbol := trx.assetSymbol ++ '|' :: a.description } = true
  else if v1 then h.validateLinkTrxV1 trx = true
  else h.validateLinkTrx trx = true

theorem validateLinkTrx_of_valid {ctx : Context reg H} {h : Handle} {v1 : Bool} {trx : HdTrx}
    (hvalid : ctx.LinkTrxValid h v1 trx) :
    ctx.validateLinkTrx h v1 trx =
      ((ctx.getAsset trx.assetSymbol).bind ctx.assets).map fun _ => () := by
  simp only [Context.validateLinkTrx, Context.LinkTrxValid] at hvalid ⊢
  cases hid : ctx.getAsset trx.assetSymbol with
  | none => rfl
  | some id =>
    cases ha : ctx.assets id with
    | none => simp [ha]
    | some a =>
      rw [hid] at hvalid
      simp only [bind_some, ha, map_some]
      split
      · rfl
      split
      · next herc =>
        rw [if_pos herc] at hvalid
        exact fcAssert_eq_some.2 (hvalid a ha)
      · next herc =>
        rw [if_neg herc] at hvalid
        split
        · next hv1 =>
          rw [if_pos hv1] at hvalid
          exact fcAssert_eq_some.2 hvalid
        · next hv1 =>
          rw [if_neg hv1] at hvalid
          exact fcAssert_eq_some.2 hvalid

/-! ### Batches -/

section Batches

variable (ctx : Context reg H) (t : CrosschainTrxIndex H) (o : WithdrawWithoutSign)

def readWithdrawal (id : TrxId) : Option (CrosschainWithdraw H × Asset) := do
  let r ← t.find id
  fcAssert (r.realTransaction.operations.length = 1)
  let w ← r.realTransaction.first.bind Operation.getWithdraw
  let amount ← accounted ctx w
  some (w, amount)

def tallyLocal (fee : Int) : List TrxId → Table Tally.account → Option (Table Tally.account)
  | [], m => some m
  | id :: ids, m => do
    let p ← readWithdrawal ctx t id
    let m ← addTally (crosschainAccount ctx o p.1) p.2 fee m
    tallyLocal fee ids m

def Pays (created : CrosschainTrx) (account symbol : Text) : Prop :=
  ∃ one ∈ created.trxs.find account, one.2.toAccount = account ∧ one.2.assetSymbol = symbol

variable {ctx t o} {created : CrosschainTrx}

theorem tallyEach_eq_tallyLocal {fee : Int} {ids : List TrxId}
    (hpays : ∀ id ∈ ids, ∀ p ∈ readWithdrawal ctx t id,
      Pays created (crosschainAccount ctx o p.1) p.1.assetSymbol) (m : Table Tally.account) :
    tallyEach ctx t o created fee ids m = tallyLocal ctx t o fee ids m := by
  induction ids generalizing m with
  | nil => rfl
  | cons id ids ih =>
    have htail := ih fun i hi => hpays i (List.mem_cons_of_mem _ hi)
    have hhead := hpays id List.mem_cons_self
    simp only [tallyEach, tallyLocal, readWithdrawal, bind_eq_bind, bind_assoc] at hhead ⊢
    cases hr : t.find id with
    | none => rfl
    | some r =>
      rw [hr] at hhead
      simp only [bind_some] at hhead ⊢
      by_cases hone : r.realTransaction.operations.length = 1
      · rw [fcAssert, if_pos hone, bind_some, bind_some]
        rw [fcAssert, if_pos hone, bind_some] at hhead
        cases hfirst : r.realTransaction.first with
        | none => rfl
        | some op =>
        cases hw : op.getWithdraw with
        | none => simp only [bind_some, hw, bind_none]
        | some w =>
          simp only [hfirst, hw, bind_some] at hhead ⊢
          cases hamount : accounted ctx w with
          | none => simp
          | some amount =>
            rw [hamount] at hhead
            obtain ⟨one, hfind, hto, hsymbol⟩ := hhead (w, amount) rfl
            rw [hfind, bind_some, fcAssert, if_pos hto, bind_some, fcAssert,
              if_pos hsymbol]
            simp only [bind_some]
            cases addTally (crosschainAccount ctx o w) amount fee m with
            | none => rfl
            | some m' => exact htail m'
      · rw [fcAssert, if_neg hone]
        rfl

def AmountsAgree (ctx : Context reg H) (o : WithdrawWithoutSign) (id : Nat)
    (created : CrosschainTrx) (m : Table Tally.account) : Prop :=
  m.rows.length = created.trxs.rows.length ∧
    ∃ crossFee ∈ ctx.amountFromString o.assetId (created.feeText (reg.precision o.assetId)),
    ∃ totalAmount ∈ m.rows.foldlM (fun (sum : Int) (b : Tally) => do
      let trx ← created.trxs.find b.account
      let paid ← ctx.amountFromString id trx.2.amount
      fcAssert (b.balance.amount = paid.amount + b.fees)
      share (sum + b.balance.amount)) 0,
    ∃ totalOpAmount ∈ created.trxs.rows.foldlM (fun (sum : Int) (p : Text × HdTrx) => do
      let paid ← ctx.amountFromString o.assetId p.2.amount
      share (sum + paid.amount)) 0,
    totalAmount = totalOpAmount + o.crosschainFee.amount + crossFee.amount

theorem checkAmounts_iff {id : Nat} {a : AssetObject} {u : Unit} :
    checkAmounts ctx t o id a created = some u ↔
      ∃ m, tallyEach ctx t o created a.feePool o.ccwTrxIds .empty = some m ∧
        AmountsAgree ctx o id created m ∧ 0 ≤ o.crosschainFee.amount := by
  simp only [checkAmounts, AmountsAgree, bind_eq_bind, bind_eq_some_iff,
    fcAssert_eq_some, mem_def]
  constructor
  · rintro ⟨m, hm, _, hlen, crossFee, hfee, total, htotal, totalOp, htotalOp, _, hpos, heq⟩
    exact ⟨m, hm, ⟨hlen, crossFee, hfee, total, htotal, totalOp, htotalOp, heq⟩, hpos⟩
  · rintro ⟨m, hm, ⟨hlen, crossFee, hfee, total, htotal, totalOp, htotalOp, heq⟩, hpos⟩
    exact ⟨m, hm, (), hlen, crossFee, hfee, total, htotal, totalOp, htotalOp, (), hpos, heq⟩

/-- The account that a USDT transaction brings the change to, once its form is checked. -/
def usdtChange (ctx : Context reg H) (created : CrosschainTrx) : Option Text := do
  fcAssert (created.trxs.rows.length = 1)
  let trx ← created.trxs.rows.head?
  let parts := splitBar trx.2.fromAccount
  fcAssert (1 < parts.length ∧ parts.length ≤ 3)
  fcAssert (parts.head? ≠ some ['-'])
  let outputs := parts.drop 1
  fcAssert (∀ p ∈ outputs, ',' ∈ p ∧ ctx.usdtAmount ((p.dropWhile (· ≠ ',')).drop 1) ≠ .none)
  let isDust := fun p : Text => decide (ctx.usdtAmount ((p.dropWhile (· ≠ ',')).drop 1) = .dust)
  fcAssert (outputs.countP isDust = 1)
  some (((outputs.filter fun p => !isDust p).getLast?.map fun p => p.takeWhile (· ≠ ',')).getD [])

def UsdtLocal (ctx : Context reg H) (o : WithdrawWithoutSign) (change : Text) : Prop :=
  o.ccwTrxIds.length = 1 ∧
    (change ≠ [] → (ctx.getMultisgiAccount change o.assetSymbol).isSome)

theorem evaluateUsdt_of_local {change : Text} (hchange : usdtChange ctx created = some change)
    (hlocal : UsdtLocal ctx o change) : evaluateUsdt ctx o created = some () := by
  have hsplit : evaluateUsdt ctx o created = (fcAssert (o.ccwTrxIds.length = 1)).bind fun _ =>
      (usdtChange ctx created).bind fun change =>
        if change = [] then some () else (ctx.getMultisgiAccount change o.assetSymbol).bind
          fun _ => some () := by
    simp only [evaluateUsdt, usdtChange, bind_eq_bind, bind_assoc, bind_some]
  rw [hsplit, hchange, fcAssert, if_pos hlocal.1, bind_some, bind_some]
  by_cases hempty : change = []
  · exact if_pos hempty
  · obtain ⟨account, haccount⟩ := isSome_iff_exists.1 (hlocal.2 hempty)
    rw [if_neg hempty, haccount]
    rfl

end Batches

/-! ### What the handle and what the chain checks -/

section Checks

variable (v : ChainObjects reg H) (h : NodeHandle) (trx : SignedTransaction H) (s : State H)

def createdFor (o : WithdrawWithoutSign) : Option CrosschainTrx :=
  ((v.ctx.getAsset o.assetSymbol).bind v.ctx.assets).bind fun a =>
    h.turnTrxs (sourceForm o a.description) o.withdrawSourceTrx

def batchTally (o : WithdrawWithoutSign) : Option (Table Tally.account) :=
  ((v.ctx.getAsset o.assetSymbol).bind v.ctx.assets).bind fun a =>
    tallyLocal v.ctx s.trxs o a.feePool o.ccwTrxIds .empty

/-- The handle's own checks succeed, and the amounts it decodes agree with the operation. -/
def Approves : HandledOperation H → Prop
  | .accountBind o => h.validateSignature o.tunnelAddress o.tunnelAddress o.tunnelSignature = true
  | .accountUnbind o => h.validateSignature o.tunnelAddress o.tunnelAddress o.tunnelSignature = true
  | .crosschainRecord o =>
    v.ctx.LinkTrxValid h.toHandle (decide (220000 ≤ v.ctx.headBlockNum)) o.crossChainTrx
  | .crosschainWithdraw o => h.validateAddress o.crosschainAccount = true
  | .withdrawWithoutSign o =>
    ∀ id ∈ v.ctx.getAsset o.assetSymbol, (v.ctx.assets id).isSome →
      ∃ created ∈ createdFor v h o,
        (∀ w ∈ o.ccwTrxIds, ∀ p ∈ readWithdrawal v.ctx s.trxs w,
          Pays created (crosschainAccount v.ctx o p.1) p.1.assetSymbol) ∧
        (∀ m ∈ batchTally v s o, AmountsAgree v.ctx o id created m) ∧
        (o.assetSymbol = usdt → (usdtChange v.ctx created).isSome)
  | .withdrawWithSign o =>
    ∃ account ∈ ChainObjects.fromAccount h o, ∀ key ∈ v.senatorKey o account,
      ∀ scripts ∈ key.redeemScripts, ∀ r ∈ s.trxs.find o.ccwTrxId,
        ∀ text ∈ v.signedText o r.realTransaction, ChainObjects.signedWith h key scripts text
  | .withdrawResult r => v.ctx.LinkTrxValid h.toHandle false r

def LocalChecks : HandledOperation H → Prop
  | .accountBind _ => True
  -- the tunnel address is bound, to this account or to another
  | .accountUnbind o => v.ctx.bindings.any o.ofTunnel = true
  | .crosschainRecord o => v.ctx.AssetKnown o.crossChainTrx.assetSymbol
  | .crosschainWithdraw o =>
    trx.operations.length = 1 ∧
      ∃ a ∈ v.ctx.assets o.assetId, ∃ amount ∈ v.ctx.amountFromString o.assetId o.amount,
        if 480000 < v.ctx.headBlockNum ∧ Text.holds (reg.symbol o.assetId) erc then
          a.withdrawLimition < amount.amount
        else a.withdrawLimition ≤ amount.amount
  | .withdrawWithoutSign o =>
    (batchTally v s o).isSome ∧ 0 ≤ o.crosschainFee.amount ∧
      (o.assetSymbol = usdt → ∀ created ∈ createdFor v h o, ∀ change ∈ usdtChange v.ctx created,
        UsdtLocal v.ctx o change)
  | .withdrawWithSign o =>
    ∀ account ∈ ChainObjects.fromAccount h o, ∀ r ∈ s.trxs.find o.ccwTrxId,
      (∃ key ∈ v.senatorKey o account, key.redeemScripts.isSome) ∧
        (v.signedText o r.realTransaction).isSome
  | .withdrawResult r => v.ctx.AssetKnown r.assetSymbol

end Checks

/-- The operation is evaluated at this height. -/
def HandledOperation.Evaluated (headBlockNum : Nat) : HandledOperation H → Prop
  | .withdrawResult _ => True
  | _ => checkPointBlock < headBlockNum

/-! ### A node with a handle compared with one without -/

/-- A node that checks more agrees if the check passes whenever the rest does. -/
theorem same_of_check {e e' p : Option Unit} (heval : e' = e.bind fun _ => p)
    (hpass : e = some () → p = some ()) : e' = e := by
  rw [heval]
  cases e with
  | none => rfl
  | some u => exact hpass rfl

/-- The check is left out on a node whose clock is late. -/
theorem same_of_late {e e' p : Option Unit} {late : Bool}
    (heval : e' = e.bind fun _ => if late then some () else p)
    (hpass : e = some () → p = some ()) : e' = e := by
  refine same_of_check heval fun he => ?_
  split
  · rfl
  · exact hpass he

section Operations

variable {v : ChainObjects reg H} {h : NodeHandle} {n : NodeConfig}
  {trx : SignedTransaction H} {s : State H} {u : Unit}

/-- The handle's part of deposits and results: the asset has to be known. -/
theorem withHandle_link {symbol : Text} {v1 : Bool} {r : HdTrx} (hn : n.handle symbol = some h)
    (hvalid : v.ctx.LinkTrxValid h.toHandle v1 r) (hknown : v.ctx.AssetKnown r.assetSymbol) :
    ((v.contextOn n).withHandle symbol fun h => (v.contextOn n).validateLinkTrx h v1 r) =
      some () := by
  have hvalid' : (v.contextOn n).LinkTrxValid h.toHandle v1 r := hvalid
  obtain ⟨a, ha⟩ := isSome_iff_exists.1 hknown
  have ha' : ((v.contextOn n).getAsset r.assetSymbol).bind (v.contextOn n).assets = some a := ha
  have hlink := validateLinkTrx_of_valid hvalid'
  rw [ha'] at hlink
  have hhandle : (v.contextOn n).handle symbol = some h.toHandle := by
    simp only [ChainObjects.contextOn, hn, map_some]
  rw [Context.withHandle, hhandle]
  exact hlink

/-- What a withdrawal is checked for behind the early return, the handle's answer apart. -/
def limitCheck (ctx : Context reg H) (trx : SignedTransaction H) (o : CrosschainWithdraw H) :
    Option Unit := do
  let a ← ctx.assets o.assetId
  fcAssert (trx.operations.length = 1)
  let amount ← ctx.amountFromString o.assetId o.amount
  if 480000 < ctx.headBlockNum ∧ Text.holds (reg.symbol o.assetId) erc then
    fcAssert (a.withdrawLimition < amount.amount)
  else fcAssert (a.withdrawLimition ≤ amount.amount)

theorem withdraw_same {o : CrosschainWithdraw H} (hn : n.handle o.assetSymbol = some h)
    (happ : Approves v h s (.crosschainWithdraw o))
    (hlocal : LocalChecks v h trx s (.crosschainWithdraw o)) :
    evaluateWithdraw (v.contextOn n) trx s o =
      evaluateWithdraw (v.contextOn plainNode) trx s o := by
  have hvalid : h.validateAddress o.crosschainAccount = true := happ
  have heval : evaluateWithdraw (v.contextOn n) trx s o =
      (evaluateWithdraw (v.contextOn plainNode) trx s o).bind fun _ => limitCheck v.ctx trx o := by
    simp only [evaluateWithdraw, limitCheck, Context.withHandle, ChainObjects.contextOn, hn,
      map_some, hvalid, plainNode, map_none, bind_eq_bind, bind_assoc]
    cases v.ctx.assets o.assetId with
    | none => rfl
    | some a => simp [fcAssert]; rfl
  refine same_of_check heval fun _ => ?_
  obtain ⟨hone, a, ha, amount, hamount, hlimit⟩ := hlocal
  simp only [limitCheck, mem_def.1 ha, fcAssert, hone, mem_def.1 hamount, bind_eq_bind, bind_some,
    if_true]
  split
  · next herc =>
    rw [if_pos herc] at hlimit
    exact if_pos hlimit
  · next herc =>
    rw [if_neg herc] at hlimit
    exact if_pos hlimit

def batchCheck (ctx : Context reg H) (s : State H) (h : Handle) (o : WithdrawWithoutSign) :
    Option Unit :=
  (ctx.getAsset o.assetSymbol).bind fun id => (ctx.assets id).bind fun a => do
    let created ← h.turnTrxs (sourceForm o a.description) o.withdrawSourceTrx
    if o.assetSymbol = usdt then evaluateUsdt ctx o created else some ()
    checkAmounts ctx s.trxs o id a created

variable {o : WithdrawWithoutSign}

theorem evaluateWithoutSign_asset {ctx : Context reg H}
    (h : evaluateWithoutSign ctx trx s o = some u) :
    ∃ id, ctx.getAsset o.assetSymbol = some id ∧ ∃ a, ctx.assets id = some a := by
  simp only [evaluateWithoutSign, bind_eq_bind, bind_eq_some_iff] at h
  obtain ⟨id, hid, a, ha, _⟩ := h
  exact ⟨id, hid, a, ha⟩

theorem tallyLocal_contextOn {t : CrosschainTrxIndex H} {fee : Int}
    (ids : List TrxId) (m : Table Tally.account) :
    tallyLocal (v.contextOn n) t o fee ids m = tallyLocal v.ctx t o fee ids m := by
  induction ids generalizing m with
  | nil => rfl
  | cons id ids ih =>
    simp only [tallyLocal, ih]
    rfl

theorem batchCheck_of_local {id : Nat} {a : AssetObject}
    (hid : v.ctx.getAsset o.assetSymbol = some id) (ha : v.ctx.assets id = some a)
    (happ : Approves v h s (.withdrawWithoutSign o))
    (hlocal : LocalChecks v h trx s (.withdrawWithoutSign o)) :
    batchCheck (v.contextOn n) s h.toHandle o = some () := by
  have hasset : (v.ctx.getAsset o.assetSymbol).bind v.ctx.assets = some a := by
    rw [hid]
    exact ha
  obtain ⟨created, hcreated, hpays, hagree, hform⟩ := happ id hid (by rw [ha]; rfl)
  obtain ⟨htallied, hpos, husdt⟩ := hlocal
  obtain ⟨m, hm⟩ := isSome_iff_exists.1 htallied
  have hturn : h.turnTrxs (sourceForm o a.description) o.withdrawSourceTrx = some created := by
    have hcreated' : createdFor v h o = some created := hcreated
    rwa [createdFor, hasset, bind_some] at hcreated'
  have htally : tallyEach (v.contextOn n) s.trxs o created a.feePool o.ccwTrxIds .empty =
      some m := by
    have hpays' : ∀ w ∈ o.ccwTrxIds, ∀ p ∈ readWithdrawal (v.contextOn n) s.trxs w,
        Pays created (crosschainAccount (v.contextOn n) o p.1) p.1.assetSymbol := hpays
    rw [tallyEach_eq_tallyLocal hpays', tallyLocal_contextOn]
    rwa [batchTally, hasset, bind_some] at hm
  have hamounts : checkAmounts (v.contextOn n) s.trxs o id a created = some () :=
    checkAmounts_iff.2 ⟨m, htally, hagree m hm, hpos⟩
  have hid' : (v.contextOn n).getAsset o.assetSymbol = some id := hid
  have ha' : (v.contextOn n).assets id = some a := ha
  simp only [batchCheck, hid', ha', bind_some, hturn, bind_eq_bind]
  split
  · next hsymbol =>
    obtain ⟨change, hchange⟩ := isSome_iff_exists.1 (hform hsymbol)
    have hchange' : usdtChange (v.contextOn n) created = some change := hchange
    rw [evaluateUsdt_of_local hchange' (husdt hsymbol created hcreated change hchange), bind_some]
    exact hamounts
  · exact hamounts

theorem withoutSign_same (hn : n.handle o.assetSymbol = some h)
    (happ : Approves v h s (.withdrawWithoutSign o))
    (hlocal : LocalChecks v h trx s (.withdrawWithoutSign o)) :
    evaluateWithoutSign (v.contextOn n) trx s o =
      evaluateWithoutSign (v.contextOn plainNode) trx s o := by
  have heval : evaluateWithoutSign (v.contextOn n) trx s o =
      (evaluateWithoutSign (v.contextOn plainNode) trx s o).bind fun _ =>
        if n.late then some () else batchCheck (v.contextOn n) s h.toHandle o := by
    simp only [evaluateWithoutSign, batchCheck, Context.withHandle, ChainObjects.contextOn, hn,
      map_some, plainNode, map_none, bind_eq_bind, bind_assoc]
    cases hid : v.ctx.getAsset o.assetSymbol with
    | none => rfl
    | some id =>
      simp only [bind_some]
      cases v.ctx.assets id with
      | none | some => rfl
  refine same_of_late heval fun hplain => ?_
  obtain ⟨id, hid, a, ha⟩ := evaluateWithoutSign_asset hplain
  exact batchCheck_of_local hid ha happ hlocal

variable {o : WithdrawWithSign H}

theorem evaluateWithSign_record {ctx : Context reg H}
    (h : evaluateWithSign ctx trx s o = some u) : ∃ r, s.trxs.find o.ccwTrxId = some r := by
  simp only [evaluateWithSign, bind_eq_bind, bind_eq_some_iff] at h
  obtain ⟨r, hr, _⟩ := h
  exact ⟨r, hr⟩

/-- What is left of the check of a signature that the handle approves. -/
theorem checkSign_of_local {r : CrosschainTrxObject H}
    (hr : s.trxs.find o.ccwTrxId = some r) (happ : Approves v h s (.withdrawWithSign o))
    (hlocal : LocalChecks v h trx s (.withdrawWithSign o)) :
    (v.checkSign h o r.realTransaction).isSome := by
  obtain ⟨account, haccount, hsigned⟩ := happ
  have haccount' : ChainObjects.fromAccount h o = some account := haccount
  obtain ⟨⟨key, hkey, hscripts⟩, htext⟩ := hlocal account haccount r hr
  obtain ⟨scripts, hscripts⟩ := isSome_iff_exists.1 hscripts
  obtain ⟨text, htext⟩ := isSome_iff_exists.1 htext
  have hsign := hsigned key hkey scripts hscripts r hr text htext
  simp only [ChainObjects.checkSign, haccount', mem_def.1 hkey, hscripts, htext, bind_eq_bind,
    bind_some, fcAssert, if_pos hsign]
  rfl

theorem withSign_same (hn : n.handle o.assetSymbol = some h)
    (happ : Approves v h s (.withdrawWithSign o))
    (hlocal : LocalChecks v h trx s (.withdrawWithSign o)) :
    evaluateWithSign (v.contextOn n) trx s o =
      evaluateWithSign (v.contextOn plainNode) trx s o := by
  have heval : evaluateWithSign (v.contextOn n) trx s o =
      (evaluateWithSign (v.contextOn plainNode) trx s o).bind fun _ =>
        if n.late then some () else (s.trxs.find o.ccwTrxId).bind fun r =>
          fcAssert ((v.checkSign h o r.realTransaction).isSome = true) := by
    simp only [evaluateWithSign, Context.withHandle, ChainObjects.contextOn, hn, map_some,
      plainNode, map_none, bind_eq_bind, bind_assoc, all_some]
    cases s.trxs.find o.ccwTrxId with
    | none | some => rfl
  refine same_of_late heval fun hplain => ?_
  obtain ⟨r, hr⟩ := evaluateWithSign_record hplain
  rw [hr, bind_some, fcAssert_eq_some]
  exact checkSign_of_local hr happ hlocal

/-! ### Deposits, results and tunnel bindings -/

variable [DecidableEq H]

theorem record_same {o : CrosschainRecord H}
    (hn : n.handle o.crossChainTrx.assetSymbol = some h)
    (happ : Approves v h s (.crosschainRecord o))
    (hlocal : LocalChecks v h trx s (.crosschainRecord o)) :
    evaluateRecord (v.contextOn n) s o = evaluateRecord (v.contextOn plainNode) s o := by
  refine same_of_check ?_ fun _ => withHandle_link hn happ hlocal
  simp only [evaluateRecord, bind_eq_bind, bind_assoc]
  rfl

omit [DecidableEq H] in
theorem result_same {r : HdTrx} (hn : n.handle r.assetSymbol = some h)
    (happ : Approves v h s (.withdrawResult r))
    (hlocal : LocalChecks v h trx s (.withdrawResult r)) :
    evaluateResult (v.contextOn n) s r = evaluateResult (v.contextOn plainNode) s r := by
  refine same_of_check ?_ fun _ => withHandle_link hn happ hlocal
  simp only [evaluateResult, bind_eq_bind, bind_assoc]
  rfl

variable {o : AccountBind H} (hn : n.handle o.crosschainType = some h)
include hn

omit [DecidableEq H] in
theorem withSignature_of_valid {rest : Option Unit}
    (hvalid : h.validateSignature o.tunnelAddress o.tunnelAddress o.tunnelSignature = true) :
    o.withSignature n rest = rest := by
  simp only [AccountBind.withSignature, hn, hvalid, fcAssert, if_true]
  split <;> rfl

variable [Inhabited H] (hhead : checkPointBlock < v.ctx.headBlockNum)
include hhead

/-- Without the checks the unique indices of the objects still reject the binding. -/
theorem bind_same (happ : Approves v h s (.accountBind o)) :
    outcome v n trx s (.accountBind o) = outcome v plainNode trx s (.accountBind o) := by
  have heval : o.evaluateBind n v.ctx.bindings = (do
      fcAssert (v.ctx.bindings.any o.ofAccount = false)
      fcAssert (v.ctx.bindings.any o.ofTunnel = false)) := withSignature_of_valid hn happ
  have hplain : o.evaluateBind plainNode v.ctx.bindings = some () := rfl
  simp only [outcome, evaluateAbove_of_lt hhead, heval, hplain, bind_some, AccountBind.applyBind]
  cases v.ctx.bindings.any o.ofAccount <;> cases v.ctx.bindings.any o.ofTunnel <;> rfl

theorem unbind_same (happ : Approves v h s (.accountUnbind o))
    (hlocal : LocalChecks v h trx s (.accountUnbind o)) :
    outcome v n trx s (.accountUnbind o) = outcome v plainNode trx s (.accountUnbind o) := by
  have heval : o.evaluateUnbind n v.ctx.bindings = (do
      fcAssert (v.ctx.bindings.any o.ofAccount = true)
      fcAssert (v.ctx.bindings.any o.ofTunnel = true)) := withSignature_of_valid hn happ
  have hplain : o.evaluateUnbind plainNode v.ctx.bindings = some () := rfl
  have htunnel : v.ctx.bindings.any o.ofTunnel = true := hlocal
  simp only [outcome, evaluateAbove_of_lt hhead, heval, hplain, htunnel, bind_some,
    AccountBind.applyUnbind]
  cases v.ctx.bindings.any o.ofAccount <;> rfl

end Operations

/-! ### Three nodes -/

section Nodes

variable [DecidableEq H] [Inhabited H] {v : ChainObjects reg H} {h : NodeHandle} {n : NodeConfig}
  {trx : SignedTransaction H} {s : State H} {op : HandledOperation H}

/-- A node without a handle for the chain is a plain node. -/
theorem outcome_of_none (hn : n.handle op.symbol = none) :
    outcome v n trx s op = outcome v plainNode trx s op := by
  cases op
  all_goals simp only [HandledOperation.symbol] at hn
  case accountBind o =>
    simp only [outcome, AccountBind.evaluateBind, AccountBind.withSignature, hn, plainNode]
  case accountUnbind o =>
    simp only [outcome, AccountBind.evaluateUnbind, AccountBind.withSignature, hn, plainNode]
  all_goals
    simp only [outcome, applyOperation, evaluateOperation, evaluateRecord, evaluateWithdraw,
      evaluateWithoutSign, evaluateWithSign, evaluateResult, Context.withHandle,
      ChainObjects.contextOn, hn, plainNode, map_none]
    rfl

theorem outcome_unevaluated (hhead : ¬op.Evaluated v.ctx.headBlockNum) :
    outcome v n trx s op = outcome v plainNode trx s op := by
  cases op with
  | withdrawResult r => exact absurd trivial hhead
  | accountBind o | accountUnbind o =>
    simp only [outcome, evaluateAbove_of_le (Nat.le_of_not_lt hhead)]
  | _ =>
    have hle : ∀ m : NodeConfig, (v.contextOn m).headBlockNum ≤ checkPointBlock :=
      fun _ => Nat.le_of_not_lt hhead
    simp only [outcome, applyOperation, Operation.alwaysEvaluated, evaluateAbove_of_le (hle _)]
    rfl

/-- **Case lemma**, one case for each kind of operation. -/
theorem outcome_same (hn : n.handle op.symbol = some h) (happ : Approves v h s op)
    (hlocal : op.Evaluated v.ctx.headBlockNum → LocalChecks v h trx s op) :
    outcome v n trx s op = outcome v plainNode trx s op := by
  by_cases hhead : op.Evaluated v.ctx.headBlockNum
  · have hlocal := hlocal hhead
    have hcongr : ∀ {op : Operation H}, op.ownFee = none →
        doApply (v.contextOn n) trx s op = doApply (v.contextOn plainNode) trx s op →
        evaluateOperation (v.contextOn n) trx s op =
          evaluateOperation (v.contextOn plainNode) trx s op →
        (applyOperation (v.contextOn n) trx s op).map (v.ctx.bindings, ·) =
          (applyOperation (v.contextOn plainNode) trx s op).map (v.ctx.bindings, ·) := by
      intro op hfee hdo heval
      simp only [applyOperation, prepareFee, hfee, hdo, heval]
      rfl
    cases op with
    | accountBind o => exact bind_same hn hhead happ
    | accountUnbind o => exact unbind_same hn hhead happ hlocal
    | crosschainRecord o => exact hcongr rfl rfl (record_same hn happ hlocal)
    | crosschainWithdraw o => exact hcongr rfl rfl (withdraw_same hn happ hlocal)
    | withdrawWithoutSign o => exact hcongr rfl rfl (withoutSign_same hn happ hlocal)
    | withdrawWithSign o => exact hcongr rfl rfl (withSign_same hn happ hlocal)
    | withdrawResult r => exact hcongr rfl rfl (result_same hn happ hlocal)
  · exact outcome_unevaluated hhead

/-- A node with the handle and a right clock, one without the handle and one whose clock is
    late do the same with the operation. -/
def NodesAgree (v : ChainObjects reg H) (h : NodeHandle) (trx : SignedTransaction H) (s : State H)
    (op : HandledOperation H) : Prop :=
  ∀ configured unconfigured lateNode : NodeConfig,
    configured.handle op.symbol = some h → configured.late = false →
    unconfigured.handle op.symbol = none →
    lateNode.handle op.symbol = some h → lateNode.late = true →
    outcome v configured trx s op = outcome v unconfigured trx s op ∧
      outcome v lateNode trx s op = outcome v unconfigured trx s op

end Nodes

/-! ### Two operations -/

def sampleObjects : ChainObjects sampleRegistry Bool where
  ctx := sampleContext
  getMultiAccountSenator := fun _ _ => some [⟨0, [], [], some ([], [])⟩]
  accountByAddress := fun _ => some 0
  toJson := fun _ => []

def sampleNodeHandle : NodeHandle where
  toHandle := sampleHandle
  validateSignature := fun _ _ _ => true
  getFromAddress := fun _ => some ['m']
  validateTransaction := fun _ _ _ => true

def sampleWithdrawal (amount : Text) : CrosschainWithdraw Bool :=
  ⟨sampleUser, amount, eth, 1, ['a']⟩

end HyperExchange.Crosschain
