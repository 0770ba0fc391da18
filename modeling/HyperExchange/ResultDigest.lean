/-
  **The digest of the result of a contract** (`contract_invoke_result::ordered_digest` in
  `contract.cpp`; `do_apply` and `apply_storage_change` in `contract_evaluate.cpp`).

  A block has, for each operation on a contract, the digest of its result, the result of the
  called function and the gas count.  The events, the flag that the execution succeeded and
  the fee are not in the digest, and neither is a contract whose set of changes is empty.
  So two results with one digest have the same maps and changes (`SameContent.of_digest`);
  what is left open is whether the result is applied at all, and the events.
-/
import Mathlib.Data.Countable.Basic
import Mathlib.Data.String.Basic
import Mathlib.Logic.Equiv.List
import HyperExchange.GasAccounting
import HyperExchange.TransferConservation

namespace HyperExchange.Transfers

open Fees OrderedMap List Option

variable {H : Type} [LinearOrder (Address H)]

/-! ### Results -/

/-- `StorageDataType` -/
abbrev StorageData : Type := List UInt8

/-- `StorageDataChangeType` -/
structure StorageDataChange where
  storageDiff : StorageData
  before : StorageData
  after : StorageData

/-- `contract_event_notify_info` -/
structure EventNotify (H : Type) where
  contractAddress : Address H
  eventName : String
  eventArg : String
  callerAddr : String
  blockNum : Nat
  opNum : Nat

/-- `contract_invoke_result`; the contracts are named by the text of their address. -/
structure ContractResult (H : Type) [LinearOrder (Address H)] extends InvokeResult H where
  apiResult : String
  storageChanges : OMap String (OMap String StorageDataChange)
  events : List (EventNotify H)
  acctualFee : Int

/-! ### The digest -/

inductive JsonScalar where
  | str (s : String)
  | int (n : Int)

abbrev JsonItem : Type := List JsonScalar

/-- `result_array`: the result of the function, and then arrays of items. -/
abbrev ResultArray : Type := String × List (List JsonItem)

/-- Hash, JSON and texts; `sha256` gives the text of the hash. -/
structure Encoding (H : Type) where
  sha256 : List UInt8 → String
  jsonDumps : ResultArray → List UInt8
  addressText : Address H → String
  /-- `fc::json::to_string` of an asset -/
  assetText : Nat → String

/-- No two values have the same text. -/
structure Encoding.Faithful (E : Encoding H) : Prop where
  sha256_inj : Function.Injective E.sha256
  jsonDumps_inj : Function.Injective E.jsonDumps
  addressText_inj : Function.Injective E.addressText
  assetText_inj : Function.Injective E.assetText

/-- The number of the object `1.3.n`. -/
def assetNumber (n : Nat) : Nat := 2 ^ 56 + 3 * 2 ^ 48 + n

namespace Encoding

variable (E : Encoding H)

def storageItem (contractId : String) (change : String × StorageDataChange) : JsonItem :=
  [.str contractId, .str change.1, .str (E.sha256 change.2.after),
    .str (E.sha256 change.2.storageDiff)]

def storageItems (changes : OMap String (OMap String StorageDataChange)) : List JsonItem :=
  changes.entries.flatMap fun contract => contract.2.entries.map (E.storageItem contract.1)

def amountItem (e : Key H × Int) : JsonItem :=
  [.str (E.addressText (ofLex e.1).1), .int (assetNumber (ofLex e.1).2), .int e.2]

def feeItem (e : Nat × Int) : JsonItem := [.str (E.assetText e.1), .int e.2]

def resultArray (r : ContractResult H) : ResultArray :=
  (r.apiResult, [E.storageItems r.storageChanges, r.contractWithdraw.entries.map E.amountItem,
    r.contractBalances.entries.map E.amountItem, r.depositToAddress.entries.map E.amountItem,
    r.depositContract.entries.map E.amountItem, r.transferFees.entries.map E.feeItem])

/-- `ordered_digest` -/
def orderedDigest (r : ContractResult H) : String := E.sha256 (E.jsonDumps (E.resultArray r))

end Encoding

/-! ### Applying a result -/

structure StorageDiffRecord (H τ : Type) where
  trxId : τ
  contract : Address H
  name : String
  diff : StorageData

structure EventRecord (H τ : Type) where
  trxId : τ
  contract : Address H
  eventName : String
  eventArg : String
  blockNum : Nat
  opNum : Nat

/-- What the results of contracts change.  The indices are ordered by the hash of the
    address; `changedAt` has the block of the last change. -/
structure ContractState (H τ : Type) where
  ledger : Ledger H
  hasContract : H → Bool
  storage : H → String → Option StorageData
  storageDiffs : List (StorageDiffRecord H τ)
  changedAt : H → Option Nat
  events : List (EventRecord H τ)

/-- The operation of a transaction of which the result is, and how its fee is paid. -/
structure Application (H τ : Type) where
  operation : ContractOperation H
  native : Bool
  trxId : τ
  blockNum : Nat
  ifStore : Bool
  request : GasRequest
  payer : Address H
  guaranteeId : Option Nat
  testing : Bool
  /-- the address of a text, if it is one -/
  addressOf : String → Option (Address H)
  /-- what `do_apply` does before: the contract has to be there, or is stored -/
  prepare : ContractState H τ → Option (ContractState H τ)

namespace Application

variable [DecidableEq H] {τ : Type} (a : Application H τ)

/-- `set_contract_storage` and `add_contract_storage_change` -/
def setContractStorage (contract : Address H) (s : ContractState H τ)
    (change : String × StorageData × StorageData) : Option (ContractState H τ) :=
  if s.hasContract contract.addr then
    some { s with
      storage := fun c name =>
        if c = contract.addr ∧ name = change.1 then some change.2.1 else s.storage c name
      storageDiffs := if a.ifStore
        then s.storageDiffs ++ [⟨a.trxId, contract, change.1, change.2.2⟩] else s.storageDiffs }
  else none

def changeContract (s : ContractState H τ)
    (contract : String × List (String × StorageData × StorageData)) :
    Option (ContractState H τ) :=
  (a.addressOf contract.1).bind fun addr => contract.2.foldlM (a.setContractStorage addr) s

def written (changes : OMap String (OMap String StorageDataChange)) :
    List (String × List (String × StorageData × StorageData)) :=
  changes.entries.map fun contract =>
    (contract.1, contract.2.entries.map fun c => (c.1, c.2.after, c.2.storageDiff))

/-- `store_contract_storage_change_obj` for every contract that is named. -/
def noteChanged (contracts : List String) (s : ContractState H τ) : ContractState H τ :=
  { s with
    changedAt := fun c =>
      if c ∈ contracts.filterMap fun id => (a.addressOf id).map Address.addr
      then some a.blockNum else s.changedAt c }

variable (r : ContractResult H)

/-- `apply_storage_change` -/
def applyStorageChange (s : ContractState H τ) : Option (ContractState H τ) :=
  ((written r.storageChanges).foldlM a.changeContract s).map
    (a.noteChanged ((written r.storageChanges).map Prod.fst))

/-- `do_apply_contract_event_notifies` -/
def applyEvents (s : ContractState H τ) : ContractState H τ :=
  { s with
    events := s.events ++ r.events.map fun e =>
      ⟨a.trxId, e.contractAddress, e.eventName, e.eventArg, e.blockNum, e.opNum⟩ }

variable [Inhabited H]

/-- `do_apply` -/
def applyResult (r : ContractResult H) (s : ContractState H τ) : Option (ContractState H τ) :=
  if r.execSucceed then
    (a.prepare s).bind fun s => (a.applyStorageChange r s).bind fun s =>
      let s := a.applyEvents r s
      (doApply a.operation a.native r.toInvokeResult s.ledger).map fun l => { s with ledger := l }
  else some s

/-- The fee of the operation; `unspent_fee` is what `acctual_fee` leaves of it. -/
def charge : FeeCharge H :=
  ⟨a.payer, a.request.fee, a.guaranteeId, true, a.testing,
    some (a.request.call (.stored r.acctualFee r.transferFees.entries))⟩

/-- `apply`: the result, the fee and the transfer fees. -/
def apply (r : ContractResult H) (s : ContractState H τ) : Option (ContractState H τ) :=
  (a.applyResult r s).bind fun s =>
    ((a.charge r).apply some s.ledger).map fun l => { s with ledger := l }

/-- The fee in the result is what an evaluation of the operation with this gas count left. -/
def ChargedFor (gas : Nat) (r : ContractResult H) : Prop :=
  ∃ run refund, a.request.Settled run gas refund ∧ r.acctualFee = a.request.fee.amount - refund

end Application

def ContractState.withoutEvents {τ : Type} (s : ContractState H τ) : ContractState H τ :=
  { s with events := [] }

/-! ### What the digest fixes -/

/-- The parts of two results that are applied, but for the events, the fee and the flag. -/
structure SameContent (r r' : ContractResult H) : Prop where
  apiResult : r.apiResult = r'.apiResult
  contractWithdraw : r.contractWithdraw = r'.contractWithdraw
  contractBalances : r.contractBalances = r'.contractBalances
  depositToAddress : r.depositToAddress = r'.depositToAddress
  depositContract : r.depositContract = r'.depositContract
  transferFees : r.transferFees = r'.transferFees
  changes : Application.written r.storageChanges = Application.written r'.storageChanges

def ContractResult.NoEmptyChanges (r : ContractResult H) : Prop :=
  ∀ contract ∈ r.storageChanges.entries, contract.2.entries ≠ []

namespace Encoding

variable {E : Encoding H}

variable (hE : E.Faithful)
include hE

omit [LinearOrder (Address H)] in
theorem Faithful.amountItem_inj : Function.Injective E.amountItem := by
  intro x y h
  simp only [amountItem, assetNumber, List.cons.injEq, JsonScalar.str.injEq, JsonScalar.int.injEq,
    and_true] at h
  obtain ⟨haddr, hasset, hamount⟩ := h
  have hkey : ofLex x.1 = ofLex y.1 := Prod.ext (hE.addressText_inj haddr) (by omega)
  exact Prod.ext (ofLex.injective hkey) hamount

omit [LinearOrder (Address H)] in
theorem Faithful.feeItem_inj : Function.Injective E.feeItem := by
  intro x y h
  simp only [feeItem, List.cons.injEq, JsonScalar.str.injEq, JsonScalar.int.injEq, and_true] at h
  exact Prod.ext (hE.assetText_inj h.1) h.2

def writtenItem (E : Encoding H) (change : String × String × StorageData × StorageData) :
    JsonItem :=
  [.str change.1, .str change.2.1, .str (E.sha256 change.2.2.1), .str (E.sha256 change.2.2.2)]

omit [LinearOrder (Address H)] in
theorem Faithful.writtenItem_inj : Function.Injective E.writtenItem := by
  intro x y h
  simp only [writtenItem, List.cons.injEq, JsonScalar.str.injEq, and_true] at h
  obtain ⟨hcontract, hname, hafter, hdiff⟩ := h
  exact Prod.ext hcontract
    (Prod.ext hname (Prod.ext (hE.sha256_inj hafter) (hE.sha256_inj hdiff)))

omit [LinearOrder (Address H)] hE in
theorem storageItems_eq (changes : OMap String (OMap String StorageDataChange)) :
    E.storageItems changes = (ungroup (Application.written changes)).map E.writtenItem := by
  simp only [storageItems, ungroup, Application.written, flatMap_map, map_flatMap,
    List.map_map]
  rfl

omit [LinearOrder (Address H)] in
/-- Names are part of every item, so the flat list can be grouped again. -/
theorem Faithful.written_eq {changes changes' : OMap String (OMap String StorageDataChange)}
    (hne : ∀ c ∈ changes.entries, c.2.entries ≠ [])
    (hne' : ∀ c ∈ changes'.entries, c.2.entries ≠ [])
    (h : E.storageItems changes = E.storageItems changes') : Application.written changes =
    Application.written changes' := by
  have hsorted : ∀ m : OMap String (OMap String StorageDataChange),
      (Application.written m).Pairwise fun x y => x.1 < y.1 := by
    intro m
    exact pairwise_map.mpr m.sorted
  have hfull : ∀ m : OMap String (OMap String StorageDataChange),
      (∀ c ∈ m.entries, c.2.entries ≠ []) → ∀ g ∈ Application.written m, g.2 ≠ [] := by
    intro m hm g hg
    obtain ⟨c, hc, rfl⟩ := List.mem_map.mp hg
    exact fun hempty => hm c hc (map_eq_nil_iff.mp hempty)
  rw [storageItems_eq, storageItems_eq] at h
  exact ungroup_inj (hsorted changes) (hsorted changes') (hfull changes hne) (hfull changes' hne')
    (map_injective_iff.mpr hE.writtenItem_inj h)

end Encoding

theorem SameContent.of_digest {E : Encoding H} (hE : E.Faithful) {r r' : ContractResult H}
    (hne : r.NoEmptyChanges) (hne' : r'.NoEmptyChanges)
    (h : E.orderedDigest r = E.orderedDigest r') : SameContent r r' := by
  have harray := hE.jsonDumps_inj (hE.sha256_inj h)
  simp only [Encoding.resultArray, Prod.mk.injEq, List.cons.injEq, and_true] at harray
  obtain ⟨hapi, hstorage, hwithdraw, hbalances, haddress, hcontract, hfees⟩ := harray
  have hamounts : ∀ {m m' : OMap (Key H) Int},
      m.entries.map E.amountItem = m'.entries.map E.amountItem → m = m' :=
    fun hmap => OMap.ext_entries (map_injective_iff.mpr hE.amountItem_inj hmap)
  exact ⟨hapi, hamounts hwithdraw, hamounts hbalances, hamounts haddress, hamounts hcontract,
    OMap.ext_entries (map_injective_iff.mpr hE.feeItem_inj hfees),
    hE.written_eq hne hne' hstorage⟩

/-! ### Results with the same content -/

namespace Application

variable {τ : Type} {a : Application H τ} {r r' : ContractResult H}

theorem ChargedFor.acctualFee_eq {gas : Nat} (h : a.ChargedFor gas r) (h' : a.ChargedFor gas r') :
    r.acctualFee = r'.acctualFee := by
  obtain ⟨run, refund, hsettled, hfee⟩ := h
  obtain ⟨run', refund', hsettled', hfee'⟩ := h'
  rw [hfee, hfee', hsettled.refund_of_gas, hsettled'.refund_of_gas]

variable [DecidableEq H] [Inhabited H]

/-- Events apart, the effect depends on what the digest covers and on the flag. -/
theorem applyResult_same (h : SameContent r r') (hflag : r.execSucceed = r'.execSucceed)
    (s : ContractState H τ) :
    (a.applyResult r s).map ContractState.withoutEvents =
      (a.applyResult r' s).map ContractState.withoutEvents := by
  unfold applyResult
  rw [← hflag]
  split
  · cases a.prepare s with
    | none => rfl
    | some s =>
      rw [bind_some, bind_some, applyStorageChange, h.changes, ← applyStorageChange]
      cases a.applyStorageChange r' s with
      | none => rfl
      | some s =>
        rw [bind_some, bind_some]
        dsimp only [applyEvents]
        rw [Option.map_map, Option.map_map]
        simp only [doApply, doApplyBalance, h.depositContract, h.contractWithdraw,
          h.depositToAddress, hflag]
        rfl
  · rfl

theorem apply_withoutEvents (s : ContractState H τ) :
    (a.apply r s).map ContractState.withoutEvents =
      ((a.applyResult r s).map ContractState.withoutEvents).bind fun s =>
        ((a.charge r).apply some s.ledger).map fun l => { s with ledger := l } := by
  unfold apply
  cases a.applyResult r s with
  | none => rfl
  | some s =>
    rw [bind_some, map_some, bind_some, Option.map_map]
    rfl

/-- **One digest, one effect, up to the flag and the events.** -/
theorem effect_of_digest {E : Encoding H} (hE : E.Faithful) {gas : Nat}
    (hne : r.NoEmptyChanges) (hne' : r'.NoEmptyChanges)
    (hdigest : E.orderedDigest r = E.orderedDigest r') (hgas : a.ChargedFor gas r)
    (hgas' : a.ChargedFor gas r') (hflag : r.execSucceed = r'.execSucceed)
    (s : ContractState H τ) :
    (a.apply r s).map ContractState.withoutEvents =
      (a.apply r' s).map ContractState.withoutEvents := by
  have hcontent := SameContent.of_digest hE hne hne' hdigest
  rw [apply_withoutEvents, apply_withoutEvents, applyResult_same hcontent hflag]
  unfold charge
  rw [hcontent.transferFees, hgas.acctualFee_eq hgas']

end Application

/-! ### Sample results -/

theorem exists_injective_of_countable (α β : Type) [Countable α] [Infinite β] :
    ∃ f : α → β, Function.Injective f := by
  obtain ⟨f, hf⟩ := exists_injective_nat α
  exact ⟨_, (Infinite.natEmbedding β).injective.comp hf⟩

theorem Encoding.exists_faithful : ∃ E : Encoding Nat, E.Faithful := by
  have hbyte : Countable UInt8 := Function.Injective.countable fun _ _ => UInt8.toNat_inj.mp
  have hchar : Countable Char :=
    Function.Injective.countable fun c d (h : c.val.toNat = d.val.toNat) =>
      Char.val_inj.mp (UInt32.toNat_inj.mp h)
  have hstring : Countable String := Function.Injective.countable fun _ _ => String.toList_inj.mp
  have hscalar : Countable JsonScalar := by
    let f : JsonScalar → String ⊕ Int := fun
      | .str s => .inl s
      | .int n => .inr n
    refine Function.Injective.countable (f := f) ?_
    rintro (s | n) (t | m) h
    · exact congrArg JsonScalar.str (Sum.inl.inj h)
    · cases h
    · cases h
    · exact congrArg JsonScalar.int (Sum.inr.inj h)
  have haddress : Countable (Address Nat) :=
    Function.Injective.countable (f := fun x : Address Nat => (x.version, x.addr))
      fun ⟨_, _⟩ ⟨_, _⟩ h => by
        cases h
        rfl
  obtain ⟨sha256, hsha256⟩ := exists_injective_of_countable (List UInt8) String
  obtain ⟨jsonDumps, hjsonDumps⟩ := exists_injective_of_countable ResultArray (List UInt8)
  obtain ⟨addressText, haddressText⟩ := exists_injective_of_countable (Address Nat) String
  obtain ⟨assetText, hassetText⟩ := exists_injective_of_countable Nat String
  exact ⟨⟨sha256, jsonDumps, addressText, assetText⟩,
    ⟨hsha256, hjsonDumps, haddressText, hassetText⟩⟩

def sampleState : ContractState Nat Nat :=
  ⟨sampleLedger, fun c => c == 2, fun _ _ => none, [], fun _ => none, []⟩

/-- A call of the contract, with a fee of ten units for up to a thousand gas. -/
def sampleCall : Application Nat Nat where
  operation := .invoke
  native := false
  trxId := 7
  blockNum := 4
  ifStore := true
  request := ⟨.invoke, false, ⟨10, coreAsset⟩, 1, 1000, by decide⟩
  payer := sampleCaller
  guaranteeId := none
  testing := false
  addressOf := fun text => if text = "contract" then some sampleContract else none
  prepare := some

/-- The contract pays three units to the third address and stores a byte; the value before
    is not in the digest. -/
def samplePaying (before : StorageData) : ContractResult Nat where
  contractWithdraw := OMap.empty.insert (key sampleContract 0) 3
  contractBalances := OMap.empty.insert (key sampleContract 0) 10
  depositToAddress := OMap.empty.insert (key ⟨Address.normal, 3⟩ 0) 3
  depositContract := .empty
  transferFees := .empty
  execSucceed := true
  apiResult := "paid"
  storageChanges := OMap.empty.insert "contract" (OMap.empty.insert "n" ⟨[1], before, [1]⟩)
  events := []
  acctualFee := 5

/-- An event is emitted, and the byte replaces another one. -/
def sampleEmitting : ContractResult Nat :=
  { samplePaying [2] with events := [⟨sampleContract, "Paid", "3", "caller", 4, 0⟩] }

/-- The same maps, but the execution has failed. -/
def sampleFailing : ContractResult Nat := { samplePaying [] with execSucceed := false }

/-- The same maps, but the whole fee is kept. -/
def sampleCostly : ContractResult Nat := { samplePaying [] with acctualFee := 10 }

/-- The same payment without a single change, for the contracts that are named. -/
def sampleUnchanged (contracts : List String) : ContractResult Nat :=
  { samplePaying [] with
    storageChanges := contracts.foldl (fun m contract => m.insert contract .empty) .empty }

theorem sample_effect_of_digest : ∃ E : Encoding Nat, E.Faithful ∧
    E.orderedDigest (samplePaying []) = E.orderedDigest sampleEmitting ∧
    (sampleCall.apply (samplePaying []) sampleState).map ContractState.withoutEvents =
      (sampleCall.apply sampleEmitting sampleState).map ContractState.withoutEvents := by
  obtain ⟨E, hE⟩ := Encoding.exists_faithful
  have hsettled : sampleCall.request.Settled (.executed 500) 500 5 := .fresh (by decide +kernel)
  have hne : ∀ before, (samplePaying before).NoEmptyChanges := fun _ =>
    forall_mem_singleton.mpr (cons_ne_nil _ _)
  exact ⟨E, hE, rfl, Application.effect_of_digest hE (hne []) (hne [2]) rfl ⟨_, _, hsettled, rfl⟩
    ⟨_, _, hsettled, rfl⟩ rfl sampleState⟩

/-- What can be seen of an application: spendable amounts of the three, the fees collected,
    and the number of events. -/
def observed (s : Option (ContractState Nat Nat)) : Option (List Int × Nat) :=
  s.map fun s => ([s.ledger.spendable 1 0, s.ledger.spendable 2 0, s.ledger.spendable 3 0,
    s.ledger.collected 0], s.events.length)

/-- The events, the success and the fee of a result are not in its digest, and neither is a
    contract that is named without a change, for which a change is noted. -/
theorem digest_leaves_open : (∀ E : Encoding Nat,
      E.orderedDigest (samplePaying []) = E.orderedDigest sampleEmitting ∧
      E.orderedDigest (samplePaying []) = E.orderedDigest sampleFailing ∧
      E.orderedDigest (samplePaying []) = E.orderedDigest sampleCostly ∧
      E.orderedDigest (sampleUnchanged []) = E.orderedDigest (sampleUnchanged ["contract"])) ∧
    observed (sampleCall.apply (samplePaying []) sampleState) = some ([5, 7, 3, 5], 0) ∧
    observed (sampleCall.apply sampleEmitting sampleState) = some ([5, 7, 3, 5], 1) ∧
    observed (sampleCall.apply sampleFailing sampleState) = some ([5, 10, 0, 5], 0) ∧
    observed (sampleCall.apply sampleCostly sampleState) = some ([0, 7, 3, 10], 0) ∧
    (sampleCall.apply (sampleUnchanged []) sampleState).map (·.changedAt 2) = some none ∧
    (sampleCall.apply (sampleUnchanged ["contract"]) sampleState).map (·.changedAt 2) =
      some (some 4) :=
  ⟨fun _ => ⟨rfl, rfl, rfl, rfl⟩, by decide +kernel, by decide +kernel, by decide +kernel,
    by decide +kernel, by decide +kernel, by decide +kernel⟩

end HyperExchange.Transfers
