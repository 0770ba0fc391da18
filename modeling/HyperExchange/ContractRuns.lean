/-
  **Transactions with contract operations, and the store of their results**
  (`db_block.cpp`, `contract_evaluate.cpp`, `db_contract_trx.cpp`, `Cached_levelDb`).

  Executing a contract is a parameter (`Engine.execute`).  The evaluators first ask the store
  of results, and take a stored result as it is unless it is empty (`maybe_invalid`); a
  result that was executed is stored.  An operation is a contract operation, an undertaker
  with the operations it wraps, or any other one.  A block lists the transactions with their
  results, and the core fees they paid.

  The store is keyed by the id of the transaction and the number of the operation.  Writes
  and deletions are collected in memory and flushed now and then; undo does not touch them.
  Next to the results of a transaction lies a marker, under the common beginning of their
  keys, and `contract_packed` deletes what has that beginning if it finds the marker.
-/
import Mathlib.Data.Char
import HyperExchange.OrderedMap
import HyperExchange.Execution

namespace HyperExchange.Contracts

open OrderedMap Execution List Option OMap

section

/-! ### `Cached_levelDb` -/

abbrev Key := List Char

/-- No key is in both parts of the cache. -/
structure CachedLevelDb (V : Type) where
  cacheStore : OMap Key V
  cacheDelete : List Key
  levelDb : OMap Key V
  disjoint : ∀ k ∈ cacheDelete, cacheStore.find k = none

namespace CachedLevelDb

variable {V : Type}

def empty : CachedLevelDb V := ⟨.empty, [], .empty, by rintro k ⟨⟩⟩

variable (db : CachedLevelDb V)

def get (k : Key) : Option V :=
  match db.cacheStore.find k with
  | some v => some v
  | none =>
    match db.levelDb.find k with
    | none => none
    | some v => if k ∈ db.cacheDelete then none else some v

def put (k : Key) (v : V) (db : CachedLevelDb V) : CachedLevelDb V where
  cacheStore := db.cacheStore.insert k v
  cacheDelete := db.cacheDelete.filter fun k' => decide (k' ≠ k)
  levelDb := db.levelDb
  disjoint := by
    intro k' hk'
    obtain ⟨hmem, hne⟩ := mem_filter.mp hk'
    simp only [decide_eq_true_eq] at hne
    rw [find_insert, if_neg hne]
    exact db.disjoint k' hmem

def delete (k : Key) (db : CachedLevelDb V) : CachedLevelDb V where
  cacheStore := db.cacheStore.erase k
  cacheDelete := k :: db.cacheDelete.filter fun k' => decide (k' ≠ k)
  levelDb := db.levelDb
  disjoint := by
    intro k' hk'
    rw [find_erase]
    rcases mem_cons.mp hk' with rfl | hk'
    · rw [if_pos rfl]
    · obtain ⟨hmem, hne⟩ := mem_filter.mp hk'
      simp only [decide_eq_true_eq] at hne
      rw [if_neg hne]
      exact db.disjoint k' hmem

def flush : CachedLevelDb V where
  cacheStore := .empty
  cacheDelete := []
  levelDb := (db.levelDb.insertAll db.cacheStore).eraseAll db.cacheDelete
  disjoint := by rintro k ⟨⟩

/-- `GetToDelete` -/
def getToDelete (p : Key) (db : CachedLevelDb V) : List Key :=
  (scanAfter p db.cacheStore).map Prod.fst ++
    ((scanFrom p db.levelDb).map Prod.fst).filter fun k =>
      decide (k ≠ p) && !(decide (k ∈ db.cacheDelete) || (db.cacheStore.find k).isSome)

def deleteAll (l : List Key) (db : CachedLevelDb V) : CachedLevelDb V :=
  l.foldl (fun db k => db.delete k) db

/-! ### What a key reads as -/

theorem get_put (k : Key) (v : V) (db : CachedLevelDb V) (k' : Key) :
    (db.put k v).get k' = if k' = k then some v else db.get k' := by
  simp only [get, put, find_insert]
  by_cases hk : k' = k
  · simp only [if_pos hk]
  · have hmem : k' ∈ db.cacheDelete.filter (fun k' => decide (k' ≠ k)) ↔ k' ∈ db.cacheDelete := by
      simp [hk]
    simp only [if_neg hk, hmem]

theorem get_delete (k : Key) (db : CachedLevelDb V) (k' : Key) :
    (db.delete k).get k' = if k' = k then none else db.get k' := by
  simp only [get, delete, find_erase]
  by_cases hk : k' = k
  · subst hk
    simp only [if_true, mem_cons, true_or]
    split <;> rfl
  · have hmem : k' ∈ k :: db.cacheDelete.filter (fun k' => decide (k' ≠ k)) ↔
        k' ∈ db.cacheDelete := by
      simp [hk]
    simp only [if_neg hk, hmem]

/-- Flushing is not seen by readers. -/
theorem get_flush (k : Key) : db.flush.get k = db.get k := by
  simp only [get, flush, find_empty, find_eraseAll, find_insertAll,
    not_mem_nil, if_false]
  by_cases hk : k ∈ db.cacheDelete
  · rw [if_pos hk, db.disjoint k hk]
    simp only [if_pos hk]
    split <;> rfl
  · rw [if_neg hk]
    cases hs : db.cacheStore.find k with
    | some v => rfl
    | none => simp only [none_or, if_neg hk]

theorem get_deleteAll (l : List Key) (db : CachedLevelDb V) (k : Key) :
    (db.deleteAll l).get k = if k ∈ l then none else db.get k := by
  induction l generalizing db with
  | nil => rfl
  | cons d l ih =>
    rw [deleteAll, foldl_cons]
    refine (ih (db.delete d)).trans ?_
    rw [get_delete]
    by_cases hl : k ∈ l
    · rw [if_pos hl, if_pos (mem_cons_of_mem d hl)]
    · by_cases hk : k = d
      · rw [if_neg hl, if_pos hk, if_pos (hk ▸ mem_cons_self)]
      · rw [if_neg hl, if_neg hk, if_neg (not_mem_cons_of_ne_of_not_mem hk hl)]

/-- What `GetToDelete` comes by. -/
def scan (p : Key) (db : CachedLevelDb V) : List (Key × V) :=
  scanAfter p db.cacheStore ++ (scanFrom p db.levelDb).filter fun e =>
    decide (e.1 ≠ p) && !(decide (e.1 ∈ db.cacheDelete) || (db.cacheStore.find e.1).isSome)

variable (p : Key)

theorem getToDelete_eq (db : CachedLevelDb V) : db.getToDelete p = (db.scan p).map Prod.fst := by
  rw [getToDelete, scan, map_append, List.filter_map]
  rfl

/-- `GetToDelete`, when it is not asked for the keys. -/
def getToDeleteValues (p : Key) (db : CachedLevelDb V) : List V := (db.scan p).map Prod.snd

/-- The scan finds every key with the beginning `p` that can be read, but `p` itself. -/
theorem mem_scan (db : CachedLevelDb V) (k : Key) (v : V) : (k, v) ∈ db.scan p ↔ p <+: k ∧ k ≠ p ∧
    db.get k = some v := by
  simp only [scan, scanAfter_eq, scanFrom_eq, mem_append, mem_filter, mem_entries_iff,
    Bool.and_eq_true, isPrefixOf_iff_prefix, decide_eq_true_eq, Bool.not_eq_true',
    Bool.or_eq_false_iff, decide_eq_false_iff_not, get]
  cases hs : db.cacheStore.find k with
  | some w =>
    simp
    tauto
  | none =>
    cases db.levelDb.find k with
    | none => simp
    | some w =>
      by_cases hk : k ∈ db.cacheDelete
      · simp [hk]
      · simp [hk]
        tauto

/-- Every key that goes on from `p` and has a value, wherever it is kept. -/
theorem mem_getToDelete (db : CachedLevelDb V) (k : Key) : k ∈ db.getToDelete p ↔ p <+: k ∧ k ≠ p ∧
    (db.get k).isSome = true := by
  simp only [getToDelete_eq, List.mem_map, Prod.exists, exists_and_right, exists_eq_right,
    mem_scan, isSome_iff_exists, exists_and_left]

theorem nodup_entries (m : OMap Key V) : m.entries.Nodup := by
  refine List.Pairwise.imp ?_ m.sorted
  rintro x y hlt rfl
  exact lt_irrefl _ hlt

theorem nodup_scan (db : CachedLevelDb V) : (db.scan p).Nodup := by
  rw [scan, scanAfter_eq, scanFrom_eq, nodup_append]
  refine ⟨(nodup_entries _).filter _, ((nodup_entries _).filter _).filter _, ?_⟩
  rintro ⟨k, v⟩ hstore _ hlevel rfl
  rw [mem_filter, mem_entries_iff] at hstore
  simp [hstore.1] at hlevel

inductive StoreCall (V : Type) where
  | put (k : Key) (v : V)
  | delete (k : Key)
  | flush (written : Bool)

/-- A batch that is not written leaves the cache as it is. -/
def call : StoreCall V → CachedLevelDb V
  | .put k v => db.put k v
  | .delete k => db.delete k
  | .flush written => if written then db.flush else db

def mapCall (m : OMap Key V) : StoreCall V → OMap Key V
  | .put k v => m.insert k v
  | .delete k => m.erase k
  | .flush _ => m

/-- **The cache is a map.**  After any calls on a fresh cache over any database a key reads as
    it does in the map with the same calls, and `GetToDelete` gives out the keys, or the values,
    of the entries whose key extends the prefix, each once. -/
theorem cache_is_map (calls : List (StoreCall V)) (m : OMap Key V) :
    let db := calls.foldl call ⟨.empty, [], m, by rintro k ⟨⟩⟩
    let m' := calls.foldl mapCall m
    (∀ k, db.get k = m'.find k) ∧ ∀ p,
      let found := m'.entries.filter fun e => p.isPrefixOf e.1 && decide (e.1 ≠ p)
      (db.getToDelete p).Perm (found.map Prod.fst) ∧
        (db.getToDeleteValues p).Perm (found.map Prod.snd) := by
  intro db m'
  have hget : ∀ (calls : List (StoreCall V)) (db : CachedLevelDb V) (m : OMap Key V),
      (∀ k, db.get k = m.find k) →
      ∀ k, (calls.foldl call db).get k = (calls.foldl mapCall m).find k := by
    intro calls
    induction calls with
    | nil => exact fun _ _ h => h
    | cons c calls ih =>
      refine fun db m h => ih (db.call c) (mapCall m c) fun k => ?_
      cases c with
      | put k' v =>
        rw [call, mapCall, get_put, find_insert, h]
        split <;> rfl
      | delete k' =>
        rw [call, mapCall, get_delete, find_erase, h]
        split <;> rfl
      | flush written =>
        rw [call, mapCall]
        split
        · rw [get_flush, h]
        · exact h k
  have hsame : ∀ k, db.get k = m'.find k := by
    refine hget calls _ m fun k => ?_
    simp only [get, find_empty, not_mem_nil, if_false]
    cases m.find k <;> rfl
  refine ⟨hsame, fun p => ?_⟩
  have hfound : (db.scan p).Perm
      (m'.entries.filter fun e => p.isPrefixOf e.1 && decide (e.1 ≠ p)) := by
    refine (perm_ext_iff_of_nodup (nodup_scan p db) ((nodup_entries m').filter _)).mpr ?_
    rintro ⟨k, v⟩
    rw [mem_scan, hsame, mem_filter, mem_entries_iff]
    simp only [Bool.and_eq_true, isPrefixOf_iff_prefix, decide_eq_true_eq]
    tauto
  rw [getToDelete_eq]
  exact ⟨hfound.map _, hfound.map _⟩

end CachedLevelDb

/-! ### Keys -/

/-- `transaction_id_type`, by its text: forty hexadecimal digits. -/
structure TransactionId where
  text : List Char
  length_text : text.length = 40
deriving DecidableEq

def invokeResultKey (id : TransactionId) : Key := id.text ++ "|invoke_result|".toList

def storageDiffKey (id : TransactionId) : Key := id.text ++ "|storage_diff_object|".toList

def resultKey (id : TransactionId) (opNum : Nat) : Key :=
  invokeResultKey id ++ Nat.toDigits 10 opNum

def diffKey (id : TransactionId) (name : List Char) : Key := storageDiffKey id ++ name

variable {id id' : TransactionId}

theorem TransactionId.eq_of_append {k k' : Key} (h : id.text ++ k = id'.text ++ k') :
    id = id' ∧ k = k' := by
  obtain ⟨htext, hk⟩ := append_inj h (id.length_text.trans id'.length_text.symm)
  cases id
  cases id'
  cases htext
  exact ⟨rfl, hk⟩

theorem TransactionId.eq_of_begins {k k' : Key} (h : (id.text ++ k) <+: (id'.text ++ k')) :
    id = id' ∧ k <+: k' := by
  obtain ⟨t, ht⟩ := h
  rw [append_assoc] at ht
  obtain ⟨hid, hk⟩ := TransactionId.eq_of_append ht
  exact ⟨hid, t, hk⟩

/-- No two results share a key: ids have a fixed length. -/
theorem resultKey_inj {n n' : Nat} (h : resultKey id n = resultKey id' n') : id = id' ∧ n = n' := by
  simp only [resultKey, invokeResultKey, append_assoc] at h
  obtain ⟨hid, hk⟩ := TransactionId.eq_of_append h
  have hdigits := congrArg (fun l => Nat.ofDigitChars 10 l 0) (append_cancel_left hk)
  simp only [Nat.ofDigitChars_ten_toDigits] at hdigits
  exact ⟨hid, hdigits⟩

theorem resultKey_ne_marker (id id' : TransactionId) (n : Nat) :
    resultKey id n ≠ invokeResultKey id' := by
  intro h
  have hlen := congrArg List.length h
  simp only [resultKey, invokeResultKey, length_append, id.length_text, id'.length_text] at hlen
  have hpos : 0 < (Nat.toDigits 10 n).length := Nat.length_toDigits_pos
  omega

theorem resultKey_of_begins {n : Nat} (h : invokeResultKey id <+: resultKey id' n) : id = id' := by
  rw [resultKey, invokeResultKey, invokeResultKey, append_assoc] at h
  exact (TransactionId.eq_of_begins h).1

theorem storageDiff_not_begins (id id' : TransactionId) (k : Key) :
    ¬ storageDiffKey id <+: invokeResultKey id' ++ k := by
  intro h
  rw [storageDiffKey, invokeResultKey, append_assoc] at h
  obtain ⟨t, ht⟩ := (TransactionId.eq_of_begins h).2
  have hsecond := congrArg (fun l => l[1]?) ht
  simp at hsecond

/-- Storage changes and results are kept apart by what their keys begin with. -/
theorem diffKey_ne_resultKey (id id' : TransactionId) (name : List Char) (n : Nat) :
    resultKey id' n ≠ diffKey id name := by
  intro h
  refine storageDiff_not_begins id id' (Nat.toDigits 10 n) ⟨name, ?_⟩
  exact h.symm

theorem diffKey_ne_marker (id id' : TransactionId) (name : List Char) :
    invokeResultKey id' ≠ diffKey id name := by
  intro h
  refine storageDiff_not_begins id id' [] ⟨name, ?_⟩
  rw [append_nil]
  exact h.symm

/-! ### Contract results -/

/-- What is stored: the marker of a transaction's results (with the number of the operation
    that was stored first) and the results, the marker of its storage changes and these. -/
inductive Entry (R : Type) where
  | opNum (n : Nat)
  | result (r : R)
  | storageDiffObject
  | storageDiff (diff : List Char)

abbrev ContractDb (R : Type) := CachedLevelDb (Entry R)

namespace ContractDb

variable {R : Type} {db : ContractDb R}

/-- `get_contract_invoke_result` -/
def results (db : ContractDb R) (id : TransactionId) (opNum : Nat) : Option R :=
  match db.get (resultKey id opNum) with
  | some (.result r) => some r
  | _ => none

def putMarked (marker : Key) (m : Entry R) (k : Key) (e : Entry R) (db : ContractDb R) :
    ContractDb R :=
  (if (db.get marker).isSome then db else db.put marker m).put k e

def storeInvokeResult (id : TransactionId) (opNum : Nat) (r : R) : ContractDb R → ContractDb R :=
  putMarked (invokeResultKey id) (.opNum opNum) (resultKey id opNum) (.result r)

def removeContractInvokeResult (id : TransactionId) (opNum : Nat) (db : ContractDb R) :
    ContractDb R :=
  db.delete (resultKey id opNum)

def addContractStorageChange (id : TransactionId) (name diff : List Char) :
    ContractDb R → ContractDb R :=
  putMarked (storageDiffKey id) .storageDiffObject (diffKey id name) (.storageDiff diff)

/-- `contract_packed` -/
def contractPacked (id : TransactionId) (db : ContractDb R) : ContractDb R :=
  if (db.get (invokeResultKey id)).isSome then
    db.deleteAll (db.getToDelete (invokeResultKey id) ++ db.getToDelete (storageDiffKey id))
  else db

theorem get_putMarked (marker : Key) (m : Entry R) (k : Key) (e : Entry R) (db : ContractDb R)
    (k' : Key) : (putMarked marker m k e db).get k' = if k' = k then some e
      else if k' = marker ∧ db.get marker = none then some m else db.get k' := by
  rw [putMarked, CachedLevelDb.get_put]
  cases hget : db.get marker with
  | none =>
    simp only [isSome_none, Bool.false_eq_true, if_false, CachedLevelDb.get_put, and_true]
  | some v => simp

def Marked (db : ContractDb R) : Prop :=
  ∀ id n, (db.get (resultKey id n)).isSome = true → (db.get (invokeResultKey id)).isSome = true

theorem get_contractPacked_resultKey (hm : db.Marked) (id id' : TransactionId) (n : Nat) :
    (db.contractPacked id).get (resultKey id' n) =
      if id' = id then none else db.get (resultKey id' n) := by
  rw [contractPacked]
  split
  · next hmark =>
    rw [CachedLevelDb.get_deleteAll]
    have hscan :
        resultKey id' n ∈
          db.getToDelete (invokeResultKey id) ++ db.getToDelete (storageDiffKey id) ↔
            id' = id ∧ (db.get (resultKey id' n)).isSome = true := by
      rw [mem_append, CachedLevelDb.mem_getToDelete, CachedLevelDb.mem_getToDelete]
      constructor
      · rintro (⟨hpre, _, hsome⟩ | ⟨hpre, _, _⟩)
        · exact ⟨(resultKey_of_begins hpre).symm, hsome⟩
        · exact absurd hpre (storageDiff_not_begins id id' _)
      · rintro ⟨rfl, hsome⟩
        exact Or.inl ⟨prefix_append _ _, resultKey_ne_marker _ _ n, hsome⟩
    simp only [hscan]
    by_cases hid : id' = id
    · cases hget : db.get (resultKey id' n) with
      | none => simp
      | some e => simp [hid]
    · simp [hid]
  · next hmark =>
    by_cases hid : id' = id
    · subst hid
      rw [if_pos rfl]
      cases hget : db.get (resultKey id' n) with
      | none => rfl
      | some e =>
        have := hm id' n (by rw [hget]; rfl)
        exact absurd this hmark
    · rw [if_neg hid]

theorem get_contractPacked_marker (db : ContractDb R) (id id' : TransactionId) :
    (db.contractPacked id).get (invokeResultKey id') = db.get (invokeResultKey id') := by
  rw [contractPacked]
  split
  · rw [CachedLevelDb.get_deleteAll, if_neg]
    rw [mem_append, CachedLevelDb.mem_getToDelete, CachedLevelDb.mem_getToDelete]
    rintro (⟨hpre, hne, _⟩ | ⟨hpre, _, _⟩)
    · refine hne ?_
      rw [invokeResultKey, invokeResultKey] at hpre ⊢
      rw [(TransactionId.eq_of_begins hpre).1]
    · refine storageDiff_not_begins id id' [] ?_
      rw [append_nil]
      exact hpre
  · rfl

/-! ### One rule per operation -/

variable (id : TransactionId)

theorem results_storeInvokeResult (n : Nat) (r : R) (db : ContractDb R)
    (id' : TransactionId) (n' : Nat) :
    (db.storeInvokeResult id n r).results id' n' =
      if id' = id ∧ n' = n then some r else db.results id' n' := by
  rw [results, storeInvokeResult, get_putMarked]
  by_cases hk : resultKey id' n' = resultKey id n
  · rw [if_pos hk, if_pos (resultKey_inj hk)]
  have hne : ¬ (id' = id ∧ n' = n) := by
    rintro ⟨rfl, rfl⟩
    exact hk rfl
  rw [if_neg hk, if_neg hne, if_neg fun h => resultKey_ne_marker id' id n' h.1]
  rfl

theorem results_removeContractInvokeResult (n : Nat) (db : ContractDb R)
    (id' : TransactionId) (n' : Nat) :
    (db.removeContractInvokeResult id n).results id' n' =
      if id' = id ∧ n' = n then none else db.results id' n' := by
  simp only [results, removeContractInvokeResult, CachedLevelDb.get_delete]
  by_cases hk : resultKey id' n' = resultKey id n
  · rw [if_pos hk, if_pos (resultKey_inj hk)]
  · have hne : ¬ (id' = id ∧ n' = n) := by
      rintro ⟨rfl, rfl⟩
      exact hk rfl
    rw [if_neg hk, if_neg hne]

theorem get_addContractStorageChange (name diff : List Char) (db : ContractDb R) {k : Key}
    (hk : ∀ name, k ≠ diffKey id name) :
    (db.addContractStorageChange id name diff).get k = db.get k := by
  have hmark : k ≠ storageDiffKey id := by
    have := hk []
    rwa [diffKey, append_nil] at this
  rw [addContractStorageChange, get_putMarked, if_neg (hk name), if_neg fun h => hmark h.1]

theorem results_addContractStorageChange (name diff : List Char) (db : ContractDb R)
    (id' : TransactionId) (n' : Nat) : (db.addContractStorageChange id name diff).results id' n' =
    db.results id' n' := by
  rw [results, get_addContractStorageChange id name diff db fun name =>
    diffKey_ne_resultKey id id' name n']
  rfl

/-- After `contract_packed` no result of the transaction is left, and all others are. -/
theorem results_contractPacked (hm : db.Marked) (id id' : TransactionId) (n : Nat) :
    (db.contractPacked id).results id' n =
      if id' = id then none else db.results id' n := by
  rw [results, get_contractPacked_resultKey hm]
  by_cases hid : id' = id
  · rw [if_pos hid, if_pos hid]
  · rw [if_neg hid, if_neg hid]
    rfl

/-! ### The caches that evaluation can produce -/

/-- What evaluating transactions and applying or popping blocks does to the store. -/
inductive CacheCall (R : Type) where
  | storeInvokeResult (id : TransactionId) (opNum : Nat) (r : R)
  | removeContractInvokeResult (id : TransactionId) (opNum : Nat)
  | addContractStorageChange (id : TransactionId) (name diff : List Char)
  | contractPacked (id : TransactionId)
  | flush

def call (db : ContractDb R) : CacheCall R → ContractDb R
  | .storeInvokeResult id n r => db.storeInvokeResult id n r
  | .removeContractInvokeResult id n => db.removeContractInvokeResult id n
  | .addContractStorageChange id name diff => db.addContractStorageChange id name diff
  | .contractPacked id => db.contractPacked id
  | .flush => CachedLevelDb.flush db

namespace Marked

variable {db : ContractDb R} (hm : db.Marked)
include hm

variable (id : TransactionId)

theorem storeInvokeResult (n : Nat) (r : R) : (db.storeInvokeResult id n r).Marked := by
  intro id' n' hsome
  rw [ContractDb.storeInvokeResult, get_putMarked] at hsome ⊢
  rw [if_neg (resultKey_ne_marker id id' n).symm]
  by_cases hid : id' = id
  · subst hid
    cases hget : db.get (invokeResultKey id') with
    | none | some => simp
  · have hk : resultKey id' n' ≠ resultKey id n := fun h => hid (resultKey_inj h).1
    rw [if_neg hk, if_neg fun h => resultKey_ne_marker id' id n' h.1] at hsome
    have hmark := hm id' n' hsome
    split
    · rfl
    · exact hmark

theorem removeContractInvokeResult (n : Nat) : (db.removeContractInvokeResult id n).Marked := by
  intro id' n' hsome
  rw [ContractDb.removeContractInvokeResult, CachedLevelDb.get_delete] at hsome ⊢
  rw [if_neg (resultKey_ne_marker id id' n).symm]
  split at hsome
  · cases hsome
  · exact hm id' n' hsome

theorem addContractStorageChange (name diff : List Char) :
    (db.addContractStorageChange id name diff).Marked := by
  intro id' n' hsome
  rw [get_addContractStorageChange id name diff db fun name => diffKey_ne_resultKey id id' name n']
    at hsome
  rw [get_addContractStorageChange id name diff db fun name => diffKey_ne_marker id id' name]
  exact hm id' n' hsome

theorem contractPacked : (db.contractPacked id).Marked := by
  intro id' n' hsome
  rw [get_contractPacked_resultKey hm] at hsome
  rw [get_contractPacked_marker]
  split at hsome
  · cases hsome
  · exact hm id' n' hsome

theorem flush : ContractDb.Marked db.flush := by
  intro id n hsome
  rw [CachedLevelDb.get_flush] at hsome ⊢
  exact hm id n hsome

/-- Every call of the cache leaves the markers in place. -/
theorem call (i : CacheCall R) : (db.call i).Marked := by
  cases i with
  | storeInvokeResult id n r => exact hm.storeInvokeResult id n r
  | removeContractInvokeResult id n => exact hm.removeContractInvokeResult id n
  | addContractStorageChange id name diff => exact hm.addContractStorageChange id name diff
  | contractPacked id => exact hm.contractPacked id
  | flush => exact hm.flush

end Marked

def Produced (db : ContractDb R) : Prop :=
  ReachableUnder (· = CachedLevelDb.empty) (fun _ _ => True) call db

theorem Produced.call (h : db.Produced) (i : CacheCall R) : (db.call i).Produced :=
  ReachableUnder.call h trivial

theorem Produced.marked (h : db.Produced) : db.Marked := by
  refine ReachableUnder.invariant Marked ?_ ?_ h
  · rintro db rfl id n hsome
    cases hsome
  · intro db i hm _
    exact hm.call i

end ContractDb

end

variable {D O X B R I A S : Type}

/-! ### Operations, transactions, blocks -/

inductive Op (O X : Type) where
  | contract (o : O)
  | other (x : X)
  | undertaker (x : X) (takerOp makerOp : List (Op O X))

/-- `is_contract_operation` -/
def Op.isContract : Op O X → Bool
  | .contract _ => true
  | _ => false

structure Transaction (O X B : Type) where
  id : TransactionId
  operations : List (Op O X)
  body : B

/-- The test in `_apply_block`; it does not look into undertakers. -/
def Transaction.relateContract (tx : Transaction O X B) : Bool := tx.operations.any Op.isContract

/-- `signed_block`; the transactions come with their `operation_results`. -/
structure Block (O X B I S : Type) where
  transactions : List (Transaction O X B × List I)
  trxfee : Int
  previousSecret : S

/-! ### The state -/

/-- The object database: the transactions known, the contract history, and the rest. -/
structure Objects (D A : Type) where
  db : D
  transactions : List TransactionId
  history : List (TransactionId × A)

/-- What a node works on while it evaluates; `opNum` and `results` are those of the current
    transaction. -/
structure State (D R I A : Type) extends Objects D A where
  cache : ContractDb R
  /-- `_total_collected_fees`, by asset -/
  collected : Nat → Int
  /-- `_current_contract_call_num` -/
  callNum : Nat
  /-- `_current_gas_in_block` -/
  gasInBlock : Int
  opNum : Nat
  results : List I

/-- Where in a block an operation is. -/
structure Place (S : Type) where
  secretKey : S
  trxInBlock : Nat
  opInTrx : Nat

/-- What is not modelled: the engine that executes contracts, what the results mean for the
    object database, and the other operations.  `none` is an exception. -/
structure Engine (D O X B R I A S : Type) where
  /-- the assertions before the store is asked -/
  admits : O → D → Bool
  /-- with the number of random calls -/
  execute : D → O → Place S → Nat → Option R × Nat
  maybeInvalid : R → Bool
  storageDiffs : R → List (List Char × List Char)
  commit : O → R → D → Option D
  payFee : O → R → D → Option D
  collects : O → R → List (Nat × Int)
  /-- the gas that `store_invoke_result` is told -/
  gas : O → R → Int
  /-- the related contracts, by whether a result was stored and whether one was executed -/
  related : O → Bool → Bool → R → List A
  /-- `contract_operation_result_info` -/
  info : R → I
  /-- an exception may leave collected fees behind -/
  applyOther : X → D → Option (D × I) × List (Nat × Int)
  undertakes : X → D → Bool
  payUndertaker : X → D → Option D
  collectsUndertaker : X → List (Nat × Int)
  voidResult : I
  /-- validation, authorities, TaPoS and expiration -/
  admissible : B → D → Bool

def feesOf (l : List (Nat × Int)) (asset : Nat) : Int :=
  ((l.filter fun f => f.1 = asset).map Prod.snd).sum

/-- `modify_current_collected_fee` for each fee in the list. -/
def addFees (l : List (Nat × Int)) (collected : Nat → Int) : Nat → Int :=
  fun asset => collected asset + feesOf l asset

/-! ### Evaluators -/

section Evaluators

variable (e : Engine D O X B R I A S) (id : TransactionId) (place : Place S)

def addStorageChanges (r : R) (cache : ContractDb R) : ContractDb R :=
  (e.storageDiffs r).foldl (fun cache d => cache.addContractStorageChange id d.1 d.2) cache

/-- `do_apply` with the given result, and the fee. -/
def commitResult (o : O) (found ifStore : Bool) (r : R) (s : State D R I A) :
    Exec (State D R I A) :=
  let s := if ifStore then { s with cache := addStorageChanges e id r s.cache } else s
  match e.commit o r s.db with
  | none => .thrown s
  | some d =>
    let s := if ifStore then { s with
        cache := s.cache.storeInvokeResult id s.opNum r
        gasInBlock := s.gasInBlock + e.gas o r } else s
    match e.payFee o r d with
    | none => .thrown s
    | some d => .ok { s with
        db := d
        history := s.history ++ (e.related o found ifStore r).map fun a => (id, a)
        collected := addFees (e.collects o r) s.collected
        opNum := s.opNum + 1
        results := s.results ++ [e.info r] }

def executeContract (o : O) (found : Bool) (s : State D R I A) : Exec (State D R I A) :=
  let out := e.execute s.db o place s.callNum
  let s := { s with callNum := s.callNum + out.2 }
  match out.1 with
  | none => .thrown s
  | some r => commitResult e id o found true r s

def applyContract (o : O) (s : State D R I A) : Exec (State D R I A) :=
  if e.admits o s.db then
    match s.cache.results id s.opNum with
    | some r =>
      if e.maybeInvalid r then
        executeContract e id place o true
          { s with cache := s.cache.removeContractInvokeResult id s.opNum }
      else commitResult e id o true false r s
    | none => executeContract e id place o false s
  else .thrown s

def applyOther (x : X) (s : State D R I A) : Exec (State D R I A) :=
  let out := e.applyOther x s.db
  let s := { s with collected := addFees out.2 s.collected }
  match out.1 with
  | none => .thrown s
  | some (d, i) => .ok { s with db := d, opNum := s.opNum + 1, results := s.results ++ [i] }

def finishUndertaker (x : X) (s : State D R I A) : Exec (State D R I A) :=
  match e.payUndertaker x s.db with
  | none => .thrown s
  | some d => .ok { s with
      db := d
      collected := addFees (e.collectsUndertaker x) s.collected
      opNum := s.opNum + 1
      results := s.results ++ [e.voidResult] }

mutual

/-- `apply_operation` -/
def applyOperation : Op O X → State D R I A → Exec (State D R I A)
  | .contract o, s => applyContract e id place o s
  | .other x, s => applyOther e x s
  | .undertaker x takerOp makerOp, s =>
    if e.undertakes x s.db then
      (applyOperations takerOp s).andThen fun s =>
        (applyOperations makerOp s).andThen fun s => finishUndertaker e x s
    else .thrown s

def applyOperations : List (Op O X) → State D R I A → Exec (State D R I A)
  | [], s => .ok s
  | op :: l, s => (applyOperation op s).andThen fun s => applyOperations l s

end

end Evaluators

/-! ### Transactions and blocks -/

section Blocks

variable (e : Engine D O X B R I A S)

def applyListed (id : TransactionId) (secretKey : S) (trxInBlock : Nat) :
    Nat → List (Op O X) → State D R I A → Exec (State D R I A)
  | _, [], s => .ok s
  | i, op :: l, s =>
    (applyOperation e id ⟨secretKey, trxInBlock, i⟩ op s).andThen fun s =>
      applyListed id secretKey trxInBlock (i + 1) l s

def beginTransaction (tx : Transaction O X B) (s : State D R I A) : State D R I A :=
  { s with transactions := tx.id :: s.transactions, opNum := 0, results := [] }

/-- `_apply_transaction` -/
def applyTransaction (secretKey : S) (trxInBlock : Nat) (tx : Transaction O X B)
    (s : State D R I A) : Exec (State D R I A) :=
  if tx.id ∉ s.transactions ∧ e.admissible tx.body s.db = true then
    applyListed e tx.id secretKey trxInBlock 0 tx.operations (beginTransaction tx s)
  else .thrown s

/-- What `_apply_block` does before it applies a transaction. -/
def pack (tx : Transaction O X B) (s : State D R I A) : State D R I A :=
  if tx.relateContract then { s with cache := s.cache.contractPacked tx.id } else s

variable [DecidableEq I]

/-- The loop in `_apply_block` over the transactions and their results. -/
def applyListedTransactions (secretKey : S) :
    Nat → List (Transaction O X B × List I) → State D R I A → Exec (State D R I A)
  | _, [], s => .ok s
  | k, (tx, results) :: l, s =>
    (applyTransaction e secretKey k tx (pack tx s)).andThen fun s =>
      if s.results = results then applyListedTransactions secretKey (k + 1) l s else .thrown s

/-- `_apply_block`, until the collected fees are compared. -/
def applyTransactions (b : Block O X B I S) (s : State D R I A) : Exec (State D R I A) :=
  (applyListedTransactions e b.previousSecret 0 b.transactions
    { s with collected := fun _ => 0, callNum := 0, opNum := 0, results := [] }).andThen fun s =>
      if b.trxfee = s.collected 0 then .ok s else .thrown s

/-- The rest of `_apply_block`: the checks of the header, and what follows the transactions
    (dynamic data, maintenance, expired proposals, schedule).  No contract is executed there. -/
structure Surroundings (D O X B I A S : Type) where
  accepts : Block O X B I S → Objects D A → Bool
  finish : Block O X B I S → (Nat → Int) → Objects D A → Option (Objects D A)

def finishBlock (rest : Surroundings D O X B I A S) (b : Block O X B I S) (s : State D R I A) :
    Exec (State D R I A) :=
  match rest.finish b s.collected s.toObjects with
  | none => .thrown s
  | some objects => .ok { s with toObjects := objects }

/-- `_apply_block` -/
def applyBlock (rest : Surroundings D O X B I A S) (b : Block O X B I S) (s : State D R I A) :
    Exec (State D R I A) :=
  if rest.accepts b s.toObjects then
    (applyTransactions e b s).andThen fun s => finishBlock rest b s
  else .thrown s

end Blocks

end HyperExchange.Contracts
