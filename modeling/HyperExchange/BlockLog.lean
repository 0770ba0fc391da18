/-
  **Blocks, their ids, and the block log** (`libraries/chain/block_database.cpp`).

  A block id is a number and a digest.  The digest of a block (`Hash`) and its serialisation
  (`Codec`) are parameters.  The log is two files: the blocks one after the other, and an
  index with an entry per block number.  Storing a block appends it and overwrites the entry
  of its number, filling a gap with zeros; removing one sets the size in its entry to zero
  and leaves the id there.  `Holds`: the log answers for a block under its id and number.
-/
import HyperExchange.Execution

namespace HyperExchange.Blocks

open List

/-- `block_id_type` -/
structure BlockId (δ : Type) where
  num : Nat
  digest : δ
deriving DecidableEq, Repr

/-- `signed_block`: the header fields that are read here, and the rest. -/
structure Block (P δ : Type) where
  previous : BlockId δ
  timestamp : Nat
  payload : P
deriving DecidableEq, Repr

variable {P δ β : Type} {α : Type}

/-- `block_num()` -/
def Block.num (b : Block P δ) : Nat := b.previous.num + 1

structure Hash (P δ : Type) where
  digest : Block P δ → δ
  nullDigest : δ

/-- `signed_block_header::id()` -/
def Hash.id (h : Hash P δ) (b : Block P δ) : BlockId δ := ⟨b.num, h.digest b⟩

/-- `block_id_type()` -/
def Hash.nullId (h : Hash P δ) : BlockId δ := ⟨0, h.nullDigest⟩

def Hash.CollisionFree (h : Hash P δ) : Prop := Function.Injective h.digest

theorem Hash.CollisionFree.id_injective {h : Hash P δ} (hc : h.CollisionFree) :
    Function.Injective h.id := by
  intro a b hab
  exact hc (congrArg BlockId.digest hab)

theorem Hash.id_ne_nullId (h : Hash P δ) (b : Block P δ) : h.id b ≠ h.nullId := by
  intro heq
  exact absurd (congrArg BlockId.num heq) (Nat.succ_ne_zero _)

/-- `fc::raw::pack` and `fc::raw::unpack`, the latter throwing on bad data. -/
structure Codec (P δ β : Type) where
  pack : Block P δ → List β
  unpack : List β → Option (Block P δ)

structure Codec.Sound (c : Codec P δ β) : Prop where
  unpack_pack : ∀ b, c.unpack (c.pack b) = some b
  unpack_nil : c.unpack [] = none

/-! ### Files -/

/-- Overwrite slot `n`, filling up with `zero` if it lies beyond the end. -/
def setSlot {α : Type} (zero : α) (l : List α) (n : Nat) (a : α) : List α :=
  if n < l.length then l.set n a else l ++ List.replicate (n - l.length) zero ++ [a]

theorem getElem?_setSlot_self (zero : α) (l : List α) (n : Nat) (a : α) :
    (setSlot zero l n a)[n]? = some a := by
  unfold setSlot
  split
  · next h => simp [h]
  next h =>
  have hlen : (l ++ List.replicate (n - l.length) zero).length = n := by
    simp only [length_append, length_replicate]
    omega
  rw [List.getElem?_append_right (by omega), hlen, Nat.sub_self]
  rfl

theorem getElem?_setSlot_ne (zero : α) (l : List α) {n m : Nat} (a : α) (hne : m ≠ n) :
    (setSlot zero l n a)[m]? = l[m]? ∨ l[m]? = none ∧ (setSlot zero l n a)[m]? = some zero := by
  unfold setSlot
  split
  · left
    rw [List.getElem?_set_ne (Ne.symm hne)]
  · next h =>
    by_cases hm : m < l.length
    · left
      rw [append_assoc, List.getElem?_append_left hm]
    · have hnone : l[m]? = none := List.getElem?_eq_none (by omega)
      by_cases hmn : m < n
      · right
        refine ⟨hnone, ?_⟩
        rw [append_assoc, List.getElem?_append_right (by omega),
          List.getElem?_append_left (by simp only [length_replicate]; omega)]
        exact List.getElem?_replicate_of_lt (by omega)
      · left
        rw [hnone]
        refine List.getElem?_eq_none ?_
        simp only [length_append, length_replicate, length_singleton]
        omega

theorem length_setSlot (zero : α) (l : List α) (n : Nat) (a : α) :
    (setSlot zero l n a).length = max l.length (n + 1) := by
  unfold setSlot
  split
  · simp only [length_set]
    omega
  · simp only [length_append, length_replicate, length_singleton]
    omega

/-- `seekg` and `read`; reading past the end sets `failbit`, which throws. -/
def readAt (data : List β) (pos size : Nat) : Option (List β) :=
  if pos + size ≤ data.length then some ((data.drop pos).take size) else none

theorem readAt_append (data more : List β) {pos size : Nat} (h : pos + size ≤ data.length) :
    readAt (data ++ more) pos size = readAt data pos size := by
  have hmore : pos + size ≤ (data ++ more).length := by
    rw [length_append]
    omega
  rw [readAt, readAt, if_pos hmore, if_pos h, drop_append_of_le_length (by omega),
    take_append_of_le_length (by rw [length_drop]; omega)]

theorem readAt_append_length (data more : List β) :
    readAt (data ++ more) data.length more.length = some more := by
  rw [readAt, if_pos (by simp)]
  simp

/-! ### The block log -/

/-- `index_entry` -/
structure IndexEntry (δ : Type) where
  blockPos : Nat
  blockSize : Nat
  blockId : BlockId δ
deriving DecidableEq, Repr

structure BlockLog (δ β : Type) where
  index : List (IndexEntry δ)
  blocks : List β

namespace BlockLog

def empty : BlockLog δ β := ⟨[], []⟩

variable [DecidableEq δ] (h : Hash P δ) (c : Codec P δ β)

def blankEntry : IndexEntry δ := ⟨0, 0, h.nullId⟩

variable (log : BlockLog δ β)

def store (id : BlockId δ) (b : Block P δ) : BlockLog δ β :=
  let id := if id = h.nullId then h.id b else id
  { index := setSlot (blankEntry h) log.index id.num ⟨log.blocks.length, (c.pack b).length, id⟩
    blocks := log.blocks ++ c.pack b }

/-- `remove`; `none` stands for `key_not_found_exception`. -/
def remove (id : BlockId δ) : Option (BlockLog δ β) :=
  match log.index[id.num]? with
  | none => none
  | some e =>
    if e.blockId = id then
      some { log with index := log.index.set id.num { e with blockSize := 0 } }
    else some log

/-- The common end of the two `fetch` functions: read, unpack, compare the id. -/
def readEntry (e : IndexEntry δ) : Option (Block P δ) :=
  ((readAt log.blocks e.blockPos e.blockSize).bind c.unpack).filter fun b => h.id b = e.blockId

def fetchOptional (id : BlockId δ) : Option (Block P δ) :=
  match log.index[id.num]? with
  | none => none
  | some e =>
    if e.blockId ≠ id then none
    -- an empty entry is not read from the file
    else if e.blockSize = 0 then (c.unpack []).filter fun b => h.id b = e.blockId
    else log.readEntry h c e

def fetchByNumber (num : Nat) : Option (Block P δ) :=
  (log.index[num]?).bind (log.readEntry h c)

/-- The log answers for `b`. -/
def Holds (b : Block P δ) : Prop :=
  log.fetchOptional h c (h.id b) = some b ∧ log.fetchByNumber h c b.num = some b

def WellFormed : Prop :=
  ∀ (n : Nat) (e : IndexEntry δ), log.index[n]? = some e →
    e.blockPos + e.blockSize ≤ log.blocks.length

section Lemmas

variable {h : Hash P δ} {c : Codec P δ β} {log : BlockLog δ β}

omit [DecidableEq δ] in
theorem wellFormed_empty : (empty : BlockLog δ β).WellFormed := by
  intro n e he
  cases he

theorem length_of_holds {b : Block P δ} (hb : log.Holds h c b) :
    b.num < log.index.length := by
  by_contra hge
  have hnone : log.index[b.num]? = none := List.getElem?_eq_none (by omega)
  have hfetch := hb.2
  rw [fetchByNumber, hnone] at hfetch
  cases hfetch

/-- The log answers the same for entries that are the same and lie within the part of
    the file that is the same. -/
theorem fetch_congr {log' : BlockLog δ β} {n : Nat} (hwf : log.WellFormed)
    (hindex : log'.index[n]? = log.index[n]?) (more : List β)
    (hblocks : log'.blocks = log.blocks ++ more) :
    (∀ id : BlockId δ, id.num = n → log'.fetchOptional h c id = log.fetchOptional h c id) ∧
      log'.fetchByNumber h c n = log.fetchByNumber h c n := by
  have hread : ∀ e, log.index[n]? = some e → log'.readEntry h c e = log.readEntry h c e := by
    intro e he
    rw [readEntry, readEntry, hblocks, readAt_append _ _ (hwf n e he)]
  constructor
  · rintro id rfl
    simp only [fetchOptional, hindex]
    cases he : log.index[id.num]? with
    | none => rfl
    | some e => simp only [hread e he]
  · simp only [fetchByNumber, hindex]
    cases he : log.index[n]? with
    | none => rfl
    | some e => exact hread e he

/-! ### `store` -/

theorem wellFormed_store (hwf : log.WellFormed) (id : BlockId δ) (b : Block P δ) :
    (log.store h c id b).WellFormed := by
  intro n e he
  simp only [store, length_append] at he ⊢
  by_cases hn : n = (if id = h.nullId then h.id b else id).num
  · subst hn
    rw [getElem?_setSlot_self] at he
    cases he
    exact Nat.le_refl _
  · rcases getElem?_setSlot_ne (blankEntry h) log.index
      ⟨log.blocks.length, (c.pack b).length, if id = h.nullId then h.id b else id⟩ hn with
      hsame | ⟨_, hblank⟩
    · rw [hsame] at he
      have := hwf n e he
      omega
    · rw [hblank] at he
      cases he
      exact Nat.zero_le _

theorem length_store_id (log : BlockLog δ β) (b : Block P δ) :
    (log.store h c (h.id b) b).index.length = max log.index.length (b.num + 1) := by
  exact length_setSlot ..

/-- A block that was stored is read back. -/
theorem holds_store_self (hc : c.Sound) (log : BlockLog δ β) (b : Block P δ) :
    (log.store h c (h.id b) b).Holds h c b := by
  have hid : (if h.id b = h.nullId then h.id b else h.id b) = h.id b := ite_self _
  have hentry : (log.store h c (h.id b) b).index[b.num]? =
      some ⟨log.blocks.length, (c.pack b).length, h.id b⟩ := by
    exact getElem?_setSlot_self _ _ _ _
  have hread : (log.store h c (h.id b) b).readEntry h c
      ⟨log.blocks.length, (c.pack b).length, h.id b⟩ = some b := by
    simp only [readEntry, store, readAt_append_length, Option.bind_some, hc.unpack_pack]
    simp
  have hsize : (c.pack b).length ≠ 0 := by
    intro hzero
    have hunpack := hc.unpack_pack b
    rw [eq_nil_of_length_eq_zero hzero, hc.unpack_nil] at hunpack
    cases hunpack
  constructor
  · have hentry' : (log.store h c (h.id b) b).index[(h.id b).num]? = _ := hentry
    simp only [fetchOptional, hentry', ne_eq, not_true_eq_false, if_false, if_neg hsize, hread]
  · rw [fetchByNumber, hentry]
    exact hread

/-- Storing a block of another number keeps what the log holds. -/
theorem holds_store_ne (hwf : log.WellFormed) {id : BlockId δ} {b a : Block P δ}
    (hid : id ≠ h.nullId) (ha : log.Holds h c a) (hne : a.num ≠ id.num) :
    (log.store h c id b).Holds h c a := by
  have hindex : (log.store h c id b).index[a.num]? = log.index[a.num]? := by
    simp only [store, if_neg hid]
    rcases getElem?_setSlot_ne (blankEntry h) log.index
      ⟨log.blocks.length, (c.pack b).length, id⟩ hne with hsame | ⟨hnone, _⟩
    · exact hsame
    · have hlen := length_of_holds ha
      rw [List.getElem?_eq_none_iff] at hnone
      omega
  obtain ⟨hopt, hnum⟩ := fetch_congr (h := h) (c := c) hwf hindex (c.pack b) rfl
  exact ⟨(hopt (h.id a) rfl).trans ha.1, hnum.trans ha.2⟩

/-! ### `remove` -/

theorem remove_spec {log' : BlockLog δ β} {id : BlockId δ} (hr : log.remove id = some log')
    (hwf : log.WellFormed) :
    log'.WellFormed ∧ log'.index.length = log.index.length ∧
      ∀ a : Block P δ, a.num ≠ id.num → log.Holds h c a → log'.Holds h c a := by
  simp only [remove] at hr
  cases he : log.index[id.num]? with
  | none => rw [he] at hr; cases hr
  | some e =>
    rw [he] at hr
    simp only at hr
    split at hr
    · cases hr
      refine ⟨?_, length_set, ?_⟩
      · intro n e' he'
        by_cases hn : id.num = n
        · subst hn
          rw [List.getElem?_set_self', he] at he'
          cases he'
          have := hwf _ e he
          show e.blockPos + 0 ≤ log.blocks.length
          omega
        · rw [List.getElem?_set_ne hn] at he'
          exact hwf n e' he'
      · intro a hne ha
        have hindex : (⟨log.index.set id.num { e with blockSize := 0 }, log.blocks⟩ :
            BlockLog δ β).index[a.num]? = log.index[a.num]? :=
          List.getElem?_set_ne (Ne.symm hne)
        obtain ⟨hopt, hnum⟩ := fetch_congr (h := h) (c := c) hwf hindex []
          (append_nil log.blocks).symm
        exact ⟨(hopt (h.id a) rfl).trans ha.1, hnum.trans ha.2⟩
    · cases hr
      exact ⟨hwf, rfl, fun _ _ ha => ha⟩

end Lemmas

end BlockLog

end HyperExchange.Blocks
