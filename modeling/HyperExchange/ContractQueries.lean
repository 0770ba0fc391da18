/-
  **Queries over the ordered indexes of contracts** (`db_contract_trx.cpp`).

  A query walks an index from one bound to another.  The ordered queries for events then sort
  what they have met by `event_compare`, which looks for the two transactions in their block
  and takes the first that it meets to come first.  For an event and itself, or for two events
  of one transaction, that is the one on the left: the comparison is not irreflexive, and
  what `std::sort` does with it is undefined.
-/
import Mathlib.Algebra.Order.Ring.Int

namespace HyperExchange.Queries

open List

/-! ### Walking an index -/

/-- `while (it != end) { res.push_back(*it); it++; }`.  An iterator is the list of the rows
    from it on, and `stop` the number of these rows at the end; there is nothing to read
    behind the last row. -/
def walk {α : Type} (stop : Nat) : List α → Option (List α)
  | [] => if stop = 0 then some [] else none
  | r :: rest =>
    if rest.length + 1 = stop then some [] else (walk stop rest).map (r :: ·)

/-- An ordered index: its rows in the order of their keys. -/
structure Index {α κ : Type} [LinearOrder κ] (key : α → κ) where
  rows : List α
  sorted : rows.Pairwise fun a b => key a ≤ key b

namespace Index

variable {α κ : Type} [LinearOrder κ] {key : α → κ} (i : Index key) (k : κ)

def lowerBound : List α := i.rows.dropWhile fun r => key r < k

def upperBound : List α := i.rows.dropWhile fun r => key r ≤ k

end Index

/-! ### Ordered event queries -/

structure EventNotify (A T : Type) where
  contractAddress : A
  trxId : T
  blockNum : Nat

section Events

variable {A T : Type} [DecidableEq T] (fetch : Nat → Option (List T))

/-- Which of the two is met first among the transactions of a block. -/
def metFirst (x y : T) : List T → Bool
  | [] => false
  | trx :: l => if trx = x then true else if trx = y then false else metFirst x y l

theorem metFirst_self {x : T} {l : List T} (h : x ∈ l) : metFirst x x l = true := by
  induction l with
  | nil => cases h
  | cons trx l ih =>
    unfold metFirst
    split
    · rfl
    · next hne => exact ih ((mem_cons.mp h).resolve_left fun heq => hne heq.symm)

/-- `event_compare`; `fetch` gives the transactions of a block of the main chain. -/
def eventCompare (e₁ e₂ : EventNotify A T) : Option Bool :=
  if e₁.blockNum < e₂.blockNum then some true
  else if e₂.blockNum < e₁.blockNum then some false
  else (fetch e₁.blockNum).map (metFirst e₁.trxId e₂.trxId)

/-- **An event comes before itself.** -/
theorem eventCompare_self {e : EventNotify A T} {l : List T} (hl : fetch e.blockNum = some l)
    (he : e.trxId ∈ l) : eventCompare fetch e e = some true := by
  rw [eventCompare, if_neg (Nat.lt_irrefl _), if_neg (Nat.lt_irrefl _), hl, Option.map_some,
    metFirst_self he]

variable [LinearOrder A]

/-- The events, in the order of both indexes; their transactions are on the main chain. -/
structure EventDb (A T : Type) [LinearOrder A] (fetch : Nat → Option (List T)) where
  byContractId : Index (EventNotify.contractAddress (A := A) (T := T))
  byBlockNum : Index (EventNotify.blockNum (A := A) (T := T))
  same : byContractId.rows.Perm byBlockNum.rows
  recorded : ∀ e ∈ byContractId.rows, ∃ l ∈ fetch e.blockNum, e.trxId ∈ l

variable {fetch} (sort : (EventNotify A T → EventNotify A T → Option Bool) →
  List (EventNotify A T) → Option (List (EventNotify A T))) (d : EventDb A T fetch)

/-- `get_contract_events_by_contract_ordered`; `sort` stands for `std::sort`. -/
def eventsByContractOrdered (addr : A) : Option (List (EventNotify A T)) :=
  (walk (d.byContractId.upperBound addr).length (d.byContractId.lowerBound addr)).bind
    (sort (eventCompare fetch))

/-- `get_contract_events_by_block_and_addr_ordered` -/
def eventsByBlockAndAddrOrdered (addr : A) (start range : BitVec 64) :
    Option (List (EventNotify A T)) :=
  (walk (d.byBlockNum.upperBound (start + range).toNat).length
    (d.byBlockNum.lowerBound start.toNat)).bind fun l =>
      sort (eventCompare fetch) (l.filter (·.contractAddress = addr))

/-- The comparison is a strict weak ordering of the elements. -/
structure StrictWeakOrder {α : Type} (cmp : α → α → Option Bool) (l : List α) : Prop where
  irrefl : ∀ a ∈ l, cmp a a = some false
  trans : ∀ a ∈ l, ∀ b ∈ l, ∀ c ∈ l, cmp a b = some true → cmp b c = some true → cmp a c = some true
  ties : ∀ a ∈ l, ∀ b ∈ l, ∀ c ∈ l, cmp a b = some false → cmp b c = some false →
    cmp a c = some false

/-- The events in the order of their blocks and of the transactions in them. -/
def InChainOrder (fetch : Nat → Option (List T)) (l : List (EventNotify A T)) : Prop :=
  l.Pairwise fun a b => a.blockNum < b.blockNum ∨ a.blockNum = b.blockNum ∧
    ∀ trxs ∈ fetch a.blockNum, trxs.idxOf a.trxId ≤ trxs.idxOf b.trxId

def Answers (fetch : Nat → Option (List T)) (matching : List (EventNotify A T))
    (answer : Option (List (EventNotify A T))) : Prop :=
  ∃ l ∈ answer, l.Perm matching ∧ InChainOrder fetch l

/-- `event_compare` is a strict weak ordering, and the queries are exact and ordered, if and
    only if there is no event. -/
theorem ordered_queries_iff (hsort : ∀ cmp, sort cmp [] = some []) :
    (StrictWeakOrder (eventCompare fetch) d.byContractId.rows ∧
      (∀ addr, Answers fetch (d.byContractId.rows.filter (·.contractAddress = addr))
        (eventsByContractOrdered sort d addr)) ∧
      ∀ addr start range, Answers fetch (d.byContractId.rows.filter fun e =>
        e.contractAddress = addr ∧ start.toNat ≤ e.blockNum ∧
          e.blockNum ≤ start.toNat + range.toNat)
            (eventsByBlockAndAddrOrdered sort d addr start range)) ↔
    d.byContractId.rows = [] := by
  constructor
  · rintro ⟨hcmp, _⟩
    refine eq_nil_iff_forall_not_mem.mpr fun e he => ?_
    obtain ⟨l, hl, hmem⟩ := d.recorded e he
    have hself := hcmp.irrefl e he
    rw [eventCompare_self fetch hl hmem] at hself
    cases hself
  · intro hnil
    have hnil' : d.byBlockNum.rows = [] := (hnil ▸ d.same).nil_eq.symm
    rw [hnil]
    refine ⟨⟨nofun, nofun, nofun⟩, fun addr => ⟨[], ?_, .nil, .nil⟩,
      fun addr start range => ⟨[], ?_, .nil, .nil⟩⟩
    · simp [eventsByContractOrdered, Index.upperBound, Index.lowerBound, hnil, walk, hsort]
    · simp [eventsByBlockAndAddrOrdered, Index.upperBound, Index.lowerBound, hnil', walk, hsort]

theorem no_events_ordered :
    StrictWeakOrder (eventCompare fun _ => some [7]) ([] : List (EventNotify Nat Nat)) :=
  ((ordered_queries_iff (fun _ l => some l)
    (⟨⟨[], .nil⟩, ⟨[], .nil⟩, .nil, nofun⟩ : EventDb Nat Nat fun _ => some [7])
    fun _ => rfl).mpr rfl).1

/-- One event: the comparison puts it before itself. -/
theorem event_before_itself :
    ¬StrictWeakOrder (eventCompare fun _ => some [7]) [(⟨1, 7, 3⟩ : EventNotify Nat Nat)] :=
  fun h => absurd (h.irrefl _ mem_cons_self) (by decide)

end Events

end HyperExchange.Queries
