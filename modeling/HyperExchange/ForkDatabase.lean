/-
  **The fork database** (`libraries/chain/fork_database.cpp`).

  Every pushed block gets a `fork_item` with an identity: a second push of a block makes a
  new item, which the index refuses but which may still become the head.  `prev` is a weak
  pointer to the item that was in the index when the block was pushed; it can be locked as
  long as that very item is in the index or is the head.  So items carry an address.

  `Tidy`: addresses are handed out once, and a pointer that can be locked leads to the block
  named in `previous`.  So `fetch_branch_from` returns two paths down to a common parent
  (`fetchBranchFrom_spec`).
-/
import Mathlib.Data.List.Chain
import HyperExchange.BlockLog
import HyperExchange.OperationSequences

namespace HyperExchange.Blocks

open List Option

variable {P δ : Type}

/-- `fork_item` -/
structure ForkItem (P δ : Type) where
  addr : Nat
  block : Block P δ
  prev : Option Nat
  invalid : Bool

structure ForkDatabase (P δ : Type) where
  index : List (ForkItem P δ)
  head : Option (ForkItem P δ)
  nextAddr : Nat
  maxSize : Nat

namespace ForkDatabase

def empty : ForkDatabase P δ := ⟨[], none, 0, 1500⟩

variable (f : ForkDatabase P δ)

/-- `prev.lock()` -/
def lock : Option Nat → Option (ForkItem P δ)
  | none => none
  | some a => (f.index.find? (·.addr = a)).or (f.head.filter (·.addr = a))

variable (h : Hash P δ)

/-- `pop_block`; `none` if it throws. -/
def popBlock : Option (ForkDatabase P δ) :=
  (f.head.bind fun x => f.lock x.prev).map fun p => { f with head := some p }

def setHead (item : Option (ForkItem P δ)) : ForkDatabase P δ :=
  { f with head := item }

/-- The first two loops: down to the number of the other item, collecting what is left
    behind. -/
def descend (f : ForkDatabase P δ) (num : Nat) : Nat → ForkItem P δ →
    Option (List (ForkItem P δ) × ForkItem P δ)
  | 0, x => some ([], x)
  | n + 1, x =>
    if num < x.block.num then
      (f.lock x.prev).bind fun p => (descend f num n p).map fun r => (x :: r.1, r.2)
    else some ([], x)

variable [DecidableEq δ]

/-- `_index.get<block_id>().find( id )` -/
def findId (f : ForkDatabase P δ) (id : BlockId δ) : Option (ForkItem P δ) :=
  f.index.find? fun x => h.id x.block = id

/-! ### `push_block` -/

-- "attempting to push a block that is too old"
def tooOld (b : Block P δ) : Bool :=
  f.head.any fun x => b.num ≤ x.block.num - f.maxSize

/-- The pointer of the new item; `none` if the block does not link to known chain or its
    predecessor is invalid. -/
def link (f : ForkDatabase P δ) (b : Block P δ) : Option (Option Nat) :=
  if f.head.isSome ∧ b.previous ≠ h.nullId then
    match f.findId h b.previous with
    | none => none
    | some p => if p.invalid then none else some (some p.addr)
  else some none

/-- `_index.insert( item )`; the index is unique in the id. -/
def insertItem (f : ForkDatabase P δ) (item : ForkItem P δ) : ForkDatabase P δ :=
  { f with
    index := if (f.findId h (h.id item.block)).isSome then f.index else f.index ++ [item]
    nextAddr := f.nextAddr + 1 }

def raiseHead (item : ForkItem P δ) : ForkDatabase P δ :=
  match f.head with
  | none => { f with head := some item }
  | some x =>
    if x.block.num < item.block.num then
      { f with
        head := some item
        index := f.index.filter fun y => item.block.num - f.maxSize ≤ y.block.num }
    else f

/-- `push_block`; `none` if it throws. -/
def pushBlock (f : ForkDatabase P δ) (b : Block P δ) : Option (ForkDatabase P δ) :=
  if f.tooOld b then none
  else (f.link h b).map fun prev =>
    let item : ForkItem P δ := ⟨f.nextAddr, b, prev, false⟩
    (f.insertItem h item).raiseHead item

/-! ### The other calls -/

def remove (f : ForkDatabase P δ) (id : BlockId δ) : ForkDatabase P δ :=
  { f with index := f.index.filter fun x => h.id x.block ≠ id }

/-! ### `fetch_branch_from`

Each loop runs with the number of the item it starts at as fuel: a pointer leads to an
item whose number is one less. -/

def descendBoth (f : ForkDatabase P δ) : Nat → ForkItem P δ → ForkItem P δ →
    Option (List (ForkItem P δ) × List (ForkItem P δ))
  | 0, _, _ => none
  | n + 1, x, y =>
    if x.block.previous = y.block.previous then some ([x], [y])
    else (f.lock x.prev).bind fun x' => (f.lock y.prev).bind fun y' =>
      (descendBoth f n x' y').map fun r => (x :: r.1, y :: r.2)

def fetchBranchFrom (f : ForkDatabase P δ) (first second : BlockId δ) :
    Option (List (ForkItem P δ) × List (ForkItem P δ)) :=
  (f.findId h first).bind fun x => (f.findId h second).bind fun y =>
    (f.descend y.block.num x.block.num x).bind fun r =>
      (f.descend r.2.block.num y.block.num y).bind fun t =>
        (f.descendBoth r.2.block.num r.2 t.2).map fun u => (r.1 ++ u.1, t.1 ++ u.2)

/-! ### Items and pointers -/

section Tidy

omit [DecidableEq δ]

def items : List (ForkItem P δ) := f.index ++ f.head.toList

structure Tidy (h : Hash P δ) (f : ForkDatabase P δ) : Prop where
  fresh : ∀ x ∈ f.items, x.addr < f.nextAddr ∧ ∀ a, x.prev = some a → a < f.nextAddr
  unique : ∀ x ∈ f.items, ∀ y ∈ f.items, x.addr = y.addr → x = y
  linked : ∀ x ∈ f.items, ∀ y ∈ f.items, x.prev = some y.addr → h.id y.block = x.block.previous

variable {h} {f f' : ForkDatabase P δ}

theorem mem_items {x : ForkItem P δ} : x ∈ f.items ↔ x ∈ f.index ∨ f.head = some x := by
  simp [items, mem_toList]

theorem tidy_empty (h : Hash P δ) : (empty : ForkDatabase P δ).Tidy h := by
  constructor <;> intro x hx <;> cases hx

theorem Tidy.mono (ht : f.Tidy h) (hsub : f'.items ⊆ f.items) (hnext : f'.nextAddr = f.nextAddr) :
    f'.Tidy h where
  fresh x hx := by
    rw [hnext]
    exact ht.fresh x (hsub hx)
  unique x hx y hy := ht.unique x (hsub hx) y (hsub hy)
  linked x hx y hy := ht.linked x (hsub hx) y (hsub hy)

/-- An item at a new address cannot disturb old links. -/
theorem Tidy.add (ht : f.Tidy h) (item : ForkItem P δ) (hsub : f'.items ⊆ item :: f.items)
    (hnext : f'.nextAddr = f.nextAddr + 1) (haddr : item.addr = f.nextAddr)
    (hprev : ∀ a, item.prev = some a →
      ∃ p ∈ f.items, p.addr = a ∧ h.id p.block = item.block.previous) : f'.Tidy h := by
  have hcases : ∀ x ∈ f'.items, x = item ∨ x ∈ f.items := fun x hx => mem_cons.mp (hsub hx)
  refine ⟨?_, ?_, ?_⟩
  · intro x hx
    rcases hcases x hx with rfl | hx
    · refine ⟨by omega, fun a ha => ?_⟩
      obtain ⟨p, hp, rfl, _⟩ := hprev a ha
      have := (ht.fresh p hp).1
      omega
    · obtain ⟨h₁, h₂⟩ := ht.fresh x hx
      refine ⟨by omega, fun a ha => ?_⟩
      have := h₂ a ha
      omega
  · intro x hx y hy hxy
    rcases hcases x hx with rfl | hx
    · rcases hcases y hy with rfl | hy
      · rfl
      · have := (ht.fresh y hy).1
        omega
    · rcases hcases y hy with rfl | hy
      · have := (ht.fresh x hx).1
        omega
      · exact ht.unique x hx y hy hxy
  · intro x hx y hy hxy
    rcases hcases y hy with rfl | hy
    · -- nothing points to the new item yet
      rcases hcases x hx with rfl | hx
      · obtain ⟨p, hp, hpa, _⟩ := hprev _ hxy
        have := (ht.fresh p hp).1
        omega
      · have := (ht.fresh x hx).2 _ hxy
        omega
    · rcases hcases x hx with rfl | hx
      · obtain ⟨p, hp, hpa, hid⟩ := hprev _ hxy
        rw [← ht.unique p hp y hy hpa]
        exact hid
      · exact ht.linked x hx y hy hxy

theorem lock_eq_some {a : Option Nat} {y : ForkItem P δ} (hl : f.lock a = some y) :
    y ∈ f.items ∧ a = some y.addr := by
  cases a with
  | none => cases hl
  | some a =>
    simp only [lock, or_eq_some_iff] at hl
    rcases hl with hl | ⟨_, hl⟩
    · have haddr := List.find?_some hl
      simp only [decide_eq_true_eq] at haddr
      exact ⟨mem_items.mpr (Or.inl (mem_of_find?_eq_some hl)), by rw [haddr]⟩
    · rw [filter_eq_some_iff] at hl
      have haddr := hl.2
      simp only [decide_eq_true_eq] at haddr
      exact ⟨mem_items.mpr (Or.inr hl.1), by rw [haddr]⟩

theorem Tidy.id_lock (ht : f.Tidy h) {x y : ForkItem P δ} (hx : x ∈ f.items)
    (hl : f.lock x.prev = some y) : h.id y.block = x.block.previous := by
  obtain ⟨hy, hprev⟩ := lock_eq_some hl
  exact ht.linked x hx y hy hprev

end Tidy

section Calls

variable {h} {f f' : ForkDatabase P δ}

theorem findId_eq_some {id : BlockId δ} {x : ForkItem P δ} (hx : f.findId h id = some x) :
    x ∈ f.index ∧ h.id x.block = id := by
  have hid := List.find?_some hx
  simp only [decide_eq_true_eq] at hid
  exact ⟨mem_of_find?_eq_some hx, hid⟩

theorem findId_isSome {id : BlockId δ} :
    (f.findId h id).isSome = true ↔ ∃ x ∈ f.index, h.id x.block = id := by
  simp [findId, List.find?_isSome]

/-- A new item is linked to the item of its parent, or to none. -/
theorem pushBlock_spec {b : Block P δ} (hp : f.pushBlock h b = some f') :
    ∃ item : ForkItem P δ, item.block = b ∧ item.addr = f.nextAddr ∧
      (∀ a, item.prev = some a → ∃ p ∈ f.index, p.addr = a ∧ h.id p.block = b.previous) ∧
      f' = (f.insertItem h item).raiseHead item := by
  unfold pushBlock at hp
  split at hp
  · cases hp
  obtain ⟨prev, hlink, hf⟩ := map_eq_some_iff.mp hp
  refine ⟨⟨f.nextAddr, b, prev, false⟩, rfl, rfl, ?_, hf.symm⟩
  rintro a rfl
  unfold link at hlink
  split at hlink
  · cases hfind : f.findId h b.previous with
    | none => rw [hfind] at hlink; cases hlink
    | some p =>
      rw [hfind] at hlink
      simp only at hlink
      split at hlink
      · cases hlink
      · cases hlink
        exact ⟨p, (findId_eq_some hfind).1, rfl, (findId_eq_some hfind).2⟩
  · cases hlink

variable {item x : ForkItem P δ}

theorem mem_index_insertItem (hx : x ∈ (f.insertItem h item).index) :
    x ∈ f.index ∨ x = item := by
  simp only [insertItem] at hx
  split at hx
  · exact Or.inl hx
  · simpa using hx

theorem mem_index_pushBlock
    (hx : x ∈ ((f.insertItem h item).raiseHead item).index) : x ∈ f.index ∨ x = item := by
  refine mem_index_insertItem (h := h) ?_
  unfold raiseHead at hx
  split at hx
  · exact hx
  · split at hx
    · exact mem_of_mem_filter hx
    · exact hx

/-- The item replaces the head, or the head stays. -/
theorem head_pushBlock (f : ForkDatabase P δ) (item : ForkItem P δ) :
    ((f.insertItem h item).raiseHead item).head = some item ∧
        (∀ x, f.head = some x → x.block.num < item.block.num) ∨
      ((f.insertItem h item).raiseHead item).head = f.head ∧
        ∃ x, f.head = some x ∧ item.block.num ≤ x.block.num := by
  have hhead : (f.insertItem h item).head = f.head := rfl
  unfold raiseHead
  rw [hhead]
  cases hf : f.head with
  | none =>
    refine Or.inl ⟨rfl, ?_⟩
    intro x hx
    cases hx
  | some x =>
    simp only
    split
    · next hlt =>
      refine Or.inl ⟨rfl, ?_⟩
      intro y hy
      cases hy
      exact hlt
    · next hge => exact Or.inr ⟨hhead.trans hf, x, rfl, by omega⟩

theorem Tidy.pushBlock (ht : f.Tidy h) {b : Block P δ} (hp : f.pushBlock h b = some f') :
    f'.Tidy h := by
  obtain ⟨item, hblock, haddr, hprev, rfl⟩ := pushBlock_spec hp
  refine ht.add item ?_ ?_ haddr ?_
  · intro x hx
    rw [mem_cons, mem_items]
    rcases mem_items.mp hx with hx | hx
    · rcases mem_index_pushBlock hx with hx | hx
      · exact Or.inr (Or.inl hx)
      · exact Or.inl hx
    · rcases head_pushBlock (h := h) f item with ⟨hh, _⟩ | ⟨hh, _⟩
      · rw [hh] at hx
        cases hx
        exact Or.inl rfl
      · rw [hh] at hx
        exact Or.inr (Or.inr hx)
  · unfold raiseHead
    split
    · rfl
    · split <;> rfl
  · intro a ha
    obtain ⟨p, hp, hpa, hid⟩ := hprev a ha
    exact ⟨p, mem_items.mpr (Or.inl hp), hpa, by rw [hblock]; exact hid⟩

omit [DecidableEq δ] in
theorem Tidy.popBlock (ht : f.Tidy h) (hp : f.popBlock = some f') : f'.Tidy h := by
  obtain ⟨p, hbind, rfl⟩ := map_eq_some_iff.mp hp
  obtain ⟨x, _, hlock⟩ := bind_eq_some_iff.mp hbind
  refine ht.mono ?_ rfl
  intro y hy
  rcases mem_items.mp hy with hy | hy
  · exact mem_items.mpr (Or.inl hy)
  · cases hy
    exact (lock_eq_some hlock).1

theorem Tidy.remove (ht : f.Tidy h) (id : BlockId δ) : (f.remove h id).Tidy h := by
  refine ht.mono ?_ rfl
  intro y hy
  rcases mem_items.mp hy with hy | hy
  · exact mem_items.mpr (Or.inl (mem_of_mem_filter hy))
  · exact mem_items.mpr (Or.inr hy)

/-! ### Branches -/

def Path (f : ForkDatabase P δ) (l : List (ForkItem P δ)) : Prop :=
  l.IsChain fun x y => f.lock x.prev = some y

omit [DecidableEq δ] in
/-- The way down is linked item by item. -/
theorem descend_path {num n : Nat} {x e : ForkItem P δ} {l : List (ForkItem P δ)}
    (hd : f.descend num n x = some (l, e)) :
    f.Path (l ++ [e]) ∧ (l ++ [e]).head? = some x := by
  induction n generalizing x l with
  | zero =>
    cases hd
    exact ⟨isChain_singleton e, rfl⟩
  | succ n ih =>
    unfold descend at hd
    split at hd
    · obtain ⟨p, hlock, hd⟩ := bind_eq_some_iff.mp hd
      obtain ⟨r, hr, heq⟩ := map_eq_some_iff.mp hd
      cases heq
      obtain ⟨hpath, hhead⟩ := ih hr
      refine ⟨List.IsChain.cons hpath ?_, rfl⟩
      intro y hy
      have hy' : (r.1 ++ [r.2]).head? = some y := hy
      rw [hhead] at hy'
      cases hy'
      exact hlock
    · cases hd
      exact ⟨isChain_singleton e, rfl⟩

variable {l₁ l₂ : List (ForkItem P δ)}

theorem descendBoth_path {n : Nat} {x y : ForkItem P δ}
    (hd : f.descendBoth n x y = some (l₁, l₂)) :
    (f.Path l₁ ∧ l₁.head? = some x) ∧ (f.Path l₂ ∧ l₂.head? = some y) ∧
      ∃ i₁ i₂ a b, l₁ = i₁ ++ [a] ∧ l₂ = i₂ ++ [b] ∧ a.block.previous = b.block.previous := by
  induction n generalizing x y l₁ l₂ with
  | zero => cases hd
  | succ n ih =>
    unfold descendBoth at hd
    split at hd
    · next heq =>
      cases hd
      exact ⟨⟨isChain_singleton x, rfl⟩, ⟨isChain_singleton y, rfl⟩, [], [], x, y, rfl,
        rfl, heq⟩
    · obtain ⟨x', y', hx, hy, hd⟩ := bind_bind_eq_some hd
      obtain ⟨r, hr, heq⟩ := map_eq_some_iff.mp hd
      cases heq
      obtain ⟨⟨hp₁, hh₁⟩, ⟨hp₂, hh₂⟩, i₁, i₂, a, b, he₁, he₂, hab⟩ := ih hr
      refine ⟨⟨List.IsChain.cons hp₁ ?_, rfl⟩, ⟨List.IsChain.cons hp₂ ?_, rfl⟩, x :: i₁, y :: i₂, a,
        b, by rw [he₁]; rfl, by rw [he₂]; rfl, hab⟩
      · intro z hz
        rw [hh₁] at hz
        cases hz
        exact hx
      · intro z hz
        rw [hh₂] at hz
        cases hz
        exact hy

/-- **What `fetch_branch_from` returns**: a path down from each of the two blocks, to
    items with the same predecessor. -/
theorem fetchBranchFrom_spec {first second : BlockId δ}
    (hf : f.fetchBranchFrom h first second = some (l₁, l₂)) :
    (f.Path l₁ ∧ ∃ x ∈ f.index, l₁.head? = some x ∧ h.id x.block = first) ∧
      (f.Path l₂ ∧ ∃ y ∈ f.index, l₂.head? = some y ∧ h.id y.block = second) ∧
      ∃ i₁ i₂ a b, l₁ = i₁ ++ [a] ∧ l₂ = i₂ ++ [b] ∧ a.block.previous = b.block.previous := by
  obtain ⟨x, y, hx, hy, hf⟩ := bind_bind_eq_some hf
  obtain ⟨r, t, hr, ht, hf⟩ := bind_bind_eq_some hf
  obtain ⟨u, hu, heq⟩ := map_eq_some_iff.mp hf
  cases heq
  obtain ⟨hpr, hhr⟩ := descend_path hr
  obtain ⟨hpt, hht⟩ := descend_path ht
  obtain ⟨⟨hp₁, hh₁⟩, ⟨hp₂, hh₂⟩, i₁, i₂, a, b, he₁, he₂, hab⟩ := descendBoth_path hu
  obtain ⟨hxi, hxid⟩ := findId_eq_some hx
  obtain ⟨hyi, hyid⟩ := findId_eq_some hy
  -- the third loop goes on where the first two stopped
  have hjoin : ∀ {l u' : List (ForkItem P δ)} {e z : ForkItem P δ}, f.Path (l ++ [e]) →
      (l ++ [e]).head? = some z → f.Path u' → u'.head? = some e →
      f.Path (l ++ u') ∧ (l ++ u').head? = some z := by
    intro l u' e z hle hz hu' he
    cases u' with
    | nil => cases he
    | cons e' u' =>
      cases he
      have hall : f.Path (l ++ [e] ++ u') := List.IsChain.append_overlap hle hu' (by simp)
      rw [append_assoc] at hall
      refine ⟨hall, ?_⟩
      cases l with
      | nil | cons => exact hz
  obtain ⟨hj₁, hk₁⟩ := hjoin hpr hhr hp₁ hh₁
  obtain ⟨hj₂, hk₂⟩ := hjoin hpt hht hp₂ hh₂
  refine ⟨⟨hj₁, x, hxi, hk₁, hxid⟩, ⟨hj₂, y, hyi, hk₂, hyid⟩, r.1 ++ i₁, t.1 ++ i₂, a, b, ?_, ?_,
    hab⟩
  · rw [he₁, append_assoc]
  · rw [he₂, append_assoc]

end Calls

end ForkDatabase

end HyperExchange.Blocks
