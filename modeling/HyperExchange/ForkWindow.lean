/-
  **The window of the block tree that the fork database keeps.**

  In every run of pushes and resizes the head is the first accepted block of the greatest
  number, and what is indexed lies between it and `_max_size` below it (`Windowed.step`).
  An indexed block that is not of the lowest number points to its parent, which is indexed
  too (`Closed`): what is lopped off are the lowest numbers.  The exception is a block whose
  `previous` is the null id, which is taken without a link wherever the window reaches down
  to number 1; the lowest blocks then stand above it with no parent
  (`rootless_block_splits_tree`).  `rootKept` leaves such pushes out (`closed_window`).
-/
import HyperExchange.ForkDatabase

namespace HyperExchange.Blocks

open Execution List Option ForkDatabase

variable {P δ : Type}

namespace ForkDatabase

def setMaxSize (f : ForkDatabase P δ) (s : Nat) : ForkDatabase P δ :=
  match f.head with
  | none => { f with maxSize := s }
  | some x =>
    { f with
      maxSize := s
      index := f.index.filter fun y => x.block.num - s ≤ y.block.num }

/-- The part of the index from number `m` on, under a new head and size. -/
def lopped (f : ForkDatabase P δ) (m : Nat) : List (ForkItem P δ) :=
  f.index.filter fun y => m ≤ y.block.num

/-! ### The lowest numbers leave -/

variable {h : Hash P δ} {f : ForkDatabase P δ} {x : ForkItem P δ}

theorem mem_lopped {m : Nat} : x ∈ f.lopped m ↔ x ∈ f.index ∧ m ≤ x.block.num := by
  simp [lopped]

theorem setMaxSize_started (hhead : f.head = some x) (n : Nat) :
    f.setMaxSize n = { f with maxSize := n, index := f.lopped (x.block.num - n) } := by
  simp only [setMaxSize, hhead, lopped]

variable (h) in
def ClosedList (index : List (ForkItem P δ)) : Prop :=
  ∀ x ∈ index, (∃ y ∈ index, y.block.num < x.block.num) →
    ∃ p ∈ index, x.prev = some p.addr ∧ h.id p.block = x.block.previous

variable (h) in
/-- Every indexed block above the lowest number in the index has its parent in the index,
    and its `prev` link leads there. -/
def Closed (f : ForkDatabase P δ) : Prop :=
  ∀ x ∈ f.index, (∃ y ∈ f.index, y.block.num < x.block.num) →
    ∃ p ∈ f.index, h.id p.block = x.block.previous ∧ f.lock x.prev = some p

theorem num_of_id {p x : ForkItem P δ} (hid : h.id p.block = x.block.previous) :
    x.block.num = p.block.num + 1 := by
  have hnum : p.block.num = x.block.previous.num := congrArg BlockId.num hid
  rw [hnum]
  rfl

/-- A parent is lopped off only if what remains of its children is the lowest. -/
theorem ClosedList.lopped (hc : ClosedList h f.index) (m : Nat) : ClosedList h (f.lopped m) := by
  rintro x hx ⟨y, hy, hlt⟩
  obtain ⟨hx, _⟩ := mem_lopped.mp hx
  obtain ⟨hy, hm⟩ := mem_lopped.mp hy
  obtain ⟨p, hp, hprev, hid⟩ := hc x hx ⟨y, hy, hlt⟩
  have hnum := num_of_id hid
  exact ⟨p, mem_lopped.mpr ⟨hp, by omega⟩, hprev, hid⟩

theorem lock_of_mem_index (ht : f.Tidy h) {p : ForkItem P δ} (hp : p ∈ f.index) :
    f.lock (some p.addr) = some p := by
  cases hl : f.lock (some p.addr) with
  | none =>
    simp only [lock, or_eq_none_iff, List.find?_eq_none, decide_eq_true_eq] at hl
    exact absurd rfl (hl.1 p hp)
  | some q =>
    obtain ⟨hq, haddr⟩ := lock_eq_some hl
    rw [ht.unique q hq p (mem_items.mpr (Or.inl hp)) (Option.some.inj haddr).symm]

theorem ClosedList.closed (ht : f.Tidy h) (hc : ClosedList h f.index) : f.Closed h := by
  intro x hx hlow
  obtain ⟨p, hp, hprev, hid⟩ := hc x hx hlow
  refine ⟨p, hp, hid, ?_⟩
  rw [hprev]
  exact lock_of_mem_index ht hp

/-! ### A push that is not rejected -/

variable (h) in
/-- The item made for `b` points to its predecessor in the index, or `b` has none. -/
structure NewItem (f : ForkDatabase P δ) (b : Block P δ) (item : ForkItem P δ) : Prop where
  addr : item.addr = f.nextAddr
  block : item.block = b
  valid : item.invalid = false
  linked : item.prev = none ∧ b.previous = h.nullId ∨
    ∃ p ∈ f.index, item.prev = some p.addr ∧ h.id p.block = b.previous

variable (h) in
/-- What a push of `b` does when the highest indexed block `x` is the head. -/
inductive Pushed (f : ForkDatabase P δ) (x : ForkItem P δ) (b : Block P δ)
    (f' : ForkDatabase P δ) : Prop
  | known (hle : b.num ≤ x.block.num) (hdup : ∃ y ∈ f.index, h.id y.block = h.id b)
      (hhead : f'.head = some x) (hindex : f'.index = f.index)
  | below (item : ForkItem P δ) (hitem : f.NewItem h b item) (hle : b.num ≤ x.block.num)
      (hnew : ¬ ∃ y ∈ f.index, h.id y.block = h.id b) (hhead : f'.head = some x)
      (hindex : f'.index = f.index ++ [item])
  | raised (item : ForkItem P δ) (hitem : f.NewItem h b item) (hlt : x.block.num < b.num)
      (hhead : f'.head = some item)
      (hindex : f'.index = (f.index ++ [item]).filter fun y => b.num - f.maxSize ≤ y.block.num)

def startBlock [DecidableEq δ] (h : Hash P δ) (f : ForkDatabase P δ) (b : Block P δ) :
    ForkDatabase P δ :=
  let item : ForkItem P δ := ⟨f.nextAddr, b, none, false⟩
  { f.insertItem h item with head := some item }

variable [DecidableEq δ]

/-- On an empty fork database `push_block` is `start_block`. -/
theorem pushBlock_unstarted (hhead : f.head = none) (b : Block P δ) :
    f.pushBlock h b = some (f.startBlock h b) := by
  have hold : f.tooOld b = false := by rw [tooOld, hhead]; rfl
  have hlink : f.link h b = some none := by
    unfold link
    rw [if_neg (by rw [hhead]; rintro ⟨hs, _⟩; cases hs)]
  have hins : ∀ item, (f.insertItem h item).head = none := fun _ => hhead
  unfold pushBlock startBlock
  rw [hold, hlink]
  simp only [Bool.false_eq_true, if_false, map_some, raiseHead, hins]

/-- The pointer of a new item: to its predecessor in the index, or none if the block has no
    predecessor. -/
theorem link_eq_some {b : Block P δ} {prev : Option Nat} (hhead : f.head.isSome)
    (hl : f.link h b = some prev) :
    prev = none ∧ b.previous = h.nullId ∨
      ∃ p ∈ f.index, prev = some p.addr ∧ h.id p.block = b.previous := by
  unfold link at hl
  split at hl
  · cases hfind : f.findId h b.previous with
    | none => rw [hfind] at hl; cases hl
    | some p =>
      rw [hfind] at hl
      simp only at hl
      split at hl
      · cases hl
      · cases hl
        exact Or.inr ⟨p, (findId_eq_some hfind).1, rfl, (findId_eq_some hfind).2⟩
  · next hnot =>
    cases hl
    exact Or.inl ⟨rfl, by_contra fun hne => hnot ⟨hhead, hne⟩⟩

theorem pushBlock_started {f' : ForkDatabase P δ} {b : Block P δ}
    (hhead : f.head = some x) (htop : ∀ y ∈ f.index, y.block.num ≤ x.block.num)
    (hp : f.pushBlock h b = some f') :
    x.block.num - f.maxSize < b.num ∧ f'.maxSize = f.maxSize ∧ f.Pushed h x b f' := by
  unfold pushBlock at hp
  split at hp
  · cases hp
  next hold =>
  obtain ⟨prev, hlink, hf'⟩ := map_eq_some_iff.mp hp
  simp only [tooOld, hhead, any_some, decide_eq_true_eq, not_le] at hold
  have hitem : f.NewItem h b ⟨f.nextAddr, b, prev, false⟩ :=
    ⟨rfl, rfl, rfl, link_eq_some (by rw [hhead]; rfl) hlink⟩
  have hins : ∀ item, (f.insertItem h item).head = some x := fun _ => hhead
  simp only [raiseHead, hins] at hf'
  by_cases hlt : x.block.num < b.num
  · -- a number above the head is new, so its id is
    have hnew : ¬ (f.findId h (h.id b)).isSome = true := by
      rw [findId_isSome]
      rintro ⟨y, hy, hid⟩
      have hnum : y.block.num = b.num := congrArg BlockId.num hid
      have := htop y hy
      omega
    rw [if_pos hlt] at hf'
    subst hf'
    exact ⟨hold, rfl, .raised _ hitem hlt rfl (by simp only [insertItem, if_neg hnew])⟩
  · rw [if_neg hlt] at hf'
    subst hf'
    refine ⟨hold, rfl, ?_⟩
    by_cases hdup : ∃ y ∈ f.index, h.id y.block = h.id b
    · exact .known (by omega) hdup hhead
        (by simp only [insertItem, if_pos (findId_isSome.mpr hdup)])
    · exact .below _ hitem (by omega) hdup hhead
        (by simp only [insertItem, if_neg (mt findId_isSome.mp hdup)])

end ForkDatabase

/-! ### Runs -/

/-- A list has `b` as the first of its blocks of the greatest number. -/
def FirstHighest (l : List (Block P δ)) (b : Block P δ) : Prop :=
  ∃ l₁ l₂, l = l₁ ++ b :: l₂ ∧ (∀ c ∈ l₁, c.num < b.num) ∧ ∀ c ∈ l₂, c.num ≤ b.num

variable {l : List (Block P δ)} {b c : Block P δ}

section

variable (hb : FirstHighest l b)
include hb

theorem FirstHighest.le (hc : c ∈ l) : c.num ≤ b.num := by
  obtain ⟨l₁, l₂, rfl, hlt, hle⟩ := hb
  rcases mem_append.mp hc with hc | hc
  · exact Nat.le_of_lt (hlt c hc)
  · rcases mem_cons.mp hc with rfl | hc
    · exact Nat.le_refl _
    · exact hle c hc

theorem FirstHighest.append_le (hc : c.num ≤ b.num) : FirstHighest (l ++ [c]) b := by
  obtain ⟨l₁, l₂, rfl, hlt, hle⟩ := hb
  exact ⟨l₁, l₂ ++ [c], by simp, hlt, forall_mem_append.mpr ⟨hle, forall_mem_singleton.mpr hc⟩⟩

theorem FirstHighest.append_gt (hc : b.num < c.num) : FirstHighest (l ++ [c]) c := by
  refine ⟨l, [], rfl, ?_, nofun⟩
  intro d hd
  have := hb.le hd
  omega

end

inductive ForkCall (P δ : Type) where
  | pushBlock (b : Block P δ)
  | setMaxSize (s : Nat)

/-- A fork database and the blocks that it has accepted, in order. -/
structure ForkRun (P δ : Type) where
  fork : ForkDatabase P δ
  accepted : List (Block P δ)

namespace ForkRun

variable [DecidableEq δ] (h : Hash P δ)

def step (s : ForkRun P δ) : ForkCall P δ → ForkRun P δ
  | .pushBlock b =>
    match s.fork.pushBlock h b with
    | none => s
    | some f => ⟨f, s.accepted ++ [b]⟩
  | .setMaxSize n => ⟨s.fork.setMaxSize n, s.accepted⟩

def Started (s : ForkRun P δ) : Prop :=
  ∃ n b, s = ⟨(ForkDatabase.empty.setMaxSize n).startBlock h b, [b]⟩

def rootKept (s : ForkRun P δ) : ForkCall P δ → Bool
  | .pushBlock b =>
    b.previous ≠ h.nullId || s.fork.tooOld b || s.fork.index.any fun x => x.block.num = 1
  | .setMaxSize _ => true

variable {b : Block P δ}

variable {h} in
theorem step_rejected {s : ForkRun P δ} (hp : s.fork.pushBlock h b = none) :
    s.step h (.pushBlock b) = s := by
  simp only [step, hp]

variable {f : ForkDatabase P δ}

variable {h} in
theorem step_accepted {s : ForkRun P δ} (hp : s.fork.pushBlock h b = some f) :
    s.step h (.pushBlock b) = ⟨f, s.accepted ++ [b]⟩ := by
  simp only [step, hp]

/-! ### The head and the window -/

structure Windowed (s : ForkRun P δ) : Prop where
  tidy : s.fork.Tidy h
  top : ∃ x ∈ s.fork.index, s.fork.head = some x ∧ FirstHighest s.accepted x.block ∧
    ∀ y ∈ s.fork.index, y.block.num ≤ x.block.num ∧
      x.block.num - s.fork.maxSize ≤ y.block.num

variable {h} {s : ForkRun P δ}

theorem Windowed.of_started (hs : Started h s) : Windowed h s := by
  obtain ⟨n, b, rfl⟩ := hs
  have hempty : (ForkDatabase.empty.setMaxSize n : ForkDatabase P δ).Tidy h :=
    (tidy_empty h).mono (fun _ hx => hx) rfl
  refine ⟨hempty.pushBlock (pushBlock_unstarted rfl b), ⟨0, b, none, false⟩,
    mem_singleton.mpr rfl, rfl, ⟨[], [], rfl, nofun, nofun⟩, ?_⟩
  exact forall_mem_singleton.mpr ⟨Nat.le_refl _, Nat.sub_le _ _⟩

section

variable (hw : Windowed h s)
include hw

/-- An accepted block moves the window if it is the highest. -/
theorem Windowed.push (hp : s.fork.pushBlock h b = some f) : Windowed h ⟨f, s.accepted ++ [b]⟩ := by
  obtain ⟨x, hx, hhead, hfirst, hbounds⟩ := hw.top
  obtain ⟨hold, hsize, hcase⟩ :=
    pushBlock_started hhead (fun y hy => (hbounds y hy).1) hp
  refine ⟨hw.tidy.pushBlock hp, ?_⟩
  simp only [hsize]
  cases hcase with
  | known hle _ hhead' hindex =>
    rw [hhead', hindex]
    exact ⟨x, hx, rfl, hfirst.append_le hle, hbounds⟩
  | below item hitem hle _ hhead' hindex =>
    rw [hhead', hindex]
    refine ⟨x, mem_append_left _ hx, rfl, hfirst.append_le hle, ?_⟩
    refine forall_mem_append.mpr ⟨hbounds, forall_mem_singleton.mpr ?_⟩
    rw [hitem.block]
    exact ⟨hle, Nat.le_of_lt hold⟩
  | raised item hitem hlt hhead' hindex =>
    rw [hhead', hindex]
    refine ⟨item, ?_, rfl, ?_, ?_⟩
    · simp [hitem.block]
    · rw [hitem.block]
      exact hfirst.append_gt hlt
    · intro y hy
      simp only [mem_filter, decide_eq_true_eq] at hy
      rw [hitem.block]
      refine ⟨?_, hy.2⟩
      rcases mem_append.mp hy.1 with hy | hy
      · have := (hbounds y hy).1
        omega
      · rw [mem_singleton.mp hy, hitem.block]

omit [DecidableEq δ] in
theorem Windowed.resize (n : Nat) : Windowed h ⟨s.fork.setMaxSize n, s.accepted⟩ := by
  obtain ⟨x, hx, hhead, hfirst, hbounds⟩ := hw.top
  rw [setMaxSize_started hhead]
  refine ⟨hw.tidy.mono ?_ rfl, x, ?_, hhead, hfirst, ?_⟩
  · intro y hy
    rcases mem_items.mp hy with hy | hy
    · exact mem_items.mpr (Or.inl (mem_lopped.mp hy).1)
    · exact mem_items.mpr (Or.inr hy)
  · exact mem_lopped.mpr ⟨hx, Nat.sub_le _ _⟩
  · intro y hy
    obtain ⟨hy, hge⟩ := mem_lopped.mp hy
    exact ⟨(hbounds y hy).1, hge⟩

/-- All calls of the fork database. -/
theorem Windowed.step (c : ForkCall P δ) : Windowed h (s.step h c) := by
  cases c with
  | pushBlock b =>
    cases hp : s.fork.pushBlock h b with
    | none =>
      rw [step_rejected hp]
      exact hw
    | some f =>
      rw [step_accepted hp]
      exact hw.push hp
  | setMaxSize n => exact hw.resize n

/-! ### The parents -/

omit hw in
/-- A new item stands on an indexed parent, so it is not the lowest; a block without a
    predecessor has number 1 and may be the lowest. -/
theorem closedList_append {item : ForkItem P δ}
    (hc : ForkDatabase.ClosedList h f.index) (hitem : f.NewItem h b item)
    (hroot : b.previous = h.nullId → ∃ x ∈ f.index, x.block.num = 1) :
    ForkDatabase.ClosedList h (f.index ++ [item]) := by
  -- some indexed block is as low as the new one
  have hlow : ∃ z ∈ f.index, z.block.num ≤ b.num := by
    rcases hitem.linked with ⟨_, hnull⟩ | ⟨p, hp, _, hid⟩
    · obtain ⟨z, hz, hone⟩ := hroot hnull
      exact ⟨z, hz, by rw [hone]; exact Nat.le_add_left _ _⟩
    · have hnum : p.block.num = b.previous.num := congrArg BlockId.num hid
      exact ⟨p, hp, by rw [hnum]; exact Nat.le_succ _⟩
  obtain ⟨z, hz, hzb⟩ := hlow
  rintro x hx ⟨y, hy, hlt⟩
  rcases mem_append.mp hx with hx | hx
  · have hbelow : ∃ y ∈ f.index, y.block.num < x.block.num := by
      rcases mem_append.mp hy with hy | hy
      · exact ⟨y, hy, hlt⟩
      · rw [mem_singleton.mp hy, hitem.block] at hlt
        exact ⟨z, hz, by omega⟩
    obtain ⟨p, hp, hprev, hid⟩ := hc x hx hbelow
    exact ⟨p, mem_append_left _ hp, hprev, hid⟩
  · rw [mem_singleton.mp hx] at hlt ⊢
    rcases hitem.linked with ⟨_, hnull⟩ | ⟨p, hp, hprev, hid⟩
    · have hone : item.block.num = 1 := by rw [hitem.block, Block.num, hnull]; rfl
      have hpos : 0 < y.block.num := Nat.succ_pos _
      omega
    · exact ⟨p, mem_append_left _ hp, hprev, by rw [hitem.block]; exact hid⟩

/-- A new root is fine as long as the tree still has a block at its height. -/
theorem closedList_push (hc : ForkDatabase.ClosedList h s.fork.index)
    (hok : s.rootKept h (.pushBlock b) = true) (hp : s.fork.pushBlock h b = some f) :
    ForkDatabase.ClosedList h f.index := by
  obtain ⟨x, hx, hhead, _, hbounds⟩ := hw.top
  obtain ⟨hold, _, hcase⟩ :=
    pushBlock_started hhead (fun y hy => (hbounds y hy).1) hp
  have hroot : b.previous = h.nullId → ∃ x ∈ s.fork.index, x.block.num = 1 := by
    intro hnull
    have hyoung : s.fork.tooOld b = false := by
      rw [tooOld, hhead, any_some, decide_eq_false_iff_not]
      omega
    simpa [rootKept, hnull, hyoung] using hok
  cases hcase with
  | known _ _ _ hindex =>
    rw [hindex]
    exact hc
  | below item hitem _ _ _ hindex =>
    rw [hindex]
    exact closedList_append hc hitem hroot
  | raised item hitem _ _ hindex =>
    rw [hindex]
    have happ := closedList_append hc hitem hroot
    exact ForkDatabase.ClosedList.lopped
      (f := { s.fork with index := s.fork.index ++ [item] }) happ _

theorem closedList_step (c : ForkCall P δ) (hc : ForkDatabase.ClosedList h s.fork.index)
    (hok : s.rootKept h c = true) : ForkDatabase.ClosedList h (s.step h c).fork.index := by
  cases c with
  | pushBlock b =>
    cases hp : s.fork.pushBlock h b with
    | none =>
      rw [step_rejected hp]
      exact hc
    | some f =>
      rw [step_accepted hp]
      exact closedList_push hw hc hok hp
  | setMaxSize n =>
    obtain ⟨x, _, hhead, _, _⟩ := hw.top
    have hindex : (s.step h (.setMaxSize n)).fork.index = s.fork.lopped (x.block.num - n) :=
      congrArg index (setMaxSize_started hhead n)
    rw [hindex]
    exact hc.lopped _

end

/-- **The fork database keeps a closed window of the block tree.** -/
theorem closed_window (hrun : ReachableUnder (Started h) (fun s c => s.rootKept h c = true)
    (ForkRun.step h) s) :
    ∃ x ∈ s.fork.index, s.fork.head = some x ∧ FirstHighest s.accepted x.block ∧
      (∀ y ∈ s.fork.index, x.block.num - s.fork.maxSize ≤ y.block.num) ∧ s.fork.Closed h := by
  have hinv : Windowed h s ∧ ForkDatabase.ClosedList h s.fork.index := by
    refine hrun.invariant (fun s => Windowed h s ∧ ForkDatabase.ClosedList h s.fork.index) ?_ ?_
    · intro s hs
      refine ⟨Windowed.of_started hs, ?_⟩
      obtain ⟨n, b, rfl⟩ := hs
      rintro x hx ⟨y, hy, hlt⟩
      rw [mem_singleton.mp hx, mem_singleton.mp hy] at hlt
      exact absurd hlt (Nat.lt_irrefl _)
    · rintro s c ⟨hw, hc⟩ hok
      exact ⟨hw.step c, closedList_step hw c hc hok⟩
  obtain ⟨hw, hc⟩ := hinv
  obtain ⟨x, hx, hhead, hfirst, hbounds⟩ := hw.top
  exact ⟨x, hx, hhead, hfirst, fun y hy => (hbounds y hy).2, hc.closed hw.tidy⟩

/-! ### A block without a predecessor above the lowest number -/

def payloadHash : Hash Nat Nat := ⟨Block.payload, 0⟩

-- a node that starts at block 2, block 3 on top of it, and a block 1
def secondBlock : Block Nat Nat := ⟨⟨1, 7⟩, 10, 8⟩

def thirdBlock : Block Nat Nat := ⟨⟨2, 8⟩, 15, 9⟩

def rootlessBlock : Block Nat Nat := ⟨⟨0, 0⟩, 5, 7⟩

def startAtSecond : ForkRun Nat Nat :=
  ⟨(ForkDatabase.empty.setMaxSize 1500).startBlock payloadHash secondBlock, [secondBlock]⟩

theorem closed_above_second :
    ∃ x ∈ (startAtSecond.step payloadHash (.pushBlock thirdBlock)).fork.index,
      (startAtSecond.step payloadHash (.pushBlock thirdBlock)).fork.head = some x ∧
      FirstHighest [secondBlock, thirdBlock] x.block ∧
      (∀ y ∈ (startAtSecond.step payloadHash (.pushBlock thirdBlock)).fork.index,
        x.block.num - 1500 ≤ y.block.num) ∧
      (startAtSecond.step payloadHash (.pushBlock thirdBlock)).fork.Closed payloadHash :=
  closed_window (.call (.start ⟨1500, secondBlock, rfl⟩) (by decide))

/-- The block is taken although block 2 is the lowest in the index; block 2 is then above
    the lowest number and points nowhere. -/
theorem rootless_block_splits_tree :
    ReachableUnder (Started payloadHash) (fun _ _ => True) (ForkRun.step payloadHash)
        (startAtSecond.step payloadHash (.pushBlock rootlessBlock)) ∧
      ¬ (startAtSecond.step payloadHash (.pushBlock rootlessBlock)).fork.Closed payloadHash := by
  refine ⟨.call (.start ⟨1500, secondBlock, rfl⟩) trivial, ?_⟩
  have hindex : (startAtSecond.step payloadHash (.pushBlock rootlessBlock)).fork.index =
      [⟨0, secondBlock, none, false⟩, ⟨1, rootlessBlock, none, false⟩] := rfl
  intro hclosed
  have hsecond := hclosed ⟨0, secondBlock, none, false⟩
  rw [hindex] at hsecond
  obtain ⟨p, _, _, hlock⟩ := hsecond (mem_cons_self ..)
    ⟨⟨1, rootlessBlock, none, false⟩, mem_cons_of_mem _ (mem_cons_self ..), by decide⟩
  cases hlock

end ForkRun

end HyperExchange.Blocks
