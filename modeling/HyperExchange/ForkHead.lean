/-
  **When the head of the fork database is the head of the chain.**

  A push raises the head of the fork database first and then moves the chain.  The two
  heads agree again if the block is taken on top of the head, or if a fork switch is
  given up at its first block, since then `set_head` puts the old head back and nothing
  is popped after it (`InStep.push`).  They come apart when a block on top of the head is
  refused, when a switch goes through (the pops of the old branch have moved the head of
  the fork database down, and nobody moves it up again), and when a switch is given up
  later (`fork_head_left_behind`).
-/
import HyperExchange.FailedPush

namespace HyperExchange.Blocks

open Execution List Option ForkDatabase Chain

variable {P δ β D U Id : Type} [DecidableEq δ] [DecidableEq Id] {p : Params P δ β D U Id}

namespace Chain

variable (p : Params P δ β D U Id)

/-- The head of the fork database is in its index and is the head of the chain; before
    the first block there is neither. -/
def HeadsAgree (s : Chain P δ β D U Id) : Prop :=
  match s.fork.head with
  | some x => x ∈ s.fork.index ∧ p.hash.id x.block = s.headId p
  | none => s.fork.index = [] ∧ s.headId p = p.hash.nullId

/-- The old branch can be popped, the oldest block of the new one is refused, and the old
    branch is taken again. -/
def givesUpAtOnce (s : Chain P δ β D U Id) (now : Nat) (b : Block P δ)
    (first second : List (ForkItem P δ)) : Bool :=
  match second.getLast?, first.reverse with
  | some last, x :: left =>
    match popUntil p last.block.previous (s.undoDb.size + 1) s with
    | .thrown _ => false
    | .ok t =>
      match t.applyStored p now (p.hash.id x.block) x.block with
      | .ok _ => false
      | .thrown t => (t.restoreBranch p now b (x :: left) second last.block.previous).returned
  | _, _ => false

/-- The push is rejected by the fork database, is not higher than the head, is taken on
    top of the head, or starts a switch that is given up at its first block.  Past the
    fork database, the block is refused and is not the head. -/
def headKept (s : Chain P δ β D U Id) (i : PushCall P δ) : Bool :=
  if i.skipForkDb then
    !(s.applyStored p i.now (p.hash.id i.block) i.block).returned &&
      p.hash.id i.block ≠ s.headId p
  else match s.fork.pushBlock p.hash i.block with
    | none => true
    | some fork => fork.head.any fun newHead =>
        if newHead.block.previous = s.headId p then
          (applyStored p i.now (p.hash.id i.block) i.block { s with fork := fork }).returned
        else newHead.block.num ≤ (s.headId p).num ||
          (fork.fetchBranchFrom p.hash (p.hash.id newHead.block) (s.headId p)).any fun r =>
            givesUpAtOnce p { s with fork := fork } i.now i.block r.1 r.2

end Chain

/-! ### The invariant -/

structure InStep (p : Params P δ β D U Id) (s : Chain P δ β D U Id) : Prop where
  tidy : s.fork.Tidy p.hash
  agree : s.HeadsAgree p
  below : ∀ x, s.fork.head = some x → ∀ y ∈ s.fork.index, y.block.num ≤ x.block.num

/-! ### Fork database -/

namespace ForkDatabase

variable {h : Hash P δ} {f f' : ForkDatabase P δ} {x : ForkItem P δ} {l : List (ForkItem P δ)}

omit [DecidableEq δ] in
theorem Path.num_lt (ht : f.Tidy h) (hx : x ∈ f.items) (hpath : f.Path (x :: l)) :
    ∀ y ∈ l, y.block.num < x.block.num := by
  induction l generalizing x with
  | nil => simp
  | cons z l ih =>
    have hlock : f.lock x.prev = some z := (isChain_cons_cons.mp hpath).1
    have hnum : x.block.num = z.block.num + 1 := by
      rw [Block.num, ← ht.id_lock hx hlock]
      rfl
    intro y hy
    rcases mem_cons.mp hy with rfl | hy
    · omega
    · have := ih (lock_eq_some hlock).1 (isChain_cons_cons.mp hpath).2 y hy
      omega

/-- A block that becomes the head and is higher than all others is inserted. -/
theorem mem_index_of_raised {item : ForkItem P δ}
    (hnew : ∀ y ∈ f.index, h.id y.block ≠ h.id item.block) :
    item ∈ ((f.insertItem h item).raiseHead item).index := by
  have hnone : (f.findId h (h.id item.block)).isSome = false := by
    rw [← Bool.not_eq_true, findId_isSome]
    rintro ⟨y, hy, hid⟩
    exact hnew y hy hid
  have hins : item ∈ (f.insertItem h item).index := by
    simp [insertItem, hnone]
  unfold raiseHead
  split
  · exact hins
  · split
    · exact mem_filter.mpr ⟨hins, by simp⟩
    · exact hins

/-- Once there is a head, a block is only taken on top of a known one. -/
theorem previous_known {b : Block P δ} (hp : f.pushBlock h b = some f') (hx : f.head = some x) :
    b.previous = h.nullId ∨ ∃ y ∈ f.index, h.id y.block = b.previous := by
  by_cases hnull : b.previous = h.nullId
  · exact Or.inl hnull
  right
  rw [← findId_isSome]
  unfold pushBlock at hp
  split at hp
  · cases hp
  obtain ⟨prev, hlink, _⟩ := map_eq_some_iff.mp hp
  rw [link, if_pos ⟨by rw [hx]; rfl, hnull⟩] at hlink
  cases hfind : f.findId h b.previous with
  | none => rw [hfind] at hlink; cases hlink
  | some y => rfl

theorem mem_foldl_remove {y : ForkItem P δ} :
    y ∈ (l.foldl (fun f x => f.remove h (h.id x.block)) f).index ↔
      y ∈ f.index ∧ ∀ x ∈ l, h.id y.block ≠ h.id x.block := by
  induction l generalizing f with
  | nil => simp
  | cons x l ih =>
    rw [foldl_cons, ih]
    simp [remove, and_assoc]

theorem nextAddr_foldl_remove (l : List (ForkItem P δ)) (f : ForkDatabase P δ) :
    (l.foldl (fun f x => f.remove h (h.id x.block)) f).nextAddr = f.nextAddr := by
  induction l generalizing f with
  | nil => rfl
  | cons x l ih =>
    rw [foldl_cons, ih]
    rfl

end ForkDatabase

/-! ### Popping and applying the old branch again -/

namespace Chain

variable {s s' : Chain P δ β D U Id}

theorem popBlock_fork (s : Chain P δ β D U Id) : (s.popBlock p).state.fork.index = s.fork.index ∧
    (s.popBlock p).state.fork.nextAddr = s.fork.nextAddr := by
  unfold popBlock
  split
  · exact ⟨rfl, rfl⟩
  split
  · exact ⟨rfl, rfl⟩
  next fork hfork =>
  have hsame : fork.index = s.fork.index ∧ fork.nextAddr = s.fork.nextAddr := by
    obtain ⟨x, _, rfl⟩ := map_eq_some_iff.mp hfork
    exact ⟨rfl, rfl⟩
  split
  · exact hsame
  unfold popUndo
  split
  · exact hsame
  split
  · split
    · exact hsame
    · cases Db.UndoHistory.popCommit p.states p.rules.blank s.undoDb <;> exact hsame
  · exact hsame

/-- Popping down leaves the items of the fork database. -/
theorem popUntil_ok {id : BlockId δ} {n : Nat} (h : popUntil p id n s = .ok s') :
    s'.headId p = id ∧ s'.fork.index = s.fork.index ∧ s'.fork.nextAddr = s.fork.nextAddr := by
  have hfork := popUntil_keeps (p := p) (C := fun t => t.fork.index = s.fork.index ∧
    t.fork.nextAddr = s.fork.nextAddr) (fun {t} ht =>
      ⟨(popBlock_fork t).1.trans ht.1, (popBlock_fork t).2.trans ht.2⟩) id n ⟨rfl, rfl⟩
  rw [h] at hfork
  refine ⟨?_, hfork⟩
  clear hfork
  induction n generalizing s with
  | zero => cases h
  | succ n ih =>
    unfold popUntil at h
    split at h
    · next hid =>
      cases h
      exact hid
    · obtain ⟨t, _, hrest⟩ := Exec.andThen_eq_ok.mp h
      exact ih hrest

/-- Blocks that are all taken leave the last one as the head. -/
theorem forEach_ok (hp : p.Sound) {now : Nat} {id : BlockId δ} {l : List (ForkItem P δ)}
    {x : ForkItem P δ}
    (h : Exec.forEach (fun s x => s.applyStored p now id x.block) (l ++ [x]) s = .ok s') :
    s'.headId p = p.hash.id x.block ∧ s'.fork = s.fork := by
  induction l generalizing s with
  | nil =>
    obtain ⟨t, ht, hrest⟩ := Exec.andThen_eq_ok.mp h
    cases hrest
    obtain ⟨⟨n, u, happly⟩, _, hfork, _⟩ := applyStored_ok ht
    exact ⟨hp.rules.headId_eq happly, hfork⟩
  | cons y l ih =>
    obtain ⟨t, ht, hrest⟩ := Exec.andThen_eq_ok.mp h
    obtain ⟨hhead, hfork⟩ := ih hrest
    exact ⟨hhead, hfork.trans (applyStored_ok ht).fork⟩

/-- **The handler of a failed switch** on a chain at the fork point. -/
theorem restoreBranch_ok (hp : p.Sound) {now : Nat} {b : Block P δ} {y : ForkItem P δ}
    {left second : List (ForkItem P δ)} {forkPoint : BlockId δ} (hhead : s.headId p = forkPoint)
    (hy : second.head? = some y)
    (h : s.restoreBranch p now b left second forkPoint = .ok s') :
    s'.headId p = p.hash.id y.block ∧
      s'.fork = (left.foldl (fun f x => f.remove p.hash (p.hash.id x.block)) s.fork).setHead
        (some y) := by
  obtain ⟨rest, rfl⟩ := head?_eq_some_iff.mp hy
  obtain ⟨t, hpop, hrest⟩ := Exec.andThen_eq_ok.mp h
  rw [popUntil, if_pos (by exact hhead)] at hpop
  cases hpop
  rw [reverse_cons] at hrest
  exact forEach_ok hp hrest

end Chain

namespace InStep

variable {p : Params P δ β D U Id} {s : Chain P δ β D U Id} {b : Block P δ}
  {fork : ForkDatabase P δ} {newHead : ForkItem P δ}

omit [DecidableEq δ] [DecidableEq Id] in
theorem genesis {d : D} (hd : p.rules.headId d = p.hash.nullId) : InStep p (genesis d) where
  tidy := tidy_empty p.hash
  agree := ⟨rfl, hd⟩
  below := by
    intro x hx
    cases hx

omit [DecidableEq δ] [DecidableEq Id] in
theorem index_num_le (h : InStep p s) : ∀ y ∈ s.fork.index, y.block.num ≤ (s.headId p).num := by
  have hagree := h.agree
  unfold Chain.HeadsAgree at hagree
  cases hhead : s.fork.head with
  | none =>
    rw [hhead] at hagree
    rw [hagree.1]
    intro y hy
    cases hy
  | some x =>
    rw [hhead] at hagree
    rw [← hagree.2]
    exact h.below x hhead

/-- A block higher than the head, with its item and what is known of the other items. -/
structure Raised (p : Params P δ β D U Id) (s : Chain P δ β D U Id) (b : Block P δ)
    (fork : ForkDatabase P δ) (newHead : ForkItem P δ) : Prop where
  head : fork.head = some newHead
  block : newHead.block = b
  mem : newHead ∈ fork.index
  others : ∀ y ∈ fork.index, y = newHead ∨ y ∈ s.fork.index
  above : (s.headId p).num < b.num
  next : s.fork.head.isSome = true → b.num = (s.headId p).num + 1

variable (h : InStep p s)
include h

omit [DecidableEq Id] in
/-- **What a push does to the fork database of a chain in step**: the head is raised, or
    it stays and the block goes beside the chain. -/
theorem pushFork (hpush : s.fork.pushBlock p.hash b = some fork) :
    (∃ newHead, Raised p s b fork newHead) ∨
      InStep p { s with fork := fork } ∧ fork.head = s.fork.head ∧ s.fork.head.isSome = true := by
  obtain ⟨item, hblock, haddr, hprev, rfl⟩ := pushBlock_spec hpush
  have hnum := h.index_num_le
  rcases head_pushBlock (h := p.hash) s.fork item with
    ⟨hhead, hlt⟩ | ⟨hhead, x, hx, hle⟩
  · left
    have hagree := h.agree
    unfold Chain.HeadsAgree at hagree
    have habove : (s.headId p).num < item.block.num := by
      cases hs : s.fork.head with
      | none =>
        rw [hs] at hagree
        rw [hagree.2]
        exact Nat.succ_pos _
      | some x =>
        rw [hs] at hagree
        rw [← hagree.2]
        exact hlt x hs
    refine ⟨item, hhead, hblock, ?_, ?_, hblock ▸ habove, ?_⟩
    · refine mem_index_of_raised ?_
      intro y hy hid
      have hle := hnum y hy
      have heq : y.block.num = item.block.num := congrArg BlockId.num hid
      omega
    · intro y hy
      exact (mem_index_pushBlock hy).symm
    · intro hsome
      obtain ⟨x, hs⟩ := isSome_iff_exists.mp hsome
      rw [hs] at hagree
      have hx : x.block.num = (s.headId p).num := congrArg BlockId.num hagree.2
      have hb : b.num = b.previous.num + 1 := rfl
      rw [hblock] at habove
      rcases previous_known hpush hs with hnull | ⟨y, hy, hid⟩
      · have hx₁ : x.block.num = x.block.previous.num + 1 := rfl
        have hb₁ : b.previous.num = 0 := congrArg BlockId.num hnull
        omega
      · have hy₁ : y.block.num = b.previous.num := congrArg BlockId.num hid
        have := hnum y hy
        omega
  · right
    have hagree := h.agree
    unfold Chain.HeadsAgree at hagree
    rw [hx] at hagree
    refine ⟨⟨h.tidy.pushBlock hpush, ?_, ?_⟩, hhead, ?_⟩
    · unfold Chain.HeadsAgree
      simp only [hhead, hx]
      refine ⟨?_, hagree.2⟩
      simp only [raiseHead, insertItem, hx, if_neg (Nat.not_lt.mpr hle)]
      split
      · exact hagree.1
      · exact mem_append_left _ hagree.1
    · intro z hz y hy
      cases hx.symm.trans (hhead.symm.trans hz)
      rcases mem_index_pushBlock hy with hy | rfl
      · exact h.below x hx y hy
      · exact hle
    · rw [hx]
      rfl

variable (hp : p.Sound)
include hp

theorem taken {s' : Chain P δ β D U Id} {now : Nat} (hpush : s.fork.pushBlock p.hash b = some fork)
    (hraised : Raised p s b fork newHead)
    (hcall : applyStored p now (p.hash.id b) b { s with fork := fork } = .ok s') : InStep p s' := by
  obtain ⟨⟨n, u, happly⟩, _, hfork, _⟩ := applyStored_ok hcall
  have hfork : s'.fork = fork := hfork
  refine ⟨?_, ?_, ?_⟩
  · rw [hfork]
    exact h.tidy.pushBlock hpush
  · unfold Chain.HeadsAgree
    rw [hfork]
    simp only [hraised.head, hraised.block, headId]
    exact ⟨hraised.mem, (hp.rules.headId_eq happly).symm⟩
  · rw [hfork]
    intro x hx y hy
    cases hraised.head.symm.trans hx
    rcases hraised.others y hy with rfl | hy
    · exact Nat.le_refl _
    · have := h.index_num_le y hy
      have := hraised.above
      rw [hraised.block]
      omega

omit [DecidableEq Id] in
theorem headId_ne_of_mem_first {y : ForkItem P δ} {first : List (ForkItem P δ)}
    (hpush : s.fork.pushBlock p.hash b = some fork) (hraised : Raised p s b fork newHead)
    (hne : newHead.block.previous ≠ s.headId p) (hy : y ∈ fork.index)
    (hid : p.hash.id y.block = s.headId p) (hpath : fork.Path first)
    (hhead : ∃ x ∈ fork.index, first.head? = some x ∧ p.hash.id x.block = p.hash.id newHead.block) :
    ∀ x ∈ first, s.headId p ≠ p.hash.id x.block := by
  obtain ⟨x₀, hx₀, hfirst, hid₀⟩ := hhead
  have hblock₀ : x₀.block = newHead.block := hp.hash.id_injective hid₀
  have hitems : x₀ ∈ fork.items := mem_items.mpr (Or.inl hx₀)
  have htidy := h.tidy.pushBlock hpush
  have habove := hraised.above
  have hynum : y.block.num = (s.headId p).num := congrArg BlockId.num hid
  -- the chain has a head, so the new block is just one higher
  have hnext : b.num = (s.headId p).num + 1 := by
    refine hraised.next ?_
    have hagree := h.agree
    unfold Chain.HeadsAgree at hagree
    cases hs : s.fork.head with
    | some x => rfl
    | none =>
      rw [hs] at hagree
      rcases hraised.others y hy with rfl | hy
      · rw [hraised.block] at hynum
        omega
      · rw [hagree.1] at hy
        cases hy
  intro x hx heq
  have hxnum : (s.headId p).num = x.block.num := congrArg BlockId.num heq
  cases first with
  | nil => cases hfirst
  | cons z l =>
    cases hfirst
    rcases mem_cons.mp hx with rfl | hx
    · rw [hblock₀, hraised.block] at hxnum
      omega
    · cases l with
      | nil => cases hx
      | cons z l =>
        obtain ⟨hlock, hrest⟩ := isChain_cons_cons.mp hpath
        have hz := htidy.id_lock hitems hlock
        rw [hblock₀] at hz
        rcases mem_cons.mp hx with rfl | hx
        · exact hne (hz.symm.trans heq.symm)
        have hlt := ForkDatabase.Path.num_lt htidy (lock_eq_some hlock).1 hrest x hx
        have hznum : z.block.num + 1 = b.num := by
          rw [← hraised.block]
          exact congrArg (BlockId.num · + 1) hz
        omega

theorem givenUp {now : Nat} {first second : List (ForkItem P δ)}
    (hpush : s.fork.pushBlock p.hash b = some fork) (hraised : Raised p s b fork newHead)
    (hne : newHead.block.previous ≠ s.headId p)
    (hbranch : fork.fetchBranchFrom p.hash (p.hash.id newHead.block) (s.headId p) =
      some (first, second))
    (hgives : givesUpAtOnce p { s with fork := fork } now b first second = true) :
    InStep p (switchForks p now b newHead { s with fork := fork }).state := by
  have htidy := h.tidy.pushBlock hpush
  obtain ⟨⟨hpath₁, hhead₁⟩, ⟨hpath₂, y, hy, hhead₂, hid⟩, _⟩ := fetchBranchFrom_spec hbranch
  simp only [givesUpAtOnce] at hgives
  split at hgives
  case h_2 => cases hgives
  next last x left hlast hfirst =>
  split at hgives
  · cases hgives
  next t hpop =>
  split at hgives
  · cases hgives
  next t₁ hrefused =>
  obtain ⟨t', hrestore⟩ := Exec.returned_iff.mp hgives
  -- the fork database of the chain at the end
  obtain ⟨hpoint, hindex, hnext⟩ := popUntil_ok hpop
  have hsame := applyStored_thrown hrefused
  obtain ⟨hheadId, hfork⟩ := restoreBranch_ok hp
    ((congrArg p.rules.headId hsame.db).trans hpoint) hhead₂ hrestore
  rw [hsame.fork] at hfork
  have hfinal : switchForks p now b newHead { s with fork := fork } = .thrown t' := by
    have hbranch' : fetchBranchFrom p.hash fork (p.hash.id newHead.block)
        (headId p { s with fork := fork }) = some (first, second) := hbranch
    simp only [switchForks, hbranch', hlast, hpop, Exec.ok_andThen, hfirst, pushBranch, hrefused,
      hrestore, Exec.state_ok]
  rw [hfinal]
  show InStep p t'
  have hkept : ∀ z, z ∈ t'.fork.index ↔
      z ∈ fork.index ∧ ∀ w ∈ first, p.hash.id z.block ≠ p.hash.id w.block := by
    intro z
    rw [hfork, ← hfirst]
    simp only [setHead, mem_foldl_remove, hindex, mem_reverse]
  have hnew := h.headId_ne_of_mem_first hp hpush hraised hne hy hid hpath₁ hhead₁
  have hhead : t'.fork.head = some y := by
    rw [hfork]
    rfl
  refine ⟨?_, ?_, ?_⟩
  · refine htidy.mono ?_ ?_
    · intro z hz
      rw [mem_items] at hz ⊢
      rcases hz with hz | hz
      · exact Or.inl ((hkept z).mp hz).1
      · cases hhead.symm.trans hz
        exact Or.inl hy
    · rw [hfork]
      exact (nextAddr_foldl_remove _ _).trans hnext
  · unfold Chain.HeadsAgree
    rw [hhead]
    refine ⟨(hkept y).mpr ⟨hy, ?_⟩, hheadId.symm⟩
    intro z hz
    rw [hid]
    exact hnew z hz
  · intro z hz w hw
    cases hhead.symm.trans hz
    obtain ⟨hw, hnot⟩ := (hkept w).mp hw
    rw [show y.block.num = (s.headId p).num from congrArg BlockId.num hid]
    rcases hraised.others w hw with rfl | hw
    · -- the new head is the first block of its branch, and out
      obtain ⟨x₀, _, hx₀, hid₀⟩ := hhead₁
      exact absurd hid₀.symm (hnot x₀ (mem_of_mem_head? hx₀))
    · exact h.index_num_le w hw

omit hp in
theorem refusedPast {now : Nat}
    (hrefused : (s.applyStored p now (p.hash.id b) b).returned = false)
    (hne : p.hash.id b ≠ s.headId p) : InStep p (s.pushLinear p now b).state := by
  unfold pushLinear
  cases hcall : s.applyStored p now (p.hash.id b) b with
  | ok s' =>
    rw [hcall] at hrefused
    cases hrefused
  | thrown s' =>
    have hsame := applyStored_thrown hcall
    show InStep p { s' with fork := s'.fork.remove p.hash (p.hash.id b) }
    rw [hsame.fork]
    refine ⟨h.tidy.remove _, ?_, ?_⟩
    · have hagree := h.agree
      unfold Chain.HeadsAgree at hagree ⊢
      simp only [headId, ForkDatabase.remove, hsame.db]
      cases hhead : s.fork.head with
      | none =>
        rw [hhead] at hagree
        rw [hagree.1]
        exact ⟨rfl, hagree.2⟩
      | some x =>
        rw [hhead] at hagree
        refine ⟨mem_filter.mpr ⟨hagree.1, ?_⟩, hagree.2⟩
        rw [hagree.2, decide_eq_true_eq]
        exact hne.symm
    · intro x hx y hy
      exact h.below x hx y (mem_of_mem_filter hy)

omit [DecidableEq Id] hp in
theorem raised_of_lt (hpush : s.fork.pushBlock p.hash b = some fork)
    (hhead : fork.head = some newHead) (hlt : (s.headId p).num < newHead.block.num) :
    Raised p s b fork newHead := by
  rcases h.pushFork hpush with ⟨x, hx⟩ | ⟨hin, _, _⟩
  · cases hx.head.symm.trans hhead
    exact hx
  · have hagree := hin.agree
    unfold Chain.HeadsAgree at hagree
    simp only [hhead] at hagree
    have heq : newHead.block.num = (s.headId p).num := congrArg BlockId.num hagree.2
    omega

/-- **Step lemma.** -/
theorem push {i : PushCall P δ} (hok : s.headKept p i = true) : InStep p (s.push p i).state := by
  unfold headKept at hok
  generalize hr : s.push p i = r
  cases hr ▸ push_outcome p s i with
  | skip hskip =>
    rw [if_pos hskip, Bool.and_eq_true, decide_eq_true_eq, Bool.not_eq_true'] at hok
    exact h.refusedPast hok.1 hok.2
  | rejected => exact h
  | headless hskip hpush hhead =>
    simp only [hskip, hpush, hhead, any_none, Bool.false_eq_true, if_false] at hok
  | linear hskip hpush hhead hprev =>
    simp only [hskip, hpush, hhead, hprev, any_some, Bool.false_eq_true, if_false,
      if_true] at hok
    obtain ⟨s', hs'⟩ := Exec.returned_iff.mp hok
    rw [pushLinear, hs']
    refine h.taken hp hpush (h.raised_of_lt hpush hhead ?_) hs'
    rw [Block.num, hprev]
    exact Nat.lt_succ_self _
  | kept _ hpush hhead _ hle =>
    rcases h.pushFork hpush with ⟨x, hx⟩ | ⟨hin, _⟩
    · cases hx.head.symm.trans hhead
      have habove := hx.above
      rw [hx.block] at hle
      omega
    · exact hin
  | lost hskip hpush hhead hne hlt hbranch =>
    simp only [hskip, hpush, hhead, hbranch, any_some, any_none, Bool.or_false,
      Bool.false_eq_true, if_false, if_neg hne, decide_eq_true_eq] at hok
    omega
  | switch hskip hpush hhead hne hlt hbranch =>
    simp only [hskip, hpush, hhead, hbranch, any_some, Bool.false_eq_true, if_false,
      if_neg hne, Bool.or_eq_true, decide_eq_true_eq] at hok
    rcases hok with hle | hgives
    · omega
    · exact h.givenUp hp hpush (h.raised_of_lt hpush hhead hlt) hne hbranch hgives

end InStep

/-- In a run of pushes that are rejected by the fork database, stay below the head, are
    taken on top of it or give up a switch at its first block, the head of the fork
    database is the head of the chain. -/
theorem fork_head_is_chain_head (p : Params P δ β D U Id) (hp : p.Sound) (d : D)
    (hd : p.rules.headId d = p.hash.nullId) (s : Chain P δ β D U Id)
    (hr : ReachableUnder (· = genesis d) (fun s i => s.headKept p i = true)
      (fun s i => (s.push p i).state) s) :
    s.HeadsAgree p := by
  have h : InStep p s :=
    hr.invariant (InStep p)
      (by rintro _ rfl; exact .genesis hd) (fun _ _ h hok => h.push hp hok)
  exact h.agree

/-- The switch to c2, c3 is given up at c2, and a3 goes on top of a2. -/
theorem heads_agree_after_giving_up :
    let c2 := after (plainHash.id a1) 0
    let s := pushAll [a1, a2, c2, after (plainHash.id c2) 1, after (plainHash.id a2) 1]
    s.applied = [after (plainHash.id a2) 1, a2, a1] ∧ s.HeadsAgree plainParams := by
  refine ⟨by decide +kernel, ?_⟩
  exact fork_head_is_chain_head plainParams plainParams_sound [] rfl _
    (ReachableUnder.of_checkRun (.start rfl) (by decide +kernel))

def forkHead (l : List NumberBlock) : Option NumberBlock := (pushAll l).fork.head.map (·.block)

/-- A block refused on top of `a2` stays the head of the fork database though it is
    removed from the index.  A switch from `a2` to `b2`, `b3` leaves the head at `b2`, and
    one given up after `b2` leaves it at `a1`. -/
theorem fork_head_left_behind :
    let bad := after (plainHash.id a2) 0
    (forkHead [a1, a2] = some a2 ∧ forkHead [a1, a2, b2] = some a2) ∧
    ((pushAll [a1, a2, bad]).headId plainParams = plainHash.id a2 ∧
      forkHead [a1, a2, bad] = some bad ∧
      (pushAll [a1, a2, bad]).fork.findId plainHash (plainHash.id bad) = none) ∧
    ((pushAll [a1, a2, b2, b3]).headId plainParams = plainHash.id b3 ∧
      forkHead [a1, a2, b2, b3] = some b2) ∧
    ((pushAll [a1, a2, b2, after (plainHash.id b2) 0]).headId plainParams = plainHash.id a2 ∧
      forkHead [a1, a2, b2, after (plainHash.id b2) 0] = some a1) := by
  decide +kernel

end HyperExchange.Blocks
