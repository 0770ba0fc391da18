/-
  **A push that throws leaves no trace, unless it gave up a fork switch.**

  `Recorded` says that the undo database holds the states of the newest blocks and that the
  log answers for every block of the main chain.  It is kept by a push that fails before
  anything is popped, by a block on top of the head, and by a fork switch that goes through
  (`Recorded.push`), while every session is started in order.  When a switch is given up,
  `restoreBranch` stores the old blocks under the id of the pushed block, where nobody finds
  them (`failed_switch_loses_blocks`).
-/
import HyperExchange.ChainHistory

namespace HyperExchange.Blocks

open Execution List Option ForkDatabase BlockLog

variable {P δ β D U Id : Type} [DecidableEq δ] [DecidableEq Id] {p : Params P δ β D U Id}

namespace Chain

variable (p : Params P δ β D U Id) (s : Chain P δ β D U Id)

/-- The block raises the head of the fork database above that of the chain, off the chain's
    head, and the two branches are found. -/
def startsSwitch (i : PushCall P δ) : Bool :=
  !i.skipForkDb && (s.fork.pushBlock p.hash i.block).any fun fork => fork.head.any fun newHead =>
    newHead.block.previous ≠ s.headId p && decide ((s.headId p).num < newHead.block.num) &&
      (fork.fetchBranchFrom p.hash (p.hash.id newHead.block) (s.headId p)).isSome

/-- If the push starts a fork switch, the switch goes through. -/
def cleanPush (i : PushCall P δ) : Bool :=
  !s.startsSwitch p i || (s.push p i).returned

variable {p} {s}

theorem cleanPush_switch {i : PushCall P δ} {fork : ForkDatabase P δ} {newHead : ForkItem P δ}
    {first second : List (ForkItem P δ)} (hskip : i.skipForkDb = false)
    (hpush : s.fork.pushBlock p.hash i.block = some fork) (hhead : fork.head = some newHead)
    (hne : newHead.block.previous ≠ s.headId p) (hlt : (s.headId p).num < newHead.block.num)
    (hbranch : fork.fetchBranchFrom p.hash (p.hash.id newHead.block) (s.headId p) =
      some (first, second)) :
    s.cleanPush p i = (s.push p i).returned := by
  simp [cleanPush, startsSwitch, hskip, hpush, hhead, hne, hlt, hbranch]

/-- **What such a push keeps**, if nothing is asked of switches that are given up. -/
theorem cleanPush_keeps {C : Chain P δ β D U Id → Prop} {i : PushCall P δ} (h : C s)
    (hfork : ∀ {fork}, s.fork.pushBlock p.hash i.block = some fork → C { s with fork := fork })
    (hlinear : ∀ {t : Chain P δ β D U Id}, C t →
      (t.pushLinear p i.now i.block).state.ordered = true → C (t.pushLinear p i.now i.block).state)
    (hswitch : ∀ {fork newHead first second t}, s.fork.pushBlock p.hash i.block = some fork →
      (s.headId p).num < newHead.block.num →
      fork.fetchBranchFrom p.hash (p.hash.id newHead.block) (s.headId p) = some (first, second) →
      switchForks p i.now i.block newHead { s with fork := fork } = .ok t → t.ordered = true → C t)
    (hok : s.cleanPush p i = true) (hord : (s.push p i).state.ordered = true) :
    C (s.push p i).state := by
  generalize hr : s.push p i = r at hord ⊢
  cases hr ▸ push_outcome p s i with
  | skip => exact hlinear h hord
  | rejected => exact h
  | headless _ hpush | kept _ hpush | lost _ hpush => exact hfork hpush
  | linear _ hpush => exact hlinear (hfork hpush) hord
  | switch hskip hpush hhead hne hlt hbranch =>
    rw [cleanPush_switch hskip hpush hhead hne hlt hbranch, hr] at hok
    obtain ⟨t, ht⟩ := Exec.returned_iff.mp hok
    rw [ht] at hord ⊢
    exact hswitch hpush hlt hbranch ht hord

/-- **A push that throws changes neither the database nor the log.** -/
theorem thrown_unchanged {i : PushCall P δ} (hok : s.cleanPush p i = true)
    (hthrow : (s.push p i).returned = false) :
    (s.push p i).state.db = s.db ∧ (s.push p i).state.log = s.log := by
  have hlinear : ∀ t : Chain P δ β D U Id, (t.pushLinear p i.now i.block).returned = false →
      (t.pushLinear p i.now i.block).state.db = t.db ∧
        (t.pushLinear p i.now i.block).state.log = t.log := by
    intro t ht
    unfold pushLinear at ht ⊢
    cases hcall : t.applyStored p i.now (p.hash.id i.block) i.block with
    | ok t' =>
      rw [hcall] at ht
      cases ht
    | thrown t' => exact ⟨(applyStored_thrown hcall).db, (applyStored_thrown hcall).log⟩
  generalize hr : s.push p i = r at hthrow ⊢
  cases hr ▸ push_outcome p s i with
  | skip => exact hlinear s hthrow
  | rejected | headless | lost => exact ⟨rfl, rfl⟩
  | linear => exact hlinear _ hthrow
  | kept => cases hthrow
  | switch hskip hpush hhead hne hlt hbranch =>
    rw [cleanPush_switch hskip hpush hhead hne hlt hbranch, hr, hthrow] at hok
    cases hok

end Chain

/-! ### The invariant -/

structure Recorded (p : Params P δ β D U Id) (s : Chain P δ β D U Id) : Prop where
  rewinds : ∃ hist, Rewinds p (fun _ _ => True) s hist
  wellFormed : s.log.WellFormed
  holds : ∀ b ∈ s.applied, s.log.Holds p.hash p.codec b
  tidy : s.fork.Tidy p.hash

namespace Recorded

variable {s s' : Chain P δ β D U Id}

omit [DecidableEq Id] in
theorem genesis {d : D} (hd : p.rules.headId d = p.hash.nullId) :
    Recorded p (Chain.genesis d) :=
  ⟨Traced.genesis hd trivial rfl, wellFormed_empty, by simp [Chain.genesis], tidy_empty p.hash⟩

variable (h : Recorded p s)
include h

omit [DecidableEq Id] in
theorem withFork {fork : ForkDatabase P δ} (hfork : fork.Tidy p.hash) :
    Recorded p { s with fork := fork } := by
  obtain ⟨hist, hr⟩ := h.rewinds
  exact ⟨⟨hist, hr.of_eq rfl rfl rfl⟩, h.wellFormed, h.holds, hfork⟩

variable (hp : p.Sound)
include hp

omit [DecidableEq Id] in
theorem headId : s.headId p = headOf p.hash s.applied := by
  obtain ⟨hist, hr⟩ := h.rewinds
  exact hr.steps.headId hp.rules

omit [DecidableEq Id] in
theorem linked : Linked p.hash s.applied := by
  obtain ⟨hist, hr⟩ := h.rewinds
  exact hr.steps.linked hp.rules

/-- One block, stored under its own id. -/
theorem applyStored (now : Nat) (b : Block P δ)
    (hord : (s.applyStored p now (p.hash.id b) b).state.ordered = true) :
    Recorded p (s.applyStored p now (p.hash.id b) b).state := by
  obtain ⟨hist, hr⟩ := h.rewinds
  have hrewinds := hr.applyStored hp.rules hp.states (fun _ _ => trivial) hord
  rcases (Chain.applyStored_cases now (p.hash.id b) b s).2 with
    ⟨s', hcall, htaken⟩ | ⟨s', hcall, hsame⟩
  · rw [hcall] at hrewinds ⊢
    have hlinked : Linked p.hash (b :: s.applied) := by
      obtain ⟨hist', hr'⟩ := hrewinds
      rw [← htaken.applied]
      exact hr'.steps.linked hp.rules
    refine ⟨hrewinds, ?_, ?_, ?_⟩
    · show s'.log.WellFormed
      rw [htaken.log]
      exact wellFormed_store h.wellFormed _ _
    · show ∀ a ∈ s'.applied, s'.log.Holds p.hash p.codec a
      rw [htaken.log, htaken.applied]
      refine forall_mem_cons.mpr ⟨holds_store_self hp.codec s.log b, fun a ha => ?_⟩
      exact holds_store_ne h.wellFormed (p.hash.id_ne_nullId b) (h.holds a ha)
        (Nat.ne_of_lt (hlinked.num_lt a ha))
    · show s'.fork.Tidy p.hash
      rw [htaken.fork]
      exact h.tidy
  · rw [hcall] at hrewinds ⊢
    refine ⟨hrewinds, ?_, ?_, ?_⟩
    · show s'.log.WellFormed
      rw [hsame.log]
      exact h.wellFormed
    · show ∀ a ∈ s'.applied, s'.log.Holds p.hash p.codec a
      rw [hsame.log, hsame.applied]
      exact h.holds
    · show s'.fork.Tidy p.hash
      rw [hsame.fork]
      exact h.tidy

theorem pushLinear {now : Nat} {b : Block P δ}
    (hord : (s.pushLinear p now b).state.ordered = true) :
    Recorded p (s.pushLinear p now b).state := by
  have happly := h.applyStored hp now b
  unfold Chain.pushLinear at hord ⊢
  cases hcall : s.applyStored p now (p.hash.id b) b with
  | ok s' =>
    rw [hcall] at happly hord
    exact happly hord
  | thrown s' =>
    rw [hcall] at happly hord
    have h' : Recorded p s' := happly hord
    exact h'.withFork (h'.tidy.remove _)

/-- **One pop** takes the head block out of the log. -/
theorem popBlock (hpop : s.popBlock p = .ok s') :
    Recorded p s' ∧ s'.log.index.length = s.log.index.length := by
  have hid := h.headId hp
  have hlinked := h.linked hp
  obtain ⟨hist, hr⟩ := h.rewinds
  unfold Chain.popBlock at hpop
  split at hpop
  · cases hpop
  split at hpop
  · cases hpop
  next fork hfork =>
  split at hpop
  · cases hpop
  next log hremove =>
  have hsame : Rewinds p (fun _ _ => True) { s with fork := fork, log := log } hist :=
    hr.of_eq rfl rfl rfl
  rcases hsame.popUndo hp.rules hp.states with
    ⟨_, hundo⟩ | ⟨b, x, hist', u, _, happlied, hundo, hr'⟩
  · rw [hundo] at hpop
    cases hpop
  · rw [hundo] at hpop
    cases hpop
    have happlied : s.applied = b :: s.applied.tail := happlied
    rw [happlied] at hid hlinked
    rw [hid] at hremove
    obtain ⟨hwf, hlen, hholds⟩ := remove_spec (h := p.hash) (c := p.codec) hremove h.wellFormed
    refine ⟨⟨⟨hist', hr'⟩, hwf, fun a ha => ?_, h.tidy.popBlock hfork⟩, hlen⟩
    exact hholds a (Nat.ne_of_lt (hlinked.num_lt a ha))
      (h.holds a (happlied ▸ mem_cons_of_mem b ha))

theorem popUntil {id : BlockId δ} {n : Nat} (hpop : Chain.popUntil p id n s = .ok s') :
    Recorded p s' ∧ s'.log.index.length = s.log.index.length := by
  induction n generalizing s with
  | zero => cases hpop
  | succ n ih =>
    unfold Chain.popUntil at hpop
    split at hpop
    · cases hpop
      exact ⟨h, rfl⟩
    · obtain ⟨t, ht, hrest⟩ := Exec.andThen_eq_ok.mp hpop
      obtain ⟨h', hlen⟩ := h.popBlock hp ht
      obtain ⟨h'', hlen'⟩ := ih h' hrest
      exact ⟨h'', hlen'.trans hlen⟩

/-- **A branch that is taken.**  The log grows up to its highest block. -/
theorem pushBranch {now : Nat} {b : Block P δ} {second : List (ForkItem P δ)}
    {forkPoint : BlockId δ} {l : List (ForkItem P δ)}
    (hcall : s.pushBranch p now b second forkPoint l = .ok s') (hord : s'.ordered = true) :
    Recorded p s' ∧ s'.applied = (l.map (·.block)).reverse ++ s.applied ∧
      ∀ m, s.log.index.length ≤ m → (∀ x ∈ l, x.block.num < m) → s'.log.index.length ≤ m := by
  induction l generalizing s with
  | nil =>
    cases hcall
    exact ⟨h, rfl, fun _ hm _ => hm⟩
  | cons x l ih =>
    unfold Chain.pushBranch at hcall
    split at hcall
    · next s₁ hone =>
      have hord₁ : s₁.ordered = true := by
        rw [← show (s₁.pushBranch p now b second forkPoint l).state = s' by rw [hcall]; rfl] at hord
        exact Chain.ordered_of_pushBranch hord
      have h₁ := h.applyStored hp now x.block (by rw [hone]; exact hord₁)
      rw [hone] at h₁
      have htaken := Chain.applyStored_ok hone
      obtain ⟨h', happlied, hlen⟩ := ih h₁ hcall
      refine ⟨h', ?_, fun m hm hl => hlen m ?_ fun y hy => hl y (mem_cons_of_mem x hy)⟩
      · show s'.applied = _
        rw [happlied]
        show _ ++ s₁.applied = _
        rw [htaken.applied, map_cons, reverse_cons, append_assoc]
        rfl
      · show s₁.log.index.length ≤ m
        rw [htaken.log, length_store_id]
        exact Nat.max_le.mpr ⟨hm, hl x mem_cons_self⟩
    · cases hcall

/-- A switch that goes through. -/
theorem switchForks {now : Nat} {b : Block P δ} {newHead : ForkItem P δ}
    {first second : List (ForkItem P δ)}
    (hbranch : s.fork.fetchBranchFrom p.hash (p.hash.id newHead.block) (s.headId p) =
      some (first, second))
    (hcall : s.switchForks p now b newHead = .ok s') (hord : s'.ordered = true) :
    Recorded p s' ∧ (∃ older, s'.applied = first.map (·.block) ++ older) ∧
      ∀ m, s.log.index.length ≤ m → (∀ x ∈ first, x.block.num < m) → s'.log.index.length ≤ m := by
  simp only [Chain.switchForks, hbranch] at hcall
  split at hcall
  · cases hcall
  obtain ⟨t, hpop, hpush⟩ := Exec.andThen_eq_ok.mp hcall
  obtain ⟨ht, hlen⟩ := h.popUntil hp hpop
  obtain ⟨h', happlied, hlen'⟩ := ht.pushBranch hp hpush hord
  refine ⟨h', ⟨t.applied, ?_⟩, fun m hm hl => hlen' m (hlen ▸ hm) fun x hx => ?_⟩
  · rw [happlied, map_reverse, reverse_reverse]
  · exact hl x (mem_reverse.mp hx)

/-- **Step lemma.** -/
theorem push {i : PushCall P δ} (hok : s.cleanPush p i = true)
    (hord : (s.push p i).state.ordered = true) : Recorded p (s.push p i).state := by
  have hfork : ∀ {fork}, s.fork.pushBlock p.hash i.block = some fork →
      Recorded p { s with fork := fork } := fun hpush => h.withFork (h.tidy.pushBlock hpush)
  refine Chain.cleanPush_keeps h hfork (fun ht => ht.pushLinear hp) ?_ hok hord
  intro fork newHead first second s' hpush _ hbranch hs' hord'
  exact ((hfork hpush).switchForks hp hbranch hs' hord').1

end Recorded

abbrev NumberBlock := Block Nat (List Nat)

def plainHash : Hash Nat (List Nat) :=
  ⟨fun b => b.previous.num :: b.timestamp :: b.payload :: b.previous.digest, []⟩

def plainCodec : Codec Nat (List Nat) NumberBlock :=
  ⟨fun b => [b], fun l => l.head?⟩

/-- The database is the list of the ids applied, newest first, and a state holds all of it. -/
abbrev IdList := List (BlockId (List Nat))

def plainRules : Rules Nat (List Nat) IdList IdList where
  applyBlock b _ d :=
    if b.previous = d.headD plainHash.nullId ∧ b.payload ≠ 0 then some (plainHash.id b :: d, d)
    else none
  headId d := d.headD plainHash.nullId
  playBack u _ := .ok u
  blank := []

def plainParams : Params Nat (List Nat) NumberBlock IdList IdList (Option IdList) :=
  ⟨plainHash, plainCodec, plainRules, .itself _⟩

theorem plainParams_sound : plainParams.Sound where
  hash := by
    rintro ⟨⟨_, _⟩, _, _⟩ ⟨⟨_, _⟩, _, _⟩ h
    obtain ⟨rfl, rfl, rfl, rfl⟩ := h
    rfl
  codec := ⟨fun _ => rfl, rfl⟩
  states := Db.ContentHash.itself_collisionFree _
  rules := by
    have hsome : ∀ {b n d d' u}, plainRules.applyBlock b n d = some (d', u) →
        b.previous = d.headD plainHash.nullId ∧ d' = plainHash.id b :: d ∧ u = d := by
      intro b n d d' u h
      simp only [plainRules, ite_none_right_eq_some, Option.some.injEq, Prod.mk.injEq] at h
      exact ⟨h.1.1, h.2.1.symm, h.2.2.symm⟩
    constructor
    · intro b n d d' u h
      exact (hsome h).1
    · intro b n d d' u h
      rw [(hsome h).2.1]
      rfl
    · intro b n d d' u h
      rw [(hsome h).2.2]
      rfl
    · intro b n d d' u h e e' hplay
      cases hplay
      rw [(hsome h).2.2]

/-- A block with the given payload on top of `b`. -/
def after (b : BlockId (List Nat)) (payload : Nat) : NumberBlock := ⟨b, 0, payload⟩

def pushOf (b : NumberBlock) : PushCall Nat (List Nat) := ⟨0, false, b⟩

def pushAll (l : List NumberBlock) :
    Chain Nat (List Nat) NumberBlock IdList IdList (Option IdList) :=
  (l.map pushOf).foldl (fun s i => (s.push plainParams i).state) (Chain.genesis [])

def a1 : NumberBlock := after plainHash.nullId 1
def a2 : NumberBlock := after (plainHash.id a1) 1
def b2 : NumberBlock := after (plainHash.id a1) 2
def b3 : NumberBlock := after (plainHash.id b2) 1

end HyperExchange.Blocks
