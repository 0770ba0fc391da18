/-
  **Replacing senators, and taking it back** (`guard_member_update_evaluator` and
  `citizen_referendum_senator_evaluator` in `committee_member_evaluator.cpp`,
  `_rollback_votes` and `clear_expired_proposals` in `db_update.cpp`).

  A proposal replaces permanent senators, a referendum external ones.  If the
  multi-signature accounts of the new senators are not there in time, the formal flags are
  set back: for a referendum those of all operations, for a proposal those of its first
  `guard_member_update_operation` only.  The type of a newcomer is never set back.  An event
  is an operation of the ballot or a change of single guards by anything else.
-/
import HyperExchange.OperationRuns
import HyperExchange.OrderedMap
import HyperExchange.PairedUpdates

namespace HyperExchange.Senators

open OrderedMap PairedUpdates List Option

/-! ### Guards -/

/-- The fields of `guard_member_object` that elections are about. -/
structure Senator where
  formal : Bool
  permanent : Bool
deriving DecidableEq, Repr

/-- The guards, by their accounts. -/
structure Guards where
  accounts : Finset Nat
  senator : Nat → Senator

def Guards.modify (account : Nat) (f : Senator → Senator) (g : Guards) : Guards :=
  { g with senator := fun x => if x = account then f (g.senator x) else g.senator x }

def Guards.formal (g : Guards) : Finset Nat := g.accounts.filter fun x => (g.senator x).formal

/-! ### Operations -/

/-- A proposal with `guard_member_update_operation`, or a referendum with
    `citizen_referendum_senator_operation`. -/
inductive Election where
  | proposal
  | referendum
deriving DecidableEq, Repr

/-- `replace_queue`: each newcomer with the senator it replaces. -/
abbrev ReplaceQueue : Type := OMap Nat Nat

/-- What else the evaluators look at. -/
structure Context where
  headBlockNum : Nat
  isCitizen : Nat → Bool
  /-- no referendum elects senators -/
  noReferendum : Bool

/-- `guard_member_update_evaluator::do_evaluate` -/
def evaluateUpdate (c : Context) (q : ReplaceQueue) (g : Guards) : Bool :=
  c.noReferendum && decide (0 < q.entries.length) && decide (q.entries.length ≤ 1) &&
  (q.entries.all fun p =>
    decide (p.1 ∈ g.accounts) && !(g.senator p.1).formal &&
    decide (p.2 ∈ g.accounts) && (g.senator p.2).formal && (g.senator p.2).permanent) &&
  decide (q.entries.map Prod.snd).Nodup

/-- `citizen_referendum_senator_evaluator::do_evaluate` -/
def evaluateReferendum (c : Context) (q : ReplaceQueue) (g : Guards) : Bool :=
  decide (0 < q.entries.length) && decide (q.entries.length ≤ 3) &&
  (q.entries.all fun p =>
    decide (p.2 ∈ g.accounts) && (g.senator p.2).formal && !(g.senator p.2).permanent &&
    !c.isCitizen p.1 && decide (p.1 ∈ g.accounts) && !(g.senator p.1).formal) &&
  decide (q.entries.map Prod.snd).Nodup

/-- `guard_member_update_evaluator::do_apply` -/
def applyUpdate (q : ReplaceQueue) (g : Guards) : Guards :=
  q.entries.foldl (fun g p =>
    (g.modify p.1 fun _ => ⟨true, true⟩).modify p.2 fun _ => ⟨false, true⟩) g

/-- `citizen_referendum_senator_evaluator::do_apply`; the newcomer is always there already. -/
def applyReferendum (q : ReplaceQueue) (g : Guards) : Guards :=
  q.entries.foldl (fun g p =>
    (g.modify p.2 fun s => { s with formal := false }).modify p.1 fun _ => ⟨true, false⟩) g

/-- Whether `do_evaluate` is called: for a proposal not up to the checkpoint. -/
def Election.asks : Election → Context → Bool
  | proposal, c => checkPointBlock < c.headBlockNum
  | referendum, _ => true

def Election.evaluate (e : Election) (c : Context) (q : ReplaceQueue) (g : Guards) : Bool :=
  !e.asks c || match e with
    | proposal => evaluateUpdate c q g
    | referendum => evaluateReferendum c q g

def Election.replace : Election → ReplaceQueue → Guards → Guards
  | proposal => applyUpdate
  | referendum => applyReferendum

/-! ### From the execution to the end -/

inductive Event where
  | own (c : Context) (q : ReplaceQueue)
  | other (account : Nat) (s : Senator)

def Event.queue : Event → Option ReplaceQueue
  | own _ q => some q
  | other _ _ => none

variable (events : List Event)

def queues : List ReplaceQueue := events.filterMap Event.queue

def replacements : List (Nat × Nat) :=
  (queues events).flatMap fun q => q.entries

def Touched (x : Nat) : Prop := ∃ s, .other x s ∈ events

namespace Election

variable (e : Election)

/-- `none` if an operation is refused. -/
def step (g : Guards) : Event → Option Guards
  | .own c q => if e.evaluate c q g then some (e.replace q g) else none
  | .other account s =>
    some ⟨insert account g.accounts, fun x => if x = account then s else g.senator x⟩

def run (events : List Event) (g : Guards) : Option Guards := events.foldlM e.step g

def undone (events : List Event) : List (Nat × Nat) :=
  match e with
  | proposal => ((queues events).head?.map fun q => q.entries).getD []
  | referendum => replacements events

/-- `_rollback_votes`, and the end of a finished referendum in `clear_expired_proposals`. -/
def rollback (events : List Event) (g : Guards) : Guards :=
  (e.undone events).foldl (fun g p =>
    (g.modify p.1 fun s => { s with formal := false }).modify p.2 fun s =>
      { s with formal := true }) g

/-- The rollback is exact, and the number of formal senators stays the same. -/
structure Exact (events : List Event) (g g' : Guards) : Prop where
  restored : ∀ x, ¬ Touched events x → (e.rollback events g').senator x = g.senator x
  executed : ∀ earlier c q later h, events = earlier ++ .own c q :: later →
    e.run earlier g = some h → (e.replace q h).formal.card = h.formal.card
  rolledBack : (e.rollback events g').formal.card = g'.formal.card

/-- The newcomers are of the right type already; whoever is not taken back was changed by
    something else; and as many newcomers are formal as replaced senators are not. -/
structure Reversible (events : List Event) (g g' : Guards) : Prop where
  types : ∀ p ∈ e.undone events, ¬ Touched events p.1 →
    (g.senator p.1).permanent = decide (e = proposal)
  newcomers : ∀ p ∈ replacements events, ¬ Touched events p.1 →
    p.1 ∈ (e.undone events).map Prod.fst
  replaced : ∀ p ∈ replacements events, ¬ Touched events p.2 →
    p.2 ∈ (e.undone events).map Prod.snd
  balanced :
    (((e.undone events).map Prod.fst).toFinset.filter fun x => (g'.senator x).formal).card =
      (((e.undone events).map Prod.snd).toFinset.filter fun x => !(g'.senator x).formal).card

end Election

/-! ### One operation -/

namespace Election

variable {e : Election} {c : Context} {q : ReplaceQueue} {g : Guards}

def newcomer (e : Election) : Senator := ⟨true, decide (e = proposal)⟩

def retire (e : Election) (s : Senator) : Senator :=
  match e with
  | proposal => ⟨false, true⟩
  | referendum => { s with formal := false }

/-- What both evaluations find out. -/
structure Checked (e : Election) (q : ReplaceQueue) (g : Guards) : Prop where
  newcomers : ∀ p ∈ q.entries, p.1 ∈ g.accounts ∧ (g.senator p.1).formal = false
  replaced : ∀ p ∈ q.entries, p.2 ∈ g.accounts ∧ (g.senator p.2).formal = true ∧
    (g.senator p.2).permanent = decide (e = proposal)
  distinct : (q.entries.map Prod.snd).Nodup

theorem checked_of_evaluate (hasks : e.asks c = true) (h : e.evaluate c q g = true) :
    e.Checked q g := by
  cases e with
  | proposal =>
    simp only [evaluate, hasks, Bool.not_true, Bool.false_or, evaluateUpdate, Bool.and_eq_true,
      List.all_eq_true, decide_eq_true_eq, Bool.not_eq_true'] at h
    obtain ⟨⟨_, hall⟩, hdistinct⟩ := h
    refine ⟨fun p hp => ?_, fun p hp => ?_, hdistinct⟩
    · obtain ⟨⟨⟨⟨hfirst, hnot⟩, _⟩, _⟩, _⟩ := hall p hp
      exact ⟨hfirst, hnot⟩
    · obtain ⟨⟨⟨_, hsecond⟩, hformal⟩, hpermanent⟩ := hall p hp
      exact ⟨hsecond, hformal, hpermanent⟩
  | referendum =>
    simp only [evaluate, asks, Bool.not_true, Bool.false_or, evaluateReferendum, Bool.and_eq_true,
      List.all_eq_true, decide_eq_true_eq, Bool.not_eq_true'] at h
    obtain ⟨⟨_, hall⟩, hdistinct⟩ := h
    refine ⟨fun p hp => ?_, fun p hp => ?_, hdistinct⟩
    · obtain ⟨⟨_, hfirst⟩, hnot⟩ := hall p hp
      exact ⟨hfirst, hnot⟩
    · obtain ⟨⟨⟨⟨⟨hsecond, hformal⟩, hexternal⟩, _⟩, _⟩, _⟩ := hall p hp
      exact ⟨hsecond, hformal, hexternal⟩

theorem Checked.separate (h : e.Checked q g) : Separate q.entries := by
  intro p hp p' hp' heq
  have hnot := (h.newcomers p hp).2
  rw [heq, (h.replaced p' hp').2.1] at hnot
  cases hnot

theorem foldl_modify {l : List (Nat × Nat)} (hl : Separate l) {f f' : Senator → Senator}
    {h : Guards → Nat × Nat → Guards}
    (hpair : ∀ g p, p.1 ≠ p.2 → h g p = { g with senator := updatePair f f' p g.senator })
    (g : Guards) : l.foldl h g = { g with senator := updateAll f f' l g.senator } := by
  induction l generalizing g with
  | nil => rfl
  | cons p l ih =>
    rw [foldl_cons, hpair g p (hl p mem_cons_self p mem_cons_self),
      ih (hl.mono (subset_cons_self p l))]
    rfl

section

variable (hq : Separate q.entries)
include hq

theorem replace_eq : e.replace q g =
    { g with senator := updateAll (fun _ => e.newcomer) e.retire q.entries g.senator } := by
  cases e with
  | proposal =>
    refine foldl_modify hq ?_ g
    intro g p hp
    refine congrArg (Guards.mk g.accounts) (funext fun x => ?_)
    show (if x = p.2 then (⟨false, true⟩ : Senator) else if x = p.1 then ⟨true, true⟩ else _) = _
    unfold updatePair
    by_cases hfirst : x = p.1
    · rw [if_neg (hfirst ▸ hp), if_pos hfirst, if_pos hfirst]
      rfl
    · rw [if_neg hfirst, if_neg hfirst]
      rfl
  | referendum =>
    refine foldl_modify hq ?_ g
    intro g p _
    rfl

/-- Newcomers get the seat and those they replace retire. -/
theorem senator_replace (x : Nat) :
    (e.replace q g).senator x = if x ∈ q.entries.map Prod.fst then e.newcomer
      else if x ∈ q.entries.map Prod.snd then e.retire (g.senator x) else g.senator x := by
  have hretire : ∀ s, e.retire (e.retire s) = e.retire s := by
    intro s
    cases e <;> rfl
  rw [replace_eq hq]
  exact updateAll_apply (f := fun _ => e.newcomer) (fun _ => rfl) hretire hq g.senator x

theorem accounts_replace : (e.replace q g).accounts = g.accounts := by
  rw [replace_eq hq]

end

theorem Checked.firsts_nodup (q : ReplaceQueue) : (q.entries.map Prod.fst).Nodup := by
  refine pairwise_map.mpr (q.sorted.imp ?_)
  intro p p' hlt
  exact Nat.ne_of_lt hlt

/-- **A replacement keeps the number of formal senators.** -/
theorem card_formal_replace (h : e.Checked q g) :
    (e.replace q g).formal.card = g.formal.card := by
  have hq := h.separate
  have hin : ∀ x ∈ (q.entries.map Prod.fst).toFinset,
      x ∈ g.accounts ∧ (!(g.senator x).formal) = true := by
    intro x hx
    obtain ⟨p, hp, rfl⟩ := List.mem_map.mp (List.mem_toFinset.mp hx)
    obtain ⟨hmem, hnot⟩ := h.newcomers p hp
    exact ⟨hmem, by rw [hnot]; rfl⟩
  have hout : ∀ x ∈ (q.entries.map Prod.snd).toFinset,
      x ∈ g.accounts ∧ (g.senator x).formal = true := by
    intro x hx
    obtain ⟨p, hp, rfl⟩ := List.mem_map.mp (List.mem_toFinset.mp hx)
    exact ⟨(h.replaced p hp).1, (h.replaced p hp).2.1⟩
  have hflags : ∀ x, ((e.replace q g).senator x).formal =
      if x ∈ (q.entries.map Prod.fst).toFinset then true
      else if x ∈ (q.entries.map Prod.snd).toFinset then false else (g.senator x).formal := by
    have hretired : ∀ s, (e.retire s).formal = false := fun s => by cases e <;> rfl
    intro x
    simp only [senator_replace hq, List.mem_toFinset, apply_ite Senator.formal, hretired, newcomer]
  have hcard :=
    card_switch (fun x hx => (hout x hx).1) (fun x hx => (hin x hx).1) hq.disjoint hflags
  rw [Finset.filter_true_of_mem fun x hx => (hout x hx).2,
    Finset.filter_true_of_mem fun x hx => (hin x hx).2, toFinset_card_of_nodup h.distinct,
    toFinset_card_of_nodup (Checked.firsts_nodup q), length_map, length_map] at hcard
  rw [Guards.formal, accounts_replace hq]
  exact Nat.add_right_cancel hcard

/-! ### All operations -/

theorem replacements_append (l l' : List Event) :
    replacements (l ++ l') = replacements l ++ replacements l' := by
  rw [replacements, queues, filterMap_append, flatMap_append]
  rfl

theorem touched_append_left {l l' : List Event} {x : Nat} (h : ¬ Touched (l ++ l') x) :
    ¬ Touched l x := fun ⟨s, hs⟩ => h ⟨s, mem_append_left l' hs⟩

variable {events : List Event} {g' : Guards} {m : Guards}

theorem run_append {earlier : List Event} {event : Event}
    (h : e.run (earlier ++ [event]) g = some g') :
    ∃ m, e.run earlier g = some m ∧ e.step m event = some g' := by
  unfold run at h
  rw [foldlM_append] at h
  obtain ⟨m, hm, hstep⟩ := bind_eq_some_iff.mp h
  refine ⟨m, hm, ?_⟩
  rw [foldlM_cons] at hstep
  obtain ⟨m', hm', hnil⟩ := bind_eq_some_iff.mp hstep
  cases hnil
  exact hm'

/-- Where the guards are that nothing else has changed. -/
structure Tracks (e : Election) (g : Guards) (events : List Event) (g' : Guards) : Prop where
  accounts : ∀ p ∈ replacements events, p.1 ∈ g'.accounts ∧ p.2 ∈ g'.accounts
  others : ∀ x, ¬ Touched events x → x ∉ (replacements events).map Prod.fst →
    x ∉ (replacements events).map Prod.snd → g'.senator x = g.senator x
  newcomers : ∀ x, ¬ Touched events x → x ∈ (replacements events).map Prod.fst →
    (g.senator x).formal = false ∧ g'.senator x = e.newcomer
  replaced : ∀ x, ¬ Touched events x → x ∈ (replacements events).map Prod.snd →
    (g.senator x).formal = true ∧ g'.senator x = { g.senator x with formal := false }

/-- By separation a queue names nobody that an earlier one named. -/
theorem Tracks.own (h : e.Tracks g events m) (hchecked : e.Checked q m)
    (hsep : Separate (replacements (events ++ [.own c q]))) :
    e.Tracks g (events ++ [.own c q]) (e.replace q m) := by
  have hq := hchecked.separate
  have hall : replacements (events ++ [.own c q]) = replacements events ++ q.entries := by
    rw [replacements_append]
    exact congrArg _ (append_nil q.entries)
  have hmap : ∀ (f : Nat × Nat → Nat) (x : Nat), x ∈ (replacements (events ++ [.own c q])).map f ↔
      x ∈ (replacements events).map f ∨ x ∈ q.entries.map f := by
    intro f x
    rw [hall, map_append, mem_append]
  have hwas : ∀ x, ¬ Touched (events ++ [.own c q]) x → ¬ Touched events x :=
    fun x => touched_append_left
  refine ⟨?_, ?_, ?_, ?_⟩
  · intro p hp
    rw [accounts_replace hq]
    rw [hall] at hp
    rcases mem_append.mp hp with hp | hp
    · exact h.accounts p hp
    · exact ⟨(hchecked.newcomers p hp).1, (hchecked.replaced p hp).1⟩
  · intro x hx hfirst hsecond
    rw [hmap, not_or] at hfirst hsecond
    rw [senator_replace hq, if_neg hfirst.2, if_neg hsecond.2,
      h.others x (hwas x hx) hfirst.1 hsecond.1]
  · intro x hx hfirst
    have hnot : x ∉ (replacements (events ++ [.own c q])).map Prod.snd :=
      fun hsecond => hsep.ne hsecond hfirst
    rw [hmap, not_or] at hnot
    rw [hmap] at hfirst
    by_cases hnow : x ∈ q.entries.map Prod.fst
    · refine ⟨?_, by rw [senator_replace hq, if_pos hnow]⟩
      -- the newcomer is not formal, so it is not one of an earlier operation
      obtain ⟨p, hp, rfl⟩ := List.mem_map.mp hnow
      have hformal := (hchecked.newcomers p hp).2
      have hearlier : p.1 ∉ (replacements events).map Prod.fst := by
        intro hearlier
        rw [(h.newcomers p.1 (hwas p.1 hx) hearlier).2] at hformal
        cases hformal
      rw [← h.others p.1 (hwas p.1 hx) hearlier hnot.1]
      exact hformal
    · have hearlier := hfirst.resolve_right hnow
      rw [senator_replace hq, if_neg hnow, if_neg hnot.2]
      exact h.newcomers x (hwas x hx) hearlier
  · intro x hx hsecond
    have hnot := hsep.ne hsecond
    rw [hmap, not_or] at hnot
    rw [hmap] at hsecond
    rw [senator_replace hq, if_neg hnot.2]
    by_cases hnow : x ∈ q.entries.map Prod.snd
    · rw [if_pos hnow]
      obtain ⟨p, hp, rfl⟩ := List.mem_map.mp hnow
      obtain ⟨_, hformal, hpermanent⟩ := hchecked.replaced p hp
      have hearlier : p.2 ∉ (replacements events).map Prod.snd := by
        intro hearlier
        rw [(h.replaced p.2 (hwas p.2 hx) hearlier).2] at hformal
        cases hformal
      rw [h.others p.2 (hwas p.2 hx) hnot.1 hearlier] at hformal hpermanent ⊢
      refine ⟨hformal, ?_⟩
      cases e with
      | proposal =>
        show (⟨false, true⟩ : Senator) = ⟨false, (g.senator p.2).permanent⟩
        rw [hpermanent]
        rfl
      | referendum => rfl
    · rw [if_neg hnow]
      exact h.replaced x (hwas x hx) (hsecond.resolve_right hnow)

theorem Tracks.other (h : e.Tracks g events m) (account : Nat) (s : Senator) :
    e.Tracks g (events ++ [.other account s])
      ⟨insert account m.accounts, fun x => if x = account then s else m.senator x⟩ := by
  have hall : replacements (events ++ [.other account s]) = replacements events := by
    rw [replacements_append]
    exact append_nil _
  have hwas : ∀ x, ¬ Touched (events ++ [.other account s]) x →
      ¬ Touched events x ∧ x ≠ account := by
    intro x hx
    refine ⟨touched_append_left hx, ?_⟩
    rintro rfl
    exact hx ⟨s, mem_append_right _ mem_cons_self⟩
  have hsame : ∀ x, ¬ Touched (events ++ [.other account s]) x →
      (if x = account then s else m.senator x) = m.senator x :=
    fun x hx => if_neg (hwas x hx).2
  refine ⟨?_, ?_, ?_, ?_⟩
  · rw [hall]
    intro p hp
    exact ⟨Finset.mem_insert_of_mem (h.accounts p hp).1,
      Finset.mem_insert_of_mem (h.accounts p hp).2⟩
  · rw [hall]
    intro x hx hfirst hsecond
    exact (hsame x hx).trans (h.others x (hwas x hx).1 hfirst hsecond)
  · rw [hall]
    intro x hx hfirst
    obtain ⟨hformal, hnow⟩ := h.newcomers x (hwas x hx).1 hfirst
    exact ⟨hformal, (hsame x hx).trans hnow⟩
  · rw [hall]
    intro x hx hsecond
    obtain ⟨hformal, hnow⟩ := h.replaced x (hwas x hx).1 hsecond
    exact ⟨hformal, (hsame x hx).trans hnow⟩

theorem tracks (hsep : Separate (replacements events))
    (hasks : ∀ c q, .own c q ∈ events → e.asks c = true) (hrun : e.run events g = some g') :
    e.Tracks g events g' := by
  induction events using List.reverseRecOn generalizing g' with
  | nil =>
    cases hrun
    exact ⟨nofun, fun _ _ _ _ => rfl, nofun, nofun⟩
  | append_singleton earlier event ih =>
    obtain ⟨m, hm, hstep⟩ := run_append hrun
    have hbefore : Separate (replacements earlier) :=
      hsep.mono (replacements_append earlier [event] ▸ subset_append_left _ _)
    have htracks := ih hbefore (fun c q h => hasks c q (mem_append_left _ h)) hm
    cases event with
    | own c q =>
      rw [step, ite_none_right_eq_some] at hstep
      obtain ⟨hevaluate, heq⟩ := hstep
      cases heq
      have hasked := hasks c q (mem_append_right _ mem_cons_self)
      exact htracks.own (checked_of_evaluate hasked hevaluate) hsep
    | other account s =>
      cases hstep
      exact htracks.other account s

/-! ### Taking back -/

section

variable (hl : Separate (e.undone events))
include hl

theorem rollback_eq :
    e.rollback events g' = { g' with
      senator := updateAll (fun s => { s with formal := false })
        (fun s => { s with formal := true }) (e.undone events) g'.senator } := by
  refine foldl_modify hl ?_ g'
  intro g p hp
  refine congrArg (Guards.mk g.accounts) (funext fun x => ?_)
  show (if x = p.2 then { (if x = p.1 then { g.senator x with formal := false } else g.senator x)
    with formal := true } else if x = p.1 then { g.senator x with formal := false }
      else g.senator x) = _
  unfold updatePair
  by_cases hfirst : x = p.1
  · rw [if_neg (hfirst ▸ hp), if_pos hfirst, if_pos hfirst]
  · rw [if_neg hfirst, if_neg hfirst]

theorem senator_rollback (x : Nat) :
    (e.rollback events g').senator x =
      if x ∈ (e.undone events).map Prod.fst then { g'.senator x with formal := false }
      else if x ∈ (e.undone events).map Prod.snd then { g'.senator x with formal := true }
      else g'.senator x := by
  rw [rollback_eq hl]
  exact updateAll_apply (f := fun s => { s with formal := false })
    (g := fun s => { s with formal := true }) (fun _ => rfl) (fun _ => rfl) hl g'.senator x

omit hl in
theorem mem_replacements_of_undone {p : Nat × Nat} (h : p ∈ e.undone events) :
    p ∈ replacements events := by
  cases e with
  | referendum => exact h
  | proposal =>
    unfold undone at h
    cases hq : (queues events).head? with
    | none =>
      rw [hq] at h
      cases h
    | some q =>
      rw [hq] at h
      exact mem_flatMap.mpr ⟨q, mem_of_head? hq, h⟩

/-- As many newcomers as are formal leave, and as many others as are not come in. -/
theorem card_formal_rollback
    (haccounts : ∀ p ∈ replacements events, p.1 ∈ g'.accounts ∧ p.2 ∈ g'.accounts) :
    (e.rollback events g').formal.card +
    (((e.undone events).map Prod.fst).toFinset.filter fun x => (g'.senator x).formal).card =
    g'.formal.card +
    (((e.undone events).map Prod.snd).toFinset.filter fun x => !(g'.senator x).formal).card := by
  have hout : ((e.undone events).map Prod.fst).toFinset ⊆ g'.accounts := by
    intro x hx
    obtain ⟨p, hp, rfl⟩ := List.mem_map.mp (List.mem_toFinset.mp hx)
    exact (haccounts p (mem_replacements_of_undone hp)).1
  have hin : ((e.undone events).map Prod.snd).toFinset ⊆ g'.accounts := by
    intro x hx
    obtain ⟨p, hp, rfl⟩ := List.mem_map.mp (List.mem_toFinset.mp hx)
    exact (haccounts p (mem_replacements_of_undone hp)).2
  have hflags : ∀ x, ((e.rollback events g').senator x).formal =
      if x ∈ ((e.undone events).map Prod.snd).toFinset then true
      else if x ∈ ((e.undone events).map Prod.fst).toFinset then false
      else (g'.senator x).formal := by
    intro x
    simp only [senator_rollback hl, List.mem_toFinset]
    by_cases hy : x ∈ (e.undone events).map Prod.snd
    · rw [if_neg (hl.ne hy), if_pos hy, if_pos hy]
    · simp only [if_neg hy, apply_ite Senator.formal]
  rw [Guards.formal, (show (e.rollback events g').accounts = g'.accounts by rw [rollback_eq hl])]
  exact card_switch hout hin hl.disjoint.symm hflags

end

/-- The guards of an accepted ballot are separate: at its creation the newcomers were not
    formal, and those to be replaced were. -/
theorem separate_of_created {created : Guards}
    (h : ∀ q ∈ queues events, ∃ c, e.asks c = true ∧ e.evaluate c q created = true) :
    Separate (replacements events) := by
  intro p hp p' hp' heq
  obtain ⟨q, hq, hp⟩ := mem_flatMap.mp hp
  obtain ⟨q', hq', hp'⟩ := mem_flatMap.mp hp'
  obtain ⟨c, hasks, hevaluate⟩ := h q hq
  obtain ⟨c', hasks', hevaluate'⟩ := h q' hq'
  have hnot := ((checked_of_evaluate hasks hevaluate).newcomers p hp).2
  rw [heq, ((checked_of_evaluate hasks' hevaluate').replaced p' hp').2.1] at hnot
  cases hnot

theorem checked_of_run {earlier later : List Event}
    (hrun : e.run (earlier ++ .own c q :: later) g = some g') (hearlier : e.run earlier g = some m)
    (hasks : e.asks c = true) : e.Checked q m := by
  unfold run at hrun hearlier
  rw [foldlM_append, hearlier] at hrun
  have hstep : (e.step m (.own c q)).bind (fun m => later.foldlM e.step m) = some g' := by
    rw [← hrun]
    rfl
  obtain ⟨m', hm', _⟩ := bind_eq_some_iff.mp hstep
  rw [step, ite_none_right_eq_some] at hm'
  exact checked_of_evaluate hasks hm'.1

theorem restored_iff (hsep : Separate (replacements events)) (h : e.Tracks g events g') :
    (∀ x, ¬ Touched events x → (e.rollback events g').senator x = g.senator x) ↔
      (∀ p ∈ e.undone events, ¬ Touched events p.1 →
        (g.senator p.1).permanent = decide (e = proposal)) ∧
      (∀ p ∈ replacements events, ¬ Touched events p.1 → p.1 ∈ (e.undone events).map Prod.fst) ∧
      ∀ p ∈ replacements events, ¬ Touched events p.2 → p.2 ∈ (e.undone events).map Prod.snd := by
  have hl : Separate (e.undone events) := hsep.mono fun _ => mem_replacements_of_undone
  have hmem : ∀ (f : Nat × Nat → Nat) (x : Nat), x ∈ (e.undone events).map f →
      x ∈ (replacements events).map f := by
    intro f x hx
    obtain ⟨p, hp, rfl⟩ := List.mem_map.mp hx
    exact List.mem_map_of_mem (mem_replacements_of_undone hp)
  constructor
  · intro hrestored
    refine ⟨?_, ?_, ?_⟩
    · intro p hp hx
      have hfirst : p.1 ∈ (e.undone events).map Prod.fst := List.mem_map_of_mem hp
      have heq := hrestored p.1 hx
      rw [senator_rollback hl, if_pos hfirst, (h.newcomers p.1 hx (hmem _ _ hfirst)).2] at heq
      rw [← heq]
      rfl
    · intro p hp hx
      have hfirst : p.1 ∈ (replacements events).map Prod.fst := List.mem_map_of_mem hp
      by_contra hnot
      obtain ⟨hformal, hnow⟩ := h.newcomers p.1 hx hfirst
      have heq := hrestored p.1 hx
      rw [senator_rollback hl, if_neg hnot, if_neg fun hs => hsep.ne (hmem _ _ hs) hfirst,
        hnow] at heq
      rw [← heq] at hformal
      cases hformal
    · intro p hp hx
      have hsecond : p.2 ∈ (replacements events).map Prod.snd := List.mem_map_of_mem hp
      by_contra hnot
      obtain ⟨hformal, hnow⟩ := h.replaced p.2 hx hsecond
      have heq := hrestored p.2 hx
      rw [senator_rollback hl, if_neg fun hf => hsep.ne hsecond (hmem _ _ hf), if_neg hnot,
        hnow] at heq
      rw [← heq] at hformal
      cases hformal
  · rintro ⟨htypes, hnewcomers, hreplaced⟩ x hx
    rw [senator_rollback hl]
    by_cases hfirst : x ∈ (replacements events).map Prod.fst
    · obtain ⟨hformal, hnow⟩ := h.newcomers x hx hfirst
      obtain ⟨p, hp, rfl⟩ := List.mem_map.mp hfirst
      obtain ⟨p', hp', heq⟩ := List.mem_map.mp (hnewcomers p hp hx)
      have htype := htypes p' hp' (heq ▸ hx)
      rw [heq] at htype
      rw [if_pos (hnewcomers p hp hx), hnow, newcomer, ← htype, ← hformal]
    · rw [if_neg fun hf => hfirst (hmem _ _ hf)]
      by_cases hsecond : x ∈ (replacements events).map Prod.snd
      · obtain ⟨hformal, hnow⟩ := h.replaced x hx hsecond
        obtain ⟨p, hp, rfl⟩ := List.mem_map.mp hsecond
        rw [if_pos (hreplaced p hp hx), hnow, ← hformal]
      · rw [if_neg fun hs => hsecond (hmem _ _ hs)]
        exact h.others x hx hfirst hsecond

/-- **The rollback of an election is exact** if the newcomers were of the right type before,
    all replacements are taken back, and the flags are as the execution left them or
    balanced otherwise; and only then. -/
theorem rollback_exact_iff {created : Guards}
    (hcreated : ∀ q ∈ queues events, ∃ c, e.asks c = true ∧ e.evaluate c q created = true)
    (hasks : ∀ c q, .own c q ∈ events → e.asks c = true) (hrun : e.run events g = some g') :
    e.Exact events g g' ↔ e.Reversible events g g' := by
  have hsep := separate_of_created hcreated
  have htracks := tracks hsep hasks hrun
  have hl : Separate (e.undone events) := hsep.mono fun _ => mem_replacements_of_undone
  have hcard := card_formal_rollback hl htracks.accounts
  constructor
  · intro hexact
    obtain ⟨htypes, hnewcomers, hreplaced⟩ := (restored_iff hsep htracks).mp hexact.restored
    refine ⟨htypes, hnewcomers, hreplaced, ?_⟩
    have hsame := hexact.rolledBack
    omega
  · intro hreversible
    refine ⟨(restored_iff hsep htracks).mpr
      ⟨hreversible.types, hreversible.newcomers, hreversible.replaced⟩, ?_, ?_⟩
    · rintro earlier c q later m rfl hearlier
      refine card_formal_replace (checked_of_run hrun hearlier (hasks c q ?_))
      exact mem_append_right _ mem_cons_self
    · have hbalanced := hreversible.balanced
      omega

/-- Senators 1 and 2 of the given type, and candidates 3 and 4, of which 3 is external. -/
def sampleGuards (permanent : Bool) : Guards where
  accounts := {1, 2, 3, 4}
  senator x := ⟨decide (x ≤ 2), permanent && decide (x ≠ 3)⟩

def sampleContext : Context := ⟨checkPointBlock + 1, fun _ => false, true⟩

def replaceOne (incoming outgoing : Nat) : ReplaceQueue := OMap.empty.insert incoming outgoing

/-- A referendum over external senators and candidates is taken back. -/
theorem external_rollback_exact :
    referendum.Exact [.own sampleContext (replaceOne 3 1)] (sampleGuards false)
      (referendum.replace (replaceOne 3 1) (sampleGuards false)) := by
  have hcreated : ∀ q ∈ queues [.own sampleContext (replaceOne 3 1)], ∃ c,
      referendum.asks c = true ∧ referendum.evaluate c q (sampleGuards false) = true :=
    forall_mem_singleton.mpr ⟨sampleContext, rfl, by decide⟩
  refine (rollback_exact_iff hcreated (fun _ _ _ => rfl) rfl).mpr ⟨?_, ?_, ?_, ?_⟩
  · intro p hp _
    rfl
  · intro p hp _
    exact List.mem_map_of_mem hp
  · intro p hp _
    exact List.mem_map_of_mem hp
  · decide

/-- A proposal with two operations: the second replacement stays, and the external
    candidate of the first one is a permanent one afterwards. -/
theorem proposal_not_rolled_back :
    let events := [.own sampleContext (replaceOne 3 1), .own sampleContext (replaceOne 4 2)]
    ∃ g', proposal.run events (sampleGuards true) = some g' ∧
      (∀ x, ¬ Touched events x) ∧
      (sampleGuards true).senator 3 = ⟨false, false⟩ ∧
      (proposal.rollback events g').senator 3 = ⟨false, true⟩ ∧
      (sampleGuards true).senator 4 = ⟨false, true⟩ ∧
      (proposal.rollback events g').senator 4 = ⟨true, true⟩ ∧
      ¬ proposal.Exact events (sampleGuards true) g' := by
  intro events
  have htouched : ∀ x, ¬ Touched events x := by
    rintro x ⟨s, hs⟩
    simp [events] at hs
  refine ⟨proposal.replace (replaceOne 4 2) (proposal.replace (replaceOne 3 1) (sampleGuards true)),
    rfl, htouched, rfl, rfl, rfl, rfl, ?_⟩
  intro hexact
  have hsame := hexact.restored 4 (htouched 4)
  revert hsame
  decide

end Election

end HyperExchange.Senators
