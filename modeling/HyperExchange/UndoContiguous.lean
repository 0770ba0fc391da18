/-
  **The two levels are one list.**

  The list of live states is kept next to the history (`Observed`), newest first, with a
  mark at the sessions that are still active.  The spilled states, read from the store,
  followed by `back` should be a newest part of it, in order.

  That holds as long as no call of `start_undo_session` makes room in the wrong place
  (`KeepsOrder`).  Its two loops take states from the front of `back` also when older states
  are in the stack: the first when `back` has thirty states and `max_size()` is at most
  thirty, the second when the total has come down to `max_back_size` and is still above
  `max_size()`.  Both happen after `set_max_size` lowered the maximum, as `db_block.cpp` does
  (`history_is_contiguous`, `shrinking_drops_the_middle`).
-/
import HyperExchange.UndoLevels

namespace HyperExchange.Db

open Execution List

namespace UndoHistory

variable {St Id : Type} {c : ContentHash St Id}

/-! ### The list of live states -/

/-- An undo state that was started and not yet undone, merged or popped; `active` as
    long as its session is neither undone, merged nor committed. -/
structure Live (St : Type) where
  state : St
  active : Bool
deriving DecidableEq

def markCommitted : List (Live St) → List (Live St)
  | [] => []
  | x :: live => if x.active then ⟨x.state, false⟩ :: live else x :: markCommitted live

theorem length_markCommitted (live : List (Live St)) :
    (markCommitted live).length = live.length := by
  induction live with
  | nil => rfl
  | cons x live ih =>
    rw [markCommitted]
    split
    · rfl
    · rw [length_cons, length_cons, ih]

def specCall (empty : St) (combine : St → St → St) :
    HistoryCall St → List (Live St) → List (Live St)
  | .start _, live => ⟨empty, true⟩ :: live
  | .record f, x :: live => ⟨f x.state, x.active⟩ :: live
  | .record _, [] => []
  | .commit, live => markCommitted live
  | .undo, live => live.eraseP (·.active)
  | .merge, x :: y :: live => ⟨combine y.state x.state, y.active⟩ :: live
  | .merge, live => live
  | .popCommit, live => live.tail
  | .setMaxSize _, live => live

/-- A history next to the list of states it stands for. -/
structure Observed (St Id : Type) where
  history : UndoHistory St Id
  live : List (Live St)

def ignored (h : UndoHistory St Id) : HistoryCall St → Bool
  | .start force => h.disabled && !force
  | .record _ => h.disabled
  | .commit => h.disabled
  | _ => false

def Observed.call [DecidableEq Id] (c : ContentHash St Id) (empty : St) (combine : St → St → St)
    (o : Observed St Id) (i : HistoryCall St) : Observed St Id where
  history := (o.history.call c empty combine i).state
  live := if (o.history.call c empty combine i).returned && !ignored o.history i
    then specCall empty combine i o.live else o.live

/-- Spilled states and `back` are the newest live states in order; while a session is
    active `back` is not empty and ends with the state of the innermost one. -/
def Represents (o : Observed St Id) : Prop :=
  (o.history.stack.map o.history.storage ++ o.history.back.map some) <:+
      (o.live.map fun x => some x.state).reverse ∧
    (0 < o.history.activeSessions → o.history.back ≠ [] ∧
      ∃ s live, o.live = ⟨s, true⟩ :: live ∧ o.history.back.getLast? = some s)

/-! ### The invariant -/

/-- What is retained are the newest sessions, without a gap. -/
structure Contiguous (c : ContentHash St Id) (o : Observed St Id) (sp : List St) : Prop where
  spilled : Spilled c o.history sp
  suffix : (sp ++ o.history.back) <:+ (o.live.map (·.state)).reverse
  deep : sp ≠ [] → 6 ≤ o.history.back.length
  bounded : o.history.back.length < maxBackSize + 10
  enabled : o.history.disabled = false
  /-- the active sessions are the newest ones -/
  nested : ∃ act com, o.live = act ++ com ∧ act.length = o.history.activeSessions ∧
    (∀ x ∈ act, x.active = true) ∧ ∀ x ∈ com, x.active = false
  room : o.history.activeSessions ≤ (sp ++ o.history.back).length

variable {o : Observed St Id} {sp : List St} {h' : UndoHistory St Id} {live : List (Live St)}

/-- The end of `back` is the newest live state. -/
theorem live_of_suffix {l : List St} {s : St}
    (h : (l ++ [s]) <:+ (live.map (·.state)).reverse) :
    ∃ x rest, live = x :: rest ∧ x.state = s ∧ l <:+ (rest.map (·.state)).reverse := by
  cases live with
  | nil =>
    have hle := h.length_le
    simp at hle
  | cons x rest =>
    obtain ⟨older, hx⟩ := h
    rw [map_cons, reverse_cons, ← append_assoc] at hx
    obtain ⟨hinit, hlast⟩ := append_inj' hx rfl
    refine ⟨x, rest, rfl, ?_, older, hinit⟩
    cases hlast
    rfl

variable {rest : List (Live St)}

theorem suffix_cons_live {l : List St} (x : Live St)
    (h : l <:+ (rest.map (·.state)).reverse) :
    (l ++ [x.state]) <:+ ((x :: rest).map (·.state)).reverse := by
  obtain ⟨older, hx⟩ := h
  refine ⟨older, ?_⟩
  rw [map_cons, reverse_cons, ← hx, append_assoc]

theorem Contiguous.fresh (maxSize : Nat) : Contiguous c ⟨fresh maxSize, []⟩ [] where
  spilled := ⟨rfl, (by rintro s ⟨⟩), nodup_nil⟩
  suffix := nil_suffix
  deep hne := absurd rfl hne
  bounded := by
    show 0 < maxBackSize + 10
    simp only [maxBackSize]
    omega
  enabled := rfl
  nested := ⟨[], [], rfl, rfl, (by rintro x ⟨⟩), (by rintro x ⟨⟩)⟩
  room := Nat.zero_le _

theorem forall_active {l l' : List (Live St)} {b : Bool}
    (heq : l'.map (·.active) = l.map (·.active)) (hl : ∀ x ∈ l, x.active = b) :
    ∀ x ∈ l', x.active = b := by
  rw [← forall_mem_map (f := Live.active) (P := (· = b))] at hl ⊢
  rwa [heq]

namespace Contiguous

variable (h : Contiguous c o sp)
include h

theorem back_ne_nil (hsize : 0 < o.history.size) :
    o.history.back ≠ [] := by
  intro hnil
  rw [h.spilled.size_eq, hnil, append_nil] at hsize
  have hdeep := h.deep (ne_nil_of_length_pos hsize)
  rw [hnil] at hdeep
  simp at hdeep

/-- The two newest states are both in memory: with spilled states `back` has at least six. -/
theorem two_back (hsize : 2 ≤ o.history.size) :
    ∃ state prev older, o.history.back.reverse = state :: prev :: older := by
  have hlen : 2 ≤ o.history.back.length := by
    rw [h.spilled.size_eq, length_append] at hsize
    by_cases hsp : sp = []
    · rw [hsp, length_nil] at hsize
      omega
    · have := h.deep hsp
      omega
  rw [← length_reverse] at hlen
  match hrev : o.history.back.reverse, hlen with
  | state :: prev :: older, _ => exact ⟨state, prev, older, rfl⟩

/-- The newest state in `back` is that of the newest live entry. -/
theorem newest (hne : o.history.back ≠ []) :
    ∃ x rest, o.live = x :: rest ∧ o.history.back = o.history.back.dropLast ++ [x.state] ∧
      (sp ++ o.history.back.dropLast) <:+ (rest.map (·.state)).reverse := by
  have hsplit := (dropLast_append_getLast hne).symm
  have hsuf := h.suffix
  rw [hsplit, ← append_assoc] at hsuf
  obtain ⟨x, rest, hlive, hx, hrest⟩ := live_of_suffix hsuf
  exact ⟨x, rest, hlive, by rw [hx]; exact hsplit, hrest⟩

/-- While one is active, the newest session is. -/
theorem active_cons (hpos : 0 < o.history.activeSessions) :
    ∃ x act com, o.live = x :: (act ++ com) ∧ x.active = true ∧
      act.length + 1 = o.history.activeSessions ∧ (∀ y ∈ act, y.active = true) ∧
      ∀ y ∈ com, y.active = false := by
  obtain ⟨act, com, hnest, hlen, hall, hnone⟩ := h.nested
  cases act with
  | nil => simp only [length_nil] at hlen; omega
  | cons x act =>
    exact ⟨x, act, com, hnest, hall x mem_cons_self, hlen,
      fun y hy => hall y (mem_cons_of_mem _ hy), hnone⟩

/-- The sessions below the newest one. -/
theorem nested_tail {x : Live St}
    (hlive : o.live = x :: rest) :
    ∃ act com, rest = act ++ com ∧ act.length = o.history.activeSessions - 1 ∧
      (∀ x ∈ act, x.active = true) ∧ ∀ x ∈ com, x.active = false := by
  obtain ⟨act, com, hnest, hlen, hall, hnone⟩ := h.nested
  rw [hlive] at hnest
  cases act with
  | nil =>
    refine ⟨[], rest, rfl, by simp [← hlen], forall_mem_nil _, fun y hy => hnone y ?_⟩
    rw [← nil_append com, ← hnest]
    exact mem_cons_of_mem _ hy
  | cons y act =>
    obtain ⟨_, hrest⟩ := cons_eq_cons.mp hnest
    exact ⟨act, com, hrest, by simp [← hlen], fun z hz => hall z (mem_cons_of_mem _ hz), hnone⟩

theorem size_pos (hpos : 0 < o.history.activeSessions) :
    0 < o.history.size := by
  rw [h.spilled.size_eq]
  exact Nat.lt_of_lt_of_le hpos h.room

theorem represents : Represents o := by
  constructor
  · have hread : o.history.stack.map o.history.storage = sp.map some := by
      rw [h.spilled.stack, List.map_map]
      exact map_congr_left fun s hmem => h.spilled.stored s hmem
    have hlive : (o.live.map fun x => some x.state).reverse =
        ((o.live.map (·.state)).reverse).map some := by
      rw [map_reverse, List.map_map]
      rfl
    rw [hread, hlive, ← map_append]
    obtain ⟨older, hx⟩ := h.suffix
    exact ⟨older.map some, by rw [← map_append, hx]⟩
  · intro hact
    have hback := h.back_ne_nil (h.size_pos hact)
    obtain ⟨x, rest, hlive, hsplit, _⟩ := h.newest hback
    obtain ⟨y, act, com, hlive', hy, _⟩ := h.active_cons hact
    rw [hlive] at hlive'
    cases hlive'
    refine ⟨hback, x.state, act ++ com, ?_, ?_⟩
    · rw [hlive, ← hy]
    · rw [hsplit, List.getLast?_concat]

/-- States in `back` may be changed in place, if their live entries change with them. -/
theorem change {back : List St}
    (hlen : back.length = o.history.back.length)
    (hsuf : (sp ++ back) <:+ (live.map (·.state)).reverse)
    (hact : live.map (·.active) = o.live.map (·.active)) :
    Contiguous c ⟨{ o.history with back := back }, live⟩ sp where
  spilled := h.spilled.of_eq rfl rfl
  suffix := hsuf
  deep := by
    intro hne
    rw [hlen]
    exact h.deep hne
  bounded := by
    rw [hlen]
    exact h.bounded
  enabled := h.enabled
  nested := by
    obtain ⟨act, com, hnest, hcount, hall, hnone⟩ := h.nested
    have hmap : live.map (·.active) = act.map (·.active) ++ com.map (·.active) := by
      rw [hact, hnest, map_append]
    obtain ⟨act', com', hlive, hact', hcom'⟩ := map_eq_append_iff.mp hmap
    refine ⟨act', com', hlive, ?_, ?_, ?_⟩
    · have := congrArg List.length hact'
      simp only [length_map] at this
      show _ = o.history.activeSessions
      omega
    · exact forall_active hact' hall
    · exact forall_active hcom' hnone
  room := by
    have := h.room
    simp only [length_append] at this ⊢
    omega

theorem commit_ok (hone : o.history.activeSessions = 1) :
    ∃ h', o.history.commit = .ok h' ∧ Contiguous c ⟨h', markCommitted o.live⟩ sp ∧
      h'.size = o.history.size := by
  have hcall : o.history.commit =
      .ok { o.history with activeSessions := o.history.activeSessions - 1 } := by
    simp only [UndoHistory.commit, h.enabled, Bool.false_eq_true, if_false, hone, Nat.one_pos,
      if_true]
  obtain ⟨x, act, com, hlive, hx, hlen, _, hnone⟩ := h.active_cons (by omega)
  have hnil : act = [] := eq_nil_of_length_eq_zero (by omega)
  subst hnil
  have hmark : markCommitted o.live = ⟨x.state, false⟩ :: com := by
    simp [hlive, markCommitted, hx]
  refine ⟨_, hcall, ?_, rfl⟩
  rw [hmark]
  exact {
    spilled := h.spilled.of_eq rfl rfl
    suffix := by
      have := h.suffix
      rw [hlive] at this
      exact this
    deep := h.deep
    bounded := h.bounded
    enabled := h.enabled
    nested := by
      refine ⟨[], ⟨x.state, false⟩ :: com, rfl, ?_, forall_mem_nil _,
        forall_mem_cons.mpr ⟨rfl, hnone⟩⟩
      show 0 = o.history.activeSessions - 1
      omega
    room := by
      show o.history.activeSessions - 1 ≤ _
      have := h.room
      omega }

end Contiguous

/-- The condition on a call in the state it is made in.  A start leaves room for the
    active sessions, and if something is in the stack it neither fills `back` under a
    maximum of at most thirty nor has to come down to fewer than `max_back_size` states.
    A session is committed when it is the only active one. -/
def KeepsOrder (h : UndoHistory St Id) : HistoryCall St → Prop
  | .start _ => h.activeSessions < h.maxSize ∧
      (maxBackSize + 10 ≤ h.back.length + 1 → maxBackSize ≤ h.maxSize →
        h.maxSize ≤ maxBackSize + 10 → h.activeSessions + 1 < h.maxSize) ∧
      (h.stack ≠ [] →
        (h.back.length + 1 < maxBackSize + 10 ∨ maxBackSize + 10 < h.maxSize) ∧
        (maxBackSize ≤ h.maxSize ∨ maxBackSize ≤ h.back.length + 1 ∨ h.size < h.maxSize))
  | .commit => h.activeSessions ≤ 1
  | _ => True

def DistinctAtStart (o : Observed St Id) : HistoryCall St → Prop
  | .start _ => (o.live.map (·.state)).Nodup
  | _ => True

theorem Spilled.spillsDistinct {h : UndoHistory St Id} (hc : c.CollisionFree) (empty : St)
    (force : Bool) (hs : Spilled c h sp) (hall : (sp ++ h.back).Nodup) :
    SpillsDistinct c empty h (.start force) := by
  intro hfull
  obtain ⟨dropped, hsplit, _⟩ := spill_split h.maxSize (h.back ++ [empty])
  have hkept := length_keptStates (h.back ++ [empty])
  -- the new state stays, so what is stored comes from the old `back`
  have hne : keptStates (h.back ++ [empty]) ≠ [] := by
    intro hnil
    rw [hnil, length_append, length_singleton, length_nil] at hkept
    omega
  have hsub : (spilledStates h.maxSize (h.back ++ [empty])).Sublist h.back := by
    rw [← dropLast_append_getLast hne, ← append_assoc, ← append_assoc] at hsplit
    have hinit := (append_inj' hsplit rfl).1
    generalize spilledStates h.maxSize (h.back ++ [empty]) = stored at hinit ⊢
    rw [hinit]
    exact (sublist_append_right dropped _).trans (sublist_append_left _ _)
  rw [hs.stack, ← map_append]
  exact (hall.sublist ((List.Sublist.refl sp).append hsub)).map hc.injective

/-- Different states of sessions have different ids in the stack. -/
theorem Contiguous.spillsDistinct (hc : c.CollisionFree) (empty : St) (force : Bool)
    (h : Contiguous c o sp) (hdist : DistinctAtStart o (.start force)) :
    SpillsDistinct c empty o.history (.start force) :=
  h.spilled.spillsDistinct hc empty force
    ((nodup_reverse.mpr hdist).sublist h.suffix.sublist)

variable [DecidableEq Id]

/-- The new state and the spilling loop of `start_undo_session`. -/
def pushState (c : ContentHash St Id) (empty : St) (h : UndoHistory St Id) : UndoHistory St Id :=
  let h := { h with disabled := false, back := h.back ++ [empty] }
  if maxBackSize + 10 ≤ h.back.length then spill c h.back h else h

/-- The state is added and, if the maximum is above thirty, none is lost. -/
theorem size_pushState {h : UndoHistory St Id} (c : ContentHash St Id) (empty : St)
    (hbound : h.back.length < maxBackSize + 10)
    (hfull : maxBackSize + 10 ≤ h.back.length + 1 → maxBackSize + 10 < h.maxSize) :
    (pushState c empty h).size = h.size + 1 := by
  by_cases hspill : maxBackSize + 10 ≤ h.back.length + 1
  · have hmax := hfull hspill
    simp only [pushState, length_append, length_singleton, if_pos hspill, spill_eq, size,
      storeAll_stack, length_map, length_spilledStates, length_keptStates]
    simp only [maxBackSize] at hbound hspill hmax
    omega
  · simp only [pushState, length_append, length_singleton, if_neg hspill, size]
    omega

/-! ### One lemma per call -/

variable (hc : c.CollisionFree) {empty : St} {combine : St → St → St} {i : HistoryCall St}

theorem Observed.call_of_ok
    (h : o.history.call c empty combine i = .ok h') (hi : ignored o.history i = false) :
    o.call c empty combine i = ⟨h', specCall empty combine i o.live⟩ := by
  simp only [Observed.call, h, hi, Exec.state_ok, Exec.returned_ok, Bool.not_false, Bool.and_self,
    if_true]

namespace Contiguous

variable (h : Contiguous c o sp)
include h

/-- A call that throws has changed nothing. -/
theorem thrown
    (hthrown : o.history.call c empty combine i = .thrown o.history) :
    Contiguous c (o.call c empty combine i) sp := by
  simp only [Observed.call, hthrown, Exec.state_thrown, Exec.returned_thrown, Bool.false_and,
    Bool.false_eq_true, if_false]
  exact h

variable (empty combine)

theorem record (f : St → St)
    : Contiguous c (o.call c empty combine (.record f)) sp := by
  rcases eq_nil_or_concat o.history.back with hnil | ⟨older, s, hback⟩
  · have hthrown : o.history.call c empty combine (.record f) = .thrown o.history := by
      simp only [UndoHistory.call, UndoHistory.record, h.enabled, hnil, List.getLast?_nil,
        Bool.false_eq_true, if_false]
    exact h.thrown hthrown
  · have hcall : o.history.call c empty combine (.record f) =
        .ok { o.history with back := older ++ [f s] } := by
      simp only [UndoHistory.call, UndoHistory.record, h.enabled, hback, concat_eq_append,
        List.getLast?_concat, dropLast_concat, Bool.false_eq_true, if_false]
    have hsuf := h.suffix
    rw [hback, concat_eq_append, ← append_assoc] at hsuf
    obtain ⟨x, rest, hlive, hx, hrest⟩ := live_of_suffix hsuf
    subst hx
    rw [Observed.call_of_ok hcall h.enabled, hlive]
    refine h.change ?_ ?_ ?_
    · rw [hback, concat_eq_append, length_append, length_append]
      rfl
    · rw [← append_assoc]
      exact suffix_cons_live ⟨f x.state, x.active⟩ hrest
    · rw [hlive]
      rfl

theorem commit
    (hok : KeepsOrder o.history .commit) : Contiguous c (o.call c empty combine .commit) sp := by
  by_cases hpos : 0 < o.history.activeSessions
  · have hle : o.history.activeSessions ≤ 1 := hok
    obtain ⟨h', hcall, hcont, _⟩ := h.commit_ok (by omega)
    rw [Observed.call_of_ok (i := .commit) hcall h.enabled]
    exact hcont
  · exact h.thrown (by simp only [UndoHistory.call, UndoHistory.commit, h.enabled,
      Bool.false_eq_true, if_false, if_neg hpos])

theorem setMaxSize (n : Nat)
    : Contiguous c (o.call c empty combine (.setMaxSize n)) sp := by
  exact ⟨h.spilled.of_eq rfl rfl, h.suffix, h.deep, h.bounded, h.enabled, h.nested, h.room⟩

include hc

theorem pushState_spec
    (hdist : SpillsDistinct c empty o.history (.start false))
    (hok : KeepsOrder o.history (.start false)) :
    ∃ sp', Spilled c (pushState c empty o.history) sp' ∧
      (pushState c empty o.history).activeSessions = o.history.activeSessions ∧
      (pushState c empty o.history).disabled = false ∧
      (pushState c empty o.history).maxSize = o.history.maxSize ∧
      (sp' ++ (pushState c empty o.history).back) <:+ (sp ++ o.history.back ++ [empty]) ∧
      (sp' ≠ [] → 6 ≤ (pushState c empty o.history).back.length) ∧
      (pushState c empty o.history).back.length < maxBackSize + 10 ∧
      (sp' = [] ∨ 20 ≤ o.history.maxSize ∨ 20 ≤ (pushState c empty o.history).back.length ∨
        (pushState c empty o.history).size ≤ o.history.maxSize) ∧
      o.history.activeSessions + 1 ≤
        min (pushState c empty o.history).size o.history.maxSize := by
  obtain ⟨hfit, hroom, horder⟩ := hok
  have hstack : sp ≠ [] → o.history.stack ≠ [] := by
    intro hne
    rw [h.spilled.stack]
    simpa using hne
  have hbound := h.bounded
  have hactive := h.room
  have hsplen : o.history.stack.length = sp.length := by rw [h.spilled.stack, length_map]
  rw [length_append] at hactive
  simp only [maxBackSize] at hbound hroom horder
  by_cases hfull : maxBackSize + 10 ≤ o.history.back.length + 1
  · -- `back` has thirty states: eleven leave it
    have hlen : o.history.back.length = 29 := by simp only [maxBackSize] at hfull; omega
    have hpush : pushState c empty o.history =
        { storeAll c (spilledStates o.history.maxSize (o.history.back ++ [empty]))
            { o.history with disabled := false, back := o.history.back ++ [empty] } with
          back := keptStates (o.history.back ++ [empty]) } := by
      simp only [pushState, length_append, length_singleton, if_pos hfull, spill_eq]
    have hframe := storeAll_frame c
      (spilledStates o.history.maxSize (o.history.back ++ [empty]))
      { o.history with disabled := false, back := o.history.back ++ [empty] }
    obtain ⟨dropped, hsplit, hdrop⟩ := spill_split o.history.maxSize (o.history.back ++ [empty])
    have hkept := length_keptStates (o.history.back ++ [empty])
    have hstored := length_spilledStates o.history.maxSize (o.history.back ++ [empty])
    simp only [length_append, length_singleton, hlen] at hkept hstored hdrop
    have hsmall : o.history.maxSize ≤ 30 → sp = [] := by
      intro hle
      by_contra hne
      have := (horder (hstack hne)).1
      omega
    generalize hst : spilledStates o.history.maxSize (o.history.back ++ [empty]) = stored
      at hpush hframe hsplit hstored
    generalize hke : keptStates (o.history.back ++ [empty]) = kept at hpush hsplit hkept
    have hnodup : (sp ++ stored).Nodup := by
      have hids := hdist hfull
      rw [hst, h.spilled.stack, ← map_append] at hids
      exact hids.of_map
    have hspilled : Spilled c { o.history with
        disabled := false, back := o.history.back ++ [empty] } sp := h.spilled.of_eq rfl rfl
    rw [hpush]
    refine ⟨sp ++ stored, (hspilled.storeAll hc hnodup).of_eq rfl rfl, hframe.2.2, hframe.2.1,
      hframe.1, ?_, ?_, ?_, ?_, ?_⟩
    · rw [append_assoc, append_assoc, hsplit]
      by_cases hsp : sp = []
      · subst hsp
        exact suffix_append dropped _
      · have hd : dropped = [] := by
          by_contra hne
          have := hdrop hne
          exact hsp (hsmall (by omega))
        subst hd
        exact suffix_rfl
    · intro _
      show 6 ≤ kept.length
      omega
    · simp only [maxBackSize]
      omega
    · by_cases hM : 20 ≤ o.history.maxSize
      · exact Or.inr (Or.inl hM)
      · left
        have hnil : stored = [] := eq_nil_of_length_eq_zero (by omega)
        rw [hsmall (by omega), hnil]
        rfl
    · have hsize : ({ storeAll c stored { o.history with
            disabled := false, back := o.history.back ++ [empty] } with back := kept } :
              UndoHistory St Id).size = sp.length + stored.length + kept.length := by
        simp only [size, storeAll_stack, length_append, length_map, hsplen]
      rw [hsize]
      by_cases hM : o.history.maxSize ≤ 30
      · have hnil := hsmall hM
        subst hnil
        have := hroom (by omega)
        simp only [length_nil] at hactive ⊢
        omega
      · omega
  · have hpush : pushState c empty o.history =
        { o.history with disabled := false, back := o.history.back ++ [empty] } := by
      simp only [pushState, length_append, length_singleton, if_neg hfull]
    have hsize : (pushState c empty o.history).size = o.history.size + 1 := by
      rw [hpush]
      simp only [size, length_append, length_singleton]
      omega
    rw [hsize, hpush]
    simp only [maxBackSize] at hfull
    have hosize : o.history.size = sp.length + o.history.back.length := by
      simp only [size, hsplen]
    refine ⟨sp, h.spilled.of_eq rfl rfl, rfl, rfl, rfl, ?_, ?_, ?_, ?_, ?_⟩
    · exact ⟨[], by simp⟩
    · intro hne
      have := h.deep hne
      rw [length_append, length_singleton]
      omega
    · rw [length_append, length_singleton]
      simp only [maxBackSize]
      omega
    · by_cases hsp : sp = []
      · exact Or.inl hsp
      · right
        have := (horder (hstack hsp)).2
        rw [length_append, length_singleton]
        omega
    · omega

theorem start_ok (force : Bool)
    (hdist : SpillsDistinct c empty o.history (.start force))
    (hok : KeepsOrder o.history (.start force)) :
    ∃ h' sp', o.history.startUndoSession c empty force = .ok h' ∧
      Contiguous c ⟨h', ⟨empty, true⟩ :: o.live⟩ sp' ∧
      h'.size = min (pushState c empty o.history).size o.history.maxSize ∧
      h'.activeSessions = o.history.activeSessions + 1 ∧ h'.maxSize = o.history.maxSize := by
  obtain ⟨sp₁, hs₁, hact₁, hen₁, hmax₁, hsuf₁, hdeep₁, hbound₁, hgood₁, hroom₁⟩ :=
    pushState_spec hc empty h hdist hok
  obtain ⟨h₂, sp₂, he, hcount, hs₂, hsuf₂, hlen₂, hkeep₂, hback⟩ :=
    evict_spec hc hs₁ (Nat.le_refl _) (by rw [hmax₁]; exact hgood₁)
  have hcall : o.history.startUndoSession c empty force =
      .ok { h₂ with activeSessions := h₂.activeSessions + 1 } := by
    unfold pushState at he
    simp only [startUndoSession, h.enabled, Bool.false_and, Bool.false_eq_true, if_false, he]
    rfl
  have hs₃ : Spilled c { h₂ with activeSessions := h₂.activeSessions + 1 } sp₂ :=
    hs₂.of_eq rfl rfl
  obtain ⟨act, com, hnest, hlen, hall, hnone⟩ := h.nested
  refine ⟨_, sp₂, hcall, ⟨hs₃, ?_, ?_, ?_, ?_, ?_, ?_⟩, ?_, ?_, hcount.maxSize.trans hmax₁⟩
  · exact (hsuf₂.trans hsuf₁).trans (suffix_cons_live ⟨empty, true⟩ h.suffix)
  · intro hne
    rw [hkeep₂ hne]
    refine hdeep₁ ?_
    rintro rfl
    have hle := hsuf₂.length_le
    rw [hkeep₂ hne, length_append] at hle
    have := length_pos_iff.mpr hne
    simp only [nil_append] at hle
    omega
  · show h₂.back.length < _
    omega
  · exact hcount.disabled.trans hen₁
  · refine ⟨⟨empty, true⟩ :: act, com, ?_, ?_, forall_mem_cons.mpr ⟨rfl, hall⟩, hnone⟩
    · rw [hnest]
      rfl
    · rw [length_cons, hcount.activeSessions, hact₁, hlen]
  · rw [hlen₂, hmax₁, hcount.activeSessions, hact₁]
    exact hroom₁
  · rw [hs₃.size_eq, ← hmax₁]
    exact hlen₂
  · rw [← hact₁, ← hcount.activeSessions]

/-- The newest state goes, with its live entry. -/
theorem popBack
    (hne : o.history.back ≠ []) (b : Bool) :
    ∃ h₁ sp' x rest, UndoHistory.popBack c empty { o.history with disabled := b } = .ok h₁ ∧
      SameCounters { o.history with disabled := b } h₁ ∧ o.live = x :: rest ∧
      ∀ h' : UndoHistory St Id, h'.stack = h₁.stack → h'.storage = h₁.storage →
        h'.back = h₁.back → h'.disabled = false →
        h'.activeSessions = o.history.activeSessions - 1 →
        Contiguous c ⟨h', rest⟩ sp' ∧ h'.size + 1 = o.history.size := by
  have hs : Spilled c { o.history with disabled := b } sp := h.spilled.of_eq rfl rfl
  obtain ⟨h₁, sp', he, hcount, hs₁, heq, hdeep, hlen⟩ := popBack_spec hc empty hs
  obtain ⟨x, rest, hlive, _, hsuf⟩ := h.newest hne
  refine ⟨h₁, sp', x, rest, he, hcount, hlive, ?_⟩
  intro h' hstack hstorage hback hen hact
  have hs' : Spilled c h' sp' := hs₁.of_eq hstack hstorage
  have hpos := length_pos_iff.mpr hne
  have hroom := h.room
  have hbound := h.bounded
  obtain ⟨act, com, hnest, hactive, hall, hnone⟩ := h.nested_tail hlive
  dsimp only at heq hlen
  rw [← hback] at heq hdeep hlen
  refine ⟨⟨hs', ?_, hdeep, ?_, hen,
    ⟨act, com, hnest, hactive.trans hact.symm, hall, hnone⟩, ?_⟩, ?_⟩
  · rw [heq]
    exact hsuf
  · dsimp only
    omega
  · rw [heq, hact]
    rw [length_append] at hroom
    rw [length_append, length_dropLast]
    omega
  · rw [h.spilled.size_eq, hs'.size_eq, heq, length_append, length_append,
      length_dropLast]
    omega

/-- The newest state is taken away; if need be older ones are read back. -/
theorem undo_ok
    (hpos : 0 < o.history.activeSessions) :
    ∃ h' sp' x rest, o.history.undo c empty = .ok h' ∧ o.live = x :: rest ∧ x.active = true ∧
      Contiguous c ⟨h', rest⟩ sp' ∧ h'.size + 1 = o.history.size ∧
      h'.activeSessions + 1 = o.history.activeSessions ∧ h'.maxSize = o.history.maxSize := by
  have hne := h.back_ne_nil (h.size_pos hpos)
  obtain ⟨h₁, sp', x, rest, he, hcount, hlive, hpop⟩ := h.popBack hc empty hne true
  have hcall : o.history.undo c empty =
      .ok { h₁ with disabled := false, activeSessions := h₁.activeSessions - 1 } := by
    simp only [UndoHistory.undo, h.enabled, hne, hpos, ne_eq, not_false_eq_true, and_self,
      if_true, he, Exec.ok_andThen]
  have hact : h₁.activeSessions = o.history.activeSessions := hcount.activeSessions
  obtain ⟨y, act, com, hlive', hx, _⟩ := h.active_cons hpos
  rw [hlive] at hlive'
  cases hlive'
  obtain ⟨hcont, hsize⟩ :=
    hpop { h₁ with disabled := false, activeSessions := h₁.activeSessions - 1 } rfl rfl rfl rfl
      (by rw [hact])
  exact ⟨_, sp', x, _, hcall, hlive, hx, hcont, hsize, by dsimp only; omega, hcount.maxSize⟩

theorem popCommit_ok
    (hzero : o.history.activeSessions = 0) (hne : o.history.back ≠ []) :
    ∃ h' sp' x rest, o.history.popCommit c empty = .ok h' ∧ o.live = x :: rest ∧
      Contiguous c ⟨h', rest⟩ sp' ∧ h'.size + 1 = o.history.size ∧
      h'.activeSessions = 0 ∧ h'.maxSize = o.history.maxSize := by
  obtain ⟨h₁, sp', x, rest, he, hcount, hlive, hpop⟩ := h.popBack hc empty hne true
  have hcall : o.history.popCommit c empty = .ok { h₁ with disabled := false } := by
    rw [UndoHistory.popCommit, if_pos ⟨hzero, hne⟩, he]
  have hact : h₁.activeSessions = 0 := hcount.activeSessions.trans hzero
  obtain ⟨hcont, hsize⟩ := hpop { h₁ with disabled := false } rfl rfl rfl rfl (by
    rw [hzero]
    exact hact)
  exact ⟨_, sp', x, rest, hcall, hlive, hcont, hsize, hact, hcount.maxSize⟩

/-- Two states become one, in the place of the older. -/
theorem merge_ok
    (hpos : 0 < o.history.activeSessions) {state prev : St}
    {older : List St} (hrev : o.history.back.reverse = state :: prev :: older) :
    ∃ h' sp' x y rest, o.history.merge c empty combine = .ok h' ∧ o.live = x :: y :: rest ∧
      x.active = true ∧ Contiguous c ⟨h', ⟨combine y.state x.state, y.active⟩ :: rest⟩ sp' ∧
      h'.size + 1 = o.history.size ∧ h'.activeSessions + 1 = o.history.activeSessions ∧
      h'.maxSize = o.history.maxSize := by
  have hback : o.history.back = older.reverse ++ [prev, state] := by
    rw [← reverse_reverse o.history.back, hrev]
    simp
  -- the two newest states are those of the two newest live entries
  have hsuf : (sp ++ older.reverse ++ [prev] ++ [state]) <:+ (o.live.map (·.state)).reverse := by
    have := h.suffix
    rw [hback] at this
    simpa using this
  obtain ⟨x, rest₁, hlive, hx, hsuf₁⟩ := live_of_suffix hsuf
  obtain ⟨y, rest, hrest, hy, hsuf₂⟩ := live_of_suffix hsuf₁
  subst hrest hx hy
  have hchanged : Contiguous c
      ⟨{ o.history with back := older.reverse ++ [combine y.state x.state, x.state] },
        x :: ⟨combine y.state x.state, y.active⟩ :: rest⟩ sp := by
    refine h.change ?_ ?_ ?_
    · rw [hback]
      simp
    · have := suffix_cons_live x
        (suffix_cons_live ⟨combine y.state x.state, y.active⟩ hsuf₂)
      simpa using this
    · rw [hlive]
      rfl
  obtain ⟨h₁, sp', z, rest', he, hcount, hlive', hpop⟩ :=
    hchanged.popBack hc empty (by simp) o.history.disabled
  cases hlive'
  have hcall : o.history.merge c empty combine =
      .ok { h₁ with activeSessions := h₁.activeSessions - 1 } := by
    simp only [UndoHistory.merge, if_pos hpos, hrev]
    rw [he]
    rfl
  have hact : h₁.activeSessions = o.history.activeSessions := hcount.activeSessions
  obtain ⟨hcont, hless⟩ := hpop { h₁ with activeSessions := h₁.activeSessions - 1 } rfl rfl rfl
    (hcount.disabled.trans h.enabled) (by rw [hact])
  have hsize : o.history.size =
      { o.history with back := older.reverse ++ [combine y.state x.state, x.state] }.size := by
    simp only [size, hback, length_append, length_cons]
  obtain ⟨z, act, com, hlive', hz, _⟩ := h.active_cons hpos
  rw [hlive] at hlive'
  obtain ⟨rfl, _⟩ := cons_eq_cons.mp hlive'
  exact ⟨_, sp', x, y, rest, hcall, hlive, hz, hcont, hless.trans hsize.symm, by dsimp only; omega,
    hcount.maxSize⟩

theorem start
    (force : Bool)
    (hdist : SpillsDistinct c empty o.history (.start force))
    (hok : KeepsOrder o.history (.start force)) :
    ∃ sp', Contiguous c (o.call c empty combine (.start force)) sp' := by
  obtain ⟨h', sp', hcall, hcont, _⟩ := h.start_ok hc empty force hdist hok
  have hignored : ignored o.history (.start force) = false := by
    simp only [ignored, h.enabled, Bool.false_and]
  rw [Observed.call_of_ok (i := .start force) hcall hignored]
  exact ⟨sp', hcont⟩

theorem undo
    : ∃ sp', Contiguous c (o.call c empty combine .undo) sp' := by
  by_cases hpos : 0 < o.history.activeSessions
  · obtain ⟨h', sp', x, rest, hcall, hlive, hx, hcont, _⟩ := h.undo_ok hc empty hpos
    have hspec : specCall empty combine .undo o.live = rest := by simp [specCall, hlive, hx]
    rw [Observed.call_of_ok (i := .undo) hcall rfl, hspec]
    exact ⟨sp', hcont⟩
  · have hthrown : o.history.call c empty combine .undo = .thrown o.history :=
      if_neg fun hcond => hpos hcond.2.2
    exact ⟨sp, h.thrown hthrown⟩

theorem popCommit
    : ∃ sp', Contiguous c (o.call c empty combine .popCommit) sp' := by
  by_cases hcond : o.history.activeSessions = 0 ∧ o.history.back ≠ []
  · obtain ⟨h', sp', x, rest, hcall, hlive, hcont, _⟩ := h.popCommit_ok hc empty hcond.1 hcond.2
    have hspec : specCall empty combine .popCommit o.live = rest := by simp [specCall, hlive]
    rw [Observed.call_of_ok (i := .popCommit) hcall rfl, hspec]
    exact ⟨sp', hcont⟩
  · have hthrown : o.history.call c empty combine .popCommit = .thrown o.history := if_neg hcond
    exact ⟨sp, h.thrown hthrown⟩

theorem merge
    : ∃ sp', Contiguous c (o.call c empty combine .merge) sp' := by
  by_cases hpos : 0 < o.history.activeSessions
  · rcases hrev : o.history.back.reverse with _ | ⟨state, _ | ⟨prev, older⟩⟩
    · exact ⟨sp, h.thrown (by simp only [UndoHistory.call, UndoHistory.merge, if_pos hpos, hrev])⟩
    · exact ⟨sp, h.thrown (by simp only [UndoHistory.call, UndoHistory.merge, if_pos hpos, hrev])⟩
    · obtain ⟨h', sp', x, y, rest, hcall, hlive, _, hcont, _⟩ :=
        h.merge_ok hc empty combine hpos hrev
      rw [Observed.call_of_ok (i := .merge) hcall rfl, hlive]
      exact ⟨sp', hcont⟩
  · exact ⟨sp, h.thrown (by simp only [UndoHistory.call, UndoHistory.merge, if_neg hpos])⟩

/-! ### Runs -/

/-- **Step lemma.** -/
theorem call
    (i : HistoryCall St) (hok : KeepsOrder o.history i)
    (hdist : DistinctAtStart o i) : ∃ sp', Contiguous c (o.call c empty combine i) sp' := by
  cases i with
  | start force =>
    exact h.start hc empty combine force (h.spillsDistinct hc empty force hdist) hok
  | record f => exact ⟨sp, h.record empty combine f⟩
  | commit => exact ⟨sp, h.commit empty combine hok⟩
  | undo => exact h.undo hc empty combine
  | merge => exact h.merge hc empty combine
  | popCommit => exact h.popCommit hc empty combine
  | setMaxSize n => exact ⟨sp, h.setMaxSize empty combine n⟩

end Contiguous

/-- **One contiguous list.** In every run of calls that keep the order, with distinct
    states, the spilled states followed by `back` are the newest live states in order,
    and `back` ends with the state of the innermost active session. -/
theorem history_is_contiguous (c : ContentHash St Id) (hc : c.CollisionFree) (empty : St)
    (combine : St → St → St) (maxSize : Nat) (o : Observed St Id)
    (hr : ReachableUnder (· = ⟨fresh maxSize, []⟩)
      (fun o i => KeepsOrder o.history i ∧ DistinctAtStart o i) (Observed.call c empty combine) o) :
    Represents o := by
  have hinv : ∃ sp, Contiguous c o sp := by
    refine hr.invariant (fun o => ∃ sp, Contiguous c o sp) ?_ ?_
    · rintro o rfl
      exact ⟨[], Contiguous.fresh maxSize⟩
    · rintro o i ⟨sp, h⟩ ⟨hok, hdist⟩
      exact h.call hc empty combine i hok hdist
  obtain ⟨sp, h⟩ := hinv
  exact h.represents

instance (h : UndoHistory St Id) : ∀ i : HistoryCall St, Decidable (KeepsOrder h i) := by
  rintro ⟨⟩ <;> unfold KeepsOrder <;> infer_instance

instance [DecidableEq St] (o : Observed St Id) :
    ∀ i : HistoryCall St, Decidable (DistinctAtStart o i) := by
  rintro ⟨⟩ <;> unfold DistinctAtStart <;> infer_instance

def observeRun (o : Observed Nat Nat) (calls : List (HistoryCall Nat)) : Observed Nat Nat :=
  calls.foldl (Observed.call numbered 0 (· + ·)) o

/-- Eleven states are spilled, then the newest fifteen go again and the stack is reloaded. -/
theorem contiguous_after_reload :
    let o := observeRun ⟨fresh 1440, []⟩ (sessions 30 ++ List.replicate 15 .popCommit ++
      [.start false, .record fun _ => 99])
    o.history.stack = [] ∧ o.history.back = List.range' 1 15 ++ [99] ∧ Represents o := by
  refine ⟨by decide +kernel, by decide +kernel, ?_⟩
  refine history_is_contiguous numbered numbered_collisionFree 0 (· + ·) 1440 _ ?_
  exact ReachableUnder.of_checkRun (.start rfl) (by decide +kernel)

/-- Forty committed sessions under a maximum of 1440 leave the states 1 to 11 in the
    stack and 12 to 40 in `back`.  The maximum is lowered to 20 and a session started:
    state 11 is still in the stack, but 12 to 22 are gone from the middle. -/
theorem shrinking_drops_the_middle :
    let o := observeRun ⟨fresh 1440, []⟩ (sessions 40 ++ [.setMaxSize 20])
    let o' := o.call numbered 0 (· + ·) (.start false)
    (o.live.map (·.state)).Nodup ∧ o.history.activeSessions = 0 ∧ o.history.size = 40 ∧
      (o.history.call numbered 0 (· + ·) (.start false)).returned = true ∧
      o'.history.stack.map o'.history.storage = [some 11] ∧
      o'.history.back = List.range' 23 18 ++ [0] ∧ ¬ Represents o' := by
  refine ⟨by decide +kernel, by decide +kernel, by decide +kernel, by decide +kernel,
    by decide +kernel, by decide +kernel, ?_⟩
  intro h
  exact absurd h.1 (by decide +kernel)

end UndoHistory

end HyperExchange.Db
