/-
  **The undo database over an object database** (`libraries/db/undo_database.cpp`).

  Changes go to the newest state of the history, `undo` and `pop_commit` play it back,
  `merge` merges it into the one below.  Next to a run stands the list of its sessions
  (`SessionRun`), newest first, each with the database at its start.  `Tracks` is the
  refinement: the history holds one state per session, and the states form a chain of
  records from the present database back through every start (`SessionChain`).

  Exactness needs objects that can always be put back (`Held`).  A flat index, which never
  gives up a slot, a commit inside another session, and a member that is not reflected and
  is lost when a state is spilled break it (`undo_inexact`).
-/
import HyperExchange.UndoContiguous
import HyperExchange.UndoSession

namespace HyperExchange.Db

open Std Execution List Exec

variable {α κ Id : Type} [DecidableEq κ] {sch : Schema α κ}

structure UndoDatabase (α Id : Type) where
  db : ObjectDatabase α
  history : UndoHistory (UndoState α) Id

inductive SessionCall (α : Type) where
  | start (forceEnable : Bool)
  | change (op : ObjectOp α)
  | commit
  | undo
  | merge
  | popCommit

namespace UndoDatabase

/-- A create, modify or remove, recorded in `back.back()`.  Without a state to record
    in the source has undefined behaviour; the model throws. -/
def change (sch : Schema α κ) (u : UndoDatabase α Id) (op : ObjectOp α) :
    Exec (UndoDatabase α Id) :=
  if u.history.disabled then (u.db.step sch op).map fun d => ⟨d, u.history⟩
  else match u.history.back.getLast? with
    | none => .thrown u
    | some s => (Tracked.step sch ⟨u.db, s⟩ op).map fun t =>
        ⟨t.db, { u.history with back := u.history.back.dropLast ++ [t.state] }⟩

variable [DecidableEq Id]

/-- `undo`; a replay that throws leaves the undo database disabled. -/
def undo (sch : Schema α κ) (c : ContentHash (UndoState α) Id) (u : UndoDatabase α Id) :
    Exec (UndoDatabase α Id) :=
  match u.history.back.getLast? with
  | none => .thrown u
  | some s =>
    if u.history.disabled = false ∧ 0 < u.history.activeSessions then
      match s.replay sch u.db with
      | .thrown d => .thrown ⟨d, { u.history with disabled := true }⟩
      | .ok d => (u.history.undo c UndoState.empty).map fun h => ⟨d, h⟩
    else .thrown u

/-- `pop_commit`; its handler enables the undo database before it rethrows. -/
def popCommit (sch : Schema α κ) (c : ContentHash (UndoState α) Id) (u : UndoDatabase α Id) :
    Exec (UndoDatabase α Id) :=
  match u.history.back.getLast? with
  | none => .thrown u
  | some s =>
    if u.history.activeSessions = 0 then
      match s.replay sch u.db with
      | .thrown d => .thrown ⟨d, { u.history with disabled := false }⟩
      | .ok d => (u.history.popCommit c UndoState.empty).map fun h => ⟨d, h⟩
    else .thrown u

def merge (c : ContentHash (UndoState α) Id) (u : UndoDatabase α Id) :
    Exec (UndoDatabase α Id) :=
  (u.history.merge c UndoState.empty UndoState.merge).map fun h => ⟨u.db, h⟩

def call (sch : Schema α κ) (c : ContentHash (UndoState α) Id) (u : UndoDatabase α Id) :
    SessionCall α → Exec (UndoDatabase α Id)
  | .start force => (u.history.startUndoSession c UndoState.empty force).map fun h => ⟨u.db, h⟩
  | .change op => u.change sch op
  | .commit => u.history.commit.map fun h => ⟨u.db, h⟩
  | .undo => u.undo sch c
  | .merge => u.merge c
  | .popCommit => u.popCommit sch c

end UndoDatabase

/-! ### Sessions -/

open UndoHistory

/-- An undo database next to its sessions that are not undone, merged or popped, newest
    first, each with the object database it was started on. -/
structure SessionRun (α Id : Type) where
  database : UndoDatabase α Id
  sessions : List (Live (ObjectDatabase α))

def sessionsAfter (d : ObjectDatabase α) :
    SessionCall α → List (Live (ObjectDatabase α)) → List (Live (ObjectDatabase α))
  | .start _, l => ⟨d, true⟩ :: l
  | .change _, l => l
  | .commit, l => markCommitted l
  | .undo, l => l.eraseP (·.active)
  | .merge, _ :: y :: l => y :: l
  | .merge, l => l
  | .popCommit, l => l.tail

namespace SessionRun

variable [DecidableEq Id]

def init (d : ObjectDatabase α) (maxSize : Nat) : SessionRun α Id := ⟨⟨d, fresh maxSize⟩, []⟩

/-- What a disabled undo database ignores. -/
def skipped (r : SessionRun α Id) : SessionCall α → Bool
  | .start force => r.database.history.disabled && !force
  | .commit => r.database.history.disabled
  | _ => false

def call (sch : Schema α κ) (c : ContentHash (UndoState α) Id) (r : SessionRun α Id)
    (i : SessionCall α) : SessionRun α Id where
  database := (r.database.call sch c i).state
  sessions := if (r.database.call sch c i).returned && !r.skipped i
    then sessionsAfter r.database.db i r.sessions else r.sessions

variable {c : ContentHash (UndoState α) Id}

variable (r : SessionRun α Id)

theorem call_of_thrown {sch : Schema α κ} {i : SessionCall α}
    (h : r.database.call sch c i = .thrown r.database) : r.call sch c i = r := by
  simp only [call, h, state_thrown, returned_thrown, Bool.false_and,
    Bool.false_eq_true, if_false]

theorem call_of_ok {sch : Schema α κ} {i : SessionCall α} {u : UndoDatabase α Id}
    (h : r.database.call sch c i = .ok u) (hi : r.skipped i = false) : r.call sch c i =
    ⟨u, sessionsAfter r.database.db i r.sessions⟩ := by
  simp only [call, h, hi, state_ok, returned_ok, Bool.not_false, Bool.and_self, if_true]

/-- A start drops no state, and what it spills is not in the store yet; a session is
    committed when it is the only active one. -/
def WellNested (c : ContentHash (UndoState α) Id) (r : SessionRun α Id) : SessionCall α → Prop
  | .start force => r.database.history.size < r.database.history.maxSize ∧
      (maxBackSize + 10 ≤ r.database.history.back.length + 1 →
        maxBackSize + 10 < r.database.history.maxSize) ∧
      SpillsDistinct c UndoState.empty r.database.history (.start force)
  | .commit => r.database.history.activeSessions ≤ 1
  | _ => True

end SessionRun

/-! ### Objects that can be put back -/

def Schema.IdOnly (sch : Schema α κ) : Prop := ∀ idx, sch.uniqueKeys idx = []

theorem Schema.IdOnly.clash (hid : sch.IdOnly) (idx : Nat) (v w : α) :
    sch.clash idx v w = false := by
  simp [Schema.clash, hid idx]

theorem Schema.IdOnly.collides (hid : sch.IdOnly) (d : ObjectDatabase α) (id : ObjectId) (v : α) :
    d.collides sch id v = false := by
  simp [ObjectDatabase.collides, hid.clash]

def Entry.Held : Entry α → Option α → Prop
  | .new, v => v.isSome = true
  | .upd _, v => v.isSome = true
  | _, _ => True

theorem Entry.held_some (e : Entry α) (v : α) : e.Held (some v) := by
  cases e <;> first | rfl | trivial

theorem Entry.cells_injective {a b : Entry α} (h : a.cells = b.cells) : a = b := by
  cases a <;> cases b <;> simp_all [Entry.cells]

/-- What an entry expects to find in the database is there. -/
def Held (s : UndoState α) (d : ObjectDatabase α) : Prop :=
  ∀ id e, s.cells id = Entry.cells e → e.Held (d.find id)

namespace Held

variable {s : UndoState α} {d₀ d : ObjectDatabase α} {sch : Schema α κ}

theorem start (d : ObjectDatabase α) : Held UndoState.empty d := by
  intro id e he
  rw [UndoState.cells_empty] at he
  cases Entry.cells_injective he
  trivial

variable (h : Held s d)
include h

/-- A change of the database is noted in the newest undo state. -/
theorem change {s' : UndoState α} {d' : ObjectDatabase α} (id : ObjectId)
    (hcells : ∀ k, k ≠ id → s'.cells k = s.cells k) (hfind : ∀ k, k ≠ id → d'.find k = d.find k)
    (hat : ∀ e, s'.cells id = Entry.cells e → e.Held (d'.find id)) : Held s' d' := by
  intro k e he
  by_cases hk : k = id
  · subst hk
    exact hat e he
  · rw [hcells k hk] at he
    rw [hfind k hk]
    exact h k e he

theorem create (idx : Nat) (v : α) : Held (s.onCreate (d.newId idx))
    ((d.put (d.newId idx) v).setNextId idx (d.nextId idx + 1)) := by
  refine h.change (d.newId idx) ?_ ?_ ?_
  · intro k hk
    rw [UndoState.cells_onCreate, if_neg hk]
  · intro k hk
    simp [hk]
  · intro e _
    simpa using e.held_some v

theorem modify {id : ObjectId} (v w : α) : Held (s.onModify id v) (d.put id w) := by
  refine h.change id ?_ ?_ ?_
  · intro k hk
    rw [UndoState.cells_onModify, if_neg hk]
  · intro k hk
    simp [hk]
  · intro e _
    simpa using e.held_some w

/-- After a removal the entry is a removal too, or none is left. -/
theorem remove (hrec : Records s d₀ d) {id : ObjectId} {v : α} :
    Held (s.onRemove id v) (d.drop id) := by
  refine h.change id ?_ ?_ ?_
  · intro k hk
    rw [UndoState.cells_onRemove, if_neg hk]
  · intro k hk
    simp [hk]
  · intro e he
    -- what is left of the entry is a removal or nothing
    obtain ⟨e₀, hcells, _⟩ := hrec.entries id
    rw [UndoState.cells_onRemove, if_pos rfl, hcells] at he
    cases e₀ <;> cases e <;> first | trivial | cases he

omit h in
theorem merge {t : UndoState α} {d₁ d₂ : ObjectDatabase α} (hs : Held s d₁) (ht : Held t d₂)
    (hrs : Records s d₀ d₁) (hrt : Records t d₁ d₂) (hwf : d₀.WellFormed) :
    Held (s.merge t) d₂ := by
  intro id e he
  obtain ⟨a, ha, hra⟩ := hrs.entries id
  obtain ⟨b, hb, hrb⟩ := hrt.entries id
  have hc := Records.causal hrs hrt hwf ha hb hra hrb
  rw [UndoState.cells_merge, ha, hb, Records.mergeCells_of_causal hc] at he
  have hea := hs id a ha
  have heb := ht id b hb
  cases Entry.cells_injective he
  cases b with
  | nop =>
    have hsame : d₁.find id = d₂.find id := hrb
    rw [hsame] at hea
    cases a <;> exact hea
  | new | upd => cases a <;> first | exact heb | trivial
  | del y => cases a <;> trivial

omit h in
/-- **Step lemma.** -/
theorem step {t : Tracked α} (h : Held t.state t.db) (hrec : Records t.state d₀ t.db)
    (hk : sch.NoFlat) (hid : sch.IdOnly) (hwf : t.db.WellFormed) (op : ObjectOp α) :
    Held (t.step sch op).state.state (t.step sch op).state.db := by
  cases op with
  | create idx v =>
    have hcreate := ObjectDatabase.create_eq (v := v) (hk idx) hwf
    rw [if_neg (by rw [hid.collides]; exact Bool.false_ne_true)] at hcreate
    simp only [Tracked.step, Tracked.create, hcreate]
    exact h.create idx v
  | modify id f =>
    cases hv : t.db.find id with
    | none =>
      simp only [Tracked.step, Tracked.modify, hv]
      exact h
    | some v =>
      have hmodify := ObjectDatabase.modify_eq (f := f) (hk id.spaceType) hv
      rw [if_neg (by rw [hid.collides]; exact Bool.false_ne_true)] at hmodify
      simp only [Tracked.step, Tracked.modify, hv, hmodify]
      exact h.modify v (f v)
  | remove id =>
    cases hv : t.db.find id with
    | none =>
      simp only [Tracked.step, Tracked.remove, hv]
      exact h
    | some v =>
      simp only [Tracked.step, Tracked.remove, hv, ObjectDatabase.remove_eq (hk id.spaceType) hv]
      exact h.remove hrec

/-- An undo state that is held can be played back without an exception. -/
theorem replayable (hrec : Records s d₀ d) (hid : sch.IdOnly) : Replayable sch s d where
  newPresent id hmem := by
    obtain ⟨e, hcells, _⟩ := hrec.entries id
    have hnew : e.cells.1 = true := by
      rw [← hcells]
      exact hmem
    have hheld := h id e hcells
    cases e <;> first | exact hheld | cases hnew
  oldPresent id x hx := by
    obtain ⟨e, hcells, _⟩ := hrec.entries id
    have hold : e.cells.2.1 = some x := by
      rw [← hcells]
      exact hx
    have hheld := h id e hcells
    cases e <;> first | exact hheld | cases hold
  keysFree id x id' w _ _ _ _ := hid.clash _ _ _

end Held

/-! ### The chain of sessions -/

/-- Each state records the way from the start of the next newer session, or from the
    present database, back to the start of its own session. -/
inductive SessionChain : ObjectDatabase α → List (Live (UndoState α)) →
    List (Live (ObjectDatabase α)) → Prop
  | nil {d : ObjectDatabase α} (hwf : d.WellFormed) : SessionChain d [] []
  | cons {d d₀ : ObjectDatabase α} {s : UndoState α} {a : Bool} {live : List (Live (UndoState α))}
      {sessions : List (Live (ObjectDatabase α))} (hwf : d.WellFormed) (hrec : Records s d₀ d)
      (hheld : Held s d) (hrest : SessionChain d₀ live sessions) :
      SessionChain d (⟨s, a⟩ :: live) (⟨d₀, a⟩ :: sessions)

namespace SessionChain

variable {d : ObjectDatabase α} {live : List (Live (UndoState α))}
  {sessions : List (Live (ObjectDatabase α))} (h : SessionChain d live sessions)
include h

theorem wellFormed : d.WellFormed := by
  cases h with
  | nil hwf => exact hwf
  | cons hwf => exact hwf

theorem start : SessionChain d (⟨UndoState.empty, true⟩ :: live) (⟨d, true⟩ :: sessions) :=
  .cons h.wellFormed (Records.start d) (Held.start d) h

theorem markCommitted :
    SessionChain d (UndoHistory.markCommitted live) (UndoHistory.markCommitted sessions) := by
  induction h with
  | nil hwf => exact .nil hwf
  | @cons _ _ _ a _ _ hwf hrec hheld hrest ih =>
    cases a with
    | true => exact .cons hwf hrec hheld hrest
    | false => exact .cons hwf hrec hheld ih

omit h

/-- A merged session starts where the older of the two did. -/
theorem merge {x y : Live (UndoState α)} {p q : Live (ObjectDatabase α)}
    (h : SessionChain d (x :: y :: live) (p :: q :: sessions)) :
    SessionChain d (⟨y.state.merge x.state, y.active⟩ :: live) (q :: sessions) := by
  cases h with
  | cons hwf hrec hheld hrest =>
    cases hrest with
    | cons hwf₁ hrec₁ hheld₁ hrest =>
      have hwf₀ := hrest.wellFormed
      exact .cons hwf (hrec₁.merge hrec hwf₀) (hheld₁.merge hheld hrec₁ hrec hwf₀) hrest

end SessionChain

/-- The refinement.  The history holds one state per session, and the states lead back
    from start to start. -/
structure Tracks (c : ContentHash (UndoState α) Id) (r : SessionRun α Id)
    (live : List (Live (UndoState α))) (sp : List (UndoState α)) : Prop where
  contiguous : Contiguous c ⟨r.database.history, live⟩ sp
  whole : r.database.history.size = live.length
  chain : SessionChain r.database.db live r.sessions

namespace Tracks

variable {c : ContentHash (UndoState α) Id} {r : SessionRun α Id} {live : List (Live (UndoState α))}
  {sp : List (UndoState α)} {sch : Schema α κ} {x : Live (UndoState α)}
  {rest : List (Live (UndoState α))}

section

variable (h : Tracks c r (x :: rest) sp)
include h

theorem back_eq_dropLast :
    r.database.history.back = r.database.history.back.dropLast ++ [x.state] := by
  have hpos : 0 < r.database.history.size := by
    rw [h.whole]
    exact Nat.succ_pos _
  obtain ⟨y, rest', hlive, hsplit, _⟩ := h.contiguous.newest (h.contiguous.back_ne_nil hpos)
  cases hlive
  exact hsplit

theorem getLast?_back : r.database.history.back.getLast? = some x.state := by
  rw [h.back_eq_dropLast, List.getLast?_concat]

omit h in
theorem back_eq_nil (h : Tracks c r [] sp) : r.database.history.back = [] := by
  have hsize : r.database.history.size = 0 := h.whole
  rw [size] at hsize
  exact eq_nil_of_length_eq_zero (by omega)

/-- A newest session that is active is one of those the history counts. -/
theorem activeSessions_pos (hx : x.active = true) : 0 < r.database.history.activeSessions := by
  obtain ⟨act, com, hnest, hlen, _, hnone⟩ := h.contiguous.nested
  cases act with
  | nil =>
    have hmem : x ∈ com := by
      have : x :: rest = com := hnest
      rw [← this]
      exact mem_cons_self
    rw [hnone x hmem] at hx
    cases hx
  | cons y act =>
    have hcount : act.length + 1 = r.database.history.activeSessions := hlen
    omega

end

variable (h : Tracks c r live sp)
include h

theorem live_eq_nil (hx : r.sessions = []) : live = [] := by
  have hchain := h.chain
  rw [hx] at hchain
  cases hchain
  rfl

/-- While the history counts an active session, the newest one is active. -/
theorem active_session (hpos : 0 < r.database.history.activeSessions) : ∃ x rest, r.sessions = x ::
    rest ∧ x.active = true := by
  obtain ⟨x, act, com, hlive, hx, _⟩ := h.contiguous.active_cons hpos
  have hchain := h.chain
  have hlive' : live = x :: (act ++ com) := hlive
  rw [hlive'] at hchain
  generalize r.sessions = sessions at hchain
  cases hchain with
  | cons => exact ⟨_, _, rfl, hx⟩

variable [DecidableEq Id] {x : Live (ObjectDatabase α)}

theorem merge_thrown (hpos : 0 < r.database.history.activeSessions) (hx : r.sessions = [x]) :
    r.database.merge c = .thrown r.database := by
  have hlen : r.database.history.back.length ≤ 1 := by
    have hchain := h.chain
    rw [hx] at hchain
    cases hchain with
    | cons _ _ _ hrest =>
      cases hrest
      have hwhole := h.whole
      rw [size] at hwhole
      simp only [length_cons, length_nil] at hwhole
      omega
  rcases hrev : r.database.history.back.reverse with _ | ⟨state, _ | ⟨prev, older⟩⟩
  · simp only [UndoDatabase.merge, UndoHistory.merge, if_pos hpos, hrev, map_thrown]
  · simp only [UndoDatabase.merge, UndoHistory.merge, if_pos hpos, hrev, map_thrown]
  · have := congrArg List.length hrev
    simp only [length_reverse, length_cons] at this
    omega

variable {rest : List (Live (ObjectDatabase α))}

omit [DecidableEq Id] in
/-- The newest state replays to the database its session was started on; what is left when
    it is popped tracks the sessions below. -/
theorem newest_session (hk : sch.NoFlat) (hid : sch.IdOnly) (hx : r.sessions = x :: rest) :
    ∃ y older, live = y :: older ∧ y.active = x.active ∧ y.state.replay sch r.database.db = .ok
    x.state ∧ ∀ (h' : UndoHistory (UndoState α) Id) sp', Contiguous c ⟨h', older⟩ sp' → h'.size + 1
    = r.database.history.size → Tracks c ⟨⟨x.state, h'⟩, rest⟩ older sp' := by
  have hchain := h.chain
  have hwhole := h.whole
  rw [hx] at hchain
  cases hchain with
  | cons hwf hrec hheld hrest =>
    have hreplay := (hrec.replay_eq_ok_iff hk fun id v _ => hid.collides _ id v).mpr
      ⟨hheld.replayable hrec hid, rfl⟩
    refine ⟨_, _, rfl, rfl, hreplay, fun h' sp' hcont hsize => ?_⟩
    rw [← hsize, length_cons] at hwhole
    exact ⟨hcont, Nat.succ.inj hwhole, hrest⟩

variable (hc : c.CollisionFree)
include hc

/-- The database is back at the start of the newest session. -/
theorem undo (hk : sch.NoFlat) (hid : sch.IdOnly) (hx : r.sessions = x :: rest)
    (hactive : x.active = true) : ∃ u live' sp', r.database.undo sch c = .ok u ∧ u.db = x.state ∧
    r.database.history.undo c UndoState.empty = .ok u.history ∧ Tracks c ⟨u, rest⟩ live' sp' := by
  obtain ⟨y, older, rfl, hy, hreplay, hpop⟩ := h.newest_session hk hid hx
  have hpos := h.activeSessions_pos (hy.trans hactive)
  obtain ⟨h', sp', z, live', hcall, hlive, _, hcont, hsize, _⟩ :=
    h.contiguous.undo_ok hc UndoState.empty hpos
  cases hlive
  have hundo : r.database.history.undo c UndoState.empty = .ok h' := hcall
  refine ⟨⟨x.state, h'⟩, older, sp', ?_, rfl, hcall, hpop h' sp' hcont hsize⟩
  simp only [UndoDatabase.undo, h.getLast?_back]
  rw [if_pos ⟨h.contiguous.enabled, hpos⟩, hreplay, hundo]
  rfl

/-- `pop_commit` when no session is active. -/
theorem popCommit (hk : sch.NoFlat) (hid : sch.IdOnly)
    (hzero : r.database.history.activeSessions = 0) (hx : r.sessions = x :: rest) : ∃ u live' sp',
    r.database.popCommit sch c = .ok u ∧ u.db = x.state ∧ Tracks c ⟨u, rest⟩ live' sp' := by
  obtain ⟨y, older, rfl, _, hreplay, hpop⟩ := h.newest_session hk hid hx
  have hne : r.database.history.back ≠ [] := by
    rw [h.back_eq_dropLast]
    simp
  obtain ⟨h', sp', z, live', hcall, hlive, hcont, hsize, _⟩ :=
    h.contiguous.popCommit_ok hc UndoState.empty hzero hne
  cases hlive
  have hcommit : r.database.history.popCommit c UndoState.empty = .ok h' := hcall
  refine ⟨⟨x.state, h'⟩, older, sp', ?_, rfl, hpop h' sp' hcont hsize⟩
  simp only [UndoDatabase.popCommit, h.getLast?_back]
  rw [if_pos hzero, hreplay, hcommit]
  rfl

theorem merge {x y : Live (ObjectDatabase α)} (hx : r.sessions = x :: y :: rest)
    (hactive : x.active = true) : ∃ u live' sp', r.database.merge c = .ok u ∧ u.db = r.database.db ∧
    r.database.history.merge c UndoState.empty UndoState.merge = .ok u.history ∧ Tracks c
    ⟨u, y :: rest⟩ live' sp' := by
  have hchain := h.chain
  rw [hx] at hchain
  cases hchain with
  | cons hwf hrec hheld hrest =>
    cases hrest with
    | @cons _ _ _ _ older _ hwf₁ hrec₁ hheld₁ hrest =>
      have hpos := h.activeSessions_pos hactive
      obtain ⟨state, prev, _, hrev⟩ := h.contiguous.two_back (by
        rw [h.whole, length_cons, length_cons]
        omega)
      obtain ⟨h', sp', z, w, live', hcall, hlive, _, hcont, hsize, _⟩ :=
        h.contiguous.merge_ok hc UndoState.empty UndoState.merge hpos hrev
      cases hlive
      refine ⟨⟨r.database.db, h'⟩, _, sp', ?_, rfl, hcall, hcont, ?_, ?_⟩
      · have hmerge : r.database.history.merge c UndoState.empty UndoState.merge = .ok h' := hcall
        rw [UndoDatabase.merge, hmerge]
        rfl
      · have hlen := h.whole
        simp only [length_cons] at hlen
        have hsize' : h'.size + 1 = r.database.history.size := hsize
        show h'.size = older.length + 1
        omega
      · have hmerged := h.chain
        rw [hx] at hmerged
        exact hmerged.merge

theorem start (force : Bool) (hok : r.WellNested c (.start force)) : ∃ live' sp', Tracks c
    (r.call sch c (.start force)) live' sp' := by
  obtain ⟨hsize, hfull, hdist⟩ := hok
  have hroom : r.database.history.activeSessions ≤ r.database.history.size := by
    rw [h.contiguous.spilled.size_eq]
    exact h.contiguous.room
  have horder : KeepsOrder r.database.history (.start force) := by
    refine ⟨by omega, ?_, fun _ => ⟨?_, Or.inr (Or.inr hsize)⟩⟩
    · intro h₁ _ h₂
      have := hfull h₁
      omega
    · by_cases h₁ : maxBackSize + 10 ≤ r.database.history.back.length + 1
      · exact Or.inr (hfull h₁)
      · exact Or.inl (by omega)
  obtain ⟨h', sp', hcall, hcont, hsize', _⟩ :=
    h.contiguous.start_ok hc UndoState.empty force hdist horder
  have hstart : r.database.call sch c (.start force) = .ok ⟨r.database.db, h'⟩ := by
    have : r.database.history.startUndoSession c UndoState.empty force = .ok h' := hcall
    simp only [UndoDatabase.call, this, map_ok]
  have hen : r.database.history.disabled = false := h.contiguous.enabled
  have hskip : r.skipped (.start force) = false := by
    simp only [SessionRun.skipped, hen, Bool.false_and]
  rw [r.call_of_ok hstart hskip]
  refine ⟨⟨UndoState.empty, true⟩ :: live, sp', hcont, ?_, h.chain.start⟩
  have hpush : (pushState c UndoState.empty r.database.history).size =
      r.database.history.size + 1 := size_pushState c UndoState.empty h.contiguous.bounded hfull
  have hwhole := h.whole
  have hmin : h'.size = min (pushState c UndoState.empty r.database.history).size
      r.database.history.maxSize := hsize'
  show h'.size = live.length + 1
  omega

omit hc

theorem change (hk : sch.NoFlat) (hid : sch.IdOnly) (op : ObjectOp α) : ∃ live' sp', Tracks c
    (r.call sch c (.change op)) live' sp' := by
  have hen : r.database.history.disabled = false := h.contiguous.enabled
  have hsessions : (r.call sch c (.change op)).sessions = r.sessions := by
    simp only [SessionRun.call, sessionsAfter, ite_self]
  have hr : r.call sch c (.change op) = ⟨(r.database.change sch op).state, r.sessions⟩ := by
    rw [← hsessions]
    rfl
  rw [hr]
  cases hlive : live with
  | nil =>
    subst hlive
    have hthrown : r.database.change sch op = .thrown r.database := by
      simp only [UndoDatabase.change, hen, h.back_eq_nil, List.getLast?_nil, Bool.false_eq_true,
        if_false]
    rw [hthrown]
    exact ⟨[], sp, h⟩
  | cons x rest =>
    subst hlive
    have hlast := h.getLast?_back
    have hback := h.back_eq_dropLast
    generalize ht : (Tracked.step sch ⟨r.database.db, x.state⟩ op).state = t
    have hstate : (r.database.change sch op).state =
        ⟨t.db, { r.database.history with
          back := r.database.history.back.dropLast ++ [t.state] }⟩ := by
      simp only [UndoDatabase.change, hen, hlast, Bool.false_eq_true, if_false]
      rw [← ht]
      cases Tracked.step sch ⟨r.database.db, x.state⟩ op <;> rfl
    rw [hstate]
    refine ⟨⟨t.state, x.active⟩ :: rest, sp, ?_, ?_, ?_⟩
    · refine h.contiguous.change ?_ ?_ rfl
      · rw [length_append, length_singleton]
        conv_rhs => rw [hback, length_append, length_singleton]
      · obtain ⟨y, rest', hcons, _, hsuf⟩ := h.contiguous.newest (by
          rw [hback]
          simp)
        cases hcons
        rw [← append_assoc]
        exact suffix_cons_live ⟨t.state, x.active⟩ hsuf
    · have hwhole := h.whole
      rw [size] at hwhole ⊢
      rw [hback, length_append, length_singleton] at hwhole
      simpa using hwhole
    · have hchain := h.chain
      generalize r.sessions = sessions at hchain ⊢
      cases hchain with
      | @cons _ d₀ s₀ _ _ _ hwf hrec hheld hrest =>
        have hstep := hrec.step (t := ⟨r.database.db, s₀⟩) hk hrest.wellFormed hwf op
        have hheld' := hheld.step (t := ⟨r.database.db, s₀⟩) hrec hk hid hwf op
        rw [ht] at hstep hheld'
        refine .cons ?_ hstep.1 hheld' hrest
        rw [hstep.2]
        exact (ValidDatabase.valid_step hk hwf op).1

/-- Committing leaves the database and all starts alone. -/
theorem commit (hok : r.WellNested c .commit) : ∃ live' sp', Tracks c (r.call sch c .commit) live'
    sp' := by
  have hen : r.database.history.disabled = false := h.contiguous.enabled
  by_cases hpos : 0 < r.database.history.activeSessions
  · have hle : r.database.history.activeSessions ≤ 1 := hok
    obtain ⟨h', hcall, hcont, hsize⟩ := h.contiguous.commit_ok (by
      show r.database.history.activeSessions = 1
      omega)
    have hcommit : r.database.call sch c .commit = .ok ⟨r.database.db, h'⟩ := by
      have : r.database.history.commit = .ok h' := hcall
      simp only [UndoDatabase.call, this, map_ok]
    rw [r.call_of_ok hcommit hen]
    refine ⟨markCommitted live, sp, hcont, ?_, h.chain.markCommitted⟩
    rw [length_markCommitted, ← h.whole]
    exact hsize
  · have hthrown : r.database.history.commit = .thrown r.database.history := by
      simp only [UndoHistory.commit, hen, Bool.false_eq_true, if_false, if_neg hpos]
    rw [r.call_of_thrown (by simp only [UndoDatabase.call, hthrown, map_thrown])]
    exact ⟨live, sp, h⟩

/-- **Step lemma.** -/
theorem call (hc : c.CollisionFree) (hk : sch.NoFlat) (hid : sch.IdOnly) (i : SessionCall α)
    (hok : r.WellNested c i) : ∃ live' sp', Tracks c (r.call sch c i) live' sp' := by
  cases i with
  | start force => exact h.start hc force hok
  | change op => exact h.change hk hid op
  | commit => exact h.commit hok
  | undo =>
    by_cases hpos : 0 < r.database.history.activeSessions
    · obtain ⟨x, rest, hx, hactive⟩ := h.active_session hpos
      obtain ⟨u, live', sp', hcall, _, _, htracks⟩ := h.undo hc hk hid hx hactive
      have hafter : sessionsAfter r.database.db .undo r.sessions = rest := by
        simp [sessionsAfter, hx, hactive]
      rw [r.call_of_ok (i := .undo) hcall rfl, hafter]
      exact ⟨live', sp', htracks⟩
    · rw [r.call_of_thrown (i := .undo) (by
        simp only [UndoDatabase.call, UndoDatabase.undo, hpos, and_false, if_false]
        split <;> rfl)]
      exact ⟨live, sp, h⟩
  | merge =>
    by_cases hpos : 0 < r.database.history.activeSessions
    · obtain ⟨x, rest, hx, hactive⟩ := h.active_session hpos
      cases rest with
      | nil =>
        rw [r.call_of_thrown (i := .merge) (h.merge_thrown hpos hx)]
        exact ⟨live, sp, h⟩
      | cons y rest =>
        obtain ⟨u, live', sp', hcall, _, _, htracks⟩ := h.merge hc hx hactive
        have hafter : sessionsAfter r.database.db .merge r.sessions = y :: rest := by
          simp [sessionsAfter, hx]
        rw [r.call_of_ok (i := .merge) hcall rfl, hafter]
        exact ⟨live', sp', htracks⟩
    · rw [r.call_of_thrown (i := .merge) (by
        simp only [UndoDatabase.call, UndoDatabase.merge, UndoHistory.merge, hpos, if_false]
        rfl)]
      exact ⟨live, sp, h⟩
  | popCommit =>
    by_cases hzero : r.database.history.activeSessions = 0
    · cases hx : r.sessions with
      | nil =>
        have hlive : live = [] := h.live_eq_nil hx
        subst hlive
        rw [r.call_of_thrown (i := .popCommit) (by
          simp only [UndoDatabase.call, UndoDatabase.popCommit, h.back_eq_nil, List.getLast?_nil])]
        exact ⟨[], sp, h⟩
      | cons x rest =>
        obtain ⟨u, live', sp', hcall, _, htracks⟩ := h.popCommit hc hk hid hzero hx
        have hafter : sessionsAfter r.database.db .popCommit r.sessions = rest := by
          simp [sessionsAfter, hx]
        rw [r.call_of_ok (i := .popCommit) hcall rfl, hafter]
        exact ⟨live', sp', htracks⟩
    · rw [r.call_of_thrown (i := .popCommit) (by
        simp only [UndoDatabase.call, UndoDatabase.popCommit, hzero, if_false]
        split <;> rfl)]
      exact ⟨live, sp, h⟩

end Tracks

/-! ### Every run -/

section

variable [DecidableEq Id]

theorem SessionRun.tracks {sch : Schema α κ} {c : ContentHash (UndoState α) Id}
    (hc : c.CollisionFree) (hk : sch.NoFlat) (hid : sch.IdOnly) (d₀ : ValidDatabase sch)
    (maxSize : Nat) {r : SessionRun α Id}
    (hr : ReachableUnder (· = SessionRun.init d₀.db maxSize) (SessionRun.WellNested c)
      (SessionRun.call sch c) r) : ∃ live sp, Tracks c r live sp := by
  refine hr.invariant (fun r => ∃ live sp, Tracks c r live sp) ?_ ?_
  · rintro r rfl
    exact ⟨[], [], Contiguous.fresh maxSize, rfl, .nil d₀.wellFormed⟩
  · rintro r i ⟨live, sp, h⟩ hok
    exact h.call hc hk hid i hok

/-- **Undo is exact.** On indexes keyed by id that give up what they remove, with a store
    that tells any two states apart and so loses nothing of them, in every well-nested run
    without eviction: undoing the innermost active session returns the database it was
    started on, so does `pop_commit` for the newest session when all are committed, and
    merging a session into its parent and undoing the parent is the same as undoing both. -/
theorem undo_is_exact (sch : Schema α κ) (hk : sch.NoFlat) (hid : sch.IdOnly)
    (c : ContentHash (UndoState α) Id) (hc : c.CollisionFree) (d₀ : ValidDatabase sch)
    (maxSize : Nat) (r : SessionRun α Id)
    (hr : ReachableUnder (· = SessionRun.init d₀.db maxSize) (SessionRun.WellNested c)
      (SessionRun.call sch c) r) :
    (∀ x rest, r.sessions = x :: rest → x.active = true →
      ∃ h, r.database.undo sch c = .ok ⟨x.state, h⟩) ∧
    (∀ x rest, r.sessions = x :: rest → r.database.history.activeSessions = 0 →
      ∃ h, r.database.popCommit sch c = .ok ⟨x.state, h⟩) ∧
    ∀ x y rest, r.sessions = x :: y :: rest → x.active = true → y.active = true →
      ∃ h, (r.database.merge c).andThen (UndoDatabase.undo sch c) = .ok ⟨y.state, h⟩ ∧
        (r.database.undo sch c).andThen (UndoDatabase.undo sch c) = .ok ⟨y.state, h⟩ := by
  obtain ⟨live, sp, h⟩ := SessionRun.tracks hc hk hid d₀ maxSize hr
  refine ⟨?_, ?_, ?_⟩
  · intro x rest hx hactive
    obtain ⟨u, _, _, hcall, hdb, _⟩ := h.undo hc hk hid hx hactive
    exact ⟨u.history, by rw [hcall, ← hdb]⟩
  · intro x rest hx hzero
    obtain ⟨u, _, _, hcall, hdb, _⟩ := h.popCommit hc hk hid hzero hx
    exact ⟨u.history, by rw [hcall, ← hdb]⟩
  · intro x y rest hx hactive hbelow
    obtain ⟨m, _, _, hmerge, _, hmergeH, hm⟩ := h.merge hc hx hactive
    obtain ⟨u, _, _, hundo, _, hundoH, hu⟩ := h.undo hc hk hid hx hactive
    obtain ⟨m₂, _, _, hmerge₂, hmdb, hmergeH₂, _⟩ := hm.undo hc hk hid rfl hbelow
    obtain ⟨u₂, _, _, hundo₂, hudb, hundoH₂, _⟩ := hu.undo hc hk hid rfl hbelow
    -- both ways end with the same history
    have hsame := merge_undo UndoState.empty UndoState.merge hmergeH hundoH hmergeH₂
    have hhist : u₂.history = m₂.history := ok.inj (hundoH₂.symm.trans hsame)
    refine ⟨m₂.history, ?_, ?_⟩
    · rw [hmerge, ok_andThen, hmerge₂, ← hmdb]
    · rw [hundo, ok_andThen, hundo₂, ← hudb, ← hhist]

end

/-! ### Numbers in two indexes

Index `0` is an ordinary one, index `1` a flat one; states are stored under the list of
their contents. -/

structure Listing where
  oldValues : List (ObjectId × Nat)
  oldIndexNextIds : List (Nat × Nat)
  newIds : List ObjectId
  removed : List (ObjectId × Nat)
deriving DecidableEq

def listed : ContentHash (UndoState Nat) (Option Listing) where
  undoId s := some ⟨s.oldValues.toList, s.oldIndexNextIds.toList, s.newIds.toList,
    s.removed.toList⟩
  nullId := none
  stored := id
  undoId_stored _ := rfl

theorem listed_collisionFree : listed.CollisionFree where
  injective s t h := by
    simp only [listed, Option.some.injEq, Listing.mk.injEq, ExtTreeMap.toList_inj,
      ExtTreeSet.toList_inj] at h
    obtain ⟨h₁, h₂, h₃, h₄⟩ := h
    cases s
    cases t
    simp_all
  ne_null s h := by cases h

/-- The last digit of a number is not reflected. -/
def reflected (s : UndoState Nat) : UndoState Nat :=
  { s with
    oldValues := s.oldValues.map fun _ v => v / 10 * 10
    removed := s.removed.map fun _ v => v / 10 * 10 }

/-- States are stored without the last digits of their values. -/
def lossy : ContentHash (UndoState Nat) (Option Listing) where
  undoId s := listed.undoId (reflected s)
  nullId := none
  stored := reflected
  undoId_stored s := by
    have hdigit : ∀ v, v / 10 * 10 / 10 * 10 = v / 10 * 10 := by omega
    simp only [reflected, ExtTreeMap.map_map, hdigit]

def plain : Schema Nat Nat := ⟨fun _ => .generic, fun _ => [], 0⟩

def withFlat : Schema Nat Nat := ⟨fun idx => if idx = 1 then .flat else .generic, fun _ => [], 0⟩

instance (r : SessionRun Nat (Option Listing)) (i : SessionCall Nat) :
    Decidable (r.WellNested listed i) := by
  cases i <;> unfold SessionRun.WellNested <;> infer_instance

def runSessions (c : ContentHash (UndoState Nat) (Option Listing)) (sch : Schema Nat Nat)
    (calls : List (SessionCall Nat)) : SessionRun Nat (Option Listing) :=
  calls.foldl (SessionRun.call sch c) (SessionRun.init (ValidDatabase.empty sch).db 1440)

/-- Objects 0 and 1 before the second session, which changes, removes and creates. -/
def twoSessions : List (SessionCall Nat) :=
  [.start false, .change (.create 0 5), .change (.create 0 6), .start false,
    .change (.modify ⟨0, 0⟩ (· + 1)), .change (.remove ⟨0, 1⟩), .change (.create 0 7)]

/-- Undoing the second session gives the two objects back; merging it first, nothing is left. -/
theorem two_sessions_undone :
    ∃ x y h h', (runSessions listed plain twoSessions).sessions = [x, y] ∧
      (x.state.find ⟨0, 0⟩, x.state.find ⟨0, 1⟩, x.state.nextId 0) = (some 5, some 6, 2) ∧
      (runSessions listed plain twoSessions).database.undo plain listed = .ok ⟨x.state, h⟩ ∧
      ((runSessions listed plain twoSessions).database.merge listed).andThen
        (UndoDatabase.undo plain listed) = .ok ⟨y.state, h'⟩ := by
  have hk : plain.NoFlat := by
    intro idx h
    cases h
  obtain ⟨hundo, _, hmerge⟩ := undo_is_exact plain hk (fun _ => rfl) listed listed_collisionFree
    (ValidDatabase.empty plain) 1440 (runSessions listed plain twoSessions)
    (ReachableUnder.of_checkRun (.start rfl) (by decide +kernel))
  have hview : (runSessions listed plain twoSessions).sessions.map (fun x =>
      (x.active, x.state.find ⟨0, 0⟩, x.state.find ⟨0, 1⟩, x.state.nextId 0)) =
      [(true, some 5, some 6, 2), (true, none, none, 0)] := by decide +kernel
  obtain ⟨x, y, hxy⟩ := length_eq_two.mp
    (show (runSessions listed plain twoSessions).sessions.length = 2 by decide +kernel)
  simp only [hxy, map_cons, map_nil, List.cons.injEq, Prod.mk.injEq] at hview
  obtain ⟨⟨hx, hfind⟩, ⟨hy, _⟩, _⟩ := hview
  obtain ⟨h, hu⟩ := hundo x [y] hxy hx
  obtain ⟨h', hm, _⟩ := hmerge x y [] hxy hx hy
  exact ⟨x, y, h, h', hxy, by simpa using hfind, hu, hm⟩

/-- Object `0` is created with the value `1`, and each of `n` committed sessions adds `11` to it. -/
def countingSessions (n : Nat) : List (SessionCall Nat) :=
  [.start false, .change (.create 0 1), .commit] ++
    (List.replicate n [.start false, .change (.modify ⟨0, 0⟩ (· + 11)), .commit]).flatten

/-- Three sessions that are not undone exactly.  A session committed inside another one
    leaves its state on top, so undoing the outer session restores the start of the
    inner one: object `0`, created in the outer session, is still there.  A flat index
    answers for every slot it ever had: undoing the session that created object `0` of
    index `1` leaves a blank object in its place.  And a state that was spilled comes back
    without what is not reflected: of thirty sessions the newest twenty are popped, and
    the next pop makes `80` of the `89` that its session was started on. -/
theorem undo_inexact :
    let r := runSessions listed plain [.start false, .change (.create 0 5), .start false,
      .change (.create 0 6), .commit]
    let r' := runSessions listed withFlat [.start false, .change (.create 1 5)]
    let r'' := runSessions lossy plain (countingSessions 29 ++ List.replicate 20 .popCommit)
    ((r.sessions.find? (·.active)).map (fun x => x.state.find ⟨0, 0⟩) = some none ∧
      (r.database.undo plain listed).returned = true ∧
      (r.database.undo plain listed).state.db.find ⟨0, 0⟩ = some 5) ∧
    ((r'.sessions.find? (·.active)).map (fun x => x.state.find ⟨1, 0⟩) = some none ∧
      (r'.database.undo withFlat listed).returned = true ∧
      (r'.database.undo withFlat listed).state.db.find ⟨1, 0⟩ = some 0) ∧
    r''.sessions.head?.map (fun x => x.state.find ⟨0, 0⟩) = some (some 89) ∧
      (r''.database.popCommit plain lossy).returned = true ∧
      (r''.database.popCommit plain lossy).state.db.find ⟨0, 0⟩ = some 80 := by
  decide +kernel

end HyperExchange.Db
