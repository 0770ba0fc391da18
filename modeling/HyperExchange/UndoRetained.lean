/-
  **The undo history as the list of states it retains.**

  `Retains c h l` says that the history `h` stands for the list `l`, oldest state first; there
  is one rule for each call: a start appends a state and may forget the oldest ones, an undo
  or a pop takes the newest away, a merge makes one of the newest two.

  `save_to_file` stores the states in memory behind those already spilled and writes the ids
  to a file, unless there are none: then a file from an earlier shutdown stays as it is.
  `from_file` reads the newest `max_back_size` states of the file back.
-/
import Mathlib.Data.Set.List
import HyperExchange.UndoContiguous

namespace HyperExchange.Db

open Execution List

namespace UndoHistory

variable {St Id : Type} {c : ContentHash St Id} {o : Observed St Id} {sp : List St}
  {h : UndoHistory St Id}

/-! ### What is retained -/

/-- The history retains the states `l`, oldest first. -/
def Retains (c : ContentHash St Id) (h : UndoHistory St Id) (l : List St) : Prop :=
  ∃ live sp, Contiguous c ⟨h, live⟩ sp ∧ sp ++ h.back = l

/-- Observed sessions that are no longer retained may be forgotten. -/
theorem Contiguous.trim {live₀ : List (Live St)} (hcont : Contiguous c ⟨h, live₀⟩ sp) :
    ∃ live, Contiguous c ⟨h, live⟩ sp ∧ live.map (·.state) = (sp ++ h.back).reverse := by
  have hpre : (sp ++ h.back).reverse <+: live₀.map (·.state) := by
    have := reverse_prefix.mpr hcont.suffix
    rwa [reverse_reverse] at this
  have hmap : (live₀.take (sp ++ h.back).length).map (·.state) = (sp ++ h.back).reverse := by
    rw [map_take, prefix_iff_eq_take.mp hpre, length_reverse]
  refine ⟨live₀.take (sp ++ h.back).length, ⟨hcont.spilled, ?_, hcont.deep, hcont.bounded,
    hcont.enabled, ?_, hcont.room⟩, hmap⟩
  · rewrite [hmap, reverse_reverse]
    exact suffix_rfl
  · obtain ⟨act, com, rfl, hlen, hall, hnone⟩ := hcont.nested
    have hroom : act.length ≤ (sp ++ h.back).length := hlen ▸ hcont.room
    refine ⟨act, com.take ((sp ++ h.back).length - act.length), ?_, hlen, hall, ?_⟩
    · rw [take_append, take_of_length_le hroom]
    · intro x hx
      exact hnone x (mem_of_mem_take hx)

theorem Contiguous.retained_eq {live : List (Live St)} {l : List St}
    (hcont : Contiguous c ⟨h, live⟩ sp) (hlive : live.map (·.state) = l.reverse)
    (hsize : h.size = l.length) : sp ++ h.back = l := by
  have hsuf := hcont.suffix
  rw [hlive, reverse_reverse] at hsuf
  refine hsuf.eq_of_length ?_
  rw [← hsize]
  exact hcont.spilled.size_eq.symm

theorem Contiguous.retained_tail {h' : UndoHistory St Id} {x : Live St} {rest : List (Live St)}
    {sp' l : List St} {s : St} (hcont : Contiguous c ⟨h, x :: rest⟩ sp)
    (hlive : (x :: rest).map (·.state) = (l ++ [s]).reverse) (heq : sp ++ h.back = l ++ [s])
    (hcont' : Contiguous c ⟨h', rest⟩ sp') (hsize : h'.size + 1 = h.size) : sp' ++ h'.back = l := by
  have hbefore := hcont.spilled.size_eq
  simp only [heq, length_append, length_singleton] at hbefore
  refine hcont'.retained_eq ?_ (by omega)
  rw [reverse_append, map_cons] at hlive
  exact (cons_eq_cons.mp hlive).2

theorem Contiguous.of_committed (hs : Spilled c h sp)
    (hdeep : sp ≠ [] → 6 ≤ h.back.length) (hbound : h.back.length < maxBackSize + 10)
    (hen : h.disabled = false) (hact : h.activeSessions = 0) :
    Contiguous c ⟨h, (sp ++ h.back).reverse.map fun s => ⟨s, false⟩⟩ sp where
  spilled := hs
  suffix := by
    simp only [List.map_map]
    have hid : (fun x : Live St => x.state) ∘ (fun s => ⟨s, false⟩) = id := rfl
    rewrite [hid, map_id, reverse_reverse]
    exact suffix_rfl
  deep := hdeep
  bounded := hbound
  enabled := hen
  nested := by
    refine ⟨[], _, rfl, hact.symm, (by rintro x ⟨⟩), ?_⟩
    intro x hx
    obtain ⟨s, _, rfl⟩ := mem_map.mp hx
    rfl
  room := by
    rw [hact]
    exact Nat.zero_le _

theorem Sound.spilled (hs : Sound c h) : ∃ sp, Spilled c h sp := by
  obtain ⟨sp, hsp⟩ : h.stack ∈ Set.range (List.map c.undoId) := by
    rw [Set.range_list_map]
    intro id hid
    obtain ⟨s, _, hid⟩ := hs.2 id hid
    exact ⟨s, (hid s).mpr rfl⟩
  refine ⟨sp, hsp.symm, fun s hmem => ?_, (hsp ▸ hs.1).of_map⟩
  obtain ⟨t, hread, hid⟩ := hs.2 _ (hsp ▸ mem_map_of_mem hmem)
  rw [hread, (hid s).mp rfl]

/-- Under a hash without collisions, what was written is what is read. -/
theorem Spilled.sound (hc : c.CollisionFree)
    (hs : Spilled c h sp) : Sound c h := by
  refine ⟨hs.stack ▸ hs.nodup.map hc.injective, fun id hid => ?_⟩
  obtain ⟨s, hmem, rfl⟩ := mem_map.mp (hs.stack ▸ hid)
  exact ⟨s, hs.stored s hmem, fun _ => hc.injective.eq_iff⟩

/-- The undo states, oldest first; nothing stands for one that cannot be read. -/
def states (h : UndoHistory St Id) : List (Option St) := h.stack.map h.storage ++ h.back.map some

theorem Spilled.states_eq (hs : Spilled c h sp) :
    h.states = (sp ++ h.back).map some := by
  rw [states, hs.stack, map_map, map_append]
  exact congrArg (· ++ _) (map_congr_left fun s hmem => hs.stored s hmem)

/-- The session that is started next does not fill `back` under the lower maximum while
    older states are in the stack. -/
def Ordered (h : UndoHistory St Id) : Prop :=
  h.stack = [] ∨ h.back.length + 1 < maxBackSize + 10 ∨ maxBackSize < h.maxSize
deriving Decidable

theorem suffix_append_split {α : Type} {l a b : List α} (h : l <:+ a ++ b)
    (hlen : b.length ≤ l.length) : ∃ kept, l = kept ++ b ∧ kept <:+ a := by
  obtain ⟨front, hfront⟩ := h
  rcases append_eq_append_iff.mp hfront with ⟨mid, ha, hl⟩ | ⟨mid, hf, hb⟩
  · exact ⟨mid, hl, front, ha.symm⟩
  have hmid : mid = [] := by
    have := congrArg List.length hb
    rw [length_append] at this
    exact eq_nil_of_length_eq_zero (by omega)
  subst hmid
  exact ⟨[], by rw [nil_append] at hb ⊢; exact hb.symm, nil_suffix⟩

/-- A session that starts may push old states out, but never the newest nineteen. -/
theorem size_pushState_ge [DecidableEq Id] (c : ContentHash St Id) (s : St)
    (h : UndoHistory St Id) : min (h.size + 1) 19 ≤ (pushState c s h).size := by
  simp only [pushState]
  split
  · rw [spill_eq]
    simp only [size, length_keptStates, length_append, length_singleton]
    simp only [maxBackSize, length_append, length_singleton] at *
    omega
  · simp only [size, length_append, length_singleton]
    omega

namespace Retains

variable {h : UndoHistory St Id} {l : List St} {s : St}

theorem fresh (maxSize : Nat) : Retains c (UndoHistory.fresh maxSize) [] :=
  ⟨[], [], Contiguous.fresh maxSize, rfl⟩

theorem size_eq (hr : Retains c h l) : h.size = l.length := by
  obtain ⟨live, sp, hcont, rfl⟩ := hr
  exact hcont.spilled.size_eq

theorem enabled (hr : Retains c h l) : h.disabled = false := by
  obtain ⟨live, sp, hcont, rfl⟩ := hr
  exact hcont.enabled

theorem bounded (hr : Retains c h l) : h.back.length < maxBackSize + 10 := by
  obtain ⟨live, sp, hcont, rfl⟩ := hr
  exact hcont.bounded

theorem getLast_back (hr : Retains c h (l ++ [s])) : h.back.getLast? = some s := by
  obtain ⟨live, sp, hcont, heq⟩ := hr
  have hpos : 0 < h.size := by
    have hsize := hcont.spilled.size_eq
    rw [heq, length_append, length_singleton] at hsize
    exact hsize ▸ Nat.succ_pos _
  have hne := hcont.back_ne_nil hpos
  have hlast := congrArg List.getLast? heq
  rwa [List.getLast?_append_of_ne_nil _ hne, List.getLast?_concat] at hlast

/-- The states in the storage and in memory, oldest first, are the retained ones. -/
theorem readable (hr : Retains c h l) : h.stack.filterMap h.storage ++ h.back = l := by
  obtain ⟨live, sp, hcont, rfl⟩ := hr
  have hread : h.stack.filterMap h.storage = sp := by
    rw [hcont.spilled.stack, filterMap_map]
    refine (filterMap_congr fun s hs => hcont.spilled.stored s hs).trans ?_
    exact filterMap_some
  rw [hread]

theorem commit (hr : Retains c h l) (hone : h.activeSessions = 1) :
    ∃ h', h.commit = .ok h' ∧ Retains c h' l ∧ h'.activeSessions = 0 ∧
      h'.maxSize = h.maxSize := by
  obtain ⟨live, sp, hcont, heq⟩ := hr
  obtain ⟨h', hcall, hcont', _⟩ := hcont.commit_ok hone
  have hen : h.disabled = false := hcont.enabled
  have hdef : h.commit = .ok { h with activeSessions := h.activeSessions - 1 } := by
    simp only [UndoHistory.commit, hen, Bool.false_eq_true, if_false, hone, Nat.one_pos,
      if_true]
  rw [hdef] at hcall
  cases hcall
  refine ⟨_, hdef, ⟨_, sp, hcont', heq⟩, ?_, rfl⟩
  show h.activeSessions - 1 = 0
  omega

theorem setMaxSize (n : Nat) (hr : Retains c h l) : Retains c (h.setMaxSize n) l := by
  obtain ⟨live, sp, hcont, heq⟩ := hr
  exact ⟨live, sp, ⟨hcont.spilled.of_eq rfl rfl, hcont.suffix, hcont.deep, hcont.bounded,
    hcont.enabled, hcont.nested, hcont.room⟩, heq⟩

variable [DecidableEq Id]

variable (hc : c.CollisionFree)
include hc

/-- A start appends the new state and forgets the oldest ones above the maximum. -/
theorem start (empty : St) (hr : Retains c h l) (hl : l.Nodup) (hok : KeepsOrder h (.start false)) :
    ∃ h' l', h.startUndoSession c empty false = .ok h' ∧ Retains c h' l' ∧ l' <:+ (l ++ [empty]) ∧
    l'.length = min (pushState c empty h).size h.maxSize ∧ h'.activeSessions = h.activeSessions + 1
    ∧ h'.maxSize = h.maxSize := by
  obtain ⟨live₀, sp, hcont₀, rfl⟩ := hr
  obtain ⟨live, hcont, hlive⟩ := hcont₀.trim
  have hdist : DistinctAtStart ⟨h, live⟩ (.start false) := by
    show (live.map (·.state)).Nodup
    rw [hlive]
    exact nodup_reverse.mpr hl
  obtain ⟨h', sp', hcall, hcont', hsize, hactive, hmax⟩ :=
    hcont.start_ok hc empty false (hcont.spillsDistinct hc empty false hdist) hok
  refine ⟨h', sp' ++ h'.back, hcall, ⟨_, sp', hcont', rfl⟩, ?_, ?_, hactive, hmax⟩
  · have hsuf := hcont'.suffix
    simp only [map_cons, reverse_cons, hlive, reverse_reverse] at hsuf
    exact hsuf
  · rw [← hsize]
    exact hcont'.spilled.size_eq.symm

/-- The oldest states may go, but not those of the sessions. -/
theorem start_ordered (empty : St) {older sessions : List St} (hr : Retains c h (older ++ sessions))
    (hl : (older ++ sessions).Nodup) (hactive : h.activeSessions = sessions.length)
    (hone : sessions.length ≤ 1) (hmax : h.maxSize = maxBackSize ∨ maxBackSize + 10 < h.maxSize)
    (hok : Ordered h) :
    ∃ h' kept, h.startUndoSession c empty false = .ok h' ∧
      Retains c h' (kept ++ (sessions ++ [empty])) ∧ kept <:+ older ∧
      h'.size = min (pushState c empty h).size h.maxSize ∧
      h'.activeSessions = sessions.length + 1 ∧ h'.maxSize = h.maxSize := by
  have horder : KeepsOrder h (.start false) := by
    simp only [KeepsOrder, Ordered, maxBackSize] at hmax hok ⊢
    refine ⟨by omega, ?_, ?_⟩
    · intro _ _ _
      omega
    · intro hne
      have := hok.resolve_left hne
      omega
  obtain ⟨h', l', hcall, hr', hsuf, hlen, hact, hmax'⟩ := hr.start hc empty hl horder
  have hlong : (sessions ++ [empty]).length ≤ l'.length := by
    have hge := size_pushState_ge c empty h
    have hsize := hr.size_eq
    simp only [maxBackSize] at hmax
    rw [length_append] at hsize
    rw [length_append, length_singleton]
    omega
  rw [append_assoc] at hsuf
  obtain ⟨kept, rfl, hkept⟩ := suffix_append_split hsuf hlong
  exact ⟨h', kept, hcall, hr', hkept, by rw [hr'.size_eq, hlen], by rw [hact, hactive], hmax'⟩

section

variable (hr : Retains c h (l ++ [s]))
include hr

theorem undo (empty : St) (hpos : 0 < h.activeSessions) : ∃ h', h.undo c empty = .ok h' ∧ Retains c
    h' l ∧ h'.activeSessions + 1 = h.activeSessions ∧ h'.maxSize = h.maxSize := by
  obtain ⟨live₀, sp, hcont₀, heq⟩ := hr
  obtain ⟨live, hcont, hlive⟩ := hcont₀.trim
  obtain ⟨h', sp', x, rest, hcall, rfl, _, hcont', hsize, hactive, hmax⟩ :=
    hcont.undo_ok hc empty hpos
  refine ⟨h', hcall, ⟨rest, sp', hcont', ?_⟩, hactive, hmax⟩
  exact hcont.retained_tail (heq ▸ hlive) heq hcont' hsize

/-- Popping a committed state leaves the older ones. -/
theorem popCommit (empty : St) (hzero : h.activeSessions = 0) : ∃ h', h.popCommit c empty = .ok h' ∧
    Retains c h' l ∧ h'.activeSessions = 0 ∧ h'.maxSize = h.maxSize := by
  have hback : h.back ≠ [] := by
    intro hnil
    have hlast := hr.getLast_back
    rw [hnil] at hlast
    cases hlast
  obtain ⟨live₀, sp, hcont₀, heq⟩ := hr
  obtain ⟨live, hcont, hlive⟩ := hcont₀.trim
  obtain ⟨h', sp', x, rest, hcall, rfl, hcont', hsize, hactive, hmax⟩ :=
    hcont.popCommit_ok hc empty hzero hback
  refine ⟨h', hcall, ⟨rest, sp', hcont', ?_⟩, hactive, hmax⟩
  exact hcont.retained_tail (heq ▸ hlive) heq hcont' hsize

omit hc in
theorem record (f : St → St) : ∃ h', h.record f = .ok h' ∧ Retains c h' (l ++ [f s]) ∧
    h'.activeSessions = h.activeSessions ∧ h'.maxSize = h.maxSize := by
  have hlast := hr.getLast_back
  obtain ⟨live, sp, hcont, heq⟩ := hr
  have hback : h.back = h.back.dropLast ++ [s] := by
    obtain ⟨ys, hys⟩ := List.getLast?_eq_some_iff.mp hlast
    rw [hys, dropLast_concat]
  have hen : h.disabled = false := hcont.enabled
  have hcall : h.record f = .ok { h with back := h.back.dropLast ++ [f s] } := by
    simp only [UndoHistory.record, hen, hlast, Bool.false_eq_true, if_false]
  have hcont' := hcont.record s (fun s _ => s) f
  have hobs : (⟨h, live⟩ : Observed St Id).call c s (fun s _ => s) (.record f) = _ :=
    Observed.call_of_ok hcall hen
  rw [hobs] at hcont'
  refine ⟨_, hcall, ⟨_, sp, hcont', ?_⟩, rfl, rfl⟩
  rw [hback, ← append_assoc] at heq
  rw [← append_assoc, (append_inj' heq rfl).1]

end

theorem merge (empty : St) (combine : St → St → St) {p : St} (hr : Retains c h (l ++ [p] ++ [s]))
    (hpos : 0 < h.activeSessions) : ∃ h', h.merge c empty combine = .ok h' ∧ Retains c h'
    (l ++ [combine p s]) ∧ h'.activeSessions + 1 = h.activeSessions ∧ h'.maxSize = h.maxSize := by
  obtain ⟨live₀, sp, hcont₀, heq⟩ := hr
  obtain ⟨live, hcont, hlive⟩ := hcont₀.trim
  have hbefore := hcont.spilled.size_eq
  simp only [heq, length_append, length_singleton] at hbefore
  obtain ⟨state, prev, older, hrev⟩ := hcont.two_back (by rw [hbefore]; omega)
  obtain ⟨h', sp', x, y, rest, hcall, rfl, _, hcont', hsize, hactive, hmax⟩ :=
    hcont.merge_ok hc empty combine hpos hrev
  have hstates : x.state = s ∧ y.state = p ∧ rest.map (·.state) = l.reverse := by
    simp only [heq, map_cons, reverse_append, reverse_cons, reverse_nil,
      nil_append, cons_append, List.cons.injEq] at hlive
    exact hlive
  refine ⟨h', hcall, ⟨_, sp', hcont', hcont'.retained_eq ?_ ?_⟩, hactive, hmax⟩
  · rw [map_cons, hstates.1, hstates.2.1, hstates.2.2, reverse_append]
    rfl
  · have hless : h'.size + 1 = h.size := hsize
    rw [length_append, length_singleton]
    omega

end Retains

end UndoHistory

end HyperExchange.Db

namespace HyperExchange.Db.UndoHistory

open Execution List

variable {St Id : Type} [DecidableEq Id] (c : ContentHash St Id)

/-- `save_to_file`: the ids that are in the file `file` afterwards, and the store. -/
def saveToFile (h : UndoHistory St Id) (file : List Id) : List Id × (Id → Option St) :=
  let saved := storeAll c h.back h
  (if saved.stack = [] then file else saved.stack, saved.storage)

/-- `from_file`.  The loop runs `min(_stack.size(), max_back_size)` times on an empty
    `back`, and so stops where `reload` does. -/
def fromFile (empty : St) (maxSize : Nat) (file : List Id) (storage : Id → Option St) :
    Exec (UndoHistory St Id) :=
  reload c empty file.length ⟨[], file, storage, 0, false, maxSize⟩

variable {c} {h : UndoHistory St Id} {sp : List St}

theorem Spilled.restart (hc : c.CollisionFree) (empty : St)
    (maxSize : Nat) (file : List Id) (hs : Spilled c h sp) (hl : (sp ++ h.back).Nodup)
    (hfile : sp ++ h.back = [] → file = []) :
    ∃ h' sp', fromFile c empty maxSize (saveToFile c h file).1 (saveToFile c h file).2 = .ok h' ∧
      SameCounters ⟨[], [], h.storage, 0, false, maxSize⟩ h' ∧ Spilled c h' sp' ∧
      sp' ++ h'.back = sp ++ h.back ∧ (sp' ≠ [] → maxBackSize ≤ h'.back.length) ∧
      h'.back.length ≤ maxBackSize := by
  have hall := hs.storeAll hc hl
  have hids : (saveToFile c h file).1 = (sp ++ h.back).map c.undoId := by
    simp only [saveToFile]
    rw [hall.stack]
    split
    · next hnone =>
      rw [hfile (map_eq_nil_iff.mp hnone), hnone]
    · rfl
  have hsaved : Spilled c ⟨[], (saveToFile c h file).1, (saveToFile c h file).2, 0, false, maxSize⟩
      (sp ++ h.back) := ⟨hids, hall.stored, hall.nodup⟩
  obtain ⟨h', sp', hload, hcount, hs', heq, hdeep, hlen⟩ := reload_spec hc empty
    (n := (saveToFile c h file).1.length) hsaved
    (Nat.le_of_eq (by rw [hids, length_map]))
  rw [append_nil] at heq
  exact ⟨h', sp', hload, ⟨hcount.1, hcount.2, hcount.3⟩, hs', heq, hdeep, hlen⟩

/-- A node that was closed has its states again when it is opened. -/
theorem Retains.restart {l : List St} (hc : c.CollisionFree) (empty : St)
    (maxSize : Nat) (file : List Id) (hr : Retains c h l) (hl : l.Nodup)
    (hfile : l = [] → file = []) :
    ∃ h', fromFile c empty maxSize (saveToFile c h file).1 (saveToFile c h file).2 = .ok h' ∧
      Retains c h' l ∧ h'.activeSessions = 0 ∧ h'.maxSize = maxSize := by
  obtain ⟨live, sp, hcont, rfl⟩ := hr
  obtain ⟨h', sp', hload, hcount, hs', heq, hdeep, hlen⟩ :=
    hcont.spilled.restart hc empty maxSize file hl hfile
  simp only [maxBackSize] at hlen hdeep
  refine ⟨h', hload, ⟨_, sp', Contiguous.of_committed hs' ?_ ?_ ?_ ?_, heq⟩, ?_, ?_⟩
  · intro hne
    have := hdeep hne
    omega
  · simp only [maxBackSize]
    omega
  · exact hcount.disabled
  · exact hcount.activeSessions
  · exact hcount.activeSessions
  · exact hcount.maxSize

/-! ### Runs with restarts -/

/-- A history and the file of ids on disk. -/
structure Durable (St Id : Type) where
  history : UndoHistory St Id
  file : List Id

inductive LifeCall (St : Type) where
  | call (i : HistoryCall St)
  | restart (maxSize : Nat)

variable (c)

/-- Save, close, reopen and load. -/
def Durable.restart (empty : St) (maxSize : Nat) (d : Durable St Id) : Exec (UndoHistory St Id) :=
  fromFile c empty maxSize (saveToFile c d.history d.file).1 (saveToFile c d.history d.file).2

def Durable.step (empty : St) (combine : St → St → St) (d : Durable St Id) :
    LifeCall St → Durable St Id
  | .call i => { d with history := (d.history.call c empty combine i).state }
  | .restart maxSize => ⟨(d.restart c empty maxSize).state, (saveToFile c d.history d.file).1⟩

/-- The states are distinct at a start and at a save, and a history that is saved empty finds
    no file. -/
def Durable.Lasting (d : Durable St Id) : LifeCall St → Prop
  | .call (.start _) => d.history.states.Nodup
  | .call _ => True
  | .restart _ => d.history.states.Nodup ∧ (d.history.states = [] → d.file = [])

/-- **The history survives restarts.** -/
theorem restart_preserves_history (hc : c.CollisionFree) (empty : St) (combine : St → St → St)
    (maxSize : Nat) (d : Durable St Id)
    (hr : ReachableUnder (· = ⟨fresh maxSize, []⟩) Durable.Lasting (Durable.step c empty combine) d)
    (n : Nat) (hok : d.Lasting (.restart n)) :
    ∃ h', d.restart c empty n = .ok h' ∧ h'.states = d.history.states := by
  have hload : ∀ (d : Durable St Id) (n : Nat), Sound c d.history → d.Lasting (.restart n) →
      ∃ h', d.restart c empty n = .ok h' ∧ h'.states = d.history.states ∧ Sound c h' := by
    rintro d n hs ⟨hdist, hfile⟩
    obtain ⟨sp, hs⟩ := hs.spilled
    rw [hs.states_eq, map_eq_nil_iff] at hfile
    rw [hs.states_eq] at hdist ⊢
    obtain ⟨h', sp', hload, _, hs', heq, _⟩ := hs.restart hc empty n d.file hdist.of_map hfile
    exact ⟨h', hload, by rw [hs'.states_eq, heq], hs'.sound hc⟩
  have hsound : Sound c d.history := by
    refine hr.invariant (fun d => Sound c d.history) ?_ ?_
    · rintro _ rfl
      exact ⟨nodup_nil, by nofun⟩
    · intro d i hs hi
      cases i with
      | restart n =>
        obtain ⟨h', hrestart, _, hs'⟩ := hload d n hs hi
        rw [Durable.step, hrestart]
        exact hs'
      | call i =>
        refine hs.call hc empty combine i ?_
        cases i with
        | start force =>
          obtain ⟨sp, hs⟩ := hs.spilled
          have hdist : d.history.states.Nodup := hi
          rw [hs.states_eq] at hdist
          exact hs.spillsDistinct hc empty force hdist.of_map
        | _ => trivial
  obtain ⟨h', hrestart, hsame, _⟩ := hload d n hsound hok
  exact ⟨h', hrestart, hsame⟩

instance (d : Durable Nat Nat) : (i : LifeCall Nat) → Decidable (d.Lasting i)
  | .call i => by cases i <;> unfold Durable.Lasting <;> infer_instance
  | .restart _ => inferInstanceAs (Decidable (_ ∧ (_ → _)))

def lifeRun (calls : List (LifeCall Nat)) : Durable Nat Nat :=
  calls.foldl (Durable.step numbered 0 (· + ·)) ⟨fresh 1440, []⟩

/-- Thirty sessions, a restart, a session undone, and another restart. -/
theorem popped_history_survives :
    ∃ h', (lifeRun ((sessions 30).map .call ++ [.restart 20, .call .popCommit])).restart numbered 0
        20 = .ok h' ∧ h'.states = (List.range' 1 29).map some := by
  obtain ⟨h', hload, hsame⟩ := restart_preserves_history numbered numbered_collisionFree 0 (· + ·)
    1440 (lifeRun ((sessions 30).map .call ++ [.restart 20, .call .popCommit]))
    (ReachableUnder.of_checkRun (.start rfl) (by decide +kernel)) 20 (by decide +kernel)
  exact ⟨h', hload, hsame.trans (by decide +kernel)⟩

/-- One session, a restart, and the session is popped.  The next save writes no file, so the
    load finds the old one, whose state is gone from the store. -/
theorem emptied_history_does_not_load :
    let d := lifeRun ((session 1).map .call ++ [.restart 20, .call .popCommit])
    d.history.states = [] ∧ (d.restart numbered 0 20).returned = false := by
  decide +kernel

end HyperExchange.Db.UndoHistory
