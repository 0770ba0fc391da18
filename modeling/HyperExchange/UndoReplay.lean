/-
  **When playing an undo state back succeeds.**

  `undo()` puts the old values back in id order, then removes the created objects, then
  inserts the removed ones.  The database passes through mixtures of the start and the end of
  the session, which can violate a unique key although both ends are consistent.
  `Replayable` says when that does not happen, and `replay_eq_ok_iff` that this is exact.
-/
import HyperExchange.UndoRecords

namespace HyperExchange.Db

open Std Execution OrderedFold List Exec ExtTreeMap ObjectDatabase

variable {α κ : Type} [DecidableEq κ]

namespace ObjectDatabase

variable (d : ObjectDatabase α)

def putAll (l : List (ObjectId × α)) : ObjectDatabase α :=
  l.foldl (fun d p => d.put p.1 p.2) d

def dropAll (l : List ObjectId) : ObjectDatabase α :=
  l.foldl drop d

variable (l : List (ObjectId × α))

theorem putAll_concat (p : ObjectId × α) : d.putAll (l ++ [p]) = (d.putAll l).put p.1 p.2 := by
  simp [putAll]

variable {l : List (ObjectId × α)}

variable (d : ObjectDatabase α)

theorem find_putAll_of_forall_ne {k : ObjectId} (h : ∀ p ∈ l, p.1 ≠ k) : (d.putAll l).find k =
    d.find k := by
  refine slice_foldl_of_forall_ne ?_ l d h
  intro s id v k' hne
  rw [find_put, if_neg hne]

theorem find_putAll_of_mem (hd : l.Pairwise fun a b => a.1 ≠ b.1) {k : ObjectId} {v : α}
    (h : (k, v) ∈ l) : (d.putAll l).find k = some v := by
  refine slice_foldl_of_mem (F := fun _ v _ => some v) ?_ ?_ l d hd h
  · intro s id w
    rw [find_put, if_pos rfl]
  · intro s id w k' hne
    rw [find_put, if_neg hne]

theorem find_dropAll (l : List ObjectId) (k : ObjectId) :
    (d.dropAll l).find k = if k ∈ l then none else d.find k := by
  induction l generalizing d with
  | nil => rfl
  | cons id l ih =>
    have hcons : d.dropAll (id :: l) = (d.drop id).dropAll l := rfl
    rw [hcons, ih, find_drop]
    by_cases hl : k ∈ l
    · simp [hl]
    · by_cases hk : k = id <;> simp [hl, hk]

theorem nextId_putAll : (d.putAll l).nextId = d.nextId := by
  induction l generalizing d with
  | nil => rfl
  | cons p l ih => exact (ih (d.put p.1 p.2)).trans (nextId_put d p.1 p.2)

theorem nextId_dropAll (l : List ObjectId) : (d.dropAll l).nextId = d.nextId := by
  induction l generalizing d with
  | nil => rfl
  | cons id l ih => exact (ih (d.drop id)).trans (nextId_drop d id)

/-! ### The three loops that can throw -/

section Loops

variable {sch : Schema α κ} {d r : ObjectDatabase α} {id : ObjectId}

variable (hk : sch.NoFlat)
include hk

theorem modify_eq_ok_iff {x : α} : d.modify sch id (fun _ => x) = .ok r ↔ (d.find id).isSome = true
    ∧ d.collides sch id x = false ∧ r = d.put id x := by
  cases hv : d.find id with
  | none => simp [modify_of_find_none hv]
  | some v =>
    rw [modify_eq (hk id.spaceType) hv]
    by_cases hc : d.collides sch id x = true
    · simp [hc]
    · simp [hc, eq_comm]

omit [DecidableEq κ] in
theorem remove_eq_ok_iff : d.remove sch id = .ok r ↔ (d.find id).isSome = true ∧ r = d.drop id := by
  cases hv : d.find id with
  | none => simp [remove_of_find_none hv]
  | some v =>
    rw [remove_eq (hk id.spaceType) hv]
    simp [eq_comm]

theorem insert_eq_ok {v : α} (h : d.insert sch id v = .ok r) : r = d.put id v := by
  cases hkind : sch.kind id.spaceType with
  | generic =>
    simp only [insert, hkind] at h
    split at h
    · cases h
    · cases h; rfl
  | simple =>
    simp only [insert, hkind] at h
    cases h; rfl
  | flat => exact absurd hkind (hk id.spaceType)

theorem forEach_modify_eq_ok_iff {l : List (ObjectId × α)} (hd : l.Pairwise fun a b => a.1 ≠ b.1) :
    forEach (fun d p => d.modify sch p.1 fun _ => p.2) l d = .ok r ↔ r = d.putAll l ∧ ∀ done p rest,
    l = done ++ p :: rest → (d.find p.1).isSome = true ∧ (d.putAll done).collides sch p.1 p.2 =
    false := by
  have hloop := forEach_eq_ok_iff (f := fun d p => d.modify sch p.1 fun _ => p.2)
    (l := l) (r := r) d.putAll (by
      intro done p rest s' _ hs'
      rw [putAll_concat]
      exact ((modify_eq_ok_iff hk).mp hs').2.2)
  refine hloop.trans (and_congr_right fun _ => ?_)
  refine forall_congr' fun done => forall_congr' fun p => forall_congr' fun rest => ?_
  refine forall_congr' fun hl => ?_
  -- the keys done so far are not the key of this iteration
  have hfind : (d.putAll done).find p.1 = d.find p.1 := by
    refine find_putAll_of_forall_ne d ?_
    intro q hq
    rw [hl, pairwise_append] at hd
    exact hd.2.2 q hq p mem_cons_self
  rw [returned_iff]
  constructor
  · rintro ⟨r', hr'⟩
    obtain ⟨hsome, hcol, _⟩ := (modify_eq_ok_iff hk).mp hr'
    rw [hfind] at hsome
    exact ⟨hsome, hcol⟩
  · rintro ⟨hsome, hcol⟩
    rw [← hfind] at hsome
    exact ⟨_, (modify_eq_ok_iff hk).mpr ⟨hsome, hcol, rfl⟩⟩

omit [DecidableEq κ] in
/-- The loop throws unless every object to be removed is there. -/
theorem forEach_remove_eq_ok_iff {l : List ObjectId} (hd : l.Nodup) : forEach
    (fun d id => d.remove sch id) l d = .ok r ↔ r = d.dropAll l ∧ ∀ id ∈ l, (d.find id).isSome =
    true := by
  have hloop := forEach_eq_ok_iff (f := fun d id => d.remove sch id)
    (l := l) (r := r) d.dropAll (by
      intro done id rest s' _ hs'
      rw [dropAll, foldl_append]
      exact ((remove_eq_ok_iff hk).mp hs').2)
  refine hloop.trans (and_congr_right fun _ => ?_)
  have hstep : ∀ done id rest, l = done ++ id :: rest →
      (((d.dropAll done).remove sch id).returned = true ↔ (d.find id).isSome = true) := by
    intro done id rest hl
    have hnot : id ∉ done := by
      rw [hl, nodup_append] at hd
      intro hmem
      exact hd.2.2 id hmem id mem_cons_self rfl
    have hfind : (d.dropAll done).find id = d.find id := by rw [find_dropAll, if_neg hnot]
    rw [returned_iff, ← hfind]
    constructor
    · rintro ⟨r', hr'⟩
      exact ((remove_eq_ok_iff hk).mp hr').1
    · intro hsome
      exact ⟨_, (remove_eq_ok_iff hk).mpr ⟨hsome, rfl⟩⟩
  constructor
  · intro h id hid
    obtain ⟨done, rest, hl⟩ := append_of_mem hid
    exact (hstep done id rest hl).mp (h done id rest hl)
  · intro h done id rest hl
    exact (hstep done id rest hl).mpr (h id (by rw [hl]; simp))

end Loops

end ObjectDatabase

/-! ### Replayable states -/

/-- Nothing stands in the way of playing `s` back into `d`: every object it is to
    change or remove is still there, and no old value has a unique key in common with
    the present value of an object the replay reaches only later. -/
structure Replayable (sch : Schema α κ) (s : UndoState α) (d : ObjectDatabase α) : Prop where
  newPresent : ∀ id ∈ s.newIds, (d.find id).isSome = true
  oldPresent : ∀ id x, s.oldValues[id]? = some x → (d.find id).isSome = true
  keysFree : ∀ id x id' w, s.oldValues[id]? = some x → id'.spaceType = id.spaceType →
    d.find id' = some w →
    (id' ∈ s.newIds ∨ (s.oldValues[id']?.isSome = true ∧ compare id id' = .lt)) →
    sch.clash id.spaceType x w = false

namespace Records

variable {s : UndoState α} {d₀ d : ObjectDatabase α} {sch : Schema α κ} {id : ObjectId} {x : α}

theorem cells_eq {e : Entry α} (h : s.cells id = e.cells) :
    s.newIds.contains id = e.cells.1 ∧ s.oldValues[id]? = e.cells.2.1 ∧
      s.removed[id]? = e.cells.2.2 :=
  ⟨congrArg (·.1) h, congrArg (·.2.1) h, congrArg (·.2.2) h⟩

variable (h : Records s d₀ d)
include h

theorem entry_of_old (hx : s.oldValues[id]? = some x) :
    s.newIds.contains id = false ∧ s.removed[id]? = none ∧ d₀.find id = some x := by
  obtain ⟨e, hcells, hrel⟩ := h.entries id
  obtain ⟨hn, ho, hr⟩ := cells_eq hcells
  rw [ho] at hx
  cases e with
  | upd y => cases hx; exact ⟨hn, hr, hrel⟩
  | nop | new | del => cases hx

theorem entry_of_removed (hx : s.removed[id]? = some x) :
    s.newIds.contains id = false ∧ s.oldValues[id]? = none ∧
      d₀.find id = some x ∧ d.find id = none := by
  obtain ⟨e, hcells, hrel⟩ := h.entries id
  obtain ⟨hn, ho, hr⟩ := cells_eq hcells
  rw [hr] at hx
  cases e with
  | del y => cases hx; exact ⟨hn, ho, hrel⟩
  | nop | new | upd => cases hx

/-- An object that is new has no other entry. -/
theorem entry_of_new (hx : s.newIds.contains id = true) :
    s.oldValues[id]? = none ∧ s.removed[id]? = none ∧ d₀.find id = none := by
  obtain ⟨e, hcells, hrel⟩ := h.entries id
  obtain ⟨hn, ho, hr⟩ := cells_eq hcells
  rw [hn] at hx
  cases e with
  | new => exact ⟨ho, hr, hrel⟩
  | nop | upd | del => cases hx

theorem entry_of_nop (hn : s.newIds.contains id = false)
    (ho : s.oldValues[id]? = none) (hr : s.removed[id]? = none) : d₀.find id = d.find id := by
  obtain ⟨e, hcells, hrel⟩ := h.entries id
  obtain ⟨hn', ho', hr'⟩ := cells_eq hcells
  cases e with
  | nop => exact hrel
  | new => rw [hn] at hn'; cases hn'
  | upd y => rw [ho] at ho'; cases ho'
  | del y => rw [hr] at hr'; cases hr'

/-- In the middle of the first loop, the old value of the next object violates a unique
    key exactly when it shares one with an object that is reached later. -/
theorem collides_putAll_iff (hc : d₀.Consistent sch)
    {done rest : List (ObjectId × α)} (hl : s.oldValues.toList = done ++ (id, x) :: rest) :
    (d.putAll done).collides sch id x = false ↔
      ∀ id' w, id'.spaceType = id.spaceType → d.find id' = some w →
        (id' ∈ s.newIds ∨ (s.oldValues[id']?.isSome = true ∧ compare id id' = .lt)) →
        sch.clash id.spaceType x w = false := by
  have hmem : ∀ k v, (k, v) ∈ s.oldValues.toList ↔ s.oldValues[k]? = some v := fun k v =>
    mem_toList_iff_getElem?_eq_some
  have hsorted := s.oldValues.ordered_keys_toList
  rw [hl, pairwise_append, pairwise_cons] at hsorted
  obtain ⟨_, ⟨hafter, _⟩, hbefore⟩ := hsorted
  have hx : s.oldValues[id]? = some x := (hmem id x).mp (by rw [hl]; simp)
  have hdistinct : done.Pairwise fun a b => a.1 ≠ b.1 := by
    have hd := pairwise_ne_toList s.oldValues
    rw [hl, pairwise_append] at hd
    exact hd.1
  constructor
  · intro hcol id' w hidx hw hlater
    -- an object that comes later has not been written yet
    have hnotdone : ∀ p ∈ done, p.1 ≠ id' := by
      rintro ⟨k, v⟩ hp rfl
      have hv : s.oldValues[k]? = some v := (hmem k v).mp (by rw [hl]; simp [hp])
      rcases hlater with hnew | ⟨_, hlt⟩
      · have hfalse := (h.entry_of_old hv).1
        rw [hnew] at hfalse
        cases hfalse
      · have hgt := hbefore (k, v) hp (id, x) mem_cons_self
        simp only at hgt
        have hswap : compare id k = (compare k id).swap := OrientedCmp.eq_swap
        rw [hswap, hgt] at hlt
        cases hlt
    have hne : id' ≠ id := by
      rintro rfl
      rcases hlater with hnew | ⟨_, hlt⟩
      · have hfalse := (h.entry_of_old hx).1
        rw [hnew] at hfalse
        cases hfalse
      · have hself : compare id' id' = .eq := ReflCmp.compare_self
        rw [hself] at hlt
        cases hlt
    exact collides_eq_false.mp hcol id' w hidx hne
      ((find_putAll_of_forall_ne d hnotdone).trans hw)
  · intro hfree
    refine collides_eq_false.mpr fun id' w hidx hne hfind => ?_
    -- values of the start of the session do not violate a key among themselves
    have hstart := fun hw => hc.clash_eq_false (h.entry_of_old hx).2.2 (w := w) hw hidx hne
    by_cases hdone : ∃ v, (id', v) ∈ done
    · obtain ⟨v, hv⟩ := hdone
      rw [find_putAll_of_mem d hdistinct hv] at hfind
      cases hfind
      exact hstart (h.entry_of_old ((hmem id' w).mp (by rw [hl]; simp [hv]))).2.2
    · have hnotdone : ∀ p ∈ done, p.1 ≠ id' := by
        rintro ⟨k, v⟩ hp rfl
        exact hdone ⟨v, hp⟩
      rw [find_putAll_of_forall_ne d hnotdone] at hfind
      cases hn : s.newIds.contains id' with
      | true => exact hfree id' w hidx hfind (Or.inl hn)
      | false =>
        cases ho : s.oldValues[id']? with
        | some v =>
          have hin : (id', v) ∈ done ++ (id, x) :: rest := by
            rw [← hl]
            exact (hmem id' v).mpr ho
          rcases mem_append.mp hin with hin | hin
          · exact (hdone ⟨v, hin⟩).elim
          rcases mem_cons.mp hin with heq | hin
          · cases heq
            exact (hne rfl).elim
          · exact hfree id' w hidx hfind (Or.inr ⟨by rw [ho]; rfl, hafter (id', v) hin⟩)
        | none =>
          cases hr : s.removed[id']? with
          | some v =>
            rw [(h.entry_of_removed hr).2.2.2] at hfind
            cases hfind
          | none => exact hstart ((h.entry_of_nop hn ho hr).trans hfind)

/-- After the first two loops every object has its start value again, except the
    removed ones, which are still missing. -/
theorem find_dropAll_putAll (id : ObjectId) :
    ((d.putAll s.oldValues.toList).dropAll s.newIds.toList).find id =
      if s.removed[id]?.isSome then none else d₀.find id := by
  have hnew : id ∈ s.newIds.toList ↔ s.newIds.contains id = true := ExtTreeSet.mem_toList
  have hold : ∀ v, (id, v) ∈ s.oldValues.toList ↔ s.oldValues[id]? = some v := fun v =>
    mem_toList_iff_getElem?_eq_some
  rw [find_dropAll]
  cases hn : s.newIds.contains id with
  | true =>
    obtain ⟨_, hr, hstart⟩ := h.entry_of_new hn
    rw [if_pos (hnew.mpr hn), hr, hstart]
    rfl
  | false =>
    have hnot : id ∉ s.newIds.toList := by
      rw [hnew, hn]
      decide
    rw [if_neg hnot]
    cases ho : s.oldValues[id]? with
    | some x =>
      obtain ⟨_, hr, hstart⟩ := h.entry_of_old ho
      rw [find_putAll_of_mem d (pairwise_ne_toList _) ((hold x).mpr ho), hr, hstart]
      rfl
    | none =>
      have hne : ∀ p ∈ s.oldValues.toList, p.1 ≠ id := by
        rintro ⟨k, v⟩ hp rfl
        rw [(hold v).mp hp] at ho
        cases ho
      rw [find_putAll_of_forall_ne d hne]
      cases hr : s.removed[id]? with
      | some x => exact (h.entry_of_removed hr).2.2.2
      | none => exact (h.entry_of_nop hn ho hr).symm

omit h

variable {e : ObjectDatabase α}

variable (h : Records s d₀ d)
include h

theorem nextId_foldl_setNextId (he : e.nextId = d.nextId) (idx : Nat) :
    (s.oldIndexNextIds.toList.foldl (fun d p => d.setNextId p.1 p.2) e).nextId idx =
      d₀.nextId idx := by
  have hslice := slice_foldl_toList (f := fun d p => d.setNextId p.1 p.2)
    (fun (d : ObjectDatabase α) (idx : Nat) => d.nextId idx) (fun _ n _ => n)
    (by intro d k n; simp) (by intro d k n k' hne; simp [hne]) s.oldIndexNextIds e idx
  refine hslice.trans ?_
  rw [h.nextIds idx, he]
  cases s.oldIndexNextIds[idx]? <;> rfl

omit h in
/-- The last loop of the playback touches numbers only. -/
theorem find_foldl_setNextId (e : ObjectDatabase α) (l : List (Nat × Nat)) (id : ObjectId) :
    (l.foldl (fun d p => d.setNextId p.1 p.2) e).find id = e.find id := by
  induction l generalizing e with
  | nil => rfl
  | cons p l ih => exact (ih (e.setNextId p.1 p.2)).trans (find_setNextId e _ _ id)

/-- The last loop never throws: what is in the database by then are start values. -/
theorem forEach_insert_eq_ok (hk : sch.NoFlat) (hc : d₀.Consistent sch)
    (he : ∀ id, e.find id = if s.removed[id]?.isSome then none else d₀.find id)
    (hnext : ∀ idx, e.nextId idx = d₀.nextId idx) :
    forEach (fun d p => d.insert sch p.1 p.2) s.removed.toList e = .ok d₀ := by
  have hmem : ∀ k v, (k, v) ∈ s.removed.toList ↔ s.removed[k]? = some v := fun k v =>
    mem_toList_iff_getElem?_eq_some
  have hdist := pairwise_ne_toList s.removed
  refine (forEach_eq_ok_iff (f := fun d p => d.insert sch p.1 p.2)
    (l := s.removed.toList) e.putAll ?_).mpr ⟨ext_find ?_ ?_, ?_⟩
  · intro done p rest s' _ hs'
    rw [putAll_concat]
    exact insert_eq_ok hk hs'
  · intro id
    cases hr : s.removed[id]? with
    | some x =>
      rw [find_putAll_of_mem e hdist ((hmem id x).mpr hr)]
      exact (h.entry_of_removed hr).2.2.1
    | none =>
      have hne : ∀ p ∈ s.removed.toList, p.1 ≠ id := by
        rintro ⟨k, v⟩ hp rfl
        rw [(hmem k v).mp hp] at hr
        cases hr
      rw [find_putAll_of_forall_ne e hne, he, hr]
      rfl
  · intro idx
    rw [nextId_putAll, hnext]
  · rintro done ⟨id, x⟩ rest hl
    have hx : s.removed[id]? = some x := (hmem id x).mp (by rw [hl]; simp)
    have hstart := (h.entry_of_removed hx).2.2.1
    rw [hl, pairwise_append] at hdist
    -- every object present during the loop has its start value
    have hsub : ∀ k w, (e.putAll done).find k = some w → d₀.find k = some w := by
      intro k w hw
      by_cases hin : ∃ v, (k, v) ∈ done
      · obtain ⟨v, hv⟩ := hin
        rw [find_putAll_of_mem e hdist.1 hv] at hw
        cases hw
        exact (h.entry_of_removed ((hmem k w).mp (by rw [hl]; simp [hv]))).2.2.1
      · rw [find_putAll_of_forall_ne e
          (by rintro ⟨k', v⟩ hp rfl; exact hin ⟨v, hp⟩), he] at hw
        split at hw
        · cases hw
        · exact hw
    have hnone : (e.putAll done).find id = none := by
      rw [find_putAll_of_forall_ne e
        (fun p hp => hdist.2.2 p hp (id, x) mem_cons_self), he, hx]
      rfl
    have hcol : (e.putAll done).collides sch id x = false :=
      collides_eq_false.mpr fun k w hidx hne hw =>
        hc.clash_eq_false hstart (hsub k w hw) hidx hne
    simp only [insert_eq (hk id.spaceType) hnone, hcol]
    rfl

/-- **Replay is exact.** A state that records the way back to the consistent database
    `d₀` plays back without an exception if and only if it is replayable; the result
    is then `d₀`. -/
theorem replay_eq_ok_iff (hk : sch.NoFlat) (hc : d₀.Consistent sch) {r : ObjectDatabase α} :
    s.replay sch d = .ok r ↔ Replayable sch s d ∧ r = d₀ := by
  have hmem : ∀ k v, (k, v) ∈ s.oldValues.toList ↔ s.oldValues[k]? = some v := fun k v =>
    mem_toList_iff_getElem?_eq_some
  have hnodup : s.newIds.toList.Nodup := by
    refine (s.newIds.distinct_toList).imp ?_
    rintro a b hab rfl
    exact hab ReflCmp.compare_self
  have hins : ∀ e : ObjectDatabase α,
      e = (d.putAll s.oldValues.toList).dropAll s.newIds.toList →
      forEach (fun d p => d.insert sch p.1 p.2) s.removed.toList
        (s.oldIndexNextIds.toList.foldl (fun d p => d.setNextId p.1 p.2) e) = .ok d₀ := by
    rintro e rfl
    refine h.forEach_insert_eq_ok hk hc ?_ ?_
    · intro id
      rw [find_foldl_setNextId, h.find_dropAll_putAll]
    · intro idx
      refine h.nextId_foldl_setNextId ?_ idx
      rw [nextId_dropAll, nextId_putAll]
  -- a created object is not among those the first loop writes
  have hnewfind : ∀ id ∈ s.newIds.toList,
      (d.putAll s.oldValues.toList).find id = d.find id := by
    intro id hid
    refine find_putAll_of_forall_ne d ?_
    rintro ⟨k, v⟩ hp rfl
    have hfalse := (h.entry_of_old ((hmem k v).mp hp)).1
    rw [ExtTreeSet.mem_toList.mp hid] at hfalse
    cases hfalse
  rw [UndoState.replay, andThen_eq_ok]
  constructor
  · rintro ⟨d₁, hd₁, hrest⟩
    obtain ⟨rfl, hold⟩ := (forEach_modify_eq_ok_iff hk (pairwise_ne_toList _)).mp hd₁
    obtain ⟨d₂, hd₂, hlast⟩ := andThen_eq_ok.mp hrest
    obtain ⟨rfl, hnew⟩ := (forEach_remove_eq_ok_iff hk hnodup).mp hd₂
    rw [hins _ rfl] at hlast
    cases hlast
    refine ⟨⟨?_, ?_, ?_⟩, rfl⟩
    · intro id hid
      have hidl := ExtTreeSet.mem_toList.mpr hid
      rw [← hnewfind id hidl]
      exact hnew id hidl
    · intro id x hx
      obtain ⟨done, rest, hl⟩ := append_of_mem ((hmem id x).mpr hx)
      exact (hold done (id, x) rest hl).1
    · intro id x id' w hx
      obtain ⟨done, rest, hl⟩ := append_of_mem ((hmem id x).mpr hx)
      exact (h.collides_putAll_iff hc hl).mp (hold done (id, x) rest hl).2 id' w
  · rintro ⟨hrep, rfl⟩
    refine ⟨_, (forEach_modify_eq_ok_iff hk (pairwise_ne_toList _)).mpr
      ⟨rfl, ?_⟩, ?_⟩
    · rintro done ⟨id, x⟩ rest hl
      have hx : s.oldValues[id]? = some x := (hmem id x).mp (by rw [hl]; simp)
      refine ⟨hrep.oldPresent id x hx, (h.collides_putAll_iff hc hl).mpr ?_⟩
      intro id' w hidx hw
      exact hrep.keysFree id x id' w hx hidx hw
    · rw [andThen_eq_ok]
      refine ⟨_, (forEach_remove_eq_ok_iff hk hnodup).mpr ⟨rfl, ?_⟩, hins _ rfl⟩
      intro id hid
      rw [hnewfind id hid]
      exact hrep.newPresent id (ExtTreeSet.mem_toList.mp hid)

end Records

end HyperExchange.Db
