/-
  **One undo session, from its start to its undo.**

  A session records any sequence of creates, modifies and removes over some database, and is
  then undone.  Calls that throw are part of the sequence.  A refused create, and a modify or
  remove of a missing object, change nothing; a modify refused because of a unique key has
  been recorded and has thrown its object out of the index.  Undoing a session completes, and
  restores the database, exactly when the state before the undo is replayable.
-/
import HyperExchange.UndoReplay

namespace HyperExchange.Db

open Std Execution ObjectDatabase

variable {α κ : Type} [DecidableEq κ]

namespace Tracked

def start (d : ObjectDatabase α) : Tracked α := ⟨d, UndoState.empty⟩

def step (sch : Schema α κ) (t : Tracked α) : ObjectOp α → Exec (Tracked α)
  | .create idx v => t.create sch idx v
  | .modify id f => t.modify sch id f
  | .remove id => t.remove sch id

def run (sch : Schema α κ) (t : Tracked α) (ops : List (ObjectOp α)) : Tracked α :=
  ops.foldl (fun t op => (t.step sch op).state) t

def undo (sch : Schema α κ) (t : Tracked α) : Exec (ObjectDatabase α) :=
  t.state.replay sch t.db

end Tracked

/-! ### Every call keeps the record -/

namespace Records

variable {sch : Schema α κ} {d₀ : ObjectDatabase α} {t : Tracked α}

/-- **Step lemma.** Whatever a call does, and whether it returns or throws, the state
    still leads back to the start of the session. -/
theorem step (h : Records t.state d₀ t.db) (hk : sch.NoFlat) (hwf₀ : d₀.WellFormed)
    (hwf : t.db.WellFormed) (op : ObjectOp α) :
    Records (t.step sch op).state.state d₀ (t.step sch op).state.db ∧
      (t.step sch op).state.db = (t.db.step sch op).state := by
  cases op with
  | create idx v =>
    have hcreate := create_eq (v := v) (hk idx) hwf
    by_cases hcol : t.db.collides sch (t.db.newId idx) v = true
    · rw [if_pos hcol] at hcreate
      simp only [Tracked.step, Tracked.create, ObjectDatabase.step, hcreate]
      exact ⟨h, rfl⟩
    · rw [if_neg hcol] at hcreate
      simp only [Tracked.step, Tracked.create, ObjectDatabase.step, hcreate]
      exact ⟨h.create hwf₀ idx v, rfl⟩
  | modify id f =>
    cases hv : t.db.find id with
    | none =>
      simp only [Tracked.step, Tracked.modify, ObjectDatabase.step, hv,
        modify_of_find_none hv]
      exact ⟨h, rfl⟩
    | some v =>
      have hmodify := modify_eq (f := f) (hk id.spaceType) hv
      by_cases hcol : t.db.collides sch id (f v) = true
      · -- refused: recorded, and the object is gone
        rw [if_pos hcol] at hmodify
        simp only [Tracked.step, Tracked.modify, ObjectDatabase.step, hv, hmodify]
        refine ⟨h.modify hv ?_ rfl, rfl⟩
        intro k hne
        simp [hne]
      · rw [if_neg hcol] at hmodify
        simp only [Tracked.step, Tracked.modify, ObjectDatabase.step, hv, hmodify]
        refine ⟨h.modify hv ?_ rfl, rfl⟩
        intro k hne
        simp [hne]
  | remove id =>
    cases hv : t.db.find id with
    | none =>
      simp only [Tracked.step, Tracked.remove, ObjectDatabase.step, hv,
        remove_of_find_none hv]
      exact ⟨h, rfl⟩
    | some v =>
      simp only [Tracked.step, Tracked.remove, ObjectDatabase.step, hv,
        remove_eq (hk id.spaceType) hv]
      exact ⟨h.remove hv, rfl⟩

/-- **Run lemma.** -/
theorem run (h : Records t.state d₀ t.db) (hk : sch.NoFlat) (hwf₀ : d₀.WellFormed)
    (hwf : t.db.WellFormed) (ops : List (ObjectOp α)) :
    Records (t.run sch ops).state d₀ (t.run sch ops).db ∧ (t.run sch ops).db.WellFormed := by
  induction ops generalizing t with
  | nil => exact ⟨h, hwf⟩
  | cons op ops ih =>
    obtain ⟨hstep, hdb⟩ := h.step hk hwf₀ hwf op
    refine ih hstep ?_
    rw [hdb]
    exact (ValidDatabase.valid_step hk hwf op).1

theorem returned_replay_iff {s : UndoState α} {d : ObjectDatabase α} (h : Records s d₀ d)
    (hk : sch.NoFlat) (hc : d₀.Consistent sch) :
    (s.replay sch d).returned = true ↔ Replayable sch s d := by
  rw [Exec.returned_iff]
  constructor
  · rintro ⟨r, hr⟩
    exact ((h.replay_eq_ok_iff hk hc).mp hr).1
  · intro hrep
    exact ⟨d₀, (h.replay_eq_ok_iff hk hc).mpr ⟨hrep, rfl⟩⟩

end Records

theorem records_run {sch : Schema α κ} (hk : sch.NoFlat) (d₀ : ValidDatabase sch)
    (ops : List (ObjectOp α)) :
    Records ((Tracked.start d₀.db).run sch ops).state d₀.db
      ((Tracked.start d₀.db).run sch ops).db :=
  ((Records.start d₀.db).run (t := Tracked.start d₀.db) hk d₀.wellFormed d₀.wellFormed ops).1

/-- **Undo of a session on keyed indexes.** For every database, every sequence of calls
    made in the session: the undo completes and restores the database if and only if
    every recorded object is still in its index and no old value is due back while a
    later object still holds one of its unique keys. -/
theorem undo_restores_iff_replayable (sch : Schema α κ) (hk : sch.NoFlat)
    (d₀ : ValidDatabase sch) (ops : List (ObjectOp α)) :
    ((Tracked.start d₀.db).run sch ops).undo sch = .ok d₀.db ↔
      Replayable sch ((Tracked.start d₀.db).run sch ops).state
        ((Tracked.start d₀.db).run sch ops).db := by
  have hrec := records_run hk d₀ ops
  have hiff := hrec.replay_eq_ok_iff hk d₀.consistent (r := d₀.db)
  rw [Tracked.undo, hiff]
  exact and_iff_left rfl

/-! ### An index keyed by its values

One generic index whose objects are numbers with the number itself as unique key, and
two objects with the keys `1` and `2`. -/

def keyedByValue : Schema Nat Nat := ⟨fun _ => .generic, fun _ => [id], 0⟩

theorem keyedByValue_noFlat : keyedByValue.NoFlat := by
  intro idx h
  cases h

def keysOneTwo : ValidDatabase keyedByValue :=
  ((ValidDatabase.empty keyedByValue).apply keyedByValue_noFlat (.create 0 1)).apply
    keyedByValue_noFlat (.create 0 2)

def changeTo (i v : Nat) : ObjectOp Nat := .modify ⟨0, i⟩ fun _ => v

/-- A modify to an unused key, the removal of the other object, and a new object. -/
def harmless : List (ObjectOp Nat) := [changeTo 0 3, .remove ⟨0, 1⟩, .create 0 4]

theorem undo_restores_harmless : keyedByValue.NoFlat ∧
    ((Tracked.start keysOneTwo.db).run keyedByValue harmless).undo keyedByValue =
      .ok keysOneTwo.db := by
  refine ⟨keyedByValue_noFlat, ?_⟩
  refine (undo_restores_iff_replayable keyedByValue keyedByValue_noFlat keysOneTwo harmless).mpr ?_
  have hrec := records_run keyedByValue_noFlat keysOneTwo harmless
  exact (hrec.returned_replay_iff keyedByValue_noFlat keysOneTwo.consistent).mp (by decide)

/-- Two sessions whose undo throws.  In the first the two objects swap their keys
    through an unused one, all modifies succeeding; putting the first object's old key
    back collides with the second.  In the second a modify is refused; its object is no
    longer there to be restored. -/
theorem undo_throws_on_keys :
    (((Tracked.start keysOneTwo.db).run keyedByValue
        [changeTo 0 3, changeTo 1 1, changeTo 0 2]).undo keyedByValue).returned = false ∧
      (((Tracked.start keysOneTwo.db).run keyedByValue
        [changeTo 0 2]).undo keyedByValue).returned = false := by
  decide

end HyperExchange.Db
