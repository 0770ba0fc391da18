/-
  **The loops between the two levels of the history.**

  `start_undo_session` moves states from `back` to the store and drops states; `undo`,
  `merge` and `pop_commit` share the loop that reloads them.  For each loop there is
  one specification in terms of the states `sp` that the stack stands for (`Spilled`):
  `spill_split`, `evict_spec`, `reload_spec` and `popBack_spec`.
-/
import HyperExchange.UndoSpill

namespace HyperExchange.Db

open Execution List UndoHistory

namespace UndoHistory

variable {St Id : Type} [DecidableEq Id] {c : ContentHash St Id} {h r : UndoHistory St Id} {n : Nat}
  {s : St} {sp : List St}

/-- The stack holds the ids of the states `sp`, and each of them can be read. -/
structure Spilled (c : ContentHash St Id) (h : UndoHistory St Id) (sp : List St) : Prop where
  stack : h.stack = sp.map c.undoId
  stored : ∀ s ∈ sp, h.storage (c.undoId s) = some s
  nodup : sp.Nodup

namespace Spilled

variable {h : UndoHistory St Id} {sp : List St}

variable (hs : Spilled c h sp)
include hs

omit [DecidableEq Id] in
theorem of_eq {h' : UndoHistory St Id} (hstack : h'.stack = h.stack)
    (hstorage : h'.storage = h.storage) : Spilled c h' sp :=
  ⟨hstack.trans hs.stack, fun s hmem => hstorage ▸ hs.stored s hmem, hs.nodup⟩

omit [DecidableEq Id] in
theorem size_eq : h.size = (sp ++ h.back).length := by
  rw [size, hs.stack, length_map, length_append]

/-- A state out of the stack, at either end, and its key out of the store. -/
theorem forget (hc : c.CollisionFree) {s : St} {sp' : List St} (hperm : sp.Perm (s :: sp'))
    {h' : UndoHistory St Id} (hstack : h'.stack = sp'.map c.undoId)
    (hstorage : h'.storage = Function.update h.storage (c.undoId s) none) : Spilled c h' sp' := by
  have hnodup := hperm.nodup_iff.mp hs.nodup
  rw [nodup_cons] at hnodup
  refine ⟨hstack, ?_, hnodup.2⟩
  intro t ht
  have hne : c.undoId t ≠ c.undoId s := by
    intro he
    exact hnodup.1 (hc.injective he ▸ ht)
  rw [hstorage, Function.update_apply, if_neg hne]
  exact hs.stored t (hperm.mem_iff.mpr (mem_cons_of_mem _ ht))

theorem storeAll (hc : c.CollisionFree) {l : List St} (hl : (sp ++ l).Nodup) : Spilled c
    (storeAll c l h) (sp ++ l) := by
  induction l generalizing h sp with
  | nil =>
    rw [append_nil]
    exact hs
  | cons s l ih =>
    have hcons : storeAll c (s :: l) h = storeAll c l (h.store c s) := rfl
    have happ : sp ++ s :: l = (sp ++ [s]) ++ l := by simp
    rw [hcons, happ]
    rw [happ] at hl
    refine ih ⟨?_, ?_, (nodup_append.mp hl).1⟩ hl
    · simp [store, hs.stack]
    · intro t ht
      simp only [store, Function.update_apply]
      by_cases he : c.undoId t = c.undoId s
      · rw [if_pos he, hc.stored_eq, hc.injective he]
      rw [if_neg he]
      rcases mem_append.mp ht with ht | ht
      · exact hs.stored t ht
      · rw [mem_singleton] at ht
        exact absurd (congrArg c.undoId ht) he

end Spilled

/-! ### The three loops -/

theorem spill_split (maxSize : Nat) (l : List St) :
    ∃ dropped, l = dropped ++ (spilledStates maxSize l ++ keptStates l) ∧
      (dropped ≠ [] → maxSize ≤ l.length) := by
  induction l with
  | nil => exact ⟨[], rfl, fun h => absurd rfl h⟩
  | cons s back ih =>
    obtain ⟨dropped, hsplit, hdrop⟩ := ih
    simp only [spilledStates, keptStates]
    split
    · split
      · next hlt =>
        -- stored, so every later one is stored too
        cases dropped with
        | nil => exact ⟨[], congrArg (s :: ·) hsplit, fun h => absurd rfl h⟩
        | cons t ts =>
          have hle := hdrop (by simp)
          omega
      · next hge =>
        refine ⟨s :: dropped, congrArg (s :: ·) hsplit, ?_⟩
        intro _
        simp only [length_cons]
        omega
    · exact ⟨[], rfl, fun h => absurd rfl h⟩

theorem length_keptStates (l : List St) : (keptStates l).length = min l.length 19 := by
  induction l with
  | nil => rfl
  | cons s back ih =>
    rw [keptStates]
    split
    · next h =>
      simp only [maxBackSize] at h
      rw [ih, length_cons]
      omega
    · next h =>
      simp only [maxBackSize] at h
      rw [length_cons]
      omega

theorem length_spilledStates (maxSize : Nat) (l : List St) :
    (spilledStates maxSize l).length = min (l.length + 1) maxSize - 20 := by
  induction l with
  | nil => simp only [spilledStates, length_nil]; omega
  | cons s back ih =>
    rw [spilledStates]
    split
    · next h =>
      simp only [maxBackSize] at h
      split
      · rw [length_cons, ih, length_cons]
        omega
      · rw [ih, length_cons]
        omega
    · next h =>
      simp only [maxBackSize] at h
      rw [length_nil, length_cons]
      omega

/-- `h'` differs from `h` in the states only. -/
structure SameCounters (h h' : UndoHistory St Id) : Prop where
  activeSessions : h'.activeSessions = h.activeSessions
  disabled : h'.disabled = h.disabled
  maxSize : h'.maxSize = h.maxSize

omit [DecidableEq Id] in
theorem SameCounters.trans {h' h'' : UndoHistory St Id} (h₁ : SameCounters h h')
    (h₂ : SameCounters h' h'') : SameCounters h h'' :=
  ⟨h₂.activeSessions.trans h₁.activeSessions, h₂.disabled.trans h₁.disabled,
    h₂.maxSize.trans h₁.maxSize⟩

theorem evict_of_le (n : Nat) (hle : h.size ≤ h.maxSize) : evict c n h = .ok h := by
  cases n with
  | zero => rfl
  | succ n => rw [evict, if_neg (by omega)]

/-- The eviction loop takes the oldest states, provided it does not come down to
    `max_back_size` with something left in the stack. -/
theorem evict_spec (hc : c.CollisionFree) (hs : Spilled c h sp) (hn : h.size ≤ n)
    (hgood : sp = [] ∨ 20 ≤ h.maxSize ∨ 20 ≤ h.back.length ∨ h.size ≤ h.maxSize) :
    ∃ h' sp', evict c n h = .ok h' ∧ SameCounters h h' ∧ Spilled c h' sp' ∧
      (sp' ++ h'.back) <:+ (sp ++ h.back) ∧ (sp' ++ h'.back).length = min h.size h.maxSize ∧
      (sp' ≠ [] → h'.back = h.back) ∧ h'.back.length ≤ h.back.length := by
  have hlen : h.size = sp.length + h.back.length := by simp [size, hs.stack]
  by_cases hover : h.size ≤ h.maxSize
  · refine ⟨h, sp, evict_of_le n hover, ⟨rfl, rfl, rfl⟩, hs, suffix_rfl, ?_, fun _ => rfl,
      Nat.le_refl _⟩
    rw [length_append, ← hlen]
    omega
  · induction n generalizing h sp with
    | zero => omega
    | succ n ih =>
      -- one state goes, then either the loop is done or the induction takes over
      have hstep : ∀ (h₁ : UndoHistory St Id) (sp₁ : List St), evict c (n + 1) h = evict c n h₁ →
          SameCounters h h₁ → Spilled c h₁ sp₁ → h₁.size + 1 = h.size →
          (sp₁ ++ h₁.back) <:+ (sp ++ h.back) → (sp₁ ≠ [] → h₁.back = h.back) →
          h₁.back.length ≤ h.back.length →
          (sp₁ = [] ∨ 20 ≤ h₁.maxSize ∨ 20 ≤ h₁.back.length ∨ h₁.size ≤ h₁.maxSize) →
          ∃ h' sp', evict c (n + 1) h = .ok h' ∧ SameCounters h h' ∧ Spilled c h' sp' ∧
            (sp' ++ h'.back) <:+ (sp ++ h.back) ∧
            (sp' ++ h'.back).length = min h.size h.maxSize ∧ (sp' ≠ [] → h'.back = h.back) ∧
            h'.back.length ≤ h.back.length := by
        intro h₁ sp₁ he hcount hs₁ hsize hsuf hkeep hle₁ hgood₁
        have hlen₁ : h₁.size = sp₁.length + h₁.back.length := by simp [size, hs₁.stack]
        by_cases hdone : h₁.size ≤ h₁.maxSize
        · refine ⟨h₁, sp₁, he.trans (evict_of_le n hdone), hcount, hs₁, hsuf, ?_, hkeep, hle₁⟩
          have := hcount.maxSize
          rw [length_append, ← hlen₁]
          omega
        · obtain ⟨h', sp', he', hcount', hs', hsuf', hl', hkeep', hle'⟩ :=
            ih hs₁ (by omega) hgood₁ hlen₁ hdone
          refine ⟨h', sp', he.trans he', hcount.trans hcount', hs', hsuf'.trans hsuf, ?_, ?_,
            Nat.le_trans hle' hle₁⟩
          · rw [hl', hcount.maxSize]
            have := hcount.maxSize
            omega
          · intro hne
            have hne₁ : sp₁ ≠ [] := by
              rintro rfl
              -- the stack does not grow back: `sp'` is nonempty, `back` unchanged, too long
              have hle := hsuf'.length_le
              rw [hkeep' hne] at hle
              have hpos := length_pos_iff.mpr hne
              simp only [length_append, nil_append] at hle
              omega
            exact (hkeep' hne).trans (hkeep hne₁)
      have hevict : evict c (n + 1) h = _ := if_pos (Nat.lt_of_not_le hover)
      cases sp with
      | nil =>
        cases hback : h.back with
        | nil =>
          rw [hback] at hlen
          simp only [length_nil] at hlen
          omega
        | cons s back =>
          refine hback ▸ hstep { h with back := back } []
            (by simp only [hevict, hs.stack, hback, map_nil])
            ⟨rfl, rfl, rfl⟩ (hs.of_eq rfl rfl) ?_ ?_ ?_ ?_ (Or.inl rfl)
          · simp only [size, hback, length_cons]
            omega
          · rw [hback]
            exact suffix_cons s back
          · intro hne
            exact absurd rfl hne
          · rw [hback, length_cons]
            exact Nat.le_succ _
      | cons s sp =>
        have hbig : maxBackSize < h.size := by
          simp only [length_cons] at hlen
          simp only [maxBackSize]
          rcases hgood with hg | hg | hg | hg
          · cases hg
          · omega
          · omega
          · omega
        refine hstep { h with
            stack := sp.map c.undoId
            storage := Function.update h.storage (c.undoId s) none } sp
          (by simp only [hevict, hs.stack, map_cons, if_pos hbig, removeStored, hc.ne_null,
            if_false, Exec.ok_andThen]) ⟨rfl, rfl, rfl⟩
          (hs.forget hc (List.Perm.refl _) rfl rfl) ?_ (suffix_cons s _) (fun _ => rfl)
          (Nat.le_refl _) ?_
        · rw [hlen]
          simp only [size, length_map, length_cons]
          omega
        · rcases hgood with hg | hg | hg | hg
          · cases hg
          · exact Or.inr (Or.inl hg)
          · exact Or.inr (Or.inr (Or.inl hg))
          · omega

/-- The reload loop moves states from the end of the stack to the front of `back`. -/
theorem reload_spec (hc : c.CollisionFree) (empty : St) (hs : Spilled c h sp) (hn : sp.length ≤ n) :
    ∃ h' sp', reload c empty n h = .ok h' ∧ SameCounters h h' ∧ Spilled c h' sp' ∧
      sp' ++ h'.back = sp ++ h.back ∧ (sp' ≠ [] → maxBackSize ≤ h'.back.length) ∧
      h'.back.length ≤ max maxBackSize h.back.length := by
  induction n generalizing h sp with
  | zero =>
    have hsp : sp = [] := eq_nil_of_length_eq_zero (by omega)
    refine ⟨h, sp, rfl, ⟨rfl, rfl, rfl⟩, hs, rfl, fun hne => absurd hsp hne, by omega⟩
  | succ n ih =>
    rcases eq_nil_or_concat sp with rfl | ⟨sp, s, rfl⟩
    · refine ⟨h, [], ?_, ⟨rfl, rfl, rfl⟩, hs, rfl, fun hne => absurd rfl hne, by omega⟩
      rw [reload, hs.stack]
      rfl
    · rw [concat_eq_append] at hs hn ⊢
      have hlast : h.stack.getLast? = some (c.undoId s) := by rw [hs.stack]; simp
      have hread := hs.stored s (by simp)
      by_cases hfull : h.back.length < maxBackSize
      · have hdrop : h.stack.dropLast = sp.map c.undoId := by rw [hs.stack]; simp
        have hforget : Spilled c { h with
            stack := h.stack.dropLast
            back := s :: h.back
            storage := Function.update h.storage (c.undoId s) none } sp :=
          hs.forget hc (perm_append_singleton s sp) hdrop rfl
        obtain ⟨h', sp', he, hcount, hs', heq, hdeep, hlen⟩ := ih hforget (by
          rw [length_append, length_singleton] at hn
          omega)
        refine ⟨h', sp', ?_, ⟨hcount.activeSessions, hcount.disabled, hcount.maxSize⟩, hs', ?_,
          hdeep, ?_⟩
        · rw [reload, hlast]
          simp only [if_pos hfull, hread, removeStored, hc.ne_null, if_false, Exec.ok_andThen]
          exact he
        · rw [heq]
          simp
        · simp only [length_cons] at hlen
          omega
      · refine ⟨h, sp ++ [s], ?_, ⟨rfl, rfl, rfl⟩, hs, rfl, fun _ => by omega, by omega⟩
        rw [reload, hlast]
        simp only [if_neg hfull]

/-- `pop_back` and the reload behind it: one state less, and what is left in the stack
    is covered by at least six states in memory. -/
theorem popBack_spec (hc : c.CollisionFree) (empty : St) (hs : Spilled c h sp) :
    ∃ h' sp', popBack c empty h = .ok h' ∧ SameCounters h h' ∧ Spilled c h' sp' ∧
      sp' ++ h'.back = sp ++ h.back.dropLast ∧ (sp' ≠ [] → 6 ≤ h'.back.length) ∧
      h'.back.length ≤ max maxBackSize h.back.length := by
  have hpopped : Spilled c { h with back := h.back.dropLast } sp := hs.of_eq rfl rfl
  have hlen : h.back.dropLast.length ≤ h.back.length := by
    rw [length_dropLast]
    omega
  by_cases hload : h.stack ≠ [] ∧ h.back.dropLast.length ≤ 5
  · obtain ⟨h', sp', he, hcount, hs', heq, hdeep, hle⟩ := reload_spec hc empty
      (n := h.stack.length) hpopped (by simp [hs.stack])
    refine ⟨h', sp', ?_, ⟨hcount.activeSessions, hcount.disabled, hcount.maxSize⟩, hs', heq, ?_, ?_⟩
    · exact (if_pos hload).trans he
    · intro hne
      have := hdeep hne
      simp only [maxBackSize] at this
      omega
    · simp only at hle
      omega
  · refine ⟨{ h with back := h.back.dropLast }, sp, ?_, ⟨rfl, rfl, rfl⟩, hpopped, rfl, ?_, ?_⟩
    · exact if_neg hload
    · intro hne
      have hstack : h.stack ≠ [] := by
        rw [hs.stack]
        simpa using hne
      have : ¬ h.back.dropLast.length ≤ 5 := fun hle => hload ⟨hstack, hle⟩
      show 6 ≤ h.back.dropLast.length
      omega
    · show h.back.dropLast.length ≤ _
      omega

/-! ### The newest state does not matter to the reload -/

variable (empty : St)

/-- The reload loop works at the front of `back`: it goes the same way whatever the
    newest state is. -/
theorem reload_last {l : List St} {b : Bool}
    (hr : reload c empty n { h with back := l ++ [s], disabled := b } = .ok r) :
    ∃ (h' : UndoHistory St Id) (l' : List St), ∀ (s : St) (b : Bool),
      reload c empty n { h with back := l ++ [s], disabled := b } =
      .ok { h' with back := l' ++ [s], disabled := b } := by
  induction n generalizing h l with
  | zero => exact ⟨h, l, fun _ _ => rfl⟩
  | succ n ih =>
    rw [reload] at hr
    cases hlast : h.stack.getLast? with
    | none =>
      refine ⟨h, l, fun s b => ?_⟩
      rw [reload]
      simp only [hlast]
    | some id =>
      simp only [hlast, length_append, length_singleton] at hr
      by_cases hlen : l.length + 1 < maxBackSize
      · rw [if_pos hlen] at hr
        cases hread : h.storage id with
        | none => simp only [hread] at hr; cases hr
        | some t =>
          simp only [hread, removeStored] at hr
          by_cases hnull : id = c.nullId
          · rw [if_pos hnull] at hr
            cases hr
          · rw [if_neg hnull] at hr
            obtain ⟨h', l', hall⟩ := ih (h := { h with
              stack := h.stack.dropLast
              storage := Function.update h.storage id none }) (l := t :: l) hr
            refine ⟨h', l', fun s b => ?_⟩
            rw [reload]
            simp only [hlast, length_append, length_singleton, if_pos hlen, hread,
              removeStored, if_neg hnull, Exec.ok_andThen]
            exact hall s b
      · refine ⟨h, l, fun s b => ?_⟩
        rw [reload]
        simp only [hlast, length_append, length_singleton, if_neg hlen]

theorem popBack_last {l : List St} {t : St} {b : Bool}
    (hr : popBack c empty { h with back := l ++ [s, t], disabled := b } = .ok r) :
    ∃ (h' : UndoHistory St Id) (l' : List St), ∀ (s t : St) (b : Bool),
      popBack c empty { h with back := l ++ [s, t], disabled := b } =
      .ok { h' with back := l' ++ [s], disabled := b } := by
  have hdrop : ∀ s t : St, (l ++ [s, t]).dropLast = l ++ [s] := by
    intro s t
    rw [show l ++ [s, t] = (l ++ [s]) ++ [t] by simp, dropLast_concat]
  simp only [popBack, hdrop, length_append, length_singleton] at hr ⊢
  by_cases hload : h.stack ≠ [] ∧ l.length + 1 ≤ 5
  · rw [if_pos hload] at hr
    obtain ⟨h', l', hall⟩ := reload_last empty hr
    refine ⟨h', l', fun s t b => ?_⟩
    rw [if_pos hload]
    exact hall s b
  · refine ⟨h, l, fun s t b => ?_⟩
    rw [if_neg hload]

/-- **Merge, then undo.** It leaves the history that undoing twice leaves. -/
theorem merge_undo (combine : St → St → St) {h₁ h₂ : UndoHistory St Id}
    (hm : h.merge c empty combine = .ok h₁) (hu : h.undo c empty = .ok h₂)
    (hr : h₁.undo c empty = .ok r) : h₂.undo c empty = .ok r := by
  have hcond : h.disabled = false ∧ h.back ≠ [] ∧ 0 < h.activeSessions := by
    by_contra hno
    rw [undo, if_neg hno] at hu
    cases hu
  simp only [merge, if_pos hcond.2.2] at hm
  rcases hrev : h.back.reverse with _ | ⟨state, _ | ⟨prev, older⟩⟩
  · rw [hrev] at hm
    cases hm
  · rw [hrev] at hm
    cases hm
  · have hback : h.back = older.reverse ++ [prev, state] := by
      rw [← reverse_reverse h.back, hrev]
      simp
    rw [hrev] at hm
    simp only [undo, if_pos hcond] at hu
    obtain ⟨g, hg, hm⟩ := Exec.andThen_eq_ok.mp hm
    obtain ⟨h', l', hall⟩ := popBack_last empty (b := h.disabled) hg
    have hpop := hall prev state true
    rw [hall] at hg
    rw [← hback] at hpop
    rw [hpop] at hu
    cases hg
    cases hm
    cases hu
    -- two histories that differ in the state that is popped next
    rw [← hr]
    have hpos : 0 < h'.activeSessions - 1 := by
      by_contra hno
      rw [undo, if_neg fun h => hno h.2.2] at hr
      cases hr
    have hne : ∀ s, l' ++ [s] ≠ [] := by simp
    simp only [undo, hcond.1, hpos, hne, ne_eq, not_false_eq_true, and_self, if_true,
      popBack, dropLast_concat]

end UndoHistory

end HyperExchange.Db
