/-
  **The undo history of a chain.**

  As long as every session is started in order, the undo database holds the states of the
  newest blocks: the newest state played back gives the database before the head block, and
  so on down (`Steps`, `Rewinds`).  `Traced` is kept by every push and every pop, whether it
  returns or throws (`Traced.push`, `Traced.popBlock`).

  A relation `Q` between a database and the blocks below it that every block keeps then holds
  of the present database, also after pops (`Traced.related`).
-/
import HyperExchange.PushBlock

namespace HyperExchange.Blocks

open Execution Db UndoHistory List Option

variable {P δ β D U Id : Type}

def headOf (h : Hash P δ) : List (Block P δ) → BlockId δ
  | [] => h.nullId
  | b :: _ => h.id b

def Linked (h : Hash P δ) : List (Block P δ) → Prop
  | [] => True
  | b :: l => b.previous = headOf h l ∧ Linked h l

variable {h : Hash P δ} {l : List (Block P δ)}

theorem Linked.num_lt {b : Block P δ} (hl : Linked h (b :: l)) : ∀ a ∈ l, a.num < b.num := by
  induction l generalizing b with
  | nil =>
    intro a ha
    cases ha
  | cons c l ih =>
    have hb : b.num = c.num + 1 := by
      rw [Block.num, hl.1]
      rfl
    intro a ha
    rcases mem_cons.mp ha with rfl | ha
    · omega
    · have := ih hl.2 a ha
      omega

theorem Linked.headOf_num_lt {b : Block P δ} (hl : Linked h (b :: l)) :
    (headOf h l).num < b.num := by
  rw [← hl.1]
  exact Nat.lt_succ_self _

/-- Below the head of the rest of the list lies the rest. -/
theorem Linked.dropWhile_eq [DecidableEq δ] {b : Block P δ} (hl : Linked h (b :: l)) :
    (b :: l).dropWhile (fun a => h.id a ≠ headOf h l) = l := by
  have hb : h.id b ≠ headOf h l := by
    intro heq
    have hlt := hl.headOf_num_lt
    rw [← heq] at hlt
    exact Nat.lt_irrefl _ hlt
  rw [dropWhile_cons, if_pos (decide_eq_true hb)]
  cases l with
  | nil => rfl
  | cons c l => rw [dropWhile_cons, if_neg (by simp [headOf])]

/-- The states `hist`, newest first, each with the database it was recorded from, lead from
    the database `d` with the blocks `l` back to one that is related to its blocks. -/
inductive Steps (p : Params P δ β D U Id) (Q : D → List (Block P δ) → Prop) :
    D → List (D × U) → List (Block P δ) → Prop
  | base {d : D} {l : List (Block P δ)} (hhead : p.rules.headId d = headOf p.hash l)
      (hl : Linked p.hash l) (hQ : Q d l) : Steps p Q d [] l
  | step {d d₀ : D} {u : U} {hist : List (D × U)} {b : Block P δ} {n : Nat} {l : List (Block P δ)}
      (happly : p.rules.applyBlock b n d₀ = some (d, u)) (hrest : Steps p Q d₀ hist l) :
      Steps p Q d ((d₀, u) :: hist) (b :: l)

variable {p : Params P δ β D U Id} {Q : D → List (Block P δ) → Prop}

/-- Every block keeps the relation. -/
def KeptByBlocks (p : Params P δ β D U Id) (Q : D → List (Block P δ) → Prop) : Prop :=
  ∀ {b n d d' u l}, Q d l → p.rules.applyBlock b n d = some (d', u) → Q d' (b :: l)

namespace Steps

variable {d : D} {hist : List (D × U)} {l : List (Block P δ)}

theorem related (h : Steps p Q d hist l) (hQ : KeptByBlocks p Q) : Q d l := by
  induction h with
  | base _ _ hbase => exact hbase
  | step happly _ ih => exact hQ ih happly

variable (hp : p.rules.Sound p.hash)
include hp

theorem headId (h : Steps p Q d hist l) : p.rules.headId d = headOf p.hash l := by
  cases h with
  | base hhead => exact hhead
  | step happly => exact hp.headId_eq happly

theorem linked (h : Steps p Q d hist l) : Linked p.hash l := by
  induction h with
  | base _ hl => exact hl
  | step happly hrest ih =>
    refine ⟨?_, ih⟩
    rw [hp.previous_eq happly, hrest.headId hp]

theorem take (h : Steps p Q d hist l) (hQ : KeptByBlocks p Q) (n : Nat) :
    Steps p Q d (hist.take n) l := by
  induction h generalizing n with
  | base hhead hl hbase =>
    rw [take_nil]
    exact .base hhead hl hbase
  | step happly hrest ih =>
    cases n with
    | zero =>
      have hstep := Steps.step happly hrest
      exact .base (hstep.headId hp) (hstep.linked hp) (hstep.related hQ)
    | succ n => exact .step happly (ih n)

/-- A state of the history brings back a head below the present one. -/
theorem headId_lt (h : Steps p Q d hist l) {d₀ : D} {u : U} (hmem : (d₀, u) ∈ hist) :
    (p.rules.headId d₀).num < (p.rules.headId d).num ∧
      ∀ {e e'}, p.rules.playBack u e = .ok e' → p.rules.headId e' = p.rules.headId d₀ := by
  induction h with
  | base => cases hmem
  | @step d d₁ u₁ hist b n l happly hrest ih =>
    have hlt : (p.rules.headId d₁).num < (p.rules.headId d).num := by
      rw [hp.headId_eq happly, ← hp.previous_eq happly]
      exact Nat.lt_succ_self _
    rcases mem_cons.mp hmem with heq | hmem
    · cases heq
      exact ⟨hlt, fun hplay => hp.headId_playBack happly hplay⟩
    · obtain ⟨hlow, hplay⟩ := ih hmem
      exact ⟨Nat.lt_trans hlow hlt, hplay⟩

/-- Different blocks leave different states, since these hold the old head. -/
theorem nodup (h : Steps p Q d hist l) : (hist.map (·.2)).Nodup := by
  induction h with
  | base => exact nodup_nil
  | @step d d₁ u₁ hist b n l happly hrest ih =>
    refine nodup_cons.mpr ⟨fun hmem => ?_, ih⟩
    obtain ⟨⟨d₀, u⟩, hu, rfl⟩ := mem_map.mp hmem
    obtain ⟨hlt, hplay⟩ := hrest.headId_lt hp hu
    rw [hplay (hp.playBack_eq happly)] at hlt
    exact Nat.lt_irrefl _ hlt

end Steps

/-! ### The undo database of a chain -/

/-- The undo database holds the states `hist` of the newest blocks. -/
structure Rewinds (p : Params P δ β D U Id) (Q : D → List (Block P δ) → Prop)
    (s : Chain P δ β D U Id) (hist : List (D × U)) : Prop where
  steps : Steps p Q s.db hist s.applied
  retains : Retains p.states s.undoDb (hist.map (·.2)).reverse
  idle : s.undoDb.activeSessions = 0
  maximum : s.undoDb.maxSize = maxBackSize ∨ s.undoDb.maxSize = 1440

namespace Rewinds

variable {s s' : Chain P δ β D U Id} {hist : List (D × U)}

/-- Only the log and the fork database differ. -/
theorem of_eq (hr : Rewinds p Q s hist) (hdb : s'.db = s.db) (hundo : s'.undoDb = s.undoDb)
    (happlied : s'.applied = s.applied) : Rewinds p Q s' hist := by
  refine ⟨?_, ?_, ?_, ?_⟩
  · rw [hdb, happlied]
    exact hr.steps
  · rw [hundo]
    exact hr.retains
  · rw [hundo]
    exact hr.idle
  · rw [hundo]
    exact hr.maximum

theorem tuneUndo (hr : Rewinds p Q s hist) (now : Nat) (b : Block P δ) :
    Rewinds p Q (s.tuneUndo now b) hist := by
  have htuned : (s.tuneUndo now b).undoDb = s.undoDb ∨
      ∃ n, (n = maxBackSize ∨ n = 1440) ∧ (s.tuneUndo now b).undoDb = s.undoDb.setMaxSize n := by
    simp only [Chain.tuneUndo, Chain.tunedUndo]
    split
    · split
      · exact .inr ⟨_, .inl rfl, rfl⟩
      · exact .inl rfl
    · exact .inr ⟨_, .inr rfl, rfl⟩
  rcases htuned with hsame | ⟨n, hn, hset⟩
  · exact hr.of_eq rfl hsame rfl
  · refine ⟨hr.steps, ?_, ?_, ?_⟩
    · rw [hset]
      exact hr.retains.setMaxSize n
    · rw [hset]
      exact hr.idle
    · rw [hset]
      exact hn

variable (hp : p.rules.Sound p.hash) (hc : p.states.CollisionFree)
include hp hc

variable [DecidableEq Id]

/-- A session that is started in order keeps the newest states. -/
theorem start (hr : Rewinds p Q s hist) (hord : Ordered s.undoDb) :
    ∃ h m, s.undoDb.startUndoSession p.states p.rules.blank false = .ok h ∧
      Retains p.states h (((hist.take m).map (·.2)).reverse ++ [p.rules.blank]) ∧
      h.activeSessions = 1 ∧ h.maxSize = s.undoDb.maxSize := by
  have hmax : s.undoDb.maxSize = maxBackSize ∨ maxBackSize + 10 < s.undoDb.maxSize := by
    have := hr.maximum
    simp only [maxBackSize] at this ⊢
    omega
  have hretains := hr.retains
  rw [← append_nil (hist.map (·.2)).reverse] at hretains
  obtain ⟨h, kept, hcall, hkept, hsuf, _, hact, hmax'⟩ := hretains.start_ordered hc p.rules.blank
    (by
      rw [append_nil, nodup_reverse]
      exact hr.steps.nodup hp) hr.idle (Nat.zero_le _) hmax hord
  refine ⟨h, kept.length, hcall, ?_, hact, hmax'⟩
  have hpre : kept.reverse <+: hist.map (·.2) := by
    rw [← reverse_suffix, reverse_reverse]
    exact hsuf
  have htake : ((hist.take kept.length).map (·.2)).reverse = kept := by
    have hlen : kept.reverse.length = kept.length := length_reverse
    rw [map_take, ← hlen, ← prefix_iff_eq_take.mp hpre, reverse_reverse]
  rw [htake]
  exact hkept

variable [DecidableEq δ] (hQ : KeptByBlocks p Q)
include hQ

/-- **One block.** -/
theorem applyStored (hr : Rewinds p Q s hist) {now : Nat} {id : BlockId δ} {b : Block P δ}
    (hord : (s.applyStored p now id b).state.ordered = true) :
    ∃ hist', Rewinds p Q (s.applyStored p now id b).state hist' := by
  have hok : Ordered (s.tuneUndo now b).undoDb := by
    rw [(Chain.applyStored_cases now id b s).1, Bool.and_eq_true, decide_eq_true_eq] at hord
    exact hord.2
  have ht := hr.tuneUndo now b
  obtain ⟨h, m, hstart, hretains, hact, hmax⟩ := ht.start hp hc hok
  have hmaximum := ht.maximum
  rw [← hmax] at hmaximum
  simp only [Chain.applyStored, hstart, Chain.applyIn]
  cases happly : p.rules.applyBlock b h.size (s.tuneUndo now b).db with
  | none =>
    -- the session is undone
    obtain ⟨h', hundo, hr', hact', hmax'⟩ :=
      hretains.undo hc p.rules.blank (by rw [hact]; exact Nat.one_pos)
    rw [hundo]
    exact ⟨hist.take m, ht.steps.take hp hQ m, hr', by show h'.activeSessions = 0; omega,
      by rw [← hmax'] at hmaximum; exact hmaximum⟩
  | some r =>
    obtain ⟨h₁, hrec, hr₁, hact₁, hmax₁⟩ := hretains.record fun _ => r.2
    obtain ⟨h₂, hcommit, hr₂, hact₂, hmax₂⟩ := hr₁.commit (hact₁.trans hact)
    simp only [hrec, Exec.ok_andThen, hcommit]
    refine ⟨((s.tuneUndo now b).db, r.2) :: hist.take m, .step happly (ht.steps.take hp hQ m), ?_,
      hact₂, by rw [← hmax₁, ← hmax₂] at hmaximum; exact hmaximum⟩
    rw [map_cons, reverse_cons]
    exact hr₂

omit hQ

/-- **One pop** that returns takes the newest block off. -/
theorem popUndo (hr : Rewinds p Q s hist) :
    (hist = [] ∧ s.popUndo p = .thrown s) ∨
      ∃ b x hist' h, hist = x :: hist' ∧ s.applied = b :: s.applied.tail ∧
        s.popUndo p = .ok { s with db := x.1, undoDb := h, applied := s.applied.tail } ∧
        Rewinds p Q { s with db := x.1, undoDb := h, applied := s.applied.tail } hist' := by
  cases hist with
  | nil =>
    left
    have hback : s.undoDb.back = [] := (append_eq_nil_iff.mp hr.retains.readable).2
    simp only [Chain.popUndo, hback, getLast?_nil, and_self]
  | cons x hist =>
    right
    have hretains := hr.retains
    rw [map_cons, reverse_cons] at hretains
    obtain ⟨h, hpop, hr', hact, hmax⟩ := hretains.popCommit hc p.rules.blank hr.idle
    have hsteps := hr.steps
    have hlinked := hsteps.linked hp
    generalize happlied : s.applied = applied at hsteps hlinked
    cases hsteps with
    | @step _ d₀ u _ b n l happly hrest =>
      have hdrop : s.applied.dropWhile (fun a => p.hash.id a ≠ p.rules.headId d₀) = l := by
        rw [hrest.headId hp, happlied]
        exact hlinked.dropWhile_eq
      refine ⟨b, _, hist, h, rfl, rfl, ?_, hrest, hr', hact, by rw [hmax]; exact hr.maximum⟩
      rw [Chain.popUndo, hretains.getLast_back]
      simp only [hr.idle, if_true, hp.playBack_eq happly, hpop, Exec.map_ok, hdrop, tail_cons]

end Rewinds

/-! ### Runs -/

/-- If every session so far was started in order, the undo database holds the states of
    the newest blocks. -/
def Traced (p : Params P δ β D U Id) (Q : D → List (Block P δ) → Prop) (s : Chain P δ β D U Id) :
    Prop :=
  s.ordered = true → ∃ hist, Rewinds p Q s hist

/-- What happens to a chain: `push_block`, also at the end of `generate_block`, and
    `pop_block`. -/
inductive Chain.Call (P δ : Type) where
  | push (i : PushCall P δ)
  | pop

variable [DecidableEq δ] [DecidableEq Id]

def Chain.step (p : Params P δ β D U Id) (s : Chain P δ β D U Id) : Call P δ → Chain P δ β D U Id
  | .push i => (s.push p i).state
  | .pop => (s.popBlock p).state

namespace Traced

variable {s : Chain P δ β D U Id}

omit [DecidableEq δ] [DecidableEq Id] in
theorem genesis {d : D} (hd : p.rules.headId d = p.hash.nullId) (hQ : Q d []) :
    Traced p Q (Chain.genesis d) :=
  fun _ => ⟨[], .base hd trivial hQ, Retains.fresh _, rfl, .inr rfl⟩

variable (hp : p.rules.Sound p.hash) (hc : p.states.CollisionFree)
include hp hc

theorem popBlock (h : Traced p Q s) : Traced p Q (s.popBlock p).state := by
  intro hord
  rw [Chain.popBlock_ordered] at hord
  obtain ⟨hist, hr⟩ := h hord
  unfold Chain.popBlock
  split
  · exact ⟨hist, hr⟩
  split
  · exact ⟨hist, hr⟩
  split
  · exact ⟨hist, hr.of_eq rfl rfl rfl⟩
  have hsame : ∀ fork log, Rewinds p Q { s with fork := fork, log := log } hist :=
    fun fork log => hr.of_eq rfl rfl rfl
  rcases (hsame _ _).popUndo hp hc with ⟨_, hpop⟩ | ⟨_, _, hist', _, _, _, hpop, hr'⟩
  · rw [hpop]
    exact ⟨hist, hsame _ _⟩
  · rw [hpop]
    exact ⟨hist', hr'⟩

/-- **Step lemma.** -/
theorem push (hQ : KeptByBlocks p Q) (i : PushCall P δ) (h : Traced p Q s) :
    Traced p Q (s.push p i).state := by
  refine Chain.push_keeps (C := Traced p Q) ?_ ?_ ?_ i h
  · intro t now id b ht hord
    obtain ⟨hist, hr⟩ := ht (Chain.ordered_of_apply hord)
    exact hr.applyStored hp hc hQ hord
  · intro t f ht hord
    obtain ⟨hist, hr⟩ := ht hord
    exact ⟨hist, hr.of_eq rfl rfl rfl⟩
  · intro t ht
    exact ht.popBlock hp hc

/-- **Every run** from genesis whose sessions are all started in order ends in a database
    that is related to its blocks. -/
theorem related (hQ : KeptByBlocks p Q) {d : D} (hd : p.rules.headId d = p.hash.nullId)
    (hgenesis : Q d []) (hord : s.ordered = true)
    (h : ReachableUnder (· = Chain.genesis d) (fun _ _ => True) (Chain.step p) s) :
    Q s.db s.applied := by
  have hs : Traced p Q s := by
    refine h.invariant (Traced p Q) ?_ fun s c hs _ => ?_
    · rintro s rfl
      exact genesis hd hgenesis
    · cases c with
      | push i => exact hs.push hp hc hQ i
      | pop => exact hs.popBlock hp hc
  obtain ⟨hist, hr⟩ := hs hord
  exact hr.steps.related hQ

end Traced

end HyperExchange.Blocks
