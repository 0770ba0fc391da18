/-
  **Where two branches fork** (`fork_database::fetch_branch_from`).

  The first two loops bring both branches to one height, the third goes down on both until
  the predecessors are the same.  Numbers go down by one along a link, so two branches that
  meet in one block are at the same height there, and the same from there on.  So the third
  loop cannot stop above the children of the common ancestor, and it is the highest one.
-/
import HyperExchange.FailedPush

namespace HyperExchange.Blocks

open List Option

variable {P δ : Type}

namespace ForkDatabase

/-- The links lead from `x` down to `a`, through the items of the list. -/
inductive Descends (f : ForkDatabase P δ) : ForkItem P δ → List (ForkItem P δ) → ForkItem P δ → Prop
  | stop (x : ForkItem P δ) : Descends f x [x] x
  | step {x p a : ForkItem P δ} {l : List (ForkItem P δ)} (link : f.lock x.prev = some p)
      (rest : Descends f p l a) : Descends f x (x :: l) a

variable {h : Hash P δ} {f : ForkDatabase P δ} {x y z a b p : ForkItem P δ}
  {l l' : List (ForkItem P δ)}

theorem Tidy.num_lock (ht : f.Tidy h) (hx : x ∈ f.items) (hl : f.lock x.prev = some p) :
    p ∈ f.items ∧ p.block.num + 1 = x.block.num := by
  refine ⟨(lock_eq_some hl).1, ?_⟩
  have hnum : p.block.num = x.block.previous.num := congrArg BlockId.num (ht.id_lock hx hl)
  rw [hnum]
  rfl

namespace Descends

theorem head_mem (hd : Descends f x l a) : x ∈ l := by
  cases hd with
  | stop => exact mem_singleton_self x
  | step => exact mem_cons_self

theorem num_le (ht : f.Tidy h) (hx : x ∈ f.items) (hd : Descends f x l a) :
    a.block.num ≤ x.block.num := by
  induction hd with
  | stop => exact le_refl _
  | step hl _ ih =>
    obtain ⟨hp, hnum⟩ := ht.num_lock hx hl
    have := ih hp
    omega

theorem of_mem (hx : x ∈ f.items) (hd : Descends f x l a) (hz : z ∈ l) :
    z ∈ f.items ∧ ∃ l', Descends f z l' a := by
  induction hd with
  | stop x =>
    obtain rfl := mem_singleton.mp hz
    exact ⟨hx, _, .stop z⟩
  | step hl hrest ih =>
    rcases mem_cons.mp hz with rfl | hz
    · exact ⟨hx, _, .step hl hrest⟩
    · exact ih (lock_eq_some hl).1 hz

/-- Links lead one way, so what lies on the way to a lower item is passed. -/
theorem mem_of_num_le (ht : f.Tidy h) (hx : x ∈ f.items) (hd : Descends f x l a)
    (hz : Descends f x l' z) (hnum : a.block.num ≤ z.block.num) : z ∈ l := by
  induction hz generalizing l with
  | stop => exact hd.head_mem
  | step hl hrest ih =>
    obtain ⟨hp, hpnum⟩ := ht.num_lock hx hl
    have hle := hrest.num_le ht hp
    cases hd with
    | stop => omega
    | step hl' hd =>
      cases hl.symm.trans hl'
      exact mem_cons_of_mem _ (ih hp hd hnum)

variable (hc : h.CollisionFree) (ht : f.Tidy h)

include hc ht

/-- Ways down from one block lead to one block of each number. -/
theorem same_end (hx : x ∈ f.items) (hy : y ∈ f.items) (hd : Descends f x l a)
    (hd' : Descends f y l' b) (hid : h.id x.block = h.id y.block)
    (hab : a.block.num = b.block.num) : h.id a.block = h.id b.block := by
  induction hd generalizing y l' with
  | stop x =>
    have hnum : x.block.num = y.block.num := congrArg BlockId.num hid
    cases hd' with
    | stop => exact hid
    | step hl hrest =>
      obtain ⟨hq, hqnum⟩ := ht.num_lock hy hl
      have := hrest.num_le ht hq
      omega
  | step hl hrest ih =>
    obtain ⟨hp, hpnum⟩ := ht.num_lock hx hl
    cases hd' with
    | stop =>
      have := hrest.num_le ht hp
      have : (h.id _).num = (h.id _).num := congrArg BlockId.num hid
      simp only [Hash.id] at this
      omega
    | step hl' hrest' =>
      refine ih hp (lock_eq_some hl').1 hrest' ?_ hab
      rw [ht.id_lock hx hl, ht.id_lock hy hl', hc.id_injective hid]

variable [DecidableEq δ]

omit hc [DecidableEq δ] in
/-- The first two loops. -/
theorem descend_eq (num : Nat) {n : Nat} (hx : x ∈ f.items) (hd : Descends f x l a)
    (hnum : a.block.num ≤ num) (hn : x.block.num ≤ n) :
    ∃ c x' l', f.descend num n x = some (c, x') ∧ l = c ++ l' ∧ Descends f x' l' a ∧
      x' ∈ f.items ∧ x'.block.num = min x.block.num num := by
  induction hd generalizing n with
  | stop x =>
    refine ⟨[], x, _, ?_, rfl, .stop x, hx, by omega⟩
    cases n with
    | zero => rfl
    | succ n => rw [descend, if_neg (by omega)]
  | step hl hrest ih =>
    obtain ⟨hp, hpnum⟩ := ht.num_lock hx hl
    cases n with
    | zero => omega
    | succ n =>
      rw [descend]
      split
      · obtain ⟨c, x', l', hdescend, rfl, hd, hx', hmin⟩ := ih hp (n := n) hnum (by omega)
        refine ⟨_ :: c, x', l', ?_, rfl, hd, hx', by omega⟩
        rw [hl, bind_some, hdescend, map_some]
      · exact ⟨[], _, _, rfl, rfl, .step hl hrest, hx, by omega⟩

/-- The third loop. -/
theorem descendBoth_eq {n : Nat} (hx : x ∈ f.items) (hy : y ∈ f.items) (hd : Descends f x l a)
    (hd' : Descends f y l' b) (hparent : a.block.previous = b.block.previous)
    (hab : h.id a.block ≠ h.id b.block) (hnum : x.block.num = y.block.num)
    (hn : x.block.num ≤ n) : f.descendBoth n x y = some (l, l') := by
  have hend : a.block.num = b.block.num := congrArg (·.num + 1) hparent
  induction hd generalizing y l' n with
  | stop x =>
    cases n with
    | zero => exact absurd hn (by simp [Block.num])
    | succ n =>
      cases hd' with
      | stop => rw [descendBoth, if_pos hparent]
      | step hl hrest =>
        obtain ⟨hq, hqnum⟩ := ht.num_lock hy hl
        have := hrest.num_le ht hq
        omega
  | step hl hrest ih =>
    obtain ⟨hp, hpnum⟩ := ht.num_lock hx hl
    cases n with
    | zero => omega
    | succ n =>
      cases hd' with
      | stop =>
        have := hrest.num_le ht hp
        omega
      | step hl' hrest' =>
        obtain ⟨hq, hqnum⟩ := ht.num_lock hy hl'
        have hne : ¬ _ = _ := fun hprev => hab (same_end hc ht hp hq hrest hrest'
          ((ht.id_lock hx hl).trans (hprev.trans (ht.id_lock hy hl').symm)) hend)
        rw [descendBoth, if_neg hne, hl, bind_some, hl', bind_some,
          ih hp hq hrest' hparent hab (by omega) (by omega) hend, map_some]

end Descends

variable [DecidableEq δ]

/-- **The fork point.**  If the links lead from two indexed blocks down to different blocks
    with the same parent, `fetch_branch_from` returns the two ways; they have no block in
    common, and every common ancestor lies below their ends. -/
theorem fetchBranchFrom_finds_fork (hc : h.CollisionFree) (ht : f.Tidy h)
    {first second : BlockId δ} (hx : f.findId h first = some x) (hy : f.findId h second = some y)
    (hd : Descends f x l a) (hd' : Descends f y l' b)
    (hparent : a.block.previous = b.block.previous) (hab : h.id a.block ≠ h.id b.block) :
    f.fetchBranchFrom h first second = some (l, l') ∧
      (∀ u ∈ l, ∀ v ∈ l', h.id u.block ≠ h.id v.block) ∧
      ∀ {c d z}, Descends f x c z → Descends f y d z → z.block.num < a.block.num := by
  have hxi : x ∈ f.items := mem_items.mpr (.inl (findId_eq_some hx).1)
  have hyi : y ∈ f.items := mem_items.mpr (.inl (findId_eq_some hy).1)
  have hend : a.block.num = b.block.num := congrArg (·.num + 1) hparent
  have hdisjoint : ∀ u ∈ l, ∀ v ∈ l', h.id u.block ≠ h.id v.block := by
    intro u hu v hv huv
    obtain ⟨hui, _, hud⟩ := hd.of_mem hxi hu
    obtain ⟨hvi, _, hvd⟩ := hd'.of_mem hyi hv
    exact hab (Descends.same_end hc ht hui hvi hud hvd huv hend)
  refine ⟨?_, hdisjoint, fun {c d z} hz hz' => ?_⟩
  · have hyb := hd'.num_le ht hyi
    obtain ⟨c, x', m, hfirst, rfl, hm, hx', hnum⟩ :=
      hd.descend_eq ht y.block.num hxi (by omega) (le_refl _)
    have hxa := hm.num_le ht hx'
    obtain ⟨c', y', m', hsecond, rfl, hm', hy', hnum'⟩ :=
      hd'.descend_eq ht x'.block.num hyi (by omega) (le_refl _)
    have hboth := Descends.descendBoth_eq hc ht hx' hy' hm hm' hparent hab (by omega) (le_refl _)
    rw [fetchBranchFrom, hx, bind_some, hy, bind_some, hfirst, bind_some, hsecond, bind_some,
      hboth, map_some]
  · by_contra hle
    have hmem := hd.mem_of_num_le ht hxi hz (by omega)
    have hmem' := hd'.mem_of_num_le ht hyi hz' (by omega)
    exact hdisjoint z hmem z hmem' rfl

def grow (l : List NumberBlock) : ForkDatabase Nat (List Nat) :=
  l.foldl (fun f b => (f.pushBlock plainHash b).getD f) empty

theorem tidy_grow (l : List NumberBlock) : (grow l).Tidy plainHash := by
  refine foldlRecOn l _ (tidy_empty plainHash) fun f ht b _ => ?_
  cases hp : f.pushBlock plainHash b with
  | none => exact ht
  | some f' => exact ht.pushBlock hp

theorem fork_of_siblings_is_found :
    (grow [a1, a2, b2, b3]).fetchBranchFrom plainHash (plainHash.id b3) (plainHash.id a2) =
      some ([⟨3, b3, some 2, false⟩, ⟨2, b2, some 0, false⟩], [⟨1, a2, some 0, false⟩]) :=
  And.left (fetchBranchFrom_finds_fork (h := plainHash) plainParams_sound.hash (tidy_grow _)
    (by rfl) (by rfl) (.step (by rfl) (.stop _)) (.stop _) (by rfl) (by decide))

end ForkDatabase

end HyperExchange.Blocks
