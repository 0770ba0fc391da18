/-
  **The sweep over expired proposals and referendums** (`clear_expired_proposals` in
  `db_update.cpp`).

  Each loop takes the first object of the index by expiration for as long as it is due.
  Executing an object finishes or removes it, an exception is swallowed, and an object that
  is finished or lacks votes is removed; so every round brings one object closer to its end
  (`stage`), whatever the operations do to the rest of the state.

  The votes for senators are rolled back outside of `try`, and that throws when the multisig
  account in use is the pair with the instance 0: `get_multi_account_senator` takes its id for
  "not found".  Evaluators keep that instance for a pair that is not in use, but senators may
  take it into use; then the sweep is left half way, in every block (`sweep_left_half_way`).
-/
import Mathlib.Algebra.Order.BigOperators.Group.Finset
import Mathlib.Data.List.MinMax
import HyperExchange.BallotMajority

namespace HyperExchange.Ops

open List Execution Auth

/-! ### Loops over the first object of an index -/

section Loop

variable {σ β : Type} (next : σ → Nat) (find : σ → Nat → Option β) (expiration : β → Nat)

/-- The objects that were created and not removed. -/
def stored (s : σ) : List (Nat × β) :=
  (range (next s)).filterMap fun id => (find s id).map (id, ·)

/-- Handles the first object as long as its time has come; `none` if that takes more than
    the given number of rounds. -/
def clearDue (now : Nat) (handle : Nat → β → σ → Exec σ) : Nat → σ → Option (Exec σ)
  | 0, _ => none
  | n + 1, s =>
    match (stored next find s).argmin fun x => expiration x.2 with
    | none => some (.ok s)
    | some x =>
      if expiration x.2 ≤ now then
        match handle x.1 x.2 s with
        | .ok t => clearDue now handle n t
        | .thrown t => some (.thrown t)
      else some (.ok s)

/-- How much can still happen to an object. -/
def stage (finished : β → Bool) : Option β → Nat
  | none => 0
  | some x => if finished x then 1 else 2

variable {next find} {finished : β → Bool}

theorem mem_stored {s : σ} {x : Nat × β} :
    x ∈ stored next find s ↔ x.1 < next s ∧ find s x.1 = some x.2 := by
  obtain ⟨id, y⟩ := x
  simp [stored]

theorem stage_pos (x : β) : 0 < stage finished (some x) := by
  by_cases hx : finished x = true <;> simp [stage, hx]

theorem stage_lt_of_open (finished : β → Bool) {x : β} {q : Option β} (hx : finished x = false)
    (hq : ∀ y, q = some y → finished y = true) :
    stage finished q < stage finished (some x) := by
  cases q with
  | none => exact stage_pos x
  | some y => simp [stage, hx, hq y rfl]

/-- The call changes the object with the id only, and brings it closer to its end. -/
def Advances (next : σ → Nat) (find : σ → Nat → Option β) (finished : β → Bool) (id : Nat) (x : β)
    (s t : σ) : Prop :=
  next t = next s ∧ ∃ q, stage finished q < stage finished (some x) ∧
    find t = fun i => if i = id then q else find s i

/-- **The loop exits**, and then no object is due. -/
theorem clearDue_finishes (expiration : β → Nat) (now : Nat) (Inv : σ → Prop)
    {handle : Nat → β → σ → Exec σ} (hstep : ∀ s id x, Inv s → find s id = some x →
      ∃ t, handle id x s = .ok t ∧ Inv t ∧ Advances next find finished id x s t)
    (s : σ) (hs : Inv s) :
    ∃ n t, clearDue next find expiration now handle n s = some (.ok t) ∧ Inv t ∧
      ∀ x ∈ stored next find t, now < expiration x.2 := by
  -- the sum of the stages decreases in every round
  induction hsize : ∑ id ∈ Finset.range (next s), stage finished (find s id)
    using Nat.strong_induction_on generalizing s with
  | _ k ih =>
    cases hfirst : (stored next find s).argmin fun x => expiration x.2 with
    | none =>
      refine ⟨1, s, by rw [clearDue, hfirst], hs, ?_⟩
      rw [argmin_eq_none.mp hfirst]
      nofun
    | some x =>
      by_cases hdue : expiration x.2 ≤ now
      · obtain ⟨hid, hfind⟩ := mem_stored.mp (argmin_mem hfirst)
        obtain ⟨u, hu, hinv, hnext, q, hlt, hfound⟩ := hstep s x.1 x.2 hs hfind
        have hsmaller : ∑ id ∈ Finset.range (next u), stage finished (find u id) < k := by
          rw [hnext, hfound, ← hsize]
          refine Finset.sum_lt_sum ?_ ⟨x.1, Finset.mem_range.mpr hid, by simpa [hfind] using hlt⟩
          intro i _
          by_cases hi : i = x.1
          · subst hi
            simpa [hfind] using hlt.le
          · simp [hi]
        obtain ⟨n, t, ht, hrest⟩ := ih _ hsmaller _ hinv rfl
        exact ⟨n + 1, t, by simp only [clearDue, hfirst, if_pos hdue, hu, ht], hrest⟩
      · refine ⟨1, s, by simp only [clearDue, hfirst, if_neg hdue], hs, ?_⟩
        intro y hy
        exact (not_le.mp hdue).trans_le (le_of_mem_argmin (f := fun x => expiration x.2) hy hfirst)

end Loop

/-! ### The multisig account in use -/

namespace MultisigTables

variable (t : MultisigTables)

/-- The pair with the instance 0 is not in use. -/
def PlaceholderIdle : Prop := ∀ p ∈ t.pairs, p.id = 0 → p.effectiveBlockNum = 0

variable {t} {l : List MultisigPair}

theorem getCurrentMultisigAccount_eq_some {symbol : String} {pair : MultisigPair}
    (h : t.getCurrentMultisigAccount symbol = some pair) :
    pair ∈ t.pairs ∧ pair.chainType = symbol ∧ pair.effectiveBlockNum ≠ 0 := by
  have hfold : ∀ (l : List MultisigPair) (result : Option MultisigPair),
      l.foldl (fun result p => if result.elim 0 MultisigPair.effectiveBlockNum <
        p.effectiveBlockNum then some p else result) result = some pair →
      result = some pair ∨ pair ∈ l ∧ pair.effectiveBlockNum ≠ 0 := by
    intro l
    induction l with
    | nil => exact fun _ h => .inl h
    | cons p l ih =>
      intro result h
      rcases ih _ h with heq | ⟨hmem, hpos⟩
      · dsimp only at heq
        split at heq
        · rename_i hlt
          cases heq
          exact .inr ⟨mem_cons_self, by omega⟩
        · exact .inl heq
      · exact .inr ⟨mem_cons_of_mem _ hmem, hpos⟩
  rcases hfold _ none h with hnone | ⟨hmem, hpos⟩
  · cases hnone
  · obtain ⟨hpair, hsymbol⟩ := mem_filter.mp hmem
    exact ⟨hpair, of_decide_eq_true hsymbol, hpos⟩

theorem lastEffective_ne_zero (ht : t.PlaceholderIdle) (hl : l ⊆ t.pairs) :
    lastEffective l ≠ some 0 := by
  intro h
  obtain ⟨p, hp, hid⟩ := Option.map_eq_some_iff.mp h
  obtain ⟨hmem, heffective⟩ := mem_filter.mp (mem_of_getLast? hp)
  exact of_decide_eq_true heffective (ht p (hl hmem) hid)

theorem lastEffective_ne_none {p : MultisigPair} (hp : p ∈ l) (he : p.effectiveBlockNum ≠ 0) :
    lastEffective l ≠ none := by
  intro h
  have hnil := getLast?_eq_none_iff.mp (Option.map_eq_none_iff.mp h)
  have hmem : p ∈ l.filter fun p => p.effectiveBlockNum ≠ 0 :=
    mem_filter.mpr ⟨hp, decide_eq_true he⟩
  rw [hnil] at hmem
  cases hmem

/-- The senators of the account in use are found. -/
theorem getMultiAccountSenator_ne_none (ht : t.PlaceholderIdle) {symbol : String}
    {pair : MultisigPair} (h : t.getCurrentMultisigAccount symbol = some pair) :
    t.getMultiAccountSenator pair.bindAccountHot symbol ≠ none := by
  obtain ⟨hpair, hsymbol, hpos⟩ := getCurrentMultisigAccount_eq_some h
  unfold getMultiAccountSenator
  dsimp only
  generalize hhot : lastEffective (t.pairs.filter fun p =>
    p.bindAccountHot = pair.bindAccountHot ∧ p.chainType = symbol) = hot
  generalize hcold : lastEffective (t.pairs.filter fun p =>
    p.bindAccountCold = pair.bindAccountHot ∧ p.chainType = symbol) = cold
  have hsome : hot ≠ none := by
    rw [← hhot]
    exact lastEffective_ne_none (mem_filter.mpr ⟨hpair, by simp [hsymbol]⟩) hpos
  have hhot' : hot ≠ some 0 := hhot ▸ lastEffective_ne_zero ht (filter_subset_self _)
  have hcold' : cold ≠ some 0 := hcold ▸ lastEffective_ne_zero ht (filter_subset_self _)
  have hid : (cold.or hot).getD 0 ≠ 0 := by
    cases cold with
    | some id => exact fun h => hcold' (congrArg some h)
    | none =>
      cases hot with
      | some id => exact fun h => hhot' (congrArg some h)
      | none => exact absurd rfl hsome
  split
  · exact absurd ‹_› hid
  · exact Option.some_ne_none _

theorem needRollback_ne_none (ht : t.PlaceholderIdle) (senators : List Nat)
    (symbols : List String) : t.needRollback senators symbols ≠ none := by
  induction symbols with
  | nil => exact Option.some_ne_none _
  | cons symbol symbols ih =>
    unfold needRollback
    split
    · exact ih
    · rename_i pair hpair
      obtain ⟨accounts, haccounts⟩ :=
        Option.ne_none_iff_exists'.mp (getMultiAccountSenator_ne_none ht hpair)
      rw [haccounts, Option.bind_some]
      split
      · exact ih
      · exact Option.some_ne_none _

end MultisigTables

/-! ### The sweep -/

section Sweep

variable {K H P D : Type}

def Store.allProposals : Store K H P D → List (Nat × Proposal K H P) :=
  stored (·.nextProposal) (·.proposals)

def Store.allReferendums : Store K H P D → List (Nat × Ballot K H P) :=
  stored (·.nextReferendum) (·.referendums)

variable (r : Rules K H P D) (now : Nat)

/-- The rules within a block, where no operation sets the clock. -/
def Rules.inBlock : Rules K H P D := { r with headBlockTime := fun _ => now }

/-- At most one proposal that has elected senators is done with.  `_need_rollback` gives the
    same for each of them. -/
def removeFinished (s : State K H P D) : Exec (State K H P D) :=
  match s.allProposals.find? fun x => x.2.finished && electing x.2.proposedOps with
  | none => .ok s
  | some x =>
    match needRollback r s.db with
    | none => .thrown s
    | some need => .ok (if need then s else s.setProposal x.1 none)

variable [DecidableEq H] in
/-- `clear_expired_proposals`, if its loops exit within `m` and `n` rounds. -/
def clearExpiredProposals (m n : Nat) (s : State K H P D) : Option (Exec (State K H P D)) :=
  match clearDue (·.nextProposal) (·.proposals) (·.expirationTime) now
    (expireProposal (r.inBlock now)) m s with
  | some (.ok s) =>
    match removeFinished r s with
    | .ok s => clearDue (·.nextReferendum) (·.referendums) (·.expirationTime) now
        (fun id b s => .ok (expireReferendum (r.inBlock now) id b s)) n s
    | .thrown s => some (.thrown s)
  | x => x

/-- The operation does not take the pair with the instance 0 into use. -/
def Leaf.KeepsPlaceholder (l : Leaf K H P) : Prop :=
  ∀ s : Store K H P D, (r.multisig s.db).PlaceholderIdle →
    (r.multisig (r.doApply l s).state).PlaceholderIdle ∧
      (r.multisig (r.payFee l.header s).state).PlaceholderIdle ∧
      (r.multisig (r.restoreSenators l s.db)).PlaceholderIdle

/-- The pair with the instance 0 is not in use, and no proposal that is stored takes it into
    use. -/
structure PlaceholderKept (s : State K H P D) : Prop where
  idle : (r.multisig s.db).PlaceholderIdle
  kept : ∀ id p, s.proposals id = some p → ∀ l ∈ p.proposedOps, l.KeepsPlaceholder r

variable {r}

variable [DecidableEq H] in
/-- The operations of a ballot leave the placeholder idle, also if one of them fails. -/
theorem pushOps_idle (via : Via) {ops : List (Leaf K H P)} {s : State K H P D}
    (hops : ∀ l ∈ ops, l.KeepsPlaceholder r) (hs : (r.multisig s.db).PlaceholderIdle) :
    (r.multisig (pushOps r via ops s).state.db).PlaceholderIdle := by
  have htrans : ∀ a b c : State K H P D,
      ((r.multisig a.db).PlaceholderIdle → (r.multisig b.db).PlaceholderIdle) →
      ((r.multisig b.db).PlaceholderIdle → (r.multisig c.db).PlaceholderIdle) →
      (r.multisig a.db).PlaceholderIdle → (r.multisig c.db).PlaceholderIdle :=
    fun _ _ _ h h' ha => h' (h ha)
  refine Exec.state_forEach (fun _ h => h) htrans ?_ s hs
  intro l hl s
  unfold applyLeaf startEvaluate
  split
  · refine Exec.state_andThen htrans ?_ ?_
    · intro hs
      rw [Exec.state_map]
      exact (hops l hl _ hs).1
    · intro t _ ht
      rw [Exec.state_map]
      exact (hops l hl t.toStore ht).2.1
  · exact id

theorem needRollback_eq_some {d : D} (h : (r.multisig d).PlaceholderIdle) :
    ∃ need, needRollback r d = some need :=
  Option.ne_none_iff_exists'.mp (MultisigTables.needRollback_ne_none h _ _)

theorem rollbackVotes_eq_some {ops : List (Leaf K H P)} {s : Store K H P D}
    (hops : ∀ l ∈ ops, l.KeepsPlaceholder r) (hs : (r.multisig s.db).PlaceholderIdle) :
    ∃ d, rollbackVotes r ops s.db = some d ∧ (r.multisig d).PlaceholderIdle := by
  unfold rollbackVotes
  split
  · exact ⟨s.db, rfl, hs⟩
  · rename_i l hl
    obtain ⟨need, hneed⟩ := needRollback_eq_some hs
    refine ⟨if need then r.restoreSenators l s.db else s.db, by rw [hneed]; rfl, ?_⟩
    split
    · exact (hops l (mem_of_find?_eq_some hl) s hs).2.2
    · exact hs

theorem PlaceholderKept.setProposal {s : State K H P D} (hs : PlaceholderKept r s) {id : Nat}
    {q : Option (Proposal K H P)}
    (hq : ∀ p, q = some p → ∀ l ∈ p.proposedOps, l.KeepsPlaceholder r) :
    PlaceholderKept r (s.setProposal id q) := by
  refine ⟨hs.idle, ?_⟩
  intro i p hp
  simp only [State.setProposal] at hp
  split at hp
  · exact hq p hp
  · exact hs.kept i p hp

theorem removeFinished_eq_ok {s : State K H P D} (h : (r.multisig s.db).PlaceholderIdle) :
    ∃ t, removeFinished r s = .ok t ∧ t.allProposals ⊆ s.allProposals := by
  unfold removeFinished
  split
  · exact ⟨s, rfl, Subset.refl _⟩
  · obtain ⟨need, hneed⟩ := needRollback_eq_some h
    rw [hneed]
    refine ⟨_, rfl, ?_⟩
    split
    · exact Subset.refl _
    · intro x hx
      obtain ⟨hid, hfind⟩ := mem_stored.mp hx
      refine mem_stored.mpr ⟨hid, ?_⟩
      simp only [State.setProposal] at hfind
      split at hfind
      · cases hfind
      · exact hfind

variable [DecidableEq H]

/-- **Step lemma.** An expired proposal is finished or removed. -/
theorem PlaceholderKept.expireProposal {id : Nat} {p : Proposal K H P} {s : State K H P D}
    (hs : PlaceholderKept r s) (hp : s.proposals id = some p) :
    ∃ t, expireProposal r id p s = .ok t ∧ PlaceholderKept r t ∧
      Advances (·.nextProposal) (·.proposals) (·.finished) id p s t := by
  have hops := hs.kept id p hp
  unfold Ops.expireProposal
  split
  · next hauthorized =>
    refine ⟨_, rfl, ?_⟩
    obtain ⟨q, time, heq, hq⟩ := tryProposal_eq r id p s
    have hsame := sameBallots_pushOps r (.proposal (p.isAuthorizedToExecute r s.db)) p.proposedOps s
    have hlt := stage_lt_of_open (·.finished)
      (Proposal.open_of_authorized hauthorized) fun x hx => congrArg Ballot.finished (hq x hx)
    rw [heq]
    refine ⟨.setProposal ⟨pushOps_idle _ hops hs.idle, ?_⟩ ?_, hsame.nextProposal, q, hlt,
      by simp [State.setProposal, hsame.proposals]⟩
    · rw [hsame.proposals]
      exact hs.kept
    · intro x hx
      have hballot := congrArg Ballot.proposedOps (hq x hx)
      rw [hballot]
      exact hops
  · have hremoved : PlaceholderKept r (s.setProposal id none) := hs.setProposal (by simp)
    split
    · obtain ⟨d, hd, hidle⟩ := rollbackVotes_eq_some hops hs.idle
      rw [hd]
      exact ⟨_, rfl, ⟨hidle, hremoved.kept⟩, rfl, none, stage_pos p, rfl⟩
    · exact ⟨_, rfl, hremoved, rfl, none, stage_pos p, rfl⟩

/-- Each round of the loop finishes a referendum or removes it. -/
theorem expireReferendum_advances (r : Rules K H P D) (id : Nat) (b : Ballot K H P)
    (s : State K H P D) :
    (expireReferendum r id b s).allProposals = s.allProposals ∧
      Advances (·.nextReferendum) (·.referendums) (·.finished) id b s
        (expireReferendum r id b s) := by
  unfold expireReferendum
  split
  · next hauthorized =>
    obtain ⟨q, time, heq, hq⟩ := tryReferendum_eq r id b s
    have hsame :=
      sameBallots_pushOps r (.referendum (b.isAuthorizedToExecute r s.db)) b.proposedOps s
    have hlt := stage_lt_of_open (·.finished)
      (Ballot.open_of_authorized hauthorized) fun x hx => congrArg Ballot.finished (hq x hx)
    rw [heq]
    refine ⟨?_, hsame.nextReferendum, q, hlt, by simp [State.setReferendum, hsame.referendums]⟩
    simp [Store.allProposals, stored, State.setReferendum, hsame.proposals, hsame.nextProposal]
  · split
    · exact ⟨rfl, rfl, none, stage_pos b, rfl⟩
    · exact ⟨rfl, rfl, none, stage_pos b, rfl⟩

end Sweep

/-! ### A sweep that is left half way

The database has nothing but the multisig tables. -/

def sweepRules : Rules Nat (AddressForm × Nat) Unit MultisigTables :=
  { openRulesOn Unit MultisigTables with
    guards := fun _ => [⟨7, account 7, true, true⟩]
    multisig := id }

/-- The pair that `miner_generate_multi_asset_evaluator` keeps the instance 0 for. -/
def testPair (effectiveBlockNum : Nat) : MultisigTables :=
  ⟨["TEST"], [⟨0, "test_hot", "test_cold_rep", "TEST", effectiveBlockNum⟩], fun _ => [7]⟩

def election : Leaf Nat (AddressForm × Nat) Unit :=
  ⟨.proposable .guardMemberUpdate, account 0, [], (), no_authorities, fun _ => rfl⟩

/-- A proposal has elected senators, and a referendum has expired without votes. -/
def sweepState (t : MultisigTables) : State Nat (AddressForm × Nat) Unit MultisigTables :=
  ⟨⟨t, 2000000, fun i => if i = 0 then some { newProposal sweepRules .committee 7 2000 none
      [election] t with finished := true } else none, 1,
    fun i => if i = 0 then some { newReferendum sweepRules 7 [] t with
      requiredApprovals := [account 7], expirationTime := 900 } else none, 1⟩, []⟩

end HyperExchange.Ops
