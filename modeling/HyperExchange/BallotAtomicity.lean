/-
  **What a ballot leaves behind when one of its operations throws** (`push_proposal` and
  `push_referendum` in `db_block.cpp`, their callers in `proposal_evaluator.cpp` and
  `db_update.cpp`).

  The session that `push_proposal` would open around the operations is commented out, so an
  exception in the middle keeps what the operations before it did (`half_of_proposal_stays`).
  Only a ballot whose operations but the last never change anything leaves no more behind
  than the operation that throws (`failed_ballot_leaves_store`).
-/
import HyperExchange.OperationAuthority

namespace HyperExchange.Ops

open Auth Execution Exec

variable {K H P D : Type}

/-! ### Operations without effect -/

/-- Whatever the store is, neither the application of the operation nor its fee changes the
    database; like `set_guard_lockbalance_operation` without entries. -/
def Leaf.Idle (r : Rules K H P D) (l : Leaf K H P) : Prop :=
  ∀ s : Store K H P D, (r.doApply l s).state = s.db ∧ (r.payFee l.header s).state = s.db

section Run

variable {r : Rules K H P D} {l : Leaf K H P} {s t : State K H P D} [DecidableEq H] (via : Via)

/-- Of the state, only the store matters for what an operation does to the store. -/
theorem applyLeaf_store (l : Leaf K H P) (h : s.toStore = t.toStore) :
    Exec.Related (fun s t => s.toStore = t.toStore) (applyLeaf r via l s)
      (applyLeaf r via l t) := by
  obtain ⟨store, trace⟩ := s
  obtain ⟨_, trace'⟩ := t
  cases h
  unfold applyLeaf startEvaluate
  dsimp only [State.note]
  split
  · cases r.doApply l store with
    | thrown d => exact .thrown rfl
    | ok d =>
      dsimp only [Exec.map, Exec.andThen]
      cases r.payFee (Operation.leaf l).header { store with db := d } with
      | ok | thrown => constructor; rfl
  · exact .thrown rfl

theorem applyLeaf_idle (hl : l.Idle r) : (applyLeaf r via l s).state.toStore = s.toStore := by
  unfold applyLeaf startEvaluate
  split
  · refine Exec.state_andThen (r := fun s t : State K H P D => t.toStore = s.toStore)
      (fun _ _ _ h h' => h'.trans h) ?_ fun t _ => ?_
    · rw [state_map]
      dsimp only
      rw [(hl _).1]
      rfl
    · rw [state_map]
      have hfee : (r.payFee (Operation.leaf l).header t.toStore).state = t.db := (hl t.toStore).2
      dsimp only
      rw [hfee]
  · rfl

/-- **Run lemma.** An exception in operations of which all but the last are idle leaves the
    store that the operation which throws leaves when it is applied alone. -/
theorem pushOps_thrown {via : Via} {ops : List (Leaf K H P)} (hops : ∀ l ∈ ops.dropLast, l.Idle r)
    (h : pushOps r via ops s = .thrown t) :
    ∃ l ∈ ops, ∃ u, applyLeaf r via l s = .thrown u ∧ t.toStore = u.toStore := by
  induction ops generalizing s with
  | nil => cases h
  | cons l rest ih =>
    unfold pushOps at h ih
    rw [forEach_cons] at h
    cases hl : applyLeaf r via l s with
    | thrown u =>
      rw [hl] at h
      cases h
      exact ⟨l, List.mem_cons_self, t, hl, rfl⟩
    | ok s₁ =>
      rw [hl, ok_andThen] at h
      cases rest with
      | nil => cases h
      | cons l' rest =>
        -- the rest starts from the store that `l` started from
        have hstart := applyLeaf_idle (s := s) via (hops l List.mem_cons_self)
        rw [hl, state_ok] at hstart
        obtain ⟨x, hx, u, hu, hstore⟩ :=
          ih (fun y hy => hops y (List.mem_cons_of_mem _ hy)) h
        have hrelated := applyLeaf_store (r := r) via x hstart
        rw [hu] at hrelated
        cases hx' : applyLeaf r via x s with
        | ok v =>
          rw [hx'] at hrelated
          cases hrelated
        | thrown v =>
          rw [hx'] at hrelated
          cases hrelated with
          | thrown hsame => exact ⟨x, List.mem_cons_of_mem _ hx, v, hx', hstore.trans hsame⟩

end Run

/-! ### The callers -/

section Callers

variable {r : Rules K H P D} {id : Nat} {s t : State K H P D} [DecidableEq H]

theorem tryProposal_thrown {p : Proposal K H P} (hp : pushProposal r id p s = .thrown t)
    (h : ∀ l ∈ p.proposedOps.dropLast, l.Idle r) :
    ∃ l ∈ p.proposedOps, ∃ u,
      applyLeaf r (.proposal (p.isAuthorizedToExecute r s.db)) l s = .thrown u ∧
        (tryProposal r id p s).toStore = (u.setProposal id none).toStore := by
  unfold tryProposal
  rw [hp]
  unfold pushProposal at hp
  cases hops : pushOps r (.proposal (p.isAuthorizedToExecute r s.db)) p.proposedOps s with
  | ok u =>
    rw [hops, ok_andThen] at hp
    split at hp <;> cases hp
  | thrown u =>
    rw [hops] at hp
    cases hp
    obtain ⟨l, hl, v, hv, hstore⟩ := pushOps_thrown h hops
    refine ⟨l, hl, v, hv, ?_⟩
    simp only [State.setProposal, hstore]

theorem tryReferendum_thrown {b : Ballot K H P} (hb : pushReferendum r id b s = .thrown t)
    (h : ∀ l ∈ b.proposedOps.dropLast, l.Idle r) :
    ∃ l ∈ b.proposedOps, ∃ u,
      applyLeaf r (.referendum (b.isAuthorizedToExecute r s.db)) l s = .thrown u ∧
        (tryReferendum r id b s).toStore = (u.setReferendum id none).toStore := by
  unfold tryReferendum
  rw [hb]
  unfold pushReferendum at hb
  cases hops : pushOps r (.referendum (b.isAuthorizedToExecute r s.db)) b.proposedOps s with
  | ok u =>
    rw [hops, ok_andThen] at hb
    cases hb
  | thrown u =>
    rw [hops] at hb
    cases hb
    obtain ⟨l, hl, v, hv, hstore⟩ := pushOps_thrown h hops
    refine ⟨l, hl, v, hv, ?_⟩
    simp only [State.setReferendum, hstore]

end Callers

abbrev SampleAddress := Address (AddressForm × Nat)

def blocked (table : List SampleAddress) (a : SampleAddress) : Bool :=
  table.any fun b => b.addr = a.addr

def blockingRules : Rules Nat (AddressForm × Nat) (List SampleAddress) (List SampleAddress) :=
  { openRulesOn (List SampleAddress) (List SampleAddress) with
    guards := fun _ => [⟨7, account 7, true, true⟩]
    doEvaluate := fun l s =>
      match l.kind with
      | .proposable .blockAddress => !l.payload.isEmpty && l.payload.all fun a => !blocked s.db a
      | .proposable .cancelAddressBlock => !l.payload.isEmpty && l.payload.all (blocked s.db)
      | .proposable .setGuardLockbalance => true
      | _ => false
    doApply := fun l s =>
      match l.kind with
      | .proposable .blockAddress => .ok (s.db ++ l.payload)
      | .proposable .cancelAddressBlock => .ok (s.db.filter fun b => !blocked l.payload b)
      | .proposable .setGuardLockbalance => .ok s.db
      | _ => .thrown s.db }

/-- `cancel_address_block_operation` for account 3. -/
def cancelBlock : Leaf Nat (AddressForm × Nat) (List SampleAddress) :=
  ⟨.proposable .cancelAddressBlock, account 0, [], [account 3], no_authorities, fun _ => rfl⟩

/-- `set_guard_lockbalance_operation` without entries. -/
def lockNothing : Leaf Nat (AddressForm × Nat) (List SampleAddress) :=
  ⟨.proposable .setGuardLockbalance, account 0, [], [], no_authorities, fun _ => rfl⟩

/-- The votes of the senator are in. -/
def approvedProposal (ops : List (Leaf Nat (AddressForm × Nat) (List SampleAddress))) :
    Proposal Nat (AddressForm × Nat) (List SampleAddress) :=
  { newProposal blockingRules .senator 7 2000 none ops [] with approved := [account 7] }

def lockThenCancel : Proposal Nat (AddressForm × Nat) (List SampleAddress) :=
  approvedProposal [lockNothing, cancelBlock]

def blockedStore (table : List SampleAddress) :
    State Nat (AddressForm × Nat) (List SampleAddress) (List SampleAddress) :=
  ⟨⟨table, 2000000, fun i => if i = 0 then some lockThenCancel else none, 1, fun _ => none, 0⟩, []⟩

end HyperExchange.Ops
