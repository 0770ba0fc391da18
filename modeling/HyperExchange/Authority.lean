/-
  **The authority check of a transaction** (`sign_state` and `verify_authority` in
  `libraries/chain/protocol/transaction.cpp`).

  A signing key owns the five addresses that are made from it.  Another address can be
  signed for if a multisignature is registered under it and enough of the listed keys have
  signed.  Both look-ups go by the hash of the address alone.  The keys that `sign_state`
  marks as used decide whether there are signatures that nobody asked for, but not whether an
  address counts as signed (`signedByAddress_fst`, `verifyAuthority_sound`).
-/
import HyperExchange.Address

namespace HyperExchange.Auth

variable {K H : Type}

/-! ### Keys and authorities -/

/-- The ways an address is made from a key: the `pts_address` of its long or short form
    under version 56 or 0, or the key itself. -/
inductive AddressForm where
  | long56 | short56 | long0 | short0 | plain
deriving DecidableEq, Repr

def AddressForm.all : List AddressForm := [.long56, .short56, .long0, .short0, .plain]

theorem AddressForm.mem_all (f : AddressForm) : f ∈ all := by
  cases f <;> decide

abbrev KeyHash (K H : Type) := AddressForm → K → H

def KeyHash.CollisionFree (hash : KeyHash K H) : Prop :=
  ∀ f g k k', hash f k = hash g k' → f = g ∧ k = k'

/-- `authority` -/
structure Authority (K H : Type) where
  weightThreshold : Nat
  accountAuths : List (Nat × Nat)
  keyAuths : List (K × Nat)
  addressAuths : List (Address H × Nat)

/-- `authority(1, a, 1)` -/
def Authority.single (a : Address H) : Authority K H := ⟨1, [], [], [(a, 1)]⟩

/-- What is registered under an address: `multisignatures` of its core balance.  The
    listed keys are a `flat_set`. -/
structure Multisig (K : Type) where
  required : Nat
  pubs : List K
  nodup : pubs.Nodup

/-- What the check reads. -/
structure Context (K H : Type) where
  hash : KeyHash K H
  multisig : H → Option (Multisig K)
  isBlockedAddress : Address H → Bool
  isWhiteOps : Address H → Nat → Bool

/-! ### `sign_state` -/

/-- `provided_signatures`: the signing keys and the keys marked as used. -/
structure SignState (K : Type) where
  provided : List K
  used : List K

namespace SignState

def mark (k : K) (s : SignState K) : SignState K := { s with used := k :: s.used }

variable [DecidableEq H]

/-- `provided_address_sigs->find`: the last key that owns the hash. -/
def owner (hash : KeyHash K H) (provided : List K) (h : H) : Option K :=
  provided.reverse.find? fun k => AddressForm.all.any fun f => hash f k = h

def listedSigned (hash : KeyHash K H) (provided : List K) (k : K) : Bool :=
  AddressForm.all.any fun f => (owner hash provided (hash f k)).isSome

def signedByAddress (c : Context K H) (a : Address H) (s : SignState K) : Bool × SignState K :=
  match owner c.hash s.provided a.addr with
  | some k => (true, s.mark k)
  | none =>
    match c.multisig a.addr with
    | none => (false, s)
    | some m =>
      if m.required = 0 then (false, s)
      else
        let signed := m.pubs.filter (listedSigned c.hash s.provided)
        (decide (m.required ≤ signed.length), { s with used := signed ++ s.used })

variable [DecidableEq K]

def signedByKey (k : K) (s : SignState K) : Bool × SignState K :=
  if k ∈ s.provided ∨ k ∈ s.used then (true, s.mark k) else (false, s)

/-- `GRAPHENE_TEMP_ACCOUNT` -/
def tempAccount : Nat := 4

/-- Accounts have no authority of their own here (`get_active` is null); only the temp
    account is approved from the start. -/
def approvedAccount (id : Nat) (s : SignState K) : Bool × SignState K :=
  (decide (id = tempAccount), s)

/-- One loop of `check_authority`: whether the threshold is reached, and the weight. -/
def addWeights {α : Type} (threshold : Nat) (signed : α → SignState K → Bool × SignState K) :
    List (α × Nat) → Nat → SignState K → (Bool × Nat) × SignState K
  | [], total, s => ((false, total), s)
  | (x, w) :: l, total, s =>
    let r := signed x s
    if r.1 then
      let total := (total + w) % 2 ^ 32
      if threshold ≤ total then ((true, total), r.2) else addWeights threshold signed l total r.2
    else addWeights threshold signed l total r.2

def checkAuthority (c : Context K H) (auth : Authority K H) (s : SignState K) :
    Bool × SignState K :=
  let keys := addWeights auth.weightThreshold signedByKey auth.keyAuths 0 s
  if keys.1.1 then (true, keys.2)
  else
    let addresses :=
      addWeights auth.weightThreshold (signedByAddress c) auth.addressAuths keys.1.2 keys.2
    if addresses.1.1 then (true, addresses.2)
    else
      let accounts := addWeights auth.weightThreshold approvedAccount auth.accountAuths
        addresses.1.2 addresses.2
      (accounts.1.1 || auth.weightThreshold ≤ accounts.1.2, accounts.2)

end SignState

/-! ### `verify_authority` -/

/-- What is read of an operation. -/
structure OpAuthorities (K H : Type) where
  which : Nat
  required : List (Authority K H)

variable (c : Context K H)

/-- No address of the authority is blocked, unless it is white listed for the operation. -/
def notBlocked (which : Nat) (auth : Authority K H) : Bool :=
  auth.addressAuths.all fun a => c.isWhiteOps a.1 which || !c.isBlockedAddress a.1

variable [DecidableEq K] [DecidableEq H]

def verifyEach (which : Nat) : List (Authority K H) → SignState K → Option (SignState K)
  | [], s => some s
  | auth :: l, s =>
    let r := s.checkAuthority c auth
    if r.1 && notBlocked c which auth then verifyEach which l r.2 else none

def verifyOps : List (OpAuthorities K H) → SignState K → Option (SignState K)
  | [], s => some s
  | op :: l, s => (verifyEach c op.which op.required s).bind (verifyOps l)

/-- Whether the check passes: the authorities are there, there is at least one, and no
    signature is left over. -/
def verifyAuthority (ops : List (OpAuthorities K H)) (keys : List K) : Bool :=
  (verifyOps c ops ⟨keys, []⟩).any fun s =>
    ops.any (fun op => !op.required.isEmpty) && s.provided.all fun k => k ∈ s.used

/-! ### What depends on the signing keys alone -/

section SigningKeys

def signs (keys : List K) (a : Address H) : Bool := (SignState.signedByAddress c a ⟨keys, []⟩).1

def satisfied (keys : List K) (auth : Authority K H) : Bool :=
  (SignState.checkAuthority c auth ⟨keys, []⟩).1

variable {c} {s t : SignState K}

namespace SignState

omit [DecidableEq K] in
theorem signedByAddress_fst (a : Address H) (s : SignState K) :
    (signedByAddress c a s).1 = signs c s.provided a := by
  unfold signs signedByAddress
  cases owner c.hash s.provided a.addr with
  | some k => rfl
  | none =>
    cases c.multisig a.addr with
    | none => rfl
    | some m =>
      simp only
      split <;> rfl

omit [DecidableEq K] in
theorem signedByAddress_provided (a : Address H) (s : SignState K) :
    (signedByAddress c a s).2.provided = s.provided := by
  unfold signedByAddress
  cases owner c.hash s.provided a.addr with
  | some k => rfl
  | none =>
    cases c.multisig a.addr with
    | none => rfl
    | some m =>
      simp only
      split <;> rfl

omit [DecidableEq H] in
theorem signedByKey_provided (k : K) (s : SignState K) :
    (signedByKey k s).2.provided = s.provided := by
  unfold signedByKey
  split <;> rfl

section AddWeights

omit [DecidableEq K]

variable {α : Type} {signed : α → SignState K → Bool × SignState K} {threshold : Nat}

theorem addWeights_provided (hsigned : ∀ x s, (signed x s).2.provided = s.provided)
    (l : List (α × Nat)) (total : Nat) (s : SignState K) :
    (addWeights threshold signed l total s).2.provided = s.provided := by
  induction l generalizing total s with
  | nil => rfl
  | cons x l ih =>
    simp only [addWeights]
    split
    · split
      · exact hsigned x.1 s
      · rw [ih, hsigned]
    · rw [ih, hsigned]

theorem addWeights_fst (hsigned : ∀ x s, (signed x s).2.provided = s.provided)
    (hsame : ∀ x s t, s.provided = t.provided → (signed x s).1 = (signed x t).1)
    (l : List (α × Nat)) (total : Nat) (hst : s.provided = t.provided) :
    (addWeights threshold signed l total s).1 = (addWeights threshold signed l total t).1 := by
  induction l generalizing total s t with
  | nil => rfl
  | cons x l ih =>
    have hnext : (signed x.1 s).2.provided = (signed x.1 t).2.provided := by
      rw [hsigned, hsigned, hst]
    simp only [addWeights, hsame x.1 s t hst]
    split
    · split
      · rfl
      · exact ih _ hnext
    · exact ih _ hnext

end AddWeights

theorem checkAuthority_provided (auth : Authority K H) (s : SignState K) :
    (checkAuthority c auth s).2.provided = s.provided := by
  have hkeys : (addWeights auth.weightThreshold signedByKey auth.keyAuths 0 s).2.provided =
      s.provided := addWeights_provided signedByKey_provided _ _ _
  unfold checkAuthority
  simp only
  split
  · exact hkeys
  · split
    · rw [addWeights_provided signedByAddress_provided, hkeys]
    · rw [addWeights_provided (fun _ _ => rfl), addWeights_provided signedByAddress_provided, hkeys]

/-- Without keys of its own, an authority is satisfied or not by the signing keys. -/
theorem checkAuthority_fst {auth : Authority K H} (hauth : auth.keyAuths = [])
    (s : SignState K) : (checkAuthority c auth s).1 = satisfied c s.provided auth := by
  have haddresses : (addWeights auth.weightThreshold (signedByAddress c) auth.addressAuths 0 s).1 =
      (addWeights auth.weightThreshold (signedByAddress c) auth.addressAuths 0
        ⟨s.provided, []⟩).1 := by
    refine addWeights_fst signedByAddress_provided ?_ _ _ rfl
    intro a s t hst
    rw [signedByAddress_fst, signedByAddress_fst, hst]
  unfold satisfied checkAuthority
  simp only [hauth, addWeights, Bool.false_eq_true, if_false, haddresses]
  split
  · rfl
  · refine congrArg (fun r : Bool × Nat => r.1 || decide (auth.weightThreshold ≤ r.2)) ?_
    refine addWeights_fst (fun _ _ => rfl) (fun _ _ _ _ => rfl) _ _ ?_
    rw [addWeights_provided signedByAddress_provided, addWeights_provided signedByAddress_provided]

theorem satisfied_single (keys : List K) (a : Address H) :
    satisfied c keys (.single a) = signs c keys a := by
  unfold satisfied signs checkAuthority
  simp only [Authority.single, addWeights, Bool.false_eq_true, if_false]
  cases (signedByAddress c a ⟨keys, []⟩).1 <;> rfl

end SignState

/-- **What the check guarantees**: each authority of each operation was satisfied at some
    point, and has no blocked address that is not white listed. -/
theorem verifyEach_sound {which : Nat} {l : List (Authority K H)}
    (h : verifyEach c which l s = some t) :
    t.provided = s.provided ∧ ∀ auth ∈ l, notBlocked c which auth = true ∧
      ∃ u : SignState K, u.provided = s.provided ∧ (u.checkAuthority c auth).1 = true := by
  induction l generalizing s with
  | nil =>
    cases h
    exact ⟨rfl, nofun⟩
  | cons first l ih =>
    simp only [verifyEach] at h
    split at h
    · next hok =>
      rw [Bool.and_eq_true] at hok
      have hprovided := SignState.checkAuthority_provided (c := c) first s
      obtain ⟨ht, hrest⟩ := ih h
      refine ⟨ht.trans hprovided, List.forall_mem_cons.mpr ⟨⟨hok.2, s, rfl, hok.1⟩, ?_⟩⟩
      rwa [← hprovided]
    · cases h

variable {ops : List (OpAuthorities K H)}

theorem verifyOps_sound (h : verifyOps c ops s = some t) :
    t.provided = s.provided ∧ ∀ op ∈ ops, ∀ auth ∈ op.required,
      notBlocked c op.which auth = true ∧
        ∃ u : SignState K, u.provided = s.provided ∧ (u.checkAuthority c auth).1 = true := by
  induction ops generalizing s with
  | nil =>
    cases h
    exact ⟨rfl, nofun⟩
  | cons first ops ih =>
    obtain ⟨s₁, hfirst, hrest⟩ := Option.bind_eq_some_iff.mp h
    obtain ⟨h₁, hauths⟩ := verifyEach_sound hfirst
    obtain ⟨ht, hops⟩ := ih hrest
    refine ⟨ht.trans h₁, List.forall_mem_cons.mpr ⟨hauths, ?_⟩⟩
    rwa [← h₁]

theorem verifyAuthority_sound {keys : List K}
    (h : verifyAuthority c ops keys = true) {op : OpAuthorities K H} (hop : op ∈ ops)
    {auth : Authority K H} (hauth : auth ∈ op.required) (hkeys : auth.keyAuths = []) :
    satisfied c keys auth = true ∧ notBlocked c op.which auth = true := by
  unfold verifyAuthority at h
  cases ht : verifyOps c ops ⟨keys, []⟩ with
  | none =>
    rw [ht] at h
    cases h
  | some t =>
    obtain ⟨hblocked, u, hu, hchecked⟩ := (verifyOps_sound ht).2 op hop auth hauth
    rw [SignState.checkAuthority_fst hkeys, hu] at hchecked
    exact ⟨hchecked, hblocked⟩

end SigningKeys

end HyperExchange.Auth
