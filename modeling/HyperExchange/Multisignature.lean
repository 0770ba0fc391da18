/-
  **Multisignature addresses** (`account_create_multisignature_address_evaluator` in
  `libraries/chain/account_evaluator.cpp`).

  The address is made from the first listed key, moved by the hashes of all listed keys and
  of the number of signatures required.  Only the version byte tells it from the ordinary
  address of that key, and `sign_state` looks addresses up by hash; who knows the secret of
  the first listed key knows that of the derived key, too.  Without a signature of it the
  address needs the listed keys (`multisig_needs_listed_keys`).
-/
import HyperExchange.Authority
import HyperExchange.Execution

namespace HyperExchange.Auth

open Execution Option

variable {K T H : Type}

/-- `fc::ecc::public_key` as far as it is used here: `add` moves a key by a digest, and
    throws if there is no such key. -/
structure KeyScheme (K T H : Type) where
  hash : KeyHash K H
  add : K → T → Option K
  hashKey : K → T
  hashRequired : Nat → T

namespace KeyScheme

variable (sch : KeyScheme K T H)

def addAll (k : K) : List K → Option K
  | [] => some k
  | x :: l => (sch.add k (sch.hashKey x)).bind fun k => addAll k l

def derivedKey (pubs : List K) (required : Nat) : Option K :=
  pubs.head?.bind fun k =>
    (sch.addAll k pubs).bind fun k => sch.add k (sch.hashRequired required)

end KeyScheme

/-- `account_create_multisignature_address_operation` -/
structure CreateMultisignature (K H : Type) where
  multisignature : Address H
  listed : Multisig K

abbrev Registry (K H : Type) := H → Option (Multisig K)

section Registration

variable [DecidableEq H] (sch : KeyScheme K T H)

namespace CreateMultisignature

def validate (op : CreateMultisignature K H) : Bool :=
  0 < op.listed.required && op.listed.required ≤ op.listed.pubs.length

def doEvaluate (r : Registry K H) (op : CreateMultisignature K H) : Bool :=
  (op.listed.pubs.length ≤ 15 && 1 < op.listed.pubs.length) &&
    (op.listed.required ≤ op.listed.pubs.length && 0 < op.listed.required) &&
    (r op.multisignature.addr).isNone &&
    (sch.derivedKey op.listed.pubs op.listed.required).any fun k =>
      op.multisignature = ⟨Address.multisig, sch.hash .plain k⟩

def doApply (r : Registry K H) (op : CreateMultisignature K H) : Registry K H := fun h =>
  if h = op.multisignature.addr then some op.listed else r h

end CreateMultisignature

/-- An operation, and whether it is evaluated: `if_evluate` says no up to the block
    `HX_CHECK_POINT_BLOCK`. -/
structure Registering (K H : Type) where
  op : CreateMultisignature K H
  evaluated : Bool

def Registry.step (r : Registry K H) (i : Registering K H) : Registry K H :=
  if i.op.validate && (!i.evaluated || i.op.doEvaluate sch r) then i.op.doApply r else r

end Registration

/-! ### Signing -/

section Signing

variable [DecidableEq H] {hash : KeyHash K H} {keys : List K}

theorem owner_isSome {h : H} :
    (SignState.owner hash keys h).isSome = true ↔ ∃ k ∈ keys, ∃ f, hash f k = h := by
  simp only [SignState.owner, List.find?_isSome, List.mem_reverse, List.any_eq_true,
    decide_eq_true_eq]
  constructor
  · rintro ⟨k, hk, f, _, hf⟩
    exact ⟨k, hk, f, hf⟩
  · rintro ⟨k, hk, f, hf⟩
    exact ⟨k, hk, f, f.mem_all, hf⟩

/-- Without collisions, an address of a key is only owned by that key. -/
theorem owner_hash_isSome (hfree : hash.CollisionFree) (f : AddressForm) (k : K) :
    (SignState.owner hash keys (hash f k)).isSome = true ↔ k ∈ keys := by
  rw [owner_isSome]
  constructor
  · rintro ⟨k', hk', g, hg⟩
    rw [(hfree g f k' k hg).2] at hk'
    exact hk'
  · intro hk
    exact ⟨k, hk, f, rfl⟩

theorem listedSigned_iff (hfree : hash.CollisionFree) (k : K) :
    SignState.listedSigned hash keys k = true ↔ k ∈ keys := by
  simp only [SignState.listedSigned, List.any_eq_true, owner_hash_isSome hfree]
  constructor
  · rintro ⟨_, _, hk⟩
    exact hk
  · intro hk
    exact ⟨.plain, AddressForm.plain.mem_all, hk⟩

variable [DecidableEq K]

def Multisig.signedCount (m : Multisig K) (keys : List K) : Nat :=
  (m.pubs.filter fun k => k ∈ keys).length

/-- A registered address is signed for by a key that owns it or by enough listed keys. -/
theorem signs_registered {c : Context K H} (hfree : c.hash.CollisionFree) {a : Address H}
    {m : Multisig K} (hm : c.multisig a.addr = some m) (hrequired : 0 < m.required) :
    signs c keys a = true ↔
      (SignState.owner c.hash keys a.addr).isSome = true ∨ m.required ≤ m.signedCount keys := by
  have hcount : m.pubs.filter (SignState.listedSigned c.hash keys) =
      m.pubs.filter fun k => k ∈ keys := by
    refine List.filter_congr fun k _ => ?_
    rw [Bool.eq_iff_iff, listedSigned_iff hfree, decide_eq_true_eq]
  unfold signs SignState.signedByAddress
  cases SignState.owner c.hash keys a.addr with
  | some k => simp
  | none => simp [hm, Nat.ne_of_gt hrequired, hcount, Multisig.signedCount]

end Signing

/-! ### Registered addresses -/

def WellRegistered (sch : KeyScheme K T H) (r : Registry K H) : Prop :=
  ∀ h m, r h = some m → 0 < m.required ∧
    ∃ k, sch.derivedKey m.pubs m.required = some k ∧ sch.hash .plain k = h

/-- **Step lemma.** -/
theorem WellRegistered.step [DecidableEq H] {sch : KeyScheme K T H} {r : Registry K H}
    (h : WellRegistered sch r) {i : Registering K H} (hevaluated : i.evaluated = true) :
    WellRegistered sch (r.step sch i) := by
  unfold Registry.step
  split
  · next hok =>
    rw [hevaluated, Bool.not_true, Bool.false_or, Bool.and_eq_true] at hok
    obtain ⟨_, hok⟩ := hok
    simp only [CreateMultisignature.doEvaluate, Bool.and_eq_true, decide_eq_true_eq] at hok
    obtain ⟨⟨⟨_, hrequired⟩, _⟩, hderived⟩ := hok
    intro x m hm
    unfold CreateMultisignature.doApply at hm
    split at hm
    · next hx =>
      cases hm
      refine ⟨hrequired.2, ?_⟩
      cases hk : sch.derivedKey i.op.listed.pubs i.op.listed.required with
      | none =>
        rw [hk] at hderived
        cases hderived
      | some k =>
        rw [hk, any_some, decide_eq_true_eq] at hderived
        refine ⟨k, rfl, ?_⟩
        rw [hx, hderived]
    · exact h x m hm
  · exact h

/-- For an address that was registered with `do_evaluate` in force: a set of keys that
    signs for it has the required number of listed keys exactly if it does not have the
    derived key or has that number anyway; and a transaction that passes the authority
    check and has an operation that requires the address is signed by that many listed
    keys, unless the derived key is among the signing keys. -/
theorem multisig_needs_listed_keys [DecidableEq K] [DecidableEq H] (sch : KeyScheme K T H)
    (hfree : sch.hash.CollisionFree) (r : Registry K H)
    (hr : ReachableUnder (· = fun _ => none) (fun _ i => i.evaluated = true) (Registry.step sch) r)
    (a : Address H) (m : Multisig K) (hm : r a.addr = some m) (c : Context K H)
    (hhash : c.hash = sch.hash) (hregistry : c.multisig = r) :
    ∃ k, sch.derivedKey m.pubs m.required = some k ∧
      (∀ keys, (signs c keys a = true → m.required ≤ m.signedCount keys) ↔
        (k ∉ keys ∨ m.required ≤ m.signedCount keys)) ∧
      ∀ ops keys, verifyAuthority c ops keys = true →
        (∃ op ∈ ops, .single a ∈ op.required) → k ∉ keys →
          m.required ≤ m.signedCount keys := by
  have hwell : WellRegistered sch r := by
    refine hr.invariant (WellRegistered sch) ?_ (fun _ _ h hok => h.step hok)
    rintro _ rfl h m hnone
    cases hnone
  obtain ⟨hrequired, k, hderived, hk⟩ := hwell a.addr m hm
  rw [← hhash] at hfree hk
  rw [← hregistry] at hm
  have howner : ∀ keys, (SignState.owner c.hash keys a.addr).isSome = true ↔ k ∈ keys := by
    intro keys
    rw [← hk]
    exact owner_hash_isSome hfree .plain k
  have hsigns : ∀ keys, signs c keys a = true ↔ k ∈ keys ∨ m.required ≤ m.signedCount keys := by
    intro keys
    rw [signs_registered hfree hm hrequired, howner]
  refine ⟨k, hderived, ?_, ?_⟩
  · intro keys
    rw [hsigns]
    tauto
  · rintro ops keys hverified ⟨op, hop, hauth⟩ hk
    obtain ⟨hsatisfied, _⟩ := verifyAuthority_sound hverified hop hauth rfl
    rw [SignState.satisfied_single, hsigns] at hsatisfied
    exact hsatisfied.resolve_left hk

/-! ### Keys that are numbers

  A key is its secret, and `add` adds the digest to it. -/

def numberScheme : KeyScheme Nat Nat (AddressForm × Nat) where
  hash f k := (f, k)
  add k t := some (k + t)
  hashKey k := 7 * k + 1
  hashRequired n := 100 + n

theorem numberScheme_collisionFree : numberScheme.hash.CollisionFree := by
  intro f g k k' h
  exact Prod.mk.inj h

/-- Two of the keys 5, 9 and 11; the derived key is 285. -/
def twoOfThree : Multisig Nat := ⟨2, [5, 9, 11], by decide⟩

def sharedAddress : Address (AddressForm × Nat) := ⟨Address.multisig, (.plain, 285)⟩

def registered : Registry Nat (AddressForm × Nat) :=
  [⟨⟨sharedAddress, twoOfThree⟩, true⟩].foldl (Registry.step numberScheme) fun _ => none

def sharedContext : Context Nat (AddressForm × Nat) :=
  ⟨numberScheme.hash, registered, fun _ => false, fun _ _ => false⟩

def spending : OpAuthorities Nat (AddressForm × Nat) := ⟨0, [.single sharedAddress]⟩

theorem two_listed_keys_sign :
    verifyAuthority sharedContext [spending] [5, 11] = true ∧
      twoOfThree.required ≤ twoOfThree.signedCount [5, 11] := by
  have hr : ReachableUnder (· = fun _ => none) (fun _ i => i.evaluated = true)
      (Registry.step numberScheme) registered :=
    ReachableUnder.of_checkRun (.start rfl) (by decide)
  have hverified : verifyAuthority sharedContext [spending] [5, 11] = true := by decide
  refine ⟨hverified, ?_⟩
  obtain ⟨k, hk, _, hneeds⟩ := multisig_needs_listed_keys numberScheme numberScheme_collisionFree
    registered hr sharedAddress twoOfThree rfl sharedContext rfl rfl
  have hkey : k = 285 := by
    have hderived : numberScheme.derivedKey twoOfThree.pubs twoOfThree.required = some 285 := by
      decide
    exact Option.some.inj (hk.symm.trans hderived)
  refine hneeds [spending] [5, 11] hverified ⟨spending, by simp, by simp [spending]⟩ ?_
  rw [hkey]
  decide

/-- The one key 285, which the holder of the secret 5 computes from what is public, signs
    for the shared address. -/
theorem derived_key_signs_alone :
    285 = (twoOfThree.pubs.foldl (fun s k => s + numberScheme.hashKey k) 5) +
        numberScheme.hashRequired 2 ∧
      (registered sharedAddress.addr).map (·.required) = some 2 ∧
      verifyAuthority sharedContext [spending] [285] = true ∧
      twoOfThree.signedCount [285] = 0 := by
  decide

end HyperExchange.Auth
