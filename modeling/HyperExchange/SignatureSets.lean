/-
  **Signatures collected in a table.**

  Some rows of a table are signatures: `sign` tells what the row signs and by whom.  Each
  thing that is signed has a panel, the list of those who may sign it.  `Sound` says that
  nobody signed a thing twice and that all who signed belong to its panel; then as many
  signatures are as many members of the panel (`Sound.signers_nodup`).  `Signed` adds that the
  rows of the signing kind are signatures and do not wait to be made again; there is one rule
  for changes that add no signature and one for a new signature.
-/
import HyperExchange.TableChanges
import Mathlib.Data.List.Perm.Subperm

namespace HyperExchange.Signatures

open Keyed Table

variable {K R G : Type} [DecidableEq K] {key : R → K}

def signerIn (sign : R → Option (K × G)) (k : K) (r : R) : Option G :=
  (sign r).bind fun x => if x.1 = k then some x.2 else none

def signers (sign : R → Option (K × G)) (t : Table key) (k : K) : List G :=
  t.rows.filterMap (signerIn sign k)

variable {sign : R → Option (K × G)}

theorem signerIn_eq_some {k : K} {r : R} {g : G} :
    signerIn sign k r = some g ↔ sign r = some (k, g) := by
  unfold signerIn
  rw [Option.bind_eq_some_iff]
  constructor
  · rintro ⟨⟨k', g'⟩, hx, hif⟩
    split at hif
    · next heq =>
      cases hif
      rw [hx, ← heq]
    · cases hif
  · intro h
    exact ⟨(k, g), h, if_pos rfl⟩

theorem mem_signers {t : Table key} {k : K} {g : G} :
    g ∈ signers sign t k ↔ ∃ r ∈ t.rows, sign r = some (k, g) := by
  unfold signers
  simp only [List.mem_filterMap, signerIn_eq_some]

structure Sound (sign : R → Option (K × G)) (panel : Table key → K → Option (List G))
    (t : Table key) : Prop where
  distinct : ∀ {k k' r r' x}, t.find k = some r → t.find k' = some r' → sign r = some x →
    sign r' = some x → k = k'
  members : ∀ {k r s g}, t.find k = some r → sign r = some (s, g) → ∃ l ∈ panel t s, g ∈ l

namespace Sound

variable {sign : R → Option (K × G)} {panel : Table key → K → Option (List G)} {t t' : Table key}
  (h : Sound sign panel t)
include h

theorem mono (hback : ∀ {k r' x}, t'.find k = some r' → sign r' = some x →
      ∃ r, t.find k = some r ∧ sign r = some x)
    (hpanel : ∀ {s l}, panel t s = some l → panel t' s = some l) : Sound sign panel t' where
  distinct := by
    intro k k' r r' x hr hr' hx hx'
    obtain ⟨q, hq, hqx⟩ := hback hr hx
    obtain ⟨q', hq', hqx'⟩ := hback hr' hx'
    exact h.distinct hq hq' hqx hqx'
  members := by
    intro k r s g hr hx
    obtain ⟨q, hq, hqx⟩ := hback hr hx
    obtain ⟨l, hl, hg⟩ := h.members hq hqx
    exact ⟨l, hpanel hl, hg⟩

theorem insert {r : R} (ht : t.insert r = some t') (hnew : ∀ s g, sign r = some (s, g) →
      (∃ l ∈ panel t s, g ∈ l) ∧ ∀ k q, t.find k = some q → sign q ≠ some (s, g))
    (hpanel : ∀ {s l}, panel t s = some l → panel t' s = some l) : Sound sign panel t' := by
  constructor
  · rintro k k' q q' ⟨s, g⟩ hq hq' hx hx'
    rcases find_insert_cases ht hq with ⟨rfl, rfl⟩ | hq
    · rcases find_insert_cases ht hq' with ⟨rfl, rfl⟩ | hq'
      · rfl
      · exact absurd hx' ((hnew s g hx).2 k' q' hq')
    · rcases find_insert_cases ht hq' with ⟨rfl, rfl⟩ | hq'
      · exact absurd hx ((hnew s g hx').2 k q hq)
      · exact h.distinct hq hq' hx hx'
  · intro k q s g hq hx
    rcases find_insert_cases ht hq with ⟨rfl, rfl⟩ | hq
    · obtain ⟨l, hl, hg⟩ := (hnew s g hx).1
      exact ⟨l, hpanel hl, hg⟩
    · obtain ⟨l, hl, hg⟩ := h.members hq hx
      exact ⟨l, hpanel hl, hg⟩

theorem signers_nodup (k : K) : (signers sign t k).Nodup := by
  have hkeys : t.rows.Pairwise fun r r' => key r ≠ key r' := List.pairwise_map.1 t.nodup
  refine List.pairwise_filterMap.2 (hkeys.imp_of_mem ?_)
  intro r r' hr hr' hne g hg g' hg' heq
  subst heq
  exact hne (h.distinct (find_of_mem hr) (find_of_mem hr')
    (signerIn_eq_some.1 hg) (signerIn_eq_some.1 hg'))

theorem mem_panel {k : K} {l : List G} (hl : panel t k = some l) {g : G}
    (hg : g ∈ signers sign t k) : g ∈ l := by
  obtain ⟨r, hr, hx⟩ := mem_signers.1 hg
  obtain ⟨l', hl', hg'⟩ := h.members (find_of_mem hr) hx
  cases hl.symm.trans hl'
  exact hg'

end Sound

/-! ### Rows of the signing kind -/

section Rows

/-- What a row of the signing kind signs and by whom: it holds one operation, which names what
    the row is related to. -/
def signatureOf {O : Type} (isSign : R → Bool) (relate : R → Option K) (operations : R → List O)
    (get : O → Option (K × G)) (r : R) : Option (K × G) :=
  match isSign r, operations r with
  | true, [op] => (get op).filter fun x => relate r = some x.1
  | _, _ => none

theorem signatureOf_eq_some {O : Type} {isSign : R → Bool} {relate : R → Option K}
    {operations : R → List O} {get : O → Option (K × G)} {r : R} {k : K} {g : G} :
    signatureOf isSign relate operations get r = some (k, g) ↔ isSign r = true ∧
      relate r = some k ∧ ∃ op, operations r = [op] ∧ get op = some (k, g) := by
  unfold signatureOf
  split
  · next op hsign hops =>
    rw [Option.filter_eq_some_iff, hsign, hops]
    simp [and_comm]
  · next hnot =>
    refine iff_of_false nofun ?_
    rintro ⟨hsign, _, op, hops, _⟩
    exact hnot op hsign hops

variable (isSign late : R → Prop) (sign : R → Option (K × G))
  (panel : Table key → K → Option (List G))

/-- The signatures are sound, and every row of the signing kind is one that is made. -/
structure Signed (t : Table key) : Prop where
  sound : Sound sign panel t
  late : ∀ {k r}, t.find k = some r → isSign r → late r
  real : ∀ {k r}, t.find k = some r → isSign r → ∃ x, sign r = some x

variable {isSign late sign panel} {t t' : Table key}

theorem Signed.of_rows_nil (h : t.rows = []) : Signed isSign late sign panel t := by
  have hnone : ∀ {k r}, t.find k ≠ some r := by
    intro k r hr
    have hmem := mem_of_find hr
    rw [h] at hmem
    cases hmem
  exact ⟨⟨fun hr => absurd hr hnone, fun hr => absurd hr hnone⟩, fun hr => absurd hr hnone,
    fun hr => absurd hr hnone⟩

/-- Changes that add no signature. -/
theorem Signed.evolves (hs : Signed isSign late sign panel t) {keep : R → R → Prop}
    {new gone : R → Prop} (h : Evolves keep new gone t t')
    (hkind : ∀ {r x}, sign r = some x → isSign r) (hnew : ∀ {r}, new r → ¬isSign r)
    (hsign : ∀ {r r'}, keep r r' → (isSign r' → isSign r) ∧ sign r' = sign r)
    (hlate : ∀ {r r'}, keep r r' → isSign r → late r → late r')
    (hpanel : ∀ {k l}, panel t k = some l → panel t' k = some l) :
    Signed isSign late sign panel t' := by
  have hback : ∀ {k r'}, t'.find k = some r' → isSign r' →
      ∃ r, t.find k = some r ∧ keep r r' ∧ isSign r := by
    intro k r' hr' hkind'
    obtain ⟨r, hr, hkeep⟩ := (h.back hr').resolve_right fun hn => hnew hn hkind'
    exact ⟨r, hr, hkeep, (hsign hkeep).1 hkind'⟩
  refine ⟨hs.sound.mono ?_ hpanel, ?_, ?_⟩
  · intro k r' x hr' hx
    obtain ⟨r, hr, hkeep, _⟩ := hback hr' (hkind hx)
    exact ⟨r, hr, (hsign hkeep).2.symm.trans hx⟩
  · intro k r' hr' hkind'
    obtain ⟨r, hr, hkeep, hkind⟩ := hback hr' hkind'
    exact hlate hkeep hkind (hs.late hr hkind)
  · intro k r' hr' hkind'
    obtain ⟨r, hr, hkeep, hkind⟩ := hback hr' hkind'
    rw [(hsign hkeep).2]
    exact hs.real hr hkind

/-- A new signature, of a member of the panel who has not signed yet. -/
theorem Signed.insert (hs : Signed isSign late sign panel t) {r : R} {k : K} {g : G}
    (ht : t.insert r = some t') (hlate : late r) (hx : sign r = some (k, g))
    (hmember : ∃ l ∈ panel t k, g ∈ l) (hfirst : ∀ {i q}, t.find i = some q → sign q ≠ some (k, g))
    (hpanel : ∀ {k l}, panel t k = some l → panel t' k = some l) :
    Signed isSign late sign panel t' := by
  refine ⟨hs.sound.insert ht ?_ hpanel, ?_, ?_⟩
  · intro k' g' hx'
    cases hx.symm.trans hx'
    exact ⟨hmember, fun i q => hfirst⟩
  · intro i q hq hkind
    rcases find_insert_cases ht hq with ⟨_, rfl⟩ | hq
    · exact hlate
    · exact hs.late hq hkind
  · intro i q hq hkind
    rcases find_insert_cases ht hq with ⟨_, rfl⟩ | hq
    · exact ⟨_, hx⟩
    · exact hs.real hq hkind

end Rows

/-! ### Quorums -/

/-- More than two thirds of `n`. -/
def quorum (n : Nat) : Nat := n * 2 / 3 + 1

theorem quorum_mono {m n : Nat} (h : m ≤ n) : quorum m ≤ quorum n := by
  unfold quorum
  omega

section Quorum

variable (sign : R → Option (K × G)) (panel : Table key → K → Option (List G)) (t : Table key)
  (k : K) (ids : List K)

def Listed : Prop := ∀ id ∈ ids, ∃ r ∈ t.find id, (sign r).map Prod.fst = some k
deriving Decidable

def EnoughSignatures : Prop :=
  Listed sign t k ids ∧ ∃ l ∈ panel t k, quorum l.length ≤ (signers sign t k).length
deriving Decidable

def HasQuorum : Prop :=
  Listed sign t k ids ∧ ∃ l ∈ panel t k, ∃ members : List G, members.Nodup ∧
    quorum l.length ≤ members.length ∧
    ∀ g ∈ members, g ∈ l ∧ ∃ r ∈ t.rows, sign r = some (k, g)

variable {sign panel t k ids}

/-- As many rows as are listed once each are as many signatures. -/
theorem Listed.length_le (h : Listed sign t k ids) (hnodup : ids.Nodup) :
    ids.length ≤ (signers sign t k).length := by
  have hsub : ids ⊆ (t.rows.filter fun r => (signerIn sign k r).isSome).map key := by
    intro id hid
    obtain ⟨r, hr, hx⟩ := h id hid
    obtain ⟨⟨k', g⟩, hsign, rfl⟩ := Option.map_eq_some_iff.1 hx
    refine List.mem_map.2 ⟨r, List.mem_filter.2 ⟨mem_of_find hr, ?_⟩, key_of_find hr⟩
    rw [signerIn_eq_some.2 hsign]
    rfl
  calc ids.length
      ≤ ((t.rows.filter fun r => (signerIn sign k r).isSome).map key).length :=
        (List.subperm_of_subset hnodup hsub).length_le
    _ = (signers sign t k).length := by
        rw [List.length_map, signers, List.length_filterMap_eq_countP,
          List.countP_eq_length_filter]

/-- Listed signatures are enough if there are as many as the panel asks for. -/
theorem Sound.enough (h : Sound sign panel t)
    (hsign : ∀ id ∈ ids, ∃ r ∈ t.find id, ∃ g, sign r = some (k, g)) (hnodup : ids.Nodup)
    (hsome : 0 < ids.length) (hcount : ∀ l ∈ panel t k, quorum l.length ≤ ids.length) :
    EnoughSignatures sign panel t k ids := by
  have hlisted : Listed sign t k ids := by
    intro id hid
    obtain ⟨r, hr, g, hx⟩ := hsign id hid
    exact ⟨r, hr, by rw [hx]; rfl⟩
  obtain ⟨id, hid⟩ := List.exists_mem_of_length_pos hsome
  obtain ⟨r, hr, g, hx⟩ := hsign id hid
  obtain ⟨l, hl, _⟩ := h.members hr hx
  exact ⟨hlisted, l, hl, (hcount l hl).trans (hlisted.length_le hnodup)⟩

theorem Sound.hasQuorum (h : Sound sign panel t) (henough : EnoughSignatures sign panel t k ids) :
    HasQuorum sign panel t k ids := by
  obtain ⟨hlisted, l, hl, hcount⟩ := henough
  refine ⟨hlisted, l, hl, signers sign t k, h.signers_nodup k, hcount, ?_⟩
  intro g hg
  exact ⟨h.mem_panel hl hg, mem_signers.1 hg⟩

theorem HasQuorum.enoughSignatures (h : HasQuorum sign panel t k ids) :
    EnoughSignatures sign panel t k ids := by
  obtain ⟨hlisted, l, hl, members, hnodup, hcount, hmembers⟩ := h
  refine ⟨hlisted, l, hl, Nat.le_trans hcount ?_⟩
  have hsub : members ⊆ signers sign t k := fun g hg => mem_signers.2 (hmembers g hg).2
  exact (List.subperm_of_subset hnodup hsub).length_le

end Quorum

end HyperExchange.Signatures
