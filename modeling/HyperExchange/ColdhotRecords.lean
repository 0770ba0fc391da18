/-
  **How the records of transfers hang together.**

  While every operation keeps to the order the others expect, the records are `Coherent`: a
  transfer has at most one `without_sign` record and is in the state of it, that record has at
  most one combined transaction, and what still waits is in the phase its transfer is in.
  The operations after `without_sign` move one transfer with what belongs to it (`Moved`),
  and a transfer that is confirmed or has failed takes part in none of them.
-/
import HyperExchange.ColdhotTransfers

namespace HyperExchange.Coldhot

open Keyed Table
open Crosschain (TrxId Text)

variable {H : Type} {st : ColdhotTrxState} {t : TransferIndex H} {r : TransferObject H}

/-! ### States -/

def ColdhotTrxState.isFinal (st : ColdhotTrxState) : Bool :=
  decide (st = .coldhotTransactionConfirm) || decide (st = .coldhotTransactionFail)

/-- What a combined transaction still waits for: to be signed once more, or to be found on
    the other chain. -/
inductive Phase where
  | unsigned
  | sent
deriving DecidableEq

def ColdhotTrxState.phase : ColdhotTrxState → Option Phase
  | .coldhotEthGuardNeedSign => some .unsigned
  | .coldhotCombineTrxCreate => some .sent
  | .coldhotEthGuardSign => some .sent
  | _ => none

theorem not_final_of_phase {p : Phase} (h : st.phase = some p) : st.isFinal = false := by
  cases st <;> first | rfl | cases h

theorem state_of_sent (h : st.phase = some .sent) :
    st = .coldhotCombineTrxCreate ∨ st = .coldhotEthGuardSign := by
  cases st <;> first | exact .inl rfl | exact .inr rfl | cases h

theorem needSign_or_sent {p : Phase} (h : st.phase = some p) :
    st = .coldhotEthGuardNeedSign ∨ p = .sent := by
  cases st <;> cases h <;> first | exact .inl rfl | exact .inr rfl

def ColdhotTrxState.Late (st : ColdhotTrxState) : Prop :=
  st ≠ .coldhotWithoutSignTrxUncreate ∧ st ≠ .coldhotWithoutSignTrxCreate

theorem TransferIndex.combinedState_late (symbol : Text) :
    (TransferIndex.combinedState symbol).Late := by
  unfold TransferIndex.combinedState
  split <;> exact ⟨nofun, nofun⟩

/-! ### Coherence -/

variable (t)

def IsTransfer (id : TrxId) (r : TransferObject H) : Prop :=
  t.find id = some r ∧ r.opType = .transfer

def IsWithoutSign (id : TrxId) (r : TransferObject H) : Prop :=
  t.find id = some r ∧ r.opType = .transferWithoutSign

def IsCombine (id : TrxId) (r : TransferObject H) : Prop :=
  t.find id = some r ∧ r.opType = .transferCombineSign

variable {t}

theorem IsTransfer.not_withoutSign {id : TrxId} {u : TransferObject H} (hr : IsTransfer t id r)
    (hu : IsWithoutSign t id u) : False := by
  have heq : r = u := Option.some.inj (hr.1.symm.trans hu.1)
  have hop : OpType.transfer = .transferWithoutSign := by rw [← hr.2, heq, hu.2]
  cases hop

structure Coherent (t : TransferIndex H) : Prop where
  /-- A transfer belongs to no other record. -/
  unrelated : ∀ {id r}, IsTransfer t id r → r.relateTrxId = none
  uncreate : ∀ {id r}, t.find id = some r → r.curretTrxState = .coldhotWithoutSignTrxUncreate →
    r.opType = .transfer
  create : ∀ {id r}, t.find id = some r → r.curretTrxState = .coldhotWithoutSignTrxCreate →
    r.opType = .transfer ∨ r.opType = .transferWithoutSign
  /-- A transfer is in the state of its `without_sign` record. -/
  built : ∀ {w u}, IsWithoutSign t w u → ∃ o r, u.relateTrxId = some o ∧ IsTransfer t o r ∧
    r.curretTrxState = u.curretTrxState
  once : ∀ {w w' u u'}, IsWithoutSign t w u → IsWithoutSign t w' u' →
    u.relateTrxId = u'.relateTrxId → w = w'
  combined : ∀ {c r}, IsCombine t c r → ∃ w u, r.relateTrxId = some w ∧ IsWithoutSign t w u ∧
    u.curretTrxState ≠ .coldhotWithoutSignTrxCreate
  single : ∀ {c c' r r'}, IsCombine t c r → IsCombine t c' r' →
    r.relateTrxId = r'.relateTrxId → c = c'
  /-- What waits, and is not itself a transfer or its `without_sign` record, belongs to one
      that waits for the same. -/
  waiting : ∀ {id r p}, t.find id = some r → r.curretTrxState.phase = some p →
    r.opType ≠ .transfer → r.opType ≠ .transferWithoutSign →
      ∃ w u, r.relateTrxId = some w ∧ IsWithoutSign t w u ∧ u.curretTrxState.phase = some p

/-- The records differ at most in what an operation may change. -/
structure SameLinks (r r' : TransferObject H) : Prop where
  relate : r'.relateTrxId = r.relateTrxId
  opType : r'.opType = r.opType
  currentTrx : r'.currentTrx = r.currentTrx

theorem SameLinks.refl (r : TransferObject H) : SameLinks r r := ⟨rfl, rfl, rfl⟩

theorem SameLinks.trans {r' r'' : TransferObject H} (h : SameLinks r r') (h' : SameLinks r' r'') :
    SameLinks r r'' :=
  ⟨h'.relate.trans h.relate, h'.opType.trans h.opType, h'.currentTrx.trans h.currentTrx⟩

theorem Coherent.empty : Coherent (empty : TransferIndex H) := by
  constructor <;> intros <;> simp_all [IsTransfer, IsWithoutSign, IsCombine]

def Keeps (t t' : TransferIndex H) : Prop :=
  ∀ id r, IsTransfer t id r → r.curretTrxState.isFinal = true →
    ∃ r', IsTransfer t' id r' ∧ r'.curretTrxState = r.curretTrxState

theorem Keeps.refl (t : TransferIndex H) : Keeps t t := fun _ r hr _ => ⟨r, hr, rfl⟩

theorem Keeps.trans {t' t'' : TransferIndex H} (h : Keeps t t') (h' : Keeps t' t'') :
    Keeps t t'' := by
  intro id r hr hfinal
  obtain ⟨r₁, hr₁, hst₁⟩ := h id r hr hfinal
  obtain ⟨r₂, hr₂, hst₂⟩ := h' id r₁ hr₁ (by rw [hst₁]; exact hfinal)
  exact ⟨r₂, hr₂, hst₂.trans hst₁⟩

/-! ### Moving records to a state -/

/-- The records that meet `p` go to the state `st`; all keep their links. -/
def Moved (st : ColdhotTrxState) (p : TrxId → TransferObject H → Prop) (t t' : TransferIndex H) :
    Prop :=
  ∃ g : TrxId → TransferObject H → TransferObject H, ∀ id, t'.find id = (t.find id).map (g id) ∧
    ∀ r, SameLinks r (g id r) ∧ (p id r → (g id r).curretTrxState = st) ∧
      (¬p id r → (g id r).curretTrxState = r.curretTrxState)

/-- The edit brings a record to the state. -/
structure Sets (e : TransferEdit H) (st : ColdhotTrxState) : Prop where
  links : ∀ r, SameLinks r (e.run r)
  state : ∀ r, (e.run r).curretTrxState = st

theorem Sets.ite {e : TransferEdit H} (he : Sets e st) {c : Prop} [Decidable c]
    (r : TransferObject H) : SameLinks r (if c then e.run r else r) ∧
      (c → (if c then e.run r else r).curretTrxState = st) ∧
      (¬c → (if c then e.run r else r).curretTrxState = r.curretTrxState) := by
  split
  · next h => exact ⟨he.links r, fun _ => he.state r, fun hn => absurd h hn⟩
  · next h => exact ⟨.refl r, fun hc => absurd hc h, fun _ => rfl⟩

theorem sets_setState (st : ColdhotTrxState) (n : Nat) : Sets (setState st n : TransferEdit H) st :=
  ⟨fun _ => ⟨rfl, rfl, rfl⟩, fun _ => rfl⟩

theorem sets_setSigned (id : Text) :
    Sets (setSigned id : TransferEdit H) .coldhotEthGuardSign :=
  ⟨fun _ => ⟨rfl, rfl, rfl⟩, fun _ => rfl⟩

theorem sets_setSignedAt (n : Nat) (id : Text) :
    Sets (setSignedAt n id : TransferEdit H) .coldhotEthGuardSign :=
  ⟨fun _ => ⟨rfl, rfl, rfl⟩, fun _ => rfl⟩

namespace Moved

variable {st : ColdhotTrxState} {p q : TrxId → TransferObject H → Prop} {t t' t'' : TransferIndex H}

theorem modifyWhere {e : TransferEdit H} (he : Sets e st) (b : TransferObject H → Bool)
    (t : TransferIndex H) : Moved st (fun _ r => b r = true) t (t.modifyWhere b e) := by
  refine ⟨fun _ r => if b r then e.run r else r, ?_⟩
  intro id
  exact ⟨find_modifyWhere id, fun r => he.ite r⟩

theorem modify {e : TransferEdit H} (he : Sets e st) (k : TrxId) (t : TransferIndex H) :
    Moved st (fun id _ => id = k) t (t.modify k e) := by
  refine ⟨fun id r => if id = k then e.run r else r, ?_⟩
  intro id
  exact ⟨find_modify id, fun r => he.ite r⟩

/-- Two moves to the same state; the second looks at links and states only. -/
theorem trans (h : Moved st p t t') (h' : Moved st q t' t'')
    (hq : ∀ {id r r'}, SameLinks r r' → r'.curretTrxState = r.curretTrxState →
      (q id r' ↔ q id r)) : Moved st (fun id r => p id r ∨ q id r) t t'' := by
  obtain ⟨g, hg⟩ := h
  obtain ⟨f, hf⟩ := h'
  refine ⟨fun id r => f id (g id r), ?_⟩
  intro id
  constructor
  · rw [(hf id).1, (hg id).1, Option.map_map]
    rfl
  · intro r
    obtain ⟨hlinks, hmoved, hkept⟩ := (hg id).2 r
    obtain ⟨hlinks', hmoved', hkept'⟩ := (hf id).2 (g id r)
    refine ⟨hlinks.trans hlinks', ?_, ?_⟩
    · intro hpq
      by_cases hq' : q id (g id r)
      · exact hmoved' hq'
      · rw [hkept' hq']
        by_cases hp : p id r
        · exact hmoved hp
        · exact absurd ((hq hlinks (hkept hp)).2 (hpq.resolve_left hp)) hq'
    · intro hpq
      have hp : ¬p id r := fun hp => hpq (.inl hp)
      have hq' : ¬q id (g id r) := fun h => hpq (.inr ((hq hlinks (hkept hp)).1 h))
      rw [hkept' hq', hkept hp]

theorem found (m : Moved st p t t') {id : TrxId} {r' : TransferObject H}
    (h : t'.find id = some r') : ∃ r, t.find id = some r ∧ SameLinks r r' ∧
      (p id r → r'.curretTrxState = st) ∧ (¬p id r → r'.curretTrxState = r.curretTrxState) := by
  obtain ⟨g, hg⟩ := m
  rw [(hg id).1] at h
  obtain ⟨r, hr, rfl⟩ := Option.map_eq_some_iff.1 h
  exact ⟨r, hr, (hg id).2 r⟩

theorem kept (m : Moved st p t t') {id : TrxId} {r : TransferObject H} (h : t.find id = some r) :
    ∃ r', t'.find id = some r' ∧ SameLinks r r' ∧
      (p id r → r'.curretTrxState = st) ∧ (¬p id r → r'.curretTrxState = r.curretTrxState) := by
  obtain ⟨g, hg⟩ := m
  refine ⟨g id r, ?_, (hg id).2 r⟩
  rw [(hg id).1, h]
  rfl

variable (m : Moved st p t t')
include m

theorem keeps (hopen : ∀ {id r}, IsTransfer t id r → p id r → r.curretTrxState.isFinal = false) :
    Keeps t t' := by
  intro id r hr hfinal
  obtain ⟨r', hr', hlinks, _, hkept⟩ := m.kept hr.1
  refine ⟨r', ⟨hr', hlinks.opType.trans hr.2⟩, hkept fun hp => ?_⟩
  rw [hopen hr hp] at hfinal
  cases hfinal

/-- A transfer and its `without_sign` record are moved together; whatever else is moved belongs
    to them, and what belongs to them and is not moved waits for what they now wait for. -/
theorem coherent (h : Coherent t)
    (hlate : ∀ {id r}, t.find id = some r → p id r → r.opType = .transfer ∨ st.Late)
    (hpair : ∀ {w u o r}, IsWithoutSign t w u → u.relateTrxId = some o → IsTransfer t o r →
      (p w u ↔ p o r))
    (hbelongs : ∀ {id r}, t.find id = some r → p id r → r.opType ≠ .transfer →
      r.opType ≠ .transferWithoutSign → ∃ w u, r.relateTrxId = some w ∧ IsWithoutSign t w u ∧ p w u)
    (hrest : ∀ {id r w u q}, t.find id = some r → ¬p id r → r.relateTrxId = some w →
      IsWithoutSign t w u → p w u → r.curretTrxState.phase = some q → st.phase = some q) :
    Coherent t' where
  unrelated := by
    intro id r' hr'
    obtain ⟨r, hr, hlinks, _⟩ := m.found hr'.1
    rw [hlinks.relate]
    exact h.unrelated ⟨hr, hlinks.opType.symm.trans hr'.2⟩
  uncreate := by
    intro id r' hr' hst
    obtain ⟨r, hr, hlinks, hmoved, hkept⟩ := m.found hr'
    rw [hlinks.opType]
    by_cases hp : p id r
    · exact (hlate hr hp).resolve_right fun hlate => hlate.1 ((hmoved hp).symm.trans hst)
    · exact h.uncreate hr ((hkept hp).symm.trans hst)
  create := by
    intro id r' hr' hst
    obtain ⟨r, hr, hlinks, hmoved, hkept⟩ := m.found hr'
    rw [hlinks.opType]
    by_cases hp : p id r
    · exact .inl ((hlate hr hp).resolve_right fun hlate => hlate.2 ((hmoved hp).symm.trans hst))
    · exact h.create hr ((hkept hp).symm.trans hst)
  built := by
    intro w u' hu'
    obtain ⟨u, hu, hlinks, hmoved, hkept⟩ := m.found hu'.1
    have hW : IsWithoutSign t w u := ⟨hu, hlinks.opType.symm.trans hu'.2⟩
    obtain ⟨o, r, ho, hr, hst⟩ := h.built hW
    obtain ⟨r', hr', hlinks', hmoved', hkept'⟩ := m.kept hr.1
    refine ⟨o, r', hlinks.relate.trans ho, ⟨hr', hlinks'.opType.trans hr.2⟩, ?_⟩
    have hboth := hpair hW ho hr
    by_cases hp : p w u
    · rw [hmoved hp, hmoved' (hboth.1 hp)]
    · rw [hkept hp, hkept' fun hp' => hp (hboth.2 hp'), hst]
  once := by
    intro w₁ w₂ u₁' u₂' h₁ h₂ hrel
    obtain ⟨u₁, hu₁, hlinks₁, _⟩ := m.found h₁.1
    obtain ⟨u₂, hu₂, hlinks₂, _⟩ := m.found h₂.1
    rw [hlinks₁.relate, hlinks₂.relate] at hrel
    exact h.once ⟨hu₁, hlinks₁.opType.symm.trans h₁.2⟩ ⟨hu₂, hlinks₂.opType.symm.trans h₂.2⟩ hrel
  combined := by
    intro c r' hr'
    obtain ⟨r, hr, hlinks, _⟩ := m.found hr'.1
    obtain ⟨w, u, hrel, hu, hst⟩ := h.combined ⟨hr, hlinks.opType.symm.trans hr'.2⟩
    obtain ⟨u', hu', hlinks', hmoved, hkept⟩ := m.kept hu.1
    refine ⟨w, u', hlinks.relate.trans hrel, ⟨hu', hlinks'.opType.trans hu.2⟩, ?_⟩
    by_cases hp : p w u
    · rw [hmoved hp]
      exact ((hlate hu.1 hp).resolve_left (by rw [hu.2]; nofun)).2
    · rw [hkept hp]
      exact hst
  single := by
    intro c₁ c₂ r₁' r₂' h₁ h₂ hrel
    obtain ⟨r₁, hr₁, hlinks₁, _⟩ := m.found h₁.1
    obtain ⟨r₂, hr₂, hlinks₂, _⟩ := m.found h₂.1
    rw [hlinks₁.relate, hlinks₂.relate] at hrel
    exact h.single ⟨hr₁, hlinks₁.opType.symm.trans h₁.2⟩ ⟨hr₂, hlinks₂.opType.symm.trans h₂.2⟩ hrel
  waiting := by
    intro id r' q hr' hphase hT hW
    obtain ⟨r, hr, hlinks, hmoved, hkept⟩ := m.found hr'
    rw [hlinks.opType] at hT hW
    rw [hlinks.relate]
    by_cases hp : p id r
    · obtain ⟨w, u, hrel, hu, hpu⟩ := hbelongs hr hp hT hW
      obtain ⟨u', hu', hlinks', hmoved', _⟩ := m.kept hu.1
      refine ⟨w, u', hrel, ⟨hu', hlinks'.opType.trans hu.2⟩, ?_⟩
      rw [hmoved' hpu, ← hmoved hp, hphase]
    · rw [hkept hp] at hphase
      obtain ⟨w, u, hrel, hu, hq⟩ := h.waiting hr hphase hT hW
      obtain ⟨u', hu', hlinks', hmoved', hkept'⟩ := m.kept hu.1
      refine ⟨w, u', hrel, ⟨hu', hlinks'.opType.trans hu.2⟩, ?_⟩
      by_cases hpu : p w u
      · rw [hmoved' hpu]
        exact hrest hr hp hrel hu hpu hphase
      · rw [hkept' hpu, hq]

end Moved

/-! ### Moving a transfer -/

/-- A transfer `o` with the `without_sign` record `w` goes to the state `st`; besides the two,
    only records that belong to `w` are moved, and those that stay wait for what `w` now
    waits for. -/
structure Advance (t t' : TransferIndex H) (w o : TrxId) (st : ColdhotTrxState)
    (p : TrxId → TransferObject H → Prop) : Prop where
  moved : Moved st p t t'
  base : ∀ r, p w r ∧ p o r
  only : ∀ {id r}, t.find id = some r → p id r → id = w ∨ id = o ∨ r.relateTrxId = some w
  rest : ∀ {id r q}, t.find id = some r → r.relateTrxId = some w → ¬p id r →
    r.curretTrxState.phase = some q → st.phase = some q
  late : st.Late

namespace Advance

variable {t t' : TransferIndex H} {w o : TrxId} {u : TransferObject H} {st : ColdhotTrxState}
  {p : TrxId → TransferObject H → Prop} (a : Advance t t' w o st p) (h : Coherent t)
  (hu : IsWithoutSign t w u) (ho : u.relateTrxId = some o) {id : TrxId} {r : TransferObject H}
include a h hu ho

theorem transfer_only (hr : IsTransfer t id r) (hp : p id r) : id = o := by
  rcases a.only hr.1 hp with rfl | rfl | hrel
  · exact (hr.not_withoutSign hu).elim
  · rfl
  · rw [h.unrelated hr] at hrel
    cases hrel

/-- No other `without_sign` record is moved. -/
theorem withoutSign_only (hr : IsWithoutSign t id r) (hp : p id r) : id = w := by
  obtain ⟨o₀, r₀, ho₀, hr₀, _⟩ := h.built hu
  cases ho.symm.trans ho₀
  rcases a.only hr.1 hp with rfl | rfl | hrel
  · rfl
  · exact (hr₀.not_withoutSign hr).elim
  · -- it would be related to `w` as to its transfer
    obtain ⟨o₁, r₁, ho₁, hr₁, _⟩ := h.built hr
    cases hrel.symm.trans ho₁
    exact (hr₁.not_withoutSign hu).elim

theorem keeps (hopen : u.curretTrxState.isFinal = false) : Keeps t t' := by
  refine a.moved.keeps ?_
  intro id r hr hp
  obtain rfl := a.transfer_only h hu ho hr hp
  obtain ⟨o₀, r₀, ho₀, hr₀, hst⟩ := h.built hu
  cases ho.symm.trans ho₀
  cases hr.1.symm.trans hr₀.1
  rw [hst, hopen]

omit h ho in
/-- The `without_sign` record afterwards. -/
theorem withoutSign_after : ∃ u', IsWithoutSign t' w u' ∧ u'.curretTrxState = st := by
  obtain ⟨u', hu', hlinks, hmoved, _⟩ := a.moved.kept hu.1
  exact ⟨u', ⟨hu', hlinks.opType.trans hu.2⟩, hmoved (a.base u).1⟩

theorem coherent : Coherent t' := by
  refine a.moved.coherent h (fun _ _ => .inr a.late) ?_ ?_ ?_
  · intro w' u' o' r hu' ho' hr
    constructor
    · intro hp
      obtain rfl := a.withoutSign_only h hu ho hu' hp
      cases hu'.1.symm.trans hu.1
      cases ho.symm.trans ho'
      exact (a.base r).2
    · intro hp
      obtain rfl := a.transfer_only h hu ho hr hp
      obtain rfl := h.once hu' hu (ho'.trans ho.symm)
      exact (a.base u').1
  · intro id r hr hp hT hW
    refine ⟨w, u, ?_, hu, (a.base u).1⟩
    rcases a.only hr hp with rfl | rfl | hrel
    · cases hr.symm.trans hu.1
      exact absurd hu.2 hW
    · obtain ⟨o₀, r₀, ho₀, hr₀, _⟩ := h.built hu
      cases ho.symm.trans ho₀
      cases hr.symm.trans hr₀.1
      exact absurd hr₀.2 hT
    · exact hrel
  · intro id r w' u' q hr hp hrel hu' hpu hq
    obtain rfl := a.withoutSign_only h hu ho hu' hpu
    exact a.rest hr hrel hp hq

end Advance

/-! ### Adding a record -/

/-- The record fits in with the others. -/
structure Joins (t : TransferIndex H) (r : TransferObject H) : Prop where
  unrelated : r.opType = .transfer → r.relateTrxId = none
  uncreate : r.curretTrxState = .coldhotWithoutSignTrxUncreate → r.opType = .transfer
  create : r.curretTrxState = .coldhotWithoutSignTrxCreate →
    r.opType = .transfer ∨ r.opType = .transferWithoutSign
  built : r.opType = .transferWithoutSign → ∃ o r₀, r.relateTrxId = some o ∧
    IsTransfer t o r₀ ∧ r₀.curretTrxState = r.curretTrxState ∧
      ∀ w u, IsWithoutSign t w u → u.relateTrxId ≠ some o
  combined : r.opType = .transferCombineSign → ∃ w u, r.relateTrxId = some w ∧
    IsWithoutSign t w u ∧ u.curretTrxState ≠ .coldhotWithoutSignTrxCreate ∧
      ∀ c r', IsCombine t c r' → r'.relateTrxId ≠ some w
  waiting : ∀ p, r.curretTrxState.phase = some p → r.opType ≠ .transfer →
    r.opType ≠ .transferWithoutSign → ∃ w u, r.relateTrxId = some w ∧ IsWithoutSign t w u ∧
      u.curretTrxState.phase = some p

/-- A record that does not wait for anything and is no stage of its own. -/
theorem Joins.of_side (hT : r.opType ≠ .transfer) (hW : r.opType ≠ .transferWithoutSign)
    (hC : r.opType ≠ .transferCombineSign) (hst : r.curretTrxState.Late)
    (hphase : r.curretTrxState.phase = none) : Joins t r where
  unrelated h := absurd h hT
  uncreate h := absurd h hst.1
  create h := absurd h hst.2
  built h := absurd h hW
  combined h := absurd h hC
  waiting p hp := by
    rw [hphase] at hp
    cases hp

section Insert

variable {t t' : TransferIndex H} {r : TransferObject H}

theorem Keeps.insert (ht : t.insert r = some t') : Keeps t t' :=
  fun _ x hx _ => ⟨x, ⟨find_insert_old ht hx.1, hx.2⟩, rfl⟩

theorem Coherent.insert (h : Coherent t) (hr : Joins t r) (ht : t.insert r = some t') :
    Coherent t' where
  unrelated := by
    rintro id x ⟨hx, hop⟩
    rcases find_insert_cases ht hx with ⟨rfl, rfl⟩ | hx
    · exact hr.unrelated hop
    · exact h.unrelated ⟨hx, hop⟩
  uncreate := by
    intro id x hx hst
    rcases find_insert_cases ht hx with ⟨rfl, rfl⟩ | hx
    · exact hr.uncreate hst
    · exact h.uncreate hx hst
  create := by
    intro id x hx hst
    rcases find_insert_cases ht hx with ⟨rfl, rfl⟩ | hx
    · exact hr.create hst
    · exact h.create hx hst
  built := by
    rintro w u ⟨hu, hop⟩
    rcases find_insert_cases ht hu with ⟨rfl, rfl⟩ | hu
    · obtain ⟨o, r₀, ho, hr₀, hst, _⟩ := hr.built hop
      exact ⟨o, r₀, ho, ⟨find_insert_old ht hr₀.1, hr₀.2⟩, hst⟩
    · obtain ⟨o, r₀, ho, hr₀, hst⟩ := h.built ⟨hu, hop⟩
      exact ⟨o, r₀, ho, ⟨find_insert_old ht hr₀.1, hr₀.2⟩, hst⟩
  once := by
    rintro w w' u u' ⟨hu, hop⟩ ⟨hu', hop'⟩ hrel
    rcases find_insert_cases ht hu with ⟨rfl, rfl⟩ | hu
    · rcases find_insert_cases ht hu' with ⟨rfl, rfl⟩ | hu'
      · rfl
      · obtain ⟨o, _, ho, _, _, hnone⟩ := hr.built hop
        exact absurd (hrel.symm.trans ho) (hnone w' u' ⟨hu', hop'⟩)
    · rcases find_insert_cases ht hu' with ⟨rfl, rfl⟩ | hu'
      · obtain ⟨o, _, ho, _, _, hnone⟩ := hr.built hop'
        exact absurd (hrel.trans ho) (hnone w u ⟨hu, hop⟩)
      · exact h.once ⟨hu, hop⟩ ⟨hu', hop'⟩ hrel
  combined := by
    rintro c x ⟨hx, hop⟩
    rcases find_insert_cases ht hx with ⟨rfl, rfl⟩ | hx
    · obtain ⟨w, u, hw, hu, hst, _⟩ := hr.combined hop
      exact ⟨w, u, hw, ⟨find_insert_old ht hu.1, hu.2⟩, hst⟩
    · obtain ⟨w, u, hw, hu, hst⟩ := h.combined ⟨hx, hop⟩
      exact ⟨w, u, hw, ⟨find_insert_old ht hu.1, hu.2⟩, hst⟩
  single := by
    rintro c c' x x' ⟨hx, hop⟩ ⟨hx', hop'⟩ hrel
    rcases find_insert_cases ht hx with ⟨rfl, rfl⟩ | hx
    · rcases find_insert_cases ht hx' with ⟨rfl, rfl⟩ | hx'
      · rfl
      · obtain ⟨w, _, hw, _, _, hnone⟩ := hr.combined hop
        exact absurd (hrel.symm.trans hw) (hnone c' x' ⟨hx', hop'⟩)
    · rcases find_insert_cases ht hx' with ⟨rfl, rfl⟩ | hx'
      · obtain ⟨w, _, hw, _, _, hnone⟩ := hr.combined hop'
        exact absurd (hrel.trans hw) (hnone c x ⟨hx, hop⟩)
      · exact h.single ⟨hx, hop⟩ ⟨hx', hop'⟩ hrel
  waiting := by
    intro id x p hx hphase hT hW
    rcases find_insert_cases ht hx with ⟨rfl, rfl⟩ | hx
    · obtain ⟨w, u, hw, hu, hp⟩ := hr.waiting p hphase hT hW
      exact ⟨w, u, hw, ⟨find_insert_old ht hu.1, hu.2⟩, hp⟩
    · obtain ⟨w, u, hw, hu, hp⟩ := h.waiting hx hphase hT hW
      exact ⟨w, u, hw, ⟨find_insert_old ht hu.1, hu.2⟩, hp⟩

end Insert

/-! ### A transfer for which nothing was built yet -/

section Uncreated

variable {t t' : TransferIndex H} {o : TrxId} {r : TransferObject H} {st : ColdhotTrxState}

/-- Nothing is built for a transfer that waits for its `without_sign` record. -/
theorem Coherent.not_built (h : Coherent t) (hr : t.find o = some r)
    (hst : r.curretTrxState = .coldhotWithoutSignTrxUncreate) {w : TrxId} {u : TransferObject H}
    (hu : IsWithoutSign t w u) : u.relateTrxId ≠ some o := by
  intro hrel
  obtain ⟨o', r', ho', hr', hst'⟩ := h.built hu
  cases hrel.symm.trans ho'
  cases hr.symm.trans hr'.1
  have hop := h.uncreate hu.1 (hst'.symm.trans hst)
  rw [hu.2] at hop
  cases hop

variable (m : Moved st (fun id _ => id = o) t t')
include m

theorem Moved.keeps_uncreated (hr : t.find o = some r)
    (hst : r.curretTrxState = .coldhotWithoutSignTrxUncreate) : Keeps t t' := by
  refine m.keeps ?_
  rintro id x hx rfl
  cases hr.symm.trans hx.1
  rw [hst]
  rfl

theorem Moved.coherent_uncreated (h : Coherent t) (hr : t.find o = some r)
    (hst : r.curretTrxState = .coldhotWithoutSignTrxUncreate) : Coherent t' := by
  have hop : r.opType = .transfer := h.uncreate hr hst
  have hother : ∀ {w u}, IsWithoutSign t w u → w ≠ o := by
    rintro w u hu rfl
    exact IsTransfer.not_withoutSign ⟨hr, hop⟩ hu
  have hfound : ∀ {id x}, t.find id = some x → id = o → x.opType = .transfer := by
    rintro id x hx rfl
    cases hr.symm.trans hx
    exact hop
  refine m.coherent h (fun hx hid => .inl (hfound hx hid)) ?_ ?_ ?_
  · intro w u o' x hu ho' _
    exact iff_of_false (hother hu) fun heq => h.not_built hr hst hu (heq ▸ ho')
  · intro id x hx hid hT
    exact absurd (hfound hx hid) hT
  · intro id x w u q _ _ _ hu hw
    exact absurd hw (hother hu)

end Uncreated

end HyperExchange.Coldhot
