/-
  **Sequences of operations that stop at the first one that fails.**

  `applyAll` applies a list of operations one after the other; it has no result when one of
  them has none.  `EachAllowed` says that each operation meets a condition in the state it is
  applied to.

  The rules for folds have an invariant that may depend on the elements that were done.
-/
import Mathlib.Algebra.Order.Ring.Int

/-- Two computations, the second of which uses what the first gives. -/
theorem Option.bind_bind_eq_some {α β γ : Type} {x : Option α} {f : α → Option β}
    {g : α → β → Option γ} {c : γ} (h : (x.bind fun a => (f a).bind (g a)) = some c) :
    ∃ a b, x = some a ∧ f a = some b ∧ g a b = some c := by
  obtain ⟨a, ha, h⟩ := Option.bind_eq_some_iff.1 h
  obtain ⟨b, hb, h⟩ := Option.bind_eq_some_iff.1 h
  exact ⟨a, b, ha, hb, h⟩

namespace HyperExchange.Execution

open List

variable {σ ω : Type} (apply : σ → ω → Option σ)

def applyAll : List ω → σ → Option σ
  | [], s => some s
  | op :: ops, s => (apply s op).bind (applyAll ops)

variable (allowed : σ → ω → Prop)

def EachAllowed : List ω → σ → Prop
  | [], _ => True
  | op :: ops, s => allowed s op ∧ ∀ s' ∈ apply s op, EachAllowed ops s'

instance EachAllowed.decidable [∀ s, DecidablePred (allowed s)] :
    ∀ (ops : List ω) (s : σ), Decidable (EachAllowed apply allowed ops s)
  | [], _ => .isTrue trivial
  | op :: ops, s =>
    have := EachAllowed.decidable ops
    inferInstanceAs (Decidable (allowed s op ∧ ∀ s' ∈ apply s op, EachAllowed apply allowed ops s'))

variable {apply allowed}

theorem mem_of_split {l done rest : List ω} {x : ω} (hl : l = done ++ x :: rest) : x ∈ l := by
  rw [hl]
  exact mem_append_right _ mem_cons_self

/-- What every operation keeps that is allowed where it stands, the whole sequence keeps.
    `Inv done` may depend on the operations before. -/
theorem EachAllowed.prefix_invariant (Inv : List ω → σ → Prop) {ops : List ω} {s s' : σ}
    (hinit : Inv [] s)
    (hstep : ∀ {done op rest s s'}, ops = done ++ op :: rest → Inv done s → allowed s op →
      apply s op = some s' → Inv (done ++ [op]) s')
    (hallowed : EachAllowed apply allowed ops s) (happly : applyAll apply ops s = some s') :
    Inv ops s' := by
  suffices H : ∀ rest done s, ops = done ++ rest → Inv done s →
      EachAllowed apply allowed rest s → applyAll apply rest s = some s' → Inv ops s' from
    H ops [] s rfl hinit hallowed happly
  intro rest
  induction rest with
  | nil =>
    intro done s hops hinv _ happly
    cases happly
    rw [hops, append_nil]
    exact hinv
  | cons op rest ih =>
    intro done s hops hinv hallowed happly
    obtain ⟨s₁, hs₁, happly⟩ := Option.bind_eq_some_iff.1 happly
    refine ih (done ++ [op]) s₁ ?_ (hstep hops hinv hallowed.1 hs₁) (hallowed.2 s₁ hs₁) happly
    rw [hops, append_assoc]
    rfl

theorem EachAllowed.invariant (Inv : σ → Prop) {ops : List ω} {s s' : σ} (hinit : Inv s)
    (hstep : ∀ {op s s'}, op ∈ ops → Inv s → allowed s op → apply s op = some s' → Inv s')
    (hallowed : EachAllowed apply allowed ops s) (happly : applyAll apply ops s = some s') :
    Inv s' := by
  refine hallowed.prefix_invariant (fun _ s => Inv s) hinit ?_ happly
  intro done op rest s s' hops hinv hop hs'
  exact hstep (mem_of_split hops) hinv hop hs'

/-- Each operation of a sequence is the first one of `all`, or `Under` holds because of those
    before it. -/
theorem EachAllowed.started_invariant (Inv Under : σ → Prop) {all ops : List ω} {s s' : σ}
    (hops : ops <+: all) (hinit : Inv s)
    (hstep : ∀ {op s s'}, op ∈ all → all.head? = some op ∨ Under s → Inv s → allowed s op →
      apply s op = some s' → Inv s' ∧ Under s')
    (hallowed : EachAllowed apply allowed ops s) (happly : applyAll apply ops s = some s') :
    Inv s' ∧ (ops = [] ∨ Under s') := by
  refine hallowed.prefix_invariant (fun done s => Inv s ∧ (done = [] ∨ Under s))
    ⟨hinit, .inl rfl⟩ ?_ happly
  rintro done op rest s s' rfl ⟨hs, hstart⟩ hop hs'
  obtain ⟨more, rfl⟩ := hops
  have hmem : op ∈ done ++ op :: rest ++ more :=
    mem_append_left _ (mem_append_right _ mem_cons_self)
  obtain ⟨h, hunder⟩ := hstep hmem (hstart.imp_left fun h => by rw [h]; rfl) hs hop hs'
  exact ⟨h, .inr hunder⟩

/-- The operations before one that is applied were allowed, and so is the operation. -/
theorem EachAllowed.split {done rest : List ω} {op : ω} {s₀ s : σ}
    (h : EachAllowed apply allowed (done ++ op :: rest) s₀)
    (haccepted : (applyAll apply (done ++ op :: rest) s₀).isSome)
    (hdone : applyAll apply done s₀ = some s) :
    EachAllowed apply allowed done s₀ ∧ allowed s op ∧ (apply s op).isSome := by
  induction done generalizing s₀ with
  | nil =>
    cases hdone
    exact ⟨trivial, h.1, Option.isSome_of_isSome_bind haccepted⟩
  | cons o done ih =>
    obtain ⟨s₁, ho, hdone⟩ := Option.bind_eq_some_iff.1 hdone
    have haccepted₁ : (applyAll apply (done ++ op :: rest) s₁).isSome := by
      simpa [applyAll, ho] using haccepted
    obtain ⟨hbefore, hop⟩ := ih (h.2 s₁ ho) haccepted₁ hdone
    refine ⟨⟨h.1, ?_⟩, hop⟩
    intro s' hs'
    cases ho.symm.trans hs'
    exact hbefore

/-! ### Folds -/

section Folds

variable {f : σ → ω → Option σ} (Inv : List ω → σ → Prop) {l : List ω} {s : σ}

theorem foldlM_some (hinit : Inv [] s)
    (hstep : ∀ {done x rest t}, l = done ++ x :: rest → Inv done t →
      ∃ t', f t x = some t' ∧ Inv (done ++ [x]) t') :
    ∃ s', l.foldlM f s = some s' ∧ Inv l s' := by
  suffices H : ∀ rest done t, l = done ++ rest → Inv done t →
      ∃ s', rest.foldlM f t = some s' ∧ Inv l s' from H l [] s rfl hinit
  intro rest
  induction rest with
  | nil =>
    intro done t hl hinv
    refine ⟨t, rfl, ?_⟩
    rw [hl, append_nil]
    exact hinv
  | cons x rest ih =>
    intro done t hl hinv
    obtain ⟨t', ht', hinv'⟩ := hstep hl hinv
    obtain ⟨s', hs', hall⟩ := ih (done ++ [x]) t' (by rw [hl, append_assoc]; rfl) hinv'
    refine ⟨s', ?_, hall⟩
    rw [foldlM_cons, ht']
    exact hs'

theorem foldlM_some_of_forall (h : ∀ x ∈ l, ∀ t, ∃ t', f t x = some t') :
    ∃ s', l.foldlM f s = some s' := by
  obtain ⟨s', hs', _⟩ := foldlM_some (fun _ _ => True) (f := f) (s := s) trivial
    fun hl _ => (h _ (mem_of_split hl) _).imp fun _ ht => ⟨ht, trivial⟩
  exact ⟨s', hs'⟩

theorem foldlM_invariant {s' : σ} (hinit : Inv [] s)
    (hstep : ∀ {done x rest t t'}, l = done ++ x :: rest → Inv done t → f t x = some t' →
      Inv (done ++ [x]) t') (h : l.foldlM f s = some s') : Inv l s' := by
  suffices H : ∀ rest done t, l = done ++ rest → Inv done t → rest.foldlM f t = some s' →
      Inv l s' from H l [] s rfl hinit h
  intro rest
  induction rest with
  | nil =>
    intro done t hl hinv h
    cases h
    rw [hl, append_nil]
    exact hinv
  | cons x rest ih =>
    intro done t hl hinv h
    rw [foldlM_cons] at h
    obtain ⟨t', ht', h⟩ := Option.bind_eq_some_iff.mp h
    exact ih (done ++ [x]) t' (by rw [hl, append_assoc]; rfl) (hstep hl hinv ht') h

theorem foldl_invariant {g : σ → ω → σ} (hinit : Inv [] s)
    (hstep : ∀ {done x rest t}, l = done ++ x :: rest → Inv done t → Inv (done ++ [x]) (g t x)) :
    Inv l (l.foldl g s) := by
  obtain ⟨s', hs', hinv⟩ := foldlM_some (f := fun t x => some (g t x)) Inv hinit
    fun hl ht => ⟨_, rfl, hstep hl ht⟩
  have hfold : l.foldlM (fun t x => some (g t x)) s = some (l.foldl g s) := foldlM_pure
  cases hfold.symm.trans hs'
  exact hinv

end Folds

end HyperExchange.Execution
