/-
  **What a sequence of changes can do to a table.**

  `Evolves keep new gone t t'`: every row of `t'` is a row of `t` up to `keep`, or meets
  `new`; and every row of `t` is still there up to `keep`, unless it meets `gone`.  The
  changes of a table each have a rule, and `trans` puts them together; what is asked of
  `keep`, `new` and `gone` for that is in `Laws`.
-/
import HyperExchange.KeyedTable

namespace HyperExchange.Keyed

variable {K R : Type} [DecidableEq K] {key : R → K}

structure Laws (keep : R → R → Prop) (new gone : R → Prop) : Prop where
  refl : ∀ r, keep r r
  trans : ∀ {r r' r''}, keep r r' → keep r' r'' → keep r r''
  new_keep : ∀ {r r'}, new r → keep r r' → new r'
  keep_gone : ∀ {r r'}, keep r r' → gone r' → gone r

structure Evolves (keep : R → R → Prop) (new gone : R → Prop) (t t' : Table key) : Prop where
  back : ∀ {k r'}, t'.find k = some r' → (∃ r, t.find k = some r ∧ keep r r') ∨ new r'
  forth : ∀ {k r}, t.find k = some r → ¬gone r → ∃ r', t'.find k = some r' ∧ keep r r'

namespace Evolves

variable {keep : R → R → Prop} {new gone : R → Prop} (laws : Laws keep new gone)
  {t t' t'' : Table key} {e : Edit key}
include laws

omit laws in
theorem weaken {new' : R → Prop} (h : Evolves keep new gone t t') (hnew : ∀ {r}, new r → new' r) :
    Evolves keep new' gone t t' :=
  ⟨fun hr => (h.back hr).imp id hnew, h.forth⟩

theorem refl (t : Table key) : Evolves keep new gone t t where
  back h := .inl ⟨_, h, laws.refl _⟩
  forth h _ := ⟨_, h, laws.refl _⟩

theorem trans (h : Evolves keep new gone t t') (h' : Evolves keep new gone t' t'') :
    Evolves keep new gone t t'' where
  back := by
    intro k r'' hr''
    rcases h'.back hr'' with ⟨r', hr', hkeep'⟩ | hnew
    · rcases h.back hr' with ⟨r, hr, hkeep⟩ | hnew
      · exact .inl ⟨r, hr, laws.trans hkeep hkeep'⟩
      · exact .inr (laws.new_keep hnew hkeep')
    · exact .inr hnew
  forth := by
    intro k r hr hgone
    obtain ⟨r', hr', hkeep⟩ := h.forth hr hgone
    obtain ⟨r'', hr'', hkeep'⟩ := h'.forth hr' fun hg => hgone (laws.keep_gone hkeep hg)
    exact ⟨r'', hr'', laws.trans hkeep hkeep'⟩

theorem modifyWhere {p : R → Bool}
    (he : ∀ {k r}, t.find k = some r → p r = true → keep r (e.run r)) :
    Evolves keep new gone t (t.modifyWhere p e) := by
  have hrow : ∀ {k r}, t.find k = some r → keep r (if p r then e.run r else r) := by
    intro k r hr
    split
    · next hp => exact he hr hp
    · exact laws.refl r
  constructor
  · intro k r' hr'
    rw [Table.find_modifyWhere] at hr'
    obtain ⟨r, hr, rfl⟩ := Option.map_eq_some_iff.1 hr'
    exact .inl ⟨r, hr, hrow hr⟩
  · intro k r hr _
    refine ⟨_, ?_, hrow hr⟩
    rw [Table.find_modifyWhere, hr]
    rfl

theorem modify {k : K} (he : ∀ {r}, t.find k = some r → keep r (e.run r)) :
    Evolves keep new gone t (t.modify k e) := by
  refine modifyWhere laws ?_
  intro k' r hr hk
  have hkey : key r = k := of_decide_eq_true hk
  rw [Table.key_of_find hr] at hkey
  exact he (hkey ▸ hr)

theorem modifyEach {ks : List K}
    (he : ∀ {k r₀ r}, k ∈ ks → t.find k = some r₀ → keep r₀ r → keep r (e.run r)) :
    Evolves keep new gone t (t.modifyEach ks e) := by
  induction ks generalizing t with
  | nil => exact refl laws t
  | cons k ks ih =>
    have hstep : Evolves keep new gone t (t.modify k e) :=
      modify laws fun hr => he List.mem_cons_self hr (laws.refl _)
    refine hstep.trans laws (ih ?_)
    intro k' r₁ r hk' hr₁ hkeep
    rw [Table.find_modify] at hr₁
    obtain ⟨r₀, hr₀, rfl⟩ := Option.map_eq_some_iff.1 hr₁
    refine he (List.mem_cons_of_mem _ hk') hr₀ (laws.trans ?_ hkeep)
    split
    · exact he (List.mem_cons_of_mem _ hk') hr₀ (laws.refl r₀)
    · exact laws.refl r₀

theorem insert {r : R} (hnew : new r) (h : t.insert r = some t') :
    Evolves keep new gone t t' := by
  constructor
  · intro k x hx
    rcases Table.find_insert_cases h hx with ⟨_, rfl⟩ | hx
    · exact .inr hnew
    · exact .inl ⟨x, hx, laws.refl x⟩
  · intro k x hx _
    exact ⟨x, Table.find_insert_old h hx, laws.refl x⟩

theorem erase {k : K} (hgone : ∀ {r}, t.find k = some r → gone r) :
    Evolves keep new gone t (t.erase k) := by
  constructor
  · intro k' r hr
    rw [Table.find_erase] at hr
    split at hr
    · cases hr
    · exact .inl ⟨r, hr, laws.refl r⟩
  · intro k' r hr hkept
    refine ⟨r, ?_, laws.refl r⟩
    rw [Table.find_erase, if_neg, hr]
    rintro rfl
    exact hkept (hgone hr)

end Evolves

end HyperExchange.Keyed
