/-
  **Calls that may throw, and runs of them.**

  A call on a mutable state either returns or throws; in both cases it leaves a state behind,
  and a caller that catches the exception goes on from there (`Exec σ`).  `andThen` is
  sequencing, `forEach` a loop, and `Related` compares two calls in lockstep.
  `ReachableUnder` is the set of states that runs of calls reach when each call meets a side
  condition; `ReachableUnder.invariant` is the one induction over runs.
-/
import Mathlib.Algebra.Order.Ring.Int

namespace HyperExchange.Execution

variable {σ τ ι β : Type}

/-- The outcome of a call on a state: `ok` is the state after a return, `thrown`
    the state an exception leaves behind. -/
inductive Exec (σ : Type) where
  | ok (s : σ)
  | thrown (s : σ)
deriving DecidableEq, Repr

namespace Exec

def state : Exec σ → σ
  | .ok s => s
  | .thrown s => s

def returned : Exec σ → Bool
  | .ok _ => true
  | .thrown _ => false

/-- Run `f` after `x`, unless `x` threw. -/
def andThen (x : Exec σ) (f : σ → Exec σ) : Exec σ :=
  match x with
  | .ok s => f s
  | .thrown s => .thrown s

def map (f : σ → τ) : Exec σ → Exec τ
  | .ok s => .ok (f s)
  | .thrown s => .thrown (f s)

def forEach (f : σ → β → Exec σ) : List β → σ → Exec σ
  | [], s => .ok s
  | b :: bs, s => (f s b).andThen (forEach f bs)

def collect (x : Exec σ) (f : σ → List β) : List β :=
  match x with
  | .ok s => f s
  | .thrown _ => []

variable (s : σ)

@[simp] theorem state_ok : (ok s).state = s := rfl

@[simp] theorem state_thrown : (thrown s).state = s := rfl

@[simp] theorem returned_ok : (ok s).returned = true := rfl

@[simp] theorem returned_thrown : (thrown s).returned = false := rfl

@[simp] theorem ok_andThen (f : σ → Exec σ) : (ok s).andThen f = f s := rfl

@[simp] theorem thrown_andThen (f : σ → Exec σ) : (thrown s).andThen f = thrown s := rfl

@[simp] theorem collect_ok (f : σ → List β) : (ok s).collect f = f s := rfl

@[simp] theorem map_ok (f : σ → τ) (s : σ) : (ok s).map f = ok (f s) := rfl

@[simp] theorem map_thrown (f : σ → τ) (s : σ) : (thrown s).map f = thrown (f s) := rfl

theorem state_map (f : σ → τ) (x : Exec σ) : (x.map f).state = f x.state := by
  cases x <;> rfl

variable (f : σ → β → Exec σ)

theorem forEach_cons (b : β) (bs : List β) (s : σ) :
    forEach f (b :: bs) s = (f s b).andThen (forEach f bs) := rfl

variable {x : Exec σ} {f : σ → Exec σ}

/-- A block returns exactly when its first call returns and the rest returns from
    the state that call leaves. -/
theorem andThen_eq_ok {r : σ} : x.andThen f = ok r ↔ ∃ s, x = ok s ∧ f s = ok r := by
  cases x with
  | ok | thrown => simp [andThen]

theorem returned_iff : x.returned = true ↔ ∃ r, x = ok r := by
  cases x <;> simp

/-- **Loop rule.** Let `g done` be the state the loop is in after the elements `done`,
    as long as every iteration so far returned.  The loop returns exactly when each
    iteration returns from that state, and it then ends in `g` of all elements. -/
theorem forEach_eq_ok_iff {f : σ → β → Exec σ} {l : List β} (g : List β → σ)
    (hg : ∀ done b rest s', l = done ++ b :: rest → f (g done) b = ok s' →
      s' = g (done ++ [b])) {r : σ} :
    forEach f l (g []) = ok r ↔
      r = g l ∧ ∀ done b rest, l = done ++ b :: rest → (f (g done) b).returned = true := by
  suffices H : ∀ rest done, l = done ++ rest → (forEach f rest (g done) = ok r ↔
      r = g l ∧ ∀ mid b post, rest = mid ++ b :: post →
        (f (g (done ++ mid)) b).returned = true) from by simpa using H l [] rfl
  intro rest
  induction rest with
  | nil =>
    intro done hsplit
    rw [List.append_nil] at hsplit
    subst hsplit
    constructor
    · intro h
      cases h
      refine ⟨rfl, ?_⟩
      intro mid b post hmid
      simp at hmid
    · rintro ⟨rfl, _⟩
      rfl
  | cons b rest ih =>
    intro done hsplit
    rw [forEach_cons, andThen_eq_ok]
    constructor
    · rintro ⟨s', hs', hrest⟩
      have hgs := hg done b rest s' hsplit hs'
      subst hgs
      obtain ⟨hr, hall⟩ := (ih (done ++ [b]) (by simp [hsplit])).mp hrest
      refine ⟨hr, ?_⟩
      intro mid c post hmid
      cases mid with
      | nil =>
        cases hmid
        rw [List.append_nil, hs', returned_ok]
      | cons m mid =>
        cases hmid
        have hc := hall mid c post rfl
        simpa using hc
    · rintro ⟨hr, hall⟩
      have hb : (f (g done) b).returned = true := by
        have h := hall [] b rest rfl
        rwa [List.append_nil] at h
      cases hf : f (g done) b with
      | thrown s' => rw [hf] at hb; cases hb
      | ok s' =>
        have hgs := hg done b rest s' hsplit hf
        subst hgs
        refine ⟨_, rfl, (ih (done ++ [b]) (by simp [hsplit])).mpr ⟨hr, ?_⟩⟩
        intro mid c post hmid
        have hc := hall (b :: mid) c post (by rw [hmid]; rfl)
        simpa using hc

/-! ### Two calls side by side -/

/-- Both calls return, or both throw, and what they leave is related. -/
inductive Related (r : σ → τ → Prop) : Exec σ → Exec τ → Prop
  | ok {s : σ} {t : τ} : r s t → Related r (ok s) (ok t)
  | thrown {s : σ} {t : τ} : r s t → Related r (thrown s) (thrown t)

variable {r r' : σ → τ → Prop}

/-- Blocks are related if their first calls are and the rests are from related states. -/
theorem Related.andThen {y : Exec τ} {g : τ → Exec τ}
    (h : Related r x y) (hthrown : ∀ s t, r s t → r' s t)
    (hrest : ∀ s t, r s t → Related r' (f s) (g t)) : Related r' (x.andThen f) (y.andThen g) := by
  cases h with
  | ok h => exact hrest _ _ h
  | thrown h => exact .thrown (hthrown _ _ h)

theorem Related.imp {y : Exec τ} (h : Related r x y)
    (himp : r x.state y.state → r' x.state y.state) : Related r' x y := by
  cases h with
  | ok h => exact .ok (himp h)
  | thrown h => exact .thrown (himp h)

/-- A block changes the state as its parts do, for a relation that composes. -/
theorem state_andThen {r : σ → σ → Prop} (htrans : ∀ a b c, r a b → r b c → r a c) {s : σ}
    (hx : r s x.state) (hf : ∀ t, x = ok t → r t (f t).state) :
    r s (x.andThen f).state := by
  cases x with
  | ok t => exact htrans _ _ _ hx (hf t rfl)
  | thrown t => exact hx

/-- A loop changes the state as its iterations do. -/
theorem state_forEach {r : σ → σ → Prop} (hrefl : ∀ a, r a a)
    (htrans : ∀ a b c, r a b → r b c → r a c) {f : σ → β → Exec σ} {l : List β}
    (hf : ∀ b ∈ l, ∀ s, r s (f s b).state) (s : σ) : r s (forEach f l s).state := by
  induction l generalizing s with
  | nil => exact hrefl s
  | cons b l ih =>
    refine state_andThen htrans (hf b List.mem_cons_self s) fun t _ => ?_
    exact ih (fun c hc => hf c (List.mem_cons_of_mem b hc)) t

end Exec

/-! ### Runs -/

/-- The states reached from `init` by runs of `step` in which every call `i` made
    in a state `s` meets `allowed s i`. -/
inductive ReachableUnder (init : σ → Prop) (allowed : σ → ι → Prop) (step : σ → ι → σ) :
    σ → Prop
  | start {s : σ} : init s → ReachableUnder init allowed step s
  | call {s : σ} {i : ι} : ReachableUnder init allowed step s → allowed s i →
      ReachableUnder init allowed step (step s i)

namespace ReachableUnder

variable {init : σ → Prop} {allowed allowed' : σ → ι → Prop} {step : σ → ι → σ}

/-- **Invariant rule.** What holds at the start and is kept by every allowed call
    holds in every state a run reaches. -/
theorem invariant (Inv : σ → Prop) (hinit : ∀ s, init s → Inv s)
    (hstep : ∀ s i, Inv s → allowed s i → Inv (step s i)) {s : σ}
    (h : ReachableUnder init allowed step s) : Inv s := by
  induction h with
  | start h => exact hinit _ h
  | call _ hok ih => exact hstep _ _ ih hok

def checkRun (allowed : σ → ι → Prop) [∀ s i, Decidable (allowed s i)] (step : σ → ι → σ) :
    σ → List ι → Bool
  | _, [] => true
  | s, i :: l => decide (allowed s i) && checkRun allowed step (step s i) l

theorem of_checkRun [∀ s i, Decidable (allowed s i)] {s : σ} {l : List ι}
    (h : ReachableUnder init allowed step s) (hl : checkRun allowed step s l = true) :
    ReachableUnder init allowed step (l.foldl step s) := by
  induction l generalizing s with
  | nil => exact h
  | cons i l ih =>
    simp only [checkRun, Bool.and_eq_true, decide_eq_true_eq] at hl
    exact ih (.call h hl.1) hl.2

end ReachableUnder

end HyperExchange.Execution
