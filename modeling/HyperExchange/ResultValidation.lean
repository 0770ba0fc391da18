/-
  **The validation of a contract's result** (`contract_invoke_result::validate`).

  The loops add up what was withdrawn and what was deposited of each asset.  The fees are
  added to the deposits of their asset as well, but that sum is not kept, so a result that
  does not cover its fees passes.  Amounts are `share_type`: a total that overflows throws,
  also one of a result that covers everything.
-/
import HyperExchange.TransferConservation

namespace HyperExchange.Transfers

open Fees OrderedMap List Option OMap

variable {H : Type} {es : List (Key H × Int)} {m m' : OMap Nat Int}

theorem amount_addTotal (m : OMap Nat Int) (k : Key H) (v : Int) (a : Nat) :
    (m.insert (ofLex k).2 (m.amount (ofLex k).2 + v)).amount a =
      m.amount a + if assetIs a k then v else 0 := by
  rw [amount_insert]
  by_cases ha : (ofLex k).2 = a
  · simp [assetIs, ha]
  · simp [assetIs, ha, Ne.symm ha]

theorem amount_addTotals (hm : ∀ a, m.amount a < 2 ^ 63) (h : addTotals es m = some m') (a : Nat) :
    m'.amount a = m.amount a + sumEntries (assetIs a) es ∧ m'.amount a < 2 ^ 63 := by
  induction es generalizing m with
  | nil =>
    cases h
    exact ⟨(Int.add_zero _).symm, hm a⟩
  | cons e es ih =>
    rw [sumEntries_cons, ← Int.add_assoc]
    unfold addTotals at h
    split at h
    · next hzero =>
      rw [hzero, ite_self, Int.add_zero]
      exact ih hm h
    · obtain ⟨n, hn, h⟩ := bind_eq_some_iff.mp h
      have hrange := share_range hn
      cases share_eq hn
      rw [← amount_addTotal]
      refine ih (fun a' => ?_) h
      rw [amount_insert]
      split
      · exact hrange.2
      · exact hm a'

theorem addTotals_returns (hes : ∀ e ∈ es, 0 ≤ e.2) (hm : ∀ a, 0 ≤ m.amount a)
    (h : ∀ a, m.amount a + sumEntries (assetIs a) es < 2 ^ 63) :
    ∃ m', addTotals es m = some m' := by
  induction es generalizing m with
  | nil => exact ⟨m, rfl⟩
  | cons e es ih =>
    have hrest : ∀ d ∈ es, 0 ≤ d.2 := fun d hd => hes d (mem_cons_of_mem e hd)
    have he := hes e mem_cons_self
    simp only [sumEntries_cons, ← Int.add_assoc] at h
    unfold addTotals
    split
    · next hzero =>
      simp only [hzero, ite_self, Int.add_zero] at h
      exact ih hrest hm h
    · simp only [← amount_addTotal] at h
      have hindex := hm (ofLex e.1).2
      have hsum := sumEntries_nonneg (p := assetIs (ofLex e.1).2) hrest
      have hrange := h (ofLex e.1).2
      rw [amount_insert, if_pos rfl] at hrange
      rw [share, if_pos (by omega)]
      refine ih hrest (fun a => ?_) h
      rw [amount_insert]
      split
      · omega
      · exact hm a

theorem forall_entries_iff {Q : Nat → Int → Prop} (hQ : ∀ a, Q a 0) :
    (∀ e ∈ m.entries, Q e.1 e.2) ↔ ∀ a, Q a (m.amount a) := by
  refine ⟨fun h a => ?_, fun h e he => amount_of_mem he ▸ h e.1⟩
  unfold OMap.amount
  cases hf : m.find a with
  | none => exact hQ a
  | some v => exact h (a, v) ((mem_entries_iff m a v).mpr hf)

theorem share_isSome (n : Int) : (share n).isSome = true ↔ -2 ^ 63 ≤ n ∧ n < 2 ^ 63 := by
  unfold share
  split
  · next h => exact iff_of_true rfl h
  · next h => exact iff_of_false Bool.false_ne_true h

theorem covered_iff {v : Int} {a : Nat} (hv : 0 ≤ v) (hm : 0 ≤ m.amount a) :
    (v = 0 ∨ (m.find a).any (fun w => v ≤ w) = true) ↔ v ≤ m.amount a := by
  unfold OMap.amount at hm ⊢
  generalize m.find a = found at hm ⊢
  cases found with
  | none =>
    simp only [any_none, getD_none, Bool.false_eq_true, or_false]
    omega
  | some w =>
    simp only [any_some, getD_some, decide_eq_true_eq] at hm ⊢
    omega

variable [LinearOrder (Address H)]

namespace InvokeResult

variable (r : InvokeResult H)

structure NonNegative (r : InvokeResult H) : Prop where
  withdraws : ∀ e ∈ r.contractWithdraw.entries, 0 ≤ e.2
  deposits : ∀ e ∈ r.depositContract.entries, 0 ≤ e.2
  credits : ∀ e ∈ r.depositToAddress.entries, 0 ≤ e.2
  fees : ∀ a, 0 ≤ r.transferFees.amount a

def totalIn (a : Nat) : Int := r.contractWithdraw.sumOver (assetIs a)

def totalOut (a : Nat) : Int :=
  r.depositContract.sumOver (assetIs a) + r.depositToAddress.sumOver (assetIs a)

/-- In of every asset is at least out and fee. -/
def CoversFees : Prop :=
  ∀ a, r.totalOut a + r.transferFees.amount a ≤ r.totalIn a

variable {r : InvokeResult H}

theorem tests_iff {ins outs : OMap Nat Int} (h : r.NonNegative)
    (hin : ∀ a, ins.amount a = r.totalIn a)
    (hout : ∀ a, outs.amount a = r.totalOut a ∧ outs.amount a < 2 ^ 63) :
    ((r.transferFees.entries.all fun p => (share (outs.amount p.1 + p.2)).isSome) ∧
        outs.entries.all fun p => p.2 = 0 || (ins.find p.1).any (p.2 ≤ ·)) ↔
      (∀ a, r.totalOut a + r.transferFees.amount a < 2 ^ 63) ∧
        ∀ a, r.totalOut a ≤ r.totalIn a := by
  have hpos : ∀ a, 0 ≤ r.totalIn a ∧ 0 ≤ r.totalOut a := fun a =>
    ⟨sumEntries_nonneg h.withdraws,
      Int.add_nonneg (sumEntries_nonneg h.deposits) (sumEntries_nonneg h.credits)⟩
  simp only [List.all_eq_true, Bool.or_eq_true, decide_eq_true_eq]
  rw [forall_entries_iff (Q := fun a v => (share (outs.amount a + v)).isSome = true),
    forall_entries_iff (Q := fun a v => v = 0 ∨ (ins.find a).any (v ≤ ·) = true)]
  · refine and_congr (forall_congr' fun a => ?_) (forall_congr' fun a => ?_)
    · have hfee := h.fees a
      have hp := hpos a
      rw [(hout a).1, share_isSome]
      omega
    · have hp := hpos a
      rw [← hin, ← (hout a).1] at hp ⊢
      exact covered_iff hp.2 hp.1
  · exact fun a => .inl rfl
  · intro a
    have hp := hpos a
    have ha := hout a
    rw [share_isSome]
    omega

/-- What `validate` checks. -/
theorem validate_iff (h : r.NonNegative) :
    r.validate = some r ↔ (∀ a, r.totalIn a < 2 ^ 63) ∧
      (∀ a, r.totalOut a + r.transferFees.amount a < 2 ^ 63) ∧ ∀ a, r.totalOut a ≤ r.totalIn a := by
  have hempty : ∀ a, 0 ≤ (OMap.empty : OMap Nat Int).amount a ∧
      (OMap.empty : OMap Nat Int).amount a < 2 ^ 63 := by
    intro a
    rw [amount_empty]
    decide
  have hsums : ∀ {ins mid outs}, addTotals r.contractWithdraw.entries .empty = some ins →
      addTotals r.depositContract.entries .empty = some mid →
      addTotals r.depositToAddress.entries mid = some outs →
      (∀ a, ins.amount a = r.totalIn a ∧ ins.amount a < 2 ^ 63) ∧
        ∀ a, outs.amount a = r.totalOut a ∧ outs.amount a < 2 ^ 63 := by
    intro ins mid outs hins hmid houts
    have hmids := amount_addTotals (fun a => (hempty a).2) hmid
    refine ⟨fun a => ?_, fun a => ?_⟩
    · have ha := amount_addTotals (fun a => (hempty a).2) hins a
      rwa [amount_empty, Int.zero_add] at ha
    · have ha := amount_addTotals (fun a => (hmids a).2) houts a
      rwa [(hmids a).1, amount_empty, Int.zero_add] at ha
  constructor
  · intro hv
    obtain ⟨ins, mid, hins, hmid, hv⟩ := bind_bind_eq_some hv
    obtain ⟨outs, houts, hv⟩ := bind_eq_some_iff.mp hv
    obtain ⟨hin, hout⟩ := hsums hins hmid houts
    split at hv
    · next htests =>
      exact ⟨fun a => (hin a).1 ▸ (hin a).2, (tests_iff h (fun a => (hin a).1) hout).mp htests⟩
    · cases hv
  · rintro ⟨hin, hfee, hle⟩
    have hcredit : ∀ a, 0 ≤ r.depositToAddress.sumOver (assetIs a) :=
      fun a => sumEntries_nonneg h.credits
    have hout : ∀ a, r.totalOut a < 2 ^ 63 := fun a => by
      have ha := hfee a
      have hpos := h.fees a
      omega
    have hfirst : ∀ {es : List (Key H × Int)}, (∀ e ∈ es, 0 ≤ e.2) →
        (∀ a, sumEntries (assetIs a) es < 2 ^ 63) → ∃ m', addTotals es .empty = some m' := by
      intro es hes hrange
      refine addTotals_returns hes (fun a => (hempty a).1) fun a => ?_
      rw [amount_empty, Int.zero_add]
      exact hrange a
    obtain ⟨ins, hins⟩ := hfirst h.withdraws hin
    obtain ⟨mid, hmid⟩ := hfirst h.deposits fun a => by
      have ha := hout a
      have hc := hcredit a
      unfold totalOut sumOver at ha
      unfold sumOver at hc
      omega
    have hmids := amount_addTotals (fun a => (hempty a).2) hmid
    simp only [amount_empty, Int.zero_add] at hmids
    obtain ⟨outs, houts⟩ := addTotals_returns (m := mid) h.credits
      (fun a => (hmids a).1 ▸ sumEntries_nonneg h.deposits)
      (fun a => (hmids a).1 ▸ hout a)
    obtain ⟨hinEq, houtEq⟩ := hsums hins hmid houts
    have htests := (tests_iff h (fun a => (hinEq a).1) houtEq).mpr ⟨hfee, hle⟩
    rw [validate, hins, bind_some, hmid, bind_some, houts, bind_some, if_pos htests]

end InvokeResult

/-- A contract gives away ten units; an address is paid, and a fee of one is due. -/
def sampleOutcome (paid : Int) : InvokeResult Nat :=
  { InvokeResult.empty with
    contractWithdraw := OMap.empty.insert (key sampleContract 0) 10
    depositToAddress := OMap.empty.insert (key sampleCaller 0) paid
    transferFees := OMap.empty.insert 0 1 }

theorem sumOver_single (addr : Address Nat) (a : Nat) (v : Int) :
    (OMap.empty.insert (key addr 0) v : OMap (Key Nat) Int).sumOver (assetIs a) =
      if a = 0 then v else 0 := by
  rw [sumOver_insert, sumOver_empty, amount_empty, Int.sub_zero, Int.zero_add]
  simp [assetIs, key, eq_comm]

section Outcome

variable (paid : Int) (a : Nat)

theorem totalIn_sampleOutcome : (sampleOutcome paid).totalIn a = if a = 0 then 10 else 0 :=
  sumOver_single ..

theorem totalOut_sampleOutcome : (sampleOutcome paid).totalOut a = if a = 0 then paid else 0 :=
  (Int.zero_add _).trans (sumOver_single ..)

theorem transferFees_sampleOutcome :
    (sampleOutcome paid).transferFees.amount a = if a = 0 then 1 else 0 := by
  unfold sampleOutcome
  rw [amount_insert, amount_empty]

end Outcome

theorem nonNegative_sampleOutcome {paid : Int} (hpaid : 0 ≤ paid) :
    (sampleOutcome paid).NonNegative where
  withdraws := forall_mem_singleton.2 (by decide : (0 : Int) ≤ 10)
  deposits := by nofun
  credits := forall_mem_singleton.2 hpaid
  fees a := by
    rw [transferFees_sampleOutcome]
    split <;> decide

end HyperExchange.Transfers
