/-
  **What withdrawals take and deposits give** (`crosschain_record_evaluate.cpp`,
  `asset_object.cpp`).

  The amount of both operations is a text.  `amount_from_string` reads a sign, and the only
  checks of the amount are the withdraw limit, which stands behind the early return of a node
  without a handle, and what the handle of a deposit says.  The symbol under which the handle
  is looked up need not be that of the asset.

  So an applied withdrawal moves the amount the text is read as, whatever it is: it takes a
  positive amount that reaches the limit exactly when the text says so.
-/
import HyperExchange.WithdrawalRefunds

namespace HyperExchange.Crosschain

open Keyed Fees List

variable {H : Type} {reg : Registry} {n : Int}

/-! ### Reading amounts -/

theorem foldl_digits_nonneg (l : Text) (hn : 0 ≤ n) :
    0 ≤ l.foldl (fun (n : Int) (c : Char) => n * 10 + (c.toNat - '0'.toNat : Nat)) n := by
  induction l generalizing n with
  | nil => exact hn
  | cons c l ih =>
    refine ih ?_
    show 0 ≤ n * 10 + ((c.toNat - '0'.toNat : Nat) : Int)
    omega

theorem stoll_nonneg {s : Text} (hs : '-' ∉ s) (h : stoll s = some n) : 0 ≤ n := by
  cases s with
  | nil => cases h
  | cons c t =>
    have hc : c ≠ '-' := fun hc => hs (hc ▸ mem_cons_self)
    unfold stoll at h
    split at h
    · next negative rest hcase =>
      split at hcase
      · next hminus =>
        rw [List.cons.injEq] at hminus
        exact absurd hminus.1 hc
      · cases hcase
        simp only [Bool.false_eq_true, if_false] at h
        split at h
        · cases h
        · rw [share_eq h]
          exact foldl_digits_nonneg _ (Int.le_refl 0)

theorem amountFromString_nonneg {p : Nat} {m : Int} {s : Text} (hs : '-' ∉ s)
    (h : amountFromString p m s = some n) : 0 ≤ n := by
  simp only [amountFromString, hs, if_false] at h
  split at h
  · simp only [Option.bind_eq_some_iff] at h
    obtain ⟨scaled, hscaled, whole, hwhole, fraction, hfraction, satoshis, hsum, hmax⟩ := h
    split at hmax
    · cases hmax
      have hpos : 0 ≤ scaled := by
        simp only [scaledPrecision] at hscaled
        split at hscaled
        · cases hscaled
          exact Int.le_of_lt (Int.pow_pos (by decide))
        · cases hscaled
      have hleft : 0 ≤ whole := by
        simp only [wholePart, hs, if_false, drop_zero] at hwhole
        split at hwhole
        · cases hwhole
          exact Int.le_refl 0
        · obtain ⟨k, hk, hshare⟩ := Option.bind_eq_some_iff.1 hwhole
          rw [share_eq hshare]
          exact Int.mul_nonneg (stoll_nonneg (fun hm => hs (mem_of_mem_take hm)) hk) hpos
      have hright : 0 ≤ fraction := by
        simp only [fractionPart] at hfraction
        split at hfraction
        · split at hfraction
          · cases hfraction
            exact Int.le_refl 0
          · refine stoll_nonneg ?_ hfraction
            intro hm
            rcases mem_append.1 hm with hm | hm
            · exact hs (mem_of_mem_drop (mem_of_mem_take hm))
            · cases (mem_replicate.1 hm).2
        · cases hfraction
          exact Int.le_refl 0
      rw [share_eq hsum]
      omega
    · cases hmax
  · cases h

/-! ### What an operation moves -/

variable [DecidableEq H] {ctx : Context reg H} {trx : SignedTransaction H} {s s' : State H}

theorem Issues.moves {t : CrosschainTrxIndex H} {q : AcquiredCrosschainIndex}
    {account : Address H} {delta : Asset} {e : Entry H}
    (h : Issues s t q account delta e s') {a : Nat} (ha : delta.assetId = a) :
    s'.ledger.held account.addr a = s.ledger.held account.addr a + delta.amount ∧
      s'.currentSupply a = s.currentSupply a + delta.amount := by
  rw [h.ledger.held, h.supply, if_pos rfl, Asset.of, if_pos ha.symm]
  exact ⟨rfl, rfl⟩

variable [Inhabited H] {o : CrosschainWithdraw H}

theorem applyWithdraw_moves
    (h : applyOperation ctx trx s (.crosschainWithdraw o) = some s') :
    ∃ x, ctx.amountFromString o.assetId o.amount = some x ∧
      s'.ledger.held o.withdrawAccount.addr o.assetId =
        s.ledger.held o.withdrawAccount.addr o.assetId - x.amount ∧
      s'.currentSupply o.assetId = s.currentSupply o.assetId - x.amount := by
  obtain ⟨s₁, hran, hpay⟩ := applyOperation_ran h
  cases hpay
  cases hran with
  | @withdraw _ x _ _ hx _ hissues =>
    exact ⟨x, hx, hissues.moves (Context.amountFromString_eq hx).1⟩

/-- A withdrawal whose amount is written without a minus never makes money. -/
theorem withdraw_without_minus (hminus : '-' ∉ o.amount)
    (h : applyOperation ctx trx s (.crosschainWithdraw o) = some s') :
    s'.ledger.held o.withdrawAccount.addr o.assetId ≤
        s.ledger.held o.withdrawAccount.addr o.assetId ∧
      s'.currentSupply o.assetId ≤ s.currentSupply o.assetId := by
  obtain ⟨x, hx, hheld, hsupply⟩ := applyWithdraw_moves h
  obtain ⟨_, _, hread⟩ := Context.amountFromString_eq hx
  have hpos := amountFromString_nonneg hminus hread
  omega

/-! ### Amounts that are positive -/

/-- A withdrawal takes a positive amount that reaches the limit from the account and from the
    supply; a deposit gives a positive amount. -/
def MovesPositive (ctx : Context reg H) (s s' : State H) : Operation H → Prop
  | .crosschainWithdraw o => ∃ amount : Int, 0 < amount ∧
      (∀ a ∈ ctx.assets o.assetId, a.withdrawLimition ≤ amount) ∧
      s'.ledger.held o.withdrawAccount.addr o.assetId =
        s.ledger.held o.withdrawAccount.addr o.assetId - amount ∧
      s'.currentSupply o.assetId = s.currentSupply o.assetId - amount
  | .crosschainRecord o => ∃ amount : Int, 0 < amount ∧ ∃ b ∈ ctx.bindings,
      b.bindAccount = o.crossChainTrx.fromAccount ∧
      s'.ledger.held b.owner.addr o.assetId = s.ledger.held b.owner.addr o.assetId + amount ∧
      s'.currentSupply o.assetId = s.currentSupply o.assetId + amount
  | _ => True

/-- The text of the amount is read as a positive number, and one that reaches the limit. -/
def PositiveText (ctx : Context reg H) : Operation H → Prop
  | .crosschainWithdraw o => ∀ x ∈ ctx.amountFromString o.assetId o.amount, 0 < x.amount ∧
      ∀ a ∈ ctx.assets o.assetId, a.withdrawLimition ≤ x.amount
  | .crosschainRecord o => ∀ x ∈ ctx.amountFromString o.assetId o.crossChainTrx.amount,
      0 < x.amount
  | _ => True

/-- **Withdrawals and money.** On every node and in every state, an applied operation moves a
    positive amount exactly when its text is read as one. -/
theorem moves_positive_iff (ctx : Context reg H) (trx : SignedTransaction H) (s s' : State H)
    (op : Operation H) (happlied : applyOperation ctx trx s op = some s') :
    MovesPositive ctx s s' op ↔ PositiveText ctx op := by
  cases op with
  | crosschainWithdraw o =>
    obtain ⟨x, hx, hheld, hsupply⟩ := applyWithdraw_moves happlied
    constructor
    · rintro ⟨amount, hpos, hlimit, _, hsupply'⟩ y hy
      cases hx.symm.trans hy
      have heq : amount = x.amount := by omega
      subst heq
      exact ⟨hpos, hlimit⟩
    · intro htext
      obtain ⟨hpos, hlimit⟩ := htext x hx
      exact ⟨x.amount, hpos, hlimit, hheld, hsupply⟩
  | crosschainRecord o =>
    obtain ⟨s₁, hran, hpay⟩ := applyOperation_ran happlied
    cases hpay
    cases hran with
    | @record _ b x _ _ _ hb hx _ hissues =>
      obtain ⟨hheld, hsupply⟩ := hissues.moves (Context.amountFromString_eq hx).1
      constructor
      · rintro ⟨amount, hpos, _, _, _, _, hsupply'⟩ y hy
        cases hx.symm.trans hy
        have heq : amount = x.amount := by omega
        subst heq
        exact hpos
      · intro htext
        exact ⟨x.amount, htext x hx, b, hb.1, hb.2, hheld, hsupply⟩
  | _ => exact ⟨fun _ => trivial, fun _ => trivial⟩

/-! ### Two withdrawals -/

def ethOnlyContext : Context sampleRegistry Bool :=
  { sampleContext with handle := fun symbol => if symbol = eth then some sampleHandle else none }

def withdrawOp (amount symbol : Text) : Operation Bool :=
  .crosschainWithdraw ⟨sampleUser, amount, symbol, 1, ['a']⟩

theorem five_are_taken :
    ∃ s', applyOperation ethOnlyContext ⟨1, [withdrawOp ['5'] eth], [sampleUser]⟩ sampleState
        (withdrawOp ['5'] eth) = some s' ∧
      MovesPositive ethOnlyContext sampleState s' (withdrawOp ['5'] eth) := by
  have hsome : (applyOperation ethOnlyContext ⟨1, [withdrawOp ['5'] eth], [sampleUser]⟩ sampleState
      (withdrawOp ['5'] eth)).isSome := by decide +kernel
  obtain ⟨s', hs'⟩ := Option.isSome_iff_exists.1 hsome
  refine ⟨s', hs', (moves_positive_iff _ _ _ _ _ hs').2 ?_⟩
  intro x hx
  have hread : ethOnlyContext.amountFromString 1 ['5'] = some ⟨5, 1⟩ := by decide +kernel
  cases hread.symm.trans hx
  refine ⟨by decide, ?_⟩
  rintro a ⟨⟩
  decide

theorem five_are_not_made :
    ∃ s', applyOperation ethOnlyContext ⟨1, [withdrawOp ['5'] eth], [sampleUser]⟩ sampleState
        (withdrawOp ['5'] eth) = some s' ∧ s'.currentSupply 1 ≤ sampleState.currentSupply 1 := by
  have hsome : (applyOperation ethOnlyContext ⟨1, [withdrawOp ['5'] eth], [sampleUser]⟩ sampleState
      (withdrawOp ['5'] eth)).isSome := by decide +kernel
  obtain ⟨s', hs'⟩ := Option.isSome_iff_exists.1 hsome
  exact ⟨s', hs', (withdraw_without_minus (by decide) hs').2⟩

/-- Minus five under a symbol without a handle: the user has fifteen of ten afterwards. -/
theorem negative_withdrawal_pays :
    ∃ s' ∈ applyOperation ethOnlyContext ⟨1, [withdrawOp ['-', '5'] ['X']], [sampleUser]⟩
        sampleState (withdrawOp ['-', '5'] ['X']),
      sampleState.ledger.held sampleUser.addr 1 = 10 ∧
        s'.ledger.held sampleUser.addr 1 = 15 ∧ s'.currentSupply 1 = 105 := by
  have hall : (applyOperation ethOnlyContext ⟨1, [withdrawOp ['-', '5'] ['X']], [sampleUser]⟩
      sampleState (withdrawOp ['-', '5'] ['X'])).any (fun s' =>
        decide (sampleState.ledger.held sampleUser.addr 1 = 10 ∧
          s'.ledger.held sampleUser.addr 1 = 15 ∧ s'.currentSupply 1 = 105)) = true := by
    decide +kernel
  obtain ⟨s', hs', hprops⟩ := (Option.any_eq_true _ _).1 hall
  exact ⟨s', hs', of_decide_eq_true hprops⟩

end HyperExchange.Crosschain
