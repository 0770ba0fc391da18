/-
  **Price arithmetic** (`protocol/asset.cpp`).

  Prices are compared by 128-bit cross products, and an amount is converted by a floor division
  of one.  Amounts of 63 bit leave the products exact, so the comparison is that of the ratios.

  `max_short_squeeze_price` scales the settlement price of a feed and halves the parts of the
  fraction until both are in range.
-/
import HyperExchange.Ledger
import Mathlib.Algebra.Order.Field.Basic
import Mathlib.Data.Rat.Cast.Order
import Mathlib.Tactic.Linarith

namespace HyperExchange.Fees

/-- A non-negative 63-bit amount. -/
def Asset.Plain (a : Asset) : Prop := 0 ≤ a.amount ∧ a.amount < 2 ^ 63

def Asset.Positive (a : Asset) : Prop := 0 < a.amount ∧ a.amount < 2 ^ 63

theorem product_exact {x y : Int} (hx : 0 ≤ x ∧ x < 2 ^ 63) (hy : 0 < y ∧ y < 2 ^ 63) :
    x * y % 2 ^ 128 = x * y :=
  Int.emod_eq_of_lt (mul_nonneg hx.1 hy.1.le) (by nlinarith)

/-! ### The order of prices -/

namespace Price

/-- Positive 63-bit amounts of two different assets. -/
structure Valid (p : Price) : Prop where
  base : p.base.Positive
  quote : p.quote.Positive
  assets : p.base.assetId ≠ p.quote.assetId

variable (a b : Price)

def SamePair : Prop := a.base.assetId = b.base.assetId ∧ a.quote.assetId = b.quote.assetId
deriving Decidable

/-- `operator ==` -/
def eq : Bool := a.SamePair b &&
  b.quote.amount * a.base.amount % 2 ^ 128 == a.quote.amount * b.base.amount % 2 ^ 128

/-- `operator <` -/
def lt : Bool :=
  if a.base.assetId < b.base.assetId then true
  else if a.base.assetId > b.base.assetId then false
  else if a.quote.assetId < b.quote.assetId then true
  else if a.quote.assetId > b.quote.assetId then false
  else b.quote.amount * a.base.amount % 2 ^ 128 < a.quote.amount * b.base.amount % 2 ^ 128

def ratio : ℚ := a.base.amount / a.quote.amount

variable {a b} (ha : a.Valid) (hb : b.Valid) (hab : a.SamePair b)
include ha hb

theorem ratio_lt : a.ratio < b.ratio ↔
    b.quote.amount * a.base.amount < a.quote.amount * b.base.amount := by
  have hqa : (0 : ℚ) < a.quote.amount := by exact_mod_cast ha.quote.1
  have hqb : (0 : ℚ) < b.quote.amount := by exact_mod_cast hb.quote.1
  rw [ratio, ratio, div_lt_div_iff₀ hqa hqb, mul_comm, mul_comm (b.base.amount : ℚ)]
  exact_mod_cast Iff.rfl

theorem products_exact :
    b.quote.amount * a.base.amount % 2 ^ 128 = b.quote.amount * a.base.amount ∧
      a.quote.amount * b.base.amount % 2 ^ 128 = a.quote.amount * b.base.amount :=
  ⟨product_exact ⟨hb.quote.1.le, hb.quote.2⟩ ha.base,
    product_exact ⟨ha.quote.1.le, ha.quote.2⟩ hb.base⟩

include hab

theorem lt_iff : a.lt b ↔ a.ratio < b.ratio := by
  obtain ⟨hleft, hright⟩ := products_exact ha hb
  rw [ratio_lt ha hb, lt, hab.1, hab.2, hleft, hright]
  simp

theorem eq_iff : a.eq b ↔ a.ratio = b.ratio := by
  obtain ⟨hleft, hright⟩ := products_exact ha hb
  rw [eq, hleft, hright]
  simp only [hab, decide_true, Bool.true_and, beq_iff_eq]
  rw [le_antisymm_iff, le_antisymm_iff, ← not_lt, ← not_lt, ← not_lt, ← not_lt, ratio_lt ha hb,
    ratio_lt hb ha]

end Price

/-! ### Conversion -/

/-- `x` at the rate of `num` for `den`, rounded down, unless it is more than there may be. -/
def floorAt (x : Int) (num den : Asset) : Option Asset :=
  let r := x * num.amount / den.amount
  if r ≤ maxShareSupply then some ⟨r, num.assetId⟩ else none

section FloorAt

variable {x y : Int} {num den num' den' : Asset} {r s : Asset}

theorem floorAt_eq_some : floorAt x num den = some r ↔ x * num.amount / den.amount ≤
    maxShareSupply ∧ ⟨x * num.amount / den.amount, num.assetId⟩ = r := by
  simp [floorAt]

theorem floorAt_mono (hden : 0 < den.amount) (hden' : 0 < den'.amount)
    (hle : x * num.amount * den'.amount ≤ y * num'.amount * den.amount)
    (h : floorAt y num' den' = some r) : ∃ s ∈ floorAt x num den, s.amount ≤ r.amount := by
  obtain ⟨hmax, rfl⟩ := floorAt_eq_some.mp h
  have hfloor : x * num.amount / den.amount ≤ y * num'.amount / den'.amount := by
    refine (Int.le_ediv_iff_mul_le hden').mpr (le_of_mul_le_mul_right ?_ hden)
    calc x * num.amount / den.amount * den'.amount * den.amount
      _ = x * num.amount / den.amount * den.amount * den'.amount := mul_right_comm _ _ _
      _ ≤ x * num.amount * den'.amount :=
        mul_le_mul_of_nonneg_right (Int.ediv_mul_le _ hden.ne') hden'.le
      _ ≤ y * num'.amount * den.amount := hle
  exact ⟨_, floorAt_eq_some.mpr ⟨hfloor.trans hmax, rfl⟩, hfloor⟩

theorem floorAt_back (hnum : 0 < num.amount) (hden : 0 < den.amount)
    (h : floorAt x num den = some r) (h' : floorAt r.amount den num = some s) :
    s.assetId = den.assetId ∧ s.amount ≤ x := by
  obtain ⟨_, rfl⟩ := floorAt_eq_some.mp h
  obtain ⟨_, rfl⟩ := floorAt_eq_some.mp h'
  refine ⟨rfl, ?_⟩
  calc x * num.amount / den.amount * den.amount / num.amount
    _ ≤ x * num.amount / num.amount := Int.ediv_le_ediv hnum (Int.ediv_mul_le _ hden.ne')
    _ = x := Int.mul_ediv_cancel _ hnum.ne'

end FloorAt

/-- An amount below `2 ^ 63` is converted without a wrap around. -/
theorem scale_exact {x : Int} {num den : Asset} (hx : 0 ≤ x ∧ x < 2 ^ 63) (hnum : num.Positive)
    (hden : 0 < den.amount) :
    (scale x num.amount den.amount).map (⟨·, num.assetId⟩) = floorAt x num den := by
  rw [scale, if_pos hden, product_exact hx hnum, floorAt]
  dsimp only
  split <;> rfl

section Conversion

variable {p : Price} {a : Asset}

theorem mulPrice_base (hq : p.quote.Positive) (hb : 0 < p.base.amount) (ha : a.Plain)
    (h : a.assetId = p.base.assetId) : a.mulPrice p = floorAt a.amount p.quote p.base := by
  rw [Asset.mulPrice, if_pos h, scale_exact ha hq hb]

theorem mulPrice_quote (hp : p.Valid) (ha : a.Plain) (h : a.assetId = p.quote.assetId) :
    a.mulPrice p = floorAt a.amount p.base p.quote := by
  rw [Asset.mulPrice, if_neg fun hbase => hp.assets (hbase.symm.trans h), if_pos h,
    scale_exact ha hp.base hp.quote.1]

/-- One side of the price is what the amount is of, and the other what it is converted to. -/
theorem exists_side (hp : p.Valid) {r : Asset} (h : a.mulPrice p = some r) :
    ∃ num den : Asset, num.Positive ∧ den.Positive ∧ a.assetId = den.assetId ∧
      (∀ b : Asset, b.Plain → b.assetId = den.assetId → b.mulPrice p = floorAt b.amount num den) ∧
      ∀ b : Asset, b.Plain → b.assetId = num.assetId → b.mulPrice p = floorAt b.amount den num := by
  by_cases hbase : a.assetId = p.base.assetId
  · exact ⟨p.quote, p.base, hp.quote, hp.base, hbase,
      fun _ => mulPrice_base hp.quote hp.base.1, fun _ => mulPrice_quote hp⟩
  · refine ⟨p.base, p.quote, hp.base, hp.quote, ?_, fun _ => mulPrice_quote hp,
      fun _ => mulPrice_base hp.quote hp.base.1⟩
    by_contra hquote
    rw [Asset.mulPrice, if_neg hbase, if_neg hquote] at h
    cases h

end Conversion

/-- Prices of one pair are ordered as their ratios, and conversion is exact, loses nothing to
    the other side there and back, and is monotone: in the price an amount of the quote asset
    rises and one of the base asset falls. -/
theorem price_arithmetic_sound {p q r : Price} (hp : p.Valid) (hq : q.Valid) (hr : r.Valid)
    (hpq : p.SamePair q) (hqr : q.SamePair r) {a b : Asset} (ha : a.Plain) (hb : b.Plain) :
    ((p.lt q ↔ p.ratio < q.ratio) ∧ (p.eq q ↔ p.ratio = q.ratio) ∧ ¬p.lt p ∧
      (p.lt q → q.lt r → p.lt r) ∧ (p.eq q ↔ ¬p.lt q ∧ ¬q.lt p) ∧ (p.eq q → q.eq r → p.eq r)) ∧
    ((a.assetId = p.base.assetId → a.mulPrice p = floorAt a.amount p.quote p.base) ∧
      (a.assetId = p.quote.assetId → a.mulPrice p = floorAt a.amount p.base p.quote)) ∧
    (∀ x y, a.mulPrice p = some x → x.mulPrice p = some y →
      y.assetId = a.assetId ∧ y.amount ≤ a.amount) ∧
    (b.assetId = a.assetId → b.amount ≤ a.amount →
      ∀ x ∈ a.mulPrice p, ∃ y ∈ b.mulPrice p, y.amount ≤ x.amount) ∧
    (p.ratio ≤ q.ratio →
      (a.assetId = p.quote.assetId →
        ∀ x ∈ a.mulPrice q, ∃ y ∈ a.mulPrice p, y.amount ≤ x.amount) ∧
      (a.assetId = p.base.assetId →
        ∀ x ∈ a.mulPrice p, ∃ y ∈ a.mulPrice q, y.amount ≤ x.amount)) := by
  refine ⟨?_, ⟨mulPrice_base hp.quote hp.base.1 ha, mulPrice_quote hp ha⟩, ?_, ?_, ?_⟩
  · have hpr : p.SamePair r := ⟨hpq.1.trans hqr.1, hpq.2.trans hqr.2⟩
    rw [Price.lt_iff hp hq hpq, Price.eq_iff hp hq hpq, Price.lt_iff hp hp ⟨rfl, rfl⟩,
      Price.lt_iff hq hr hqr, Price.lt_iff hp hr hpr, Price.lt_iff hq hp ⟨hpq.1.symm, hpq.2.symm⟩,
      Price.eq_iff hq hr hqr, Price.eq_iff hp hr hpr, not_lt (a := p.ratio) (b := q.ratio),
      not_lt (a := q.ratio)]
    exact ⟨.rfl, .rfl, lt_irrefl _, lt_trans, le_antisymm_iff.trans and_comm, Eq.trans⟩
  · intro x y hx hy
    obtain ⟨num, den, hnum, hden, h, hto, hback⟩ := exists_side hp hx
    rw [hto a ha h] at hx
    have hx' := floorAt_eq_some.mp hx
    have hplain : x.Plain := by
      rw [← hx'.2]
      exact ⟨Int.ediv_nonneg (mul_nonneg ha.1 hnum.1.le) hden.1.le, hx'.1.trans_lt (by decide)⟩
    rw [hback x hplain (congrArg Asset.assetId hx'.2).symm] at hy
    rw [h]
    exact floorAt_back hnum.1 hden.1 hx hy
  · intro hasset hle x hx
    obtain ⟨num, den, hnum, hden, h, hto, _⟩ := exists_side hp hx
    rw [hto a ha h] at hx
    rw [hto b hb (hasset.trans h)]
    refine floorAt_mono hden.1 hden.1 ?_ hx
    exact mul_le_mul_of_nonneg_right (mul_le_mul_of_nonneg_right hle hnum.1.le) hden.1.le
  · intro hle
    have hcross : q.quote.amount * p.base.amount ≤ p.quote.amount * q.base.amount := by
      rwa [← not_lt, ← Price.ratio_lt hq hp, not_lt]
    have hscaled := mul_le_mul_of_nonneg_left hcross ha.1
    constructor
    · intro h x hx
      rw [mulPrice_quote hq ha (h.trans hpq.2)] at hx
      rw [mulPrice_quote hp ha h]
      exact floorAt_mono hp.quote.1 hq.quote.1 (by linarith) hx
    · intro h x hx
      rw [mulPrice_base hp.quote hp.base.1 ha h] at hx
      rw [mulPrice_base hq.quote hq.base.1 ha (h.trans hpq.1)]
      exact floorAt_mono hq.base.1 hp.base.1 (by linarith) hx

/-- Two at the price of three of the one asset for two of the other are one. -/
theorem two_at_three_for_two :
    let p : Price := ⟨⟨3, 1⟩, ⟨2, 2⟩⟩
    p.Valid ∧ Asset.mulPrice ⟨2, 1⟩ p = floorAt 2 p.quote p.base ∧ floorAt 2 p.quote p.base =
      some ⟨1, 2⟩ := by
  intro p
  have hp : p.Valid := ⟨⟨by decide, by decide⟩, ⟨by decide, by decide⟩, by decide⟩
  have hplain : Asset.Plain ⟨2, 1⟩ := ⟨by decide, by decide⟩
  exact ⟨hp, (price_arithmetic_sound hp hp hp ⟨rfl, rfl⟩ ⟨rfl, rfl⟩ hplain hplain).2.1.1 rfl,
    by decide⟩

/-! ### The squeeze price -/

/-- `(n >> 1) + (n & 1)` -/
def halfUp (n : Int) : Int := n / 2 + n % 2

/-- A `boost::rational` is in lowest terms, as a rational number is here. -/
def halve (cp : ℚ) : ℚ := .divInt (halfUp cp.num) (halfUp cp.den)

def TooLarge (cp : ℚ) : Prop := maxShareSupply < cp.num ∨ maxShareSupply < cp.den
deriving Decidable

theorem halve_le (cp : ℚ) : (halve cp).num.natAbs ≤ (halfUp cp.num).natAbs ∧
    ((halve cp).den : Int) ≤ halfUp cp.den := by
  have hden := cp.den_pos
  have hpos : 0 < halfUp cp.den := by
    unfold halfUp
    omega
  refine ⟨?_, Int.le_of_dvd hpos (Rat.den_dvd _ _)⟩
  by_cases hnum : halfUp cp.num = 0
  · rw [halve, hnum, Rat.zero_divInt]
    rfl
  · exact Int.natAbs_le_of_dvd_ne_zero (Rat.num_dvd _ hpos.ne') hnum

/-- The loop of `max_short_squeeze_price`. -/
def fit (cp : ℚ) : ℚ := if TooLarge cp then fit (halve cp) else cp
termination_by cp.num.natAbs + cp.den
decreasing_by
  rename_i hlarge
  obtain ⟨hnum, hden⟩ := halve_le cp
  unfold TooLarge maxShareSupply at hlarge
  unfold halfUp at hnum hden
  omega

theorem halve_pos {cp : ℚ} (h : 0 < cp) : 0 < halve cp := by
  have hnum := Rat.num_pos.mpr h
  have hden := cp.den_pos
  have hhalf : 0 < halfUp cp.num ∧ 0 < halfUp cp.den := by
    unfold halfUp
    omega
  rw [halve, Rat.divInt_eq_div]
  exact div_pos (Int.cast_pos.mpr hhalf.1) (Int.cast_pos.mpr hhalf.2)

theorem fit_in_range {cp : ℚ} (h : 0 < cp) :
    (1 ≤ (fit cp).num ∧ (fit cp).num ≤ maxShareSupply) ∧
      1 ≤ ((fit cp).den : Int) ∧ (fit cp).den ≤ maxShareSupply := by
  fun_induction fit cp with
  | case1 cp _ ih => exact ih (halve_pos h)
  | case2 cp hfits =>
    have hnum := Rat.num_pos.mpr h
    have hden := cp.den_pos
    unfold TooLarge at hfits
    omega

/-- Neither part grows from one round of the loop to the next. -/
theorem iterate_halve_le {cp : ℚ} (h : 0 < cp) (k : Nat) :
    0 < halve^[k] cp ∧ (halve^[k] cp).num ≤ cp.num ∧ (halve^[k] cp).den ≤ cp.den := by
  induction k with
  | zero => exact ⟨h, le_rfl, le_rfl⟩
  | succ k ih =>
    obtain ⟨hpos, hnum, hden⟩ := ih
    rw [Function.iterate_succ_apply']
    obtain ⟨hnum', hden'⟩ := halve_le (halve^[k] cp)
    have hpos' := Rat.num_pos.mpr hpos
    refine ⟨halve_pos hpos, ?_, ?_⟩
    · unfold halfUp at hnum'
      omega
    · unfold halfUp at hden'
      omega

/-- The squeeze ratios that `price_feed::validate` allows. -/
def SqueezeRatio (ratio : Nat) : Prop := 1001 ≤ ratio ∧ ratio ≤ 32000
deriving Decidable

/-- `price_feed::max_short_squeeze_price` of the feed's settlement price and ratio -/
def Price.maxShortSqueezePrice (p : Price) (ratio : Nat) : Option Price :=
  -- `bad_rational`
  if p.quote.amount = 0 ∨ ratio = 0 then none
  else
    let cp := fit (.divInt p.base.amount p.quote.amount * .divInt 1000 ratio)
    if p.base.assetId ≠ p.quote.assetId then
      some ⟨⟨cp.num, p.base.assetId⟩, ⟨cp.den, p.quote.assetId⟩⟩
    else none

/-- The loop ends, with a price whose parts are in range and which is exact if the reduced
    fraction is in range, and 128 bits hold whatever the loop computes. -/
theorem squeeze_price_in_range {p : Price} (hp : p.Valid) {ratio : Nat}
    (hratio : SqueezeRatio ratio) :
    let cp := p.ratio * (1000 / ratio)
    (∀ k, (halve^[k] cp).num < 2 ^ 127 ∧ (halve^[k] cp).den < 2 ^ 127) ∧
    ∃ q, p.maxShortSqueezePrice ratio = some q ∧ q.SamePair p ∧
      (1 ≤ q.base.amount ∧ q.base.amount ≤ maxShareSupply) ∧
      (1 ≤ q.quote.amount ∧ q.quote.amount ≤ maxShareSupply) ∧
      (¬TooLarge cp → q.ratio = cp) := by
  intro cp
  have hratio' : 0 < (ratio : Int) ∧ (ratio : Int) ≤ 32000 := by
    unfold SqueezeRatio at hratio
    omega
  have hbase : (0 : ℚ) < p.base.amount := Int.cast_pos.mpr hp.base.1
  have hquote : (0 : ℚ) < p.quote.amount := Int.cast_pos.mpr hp.quote.1
  have hcp : 0 < cp := mul_pos (div_pos hbase hquote)
    (div_pos (by norm_num) (Int.cast_pos.mpr hratio'.1))
  refine ⟨fun k => ?_, ?_⟩
  · have hproduct : Rat.divInt (p.base.amount * 1000) (p.quote.amount * ratio) = cp := by
      rw [Rat.divInt_eq_div, Int.cast_mul, Int.cast_mul, ← div_mul_div_comm]
      rfl
    have hden := mul_pos hp.quote.1 hratio'.1
    have hnum := Int.le_of_dvd (mul_pos hp.base.1 (by norm_num : (0 : Int) < 1000))
      (Rat.num_dvd _ hden.ne')
    have hle := Int.le_of_dvd hden (Rat.den_dvd (p.base.amount * 1000) _)
    rw [hproduct] at hnum hle
    obtain ⟨_, hnum', hden'⟩ := iterate_halve_le hcp k
    have hwide := mul_le_mul hp.quote.2.le hratio'.2 hratio'.1.le (by norm_num)
    have := hp.base.2
    omega
  · obtain ⟨hnum, hden⟩ := fit_in_range hcp
    refine ⟨⟨⟨(fit cp).num, p.base.assetId⟩, ⟨(fit cp).den, p.quote.assetId⟩⟩, ?_, ⟨rfl, rfl⟩,
      hnum, hden, ?_⟩
    · rw [Price.maxShortSqueezePrice, if_neg (by have := hp.quote.1; omega), if_pos hp.assets,
        Rat.divInt_eq_div, Rat.divInt_eq_div]
      rfl
    · intro hcp
      rw [fit, if_neg hcp]
      exact Rat.num_div_den cp

/-- A third of the largest price. -/
theorem squeeze_price_of_largest :
    let p : Price := ⟨⟨2 ^ 63 - 1, 1⟩, ⟨1, 2⟩⟩
    ∃ q, p.maxShortSqueezePrice 3000 = some q ∧ q.base.amount ≤ maxShareSupply := by
  intro p
  have hp : p.Valid := ⟨⟨by decide, by decide⟩, ⟨by decide, by decide⟩, by decide⟩
  obtain ⟨_, q, hq, _, hbase, _⟩ := squeeze_price_in_range hp (by decide : SqueezeRatio 3000)
  exact ⟨q, hq, hbase.2⟩

end HyperExchange.Fees
