import SentryPos.Js.Doubles
import SentryPos.Totals.Basic

/-!
This module contains the rounding of the totals engine in binary64 arithmetic, and the bounds of what it
rounds: parts of amounts, service charges, VAT and discounts.
-/

namespace SentryPos

open Binary64
open JsNumber hiding min

def DiscountSpec.amountC (d : DiscountSpec) (baseC : JsNumber) : JsNumber :=
  if d.kind = some "percent" then pct baseC d.value else d.value

/-- A percentage that comes to less than half a centavo below zero. -/
def DiscountSpec.Negligible (d : DiscountSpec) (baseC : JsNumber) : Prop :=
  d.kind = some "percent" ∧ JsNumber.blt (.fin (-1 / 2)) (baseC * d.value / 100) = true

/-- What the rates of a business are checked for: they are decimals from 0 to 0.9999. -/
structure Rates.Valid (s : Rates) : Prop where
  tax_nonneg : 0 ≤ s.taxRate
  tax_le : s.taxRate ≤ number (9999 / 10000)
  service_nonneg : 0 ≤ s.serviceChargeRate
  service_le : s.serviceChargeRate ≤ number (9999 / 10000)

section Rounding

variable {q : ℚ} {n : ℤ}

theorem sqlRound_neg (q : ℚ) : sqlRound (-q) = -sqlRound q := by
  unfold sqlRound
  rcases lt_trichotomy q 0 with hq | hq | hq
  . rw [if_neg (by linarith), if_pos hq, neg_neg]
  . rw [hq]
    norm_num
  . rw [if_pos (by linarith), if_neg (by linarith), neg_neg]

theorem sqlRound_le (h : q ≤ n) : sqlRound q ≤ n := by
  unfold sqlRound
  split
  . have hle : -n ≤ ⌊-q + 1 / 2⌋ := by
      rw [Int.le_floor]
      push_cast
      linarith
    omega
  . have hlt : ⌊q + 1 / 2⌋ < n + 1 := by
      rw [Int.floor_lt]
      push_cast
      linarith
    omega

theorem floor_half_eq (h : |q - n| < 1 / 2) : ⌊q + 1 / 2⌋ = n := by
  rw [abs_lt] at h
  rw [Int.floor_eq_iff]
  constructor <;> linarith

theorem le_sqlRound (h : n ≤ q) : n ≤ sqlRound q := by
  have hle := sqlRound_le (q := -q) (n := -n) (by push_cast; linarith)
  rw [sqlRound_neg] at hle
  omega

theorem sqlRound_nonneg_iff : 0 ≤ sqlRound q ↔ -1 / 2 < q := by
  unfold sqlRound
  split
  . rw [neg_nonneg, ← Int.lt_add_one_iff, Int.floor_lt]
    norm_num
    constructor <;> intro <;> linarith
  . next hq =>
    have hfloor : 0 ≤ ⌊q + 1 / 2⌋ := by
      rw [Int.floor_nonneg]
      linarith
    exact iff_of_true hfloor (by linarith)

theorem sqlRound_nearest_thousandths (h : |n| ≤ 2 ^ 53)
    : sqlRound (nearest (n / 1000)) = sqlRound (n / 1000) := by
  wlog hn : 0 ≤ n generalizing n
  . have hneg := this (n := -n) (by rwa [abs_neg]) (by omega)
    push_cast at hneg
    rw [neg_div, nearest_neg, sqlRound_neg, sqlRound_neg] at hneg
    omega
  rw [abs_of_nonneg hn] at h
  have hnq : (0 : ℚ) ≤ n := by
    exact_mod_cast hn
  have hle : (n : ℚ) ≤ 2 ^ 53 := by
    exact_mod_cast h
  have hq : (0 : ℚ) ≤ n / 1000 := by
    positivity
  have hround := nearest_nonneg hq
  unfold sqlRound
  rw [if_neg (by linarith), if_neg (by linarith)]
  obtain ⟨k, hk⟩ : ∃ k : ℤ, k = ⌊(n / 1000 : ℚ) + 1 / 2⌋ := ⟨_, rfl⟩
  have hfloor := hk.symm
  rw [Int.floor_eq_iff] at hfloor
  rw [← hk, Int.floor_eq_iff]
  have hkNonneg : 0 ≤ k := by
    rw [hk, Int.floor_nonneg]
    linarith
  have hkLe : k ≤ 2 ^ 44 := by
    have hkq : (k : ℚ) ≤ 2 ^ 44 := by
      linarith
    exact_mod_cast hkq
  constructor
  . have hhalf : Representable ((2 * k - 1 : ℤ) * 2 ^ (-1 : ℤ)) :=
      ⟨2 * k - 1, -1, by rw [abs_le]; omega, by norm_num, rfl⟩
    have hge := le_nearest (q := n / 1000) hhalf (by push_cast; norm_num; linarith)
    push_cast at hge
    norm_num at hge
    linarith
  . have herror : |nearest (n / 1000) - n / 1000| ≤ 2 ^ ((43 : ℕ) - 53 : ℤ) := by
      apply abs_nearest_sub_le_of_lt
      rw [abs_of_nonneg hq]
      norm_num
      linarith
    rw [abs_le] at herror
    norm_num at herror
    -- The next half is at least a thousandth away.
    have hlast : n < 1000 * k + 500 := by
      have hlt : (n : ℚ) < 1000 * k + 500 := by
        linarith [hfloor.2]
      exact_mod_cast hlt
    have hlastq : (n : ℚ) ≤ 1000 * k + 499 := by
      exact_mod_cast (by omega : n ≤ 1000 * k + 499)
    linarith [herror.2]

theorem halfUp_within {lo hi : ℤ} {x : JsNumber} (h : Within lo hi x) (hlo : -2 ^ 53 ≤ lo)
    (hhi : hi ≤ 2 ^ 53) : ∃ z : ℤ, halfUp x = (z : JsNumber) ∧ lo ≤ z ∧ z ≤ hi := by
  obtain ⟨q, rfl, hge, hle⟩ := h
  have hz := le_sqlRound hge
  have hz' := sqlRound_le hle
  refine ⟨sqlRound q, ?_, hz, hz'⟩
  rw [halfUp_ofRat]
  apply ofBinary64_int
  rw [abs_le]
  omega

theorem nonPos_of_blt {x : JsNumber} (h : x.blt 0 = true) : NonPos x := by
  cases x with
  | fin q =>
    rw [zero_eq, blt_fin, decide_eq_true_eq] at h
    exact .inr ⟨q, h.le, rfl⟩
  | negInf => exact .inl rfl
  | nan => cases h
  | posInf => cases h

theorem nonNeg_halfUp {x : JsNumber} (h : NonNeg x) : NonNeg (halfUp x) := by
  rcases h with rfl | ⟨q, hq, rfl⟩
  . exact .inl rfl
  . rw [halfUp_ofRat]
    apply nonNeg_ofBinary64
    exact_mod_cast le_sqlRound (n := 0) (by exact_mod_cast hq)

theorem nonPos_halfUp {x : JsNumber} (h : NonPos x) : NonPos (halfUp x) := by
  rcases h with rfl | ⟨q, hq, rfl⟩
  . exact .inl rfl
  . rw [halfUp_ofRat]
    apply nonPos_ofBinary64
    exact_mod_cast sqlRound_le (n := 0) (by exact_mod_cast hq)

theorem halfUp_isInt {x : JsNumber} (h : halfUp x = .fin q)
    : x = .fin x.toRat ∧ ∃ z : ℤ, q = z := by
  cases x with
  | fin p =>
    rw [halfUp_ofRat] at h
    exact ⟨rfl, int_of_ofBinary64 h⟩
  | nan => cases h
  | posInf => cases h
  | negInf => cases h

theorem halfUp_representable {x : JsNumber} (h : halfUp x = .fin q) : Representable q := by
  rw [(halfUp_isInt h).1, halfUp_ofRat] at h
  exact representable_of_ofBinary64 h

theorem part_bounds {g d : ℚ} (hd : 1 ≤ d) : min 0 g ≤ g / d ∧ g / d ≤ max 0 g := by
  have hpos : 0 < d := by
    linarith
  rw [le_div_iff₀ hpos, div_le_iff₀ hpos]
  rcases le_total 0 g with hg | hg
  . rw [min_eq_left hg, max_eq_right hg]
    constructor <;> nlinarith
  . rw [min_eq_right hg, max_eq_left hg]
    constructor <;> nlinarith

theorem share_bounds {b r : ℚ} (hr : 0 ≤ r) (hr1 : r ≤ 1)
    : min 0 b ≤ b * r ∧ b * r ≤ max 0 b := by
  rcases le_total 0 b with hb | hb
  . rw [min_eq_left hb, max_eq_right hb]
    constructor <;> nlinarith
  . rw [min_eq_right hb, max_eq_left hb]
    constructor <;> nlinarith

theorem number_of_abs_le {q : ℚ} {k : ℕ} (hk : k ≤ 1023) (h : |q| ≤ 2 ^ k) : number q = nearest q := by
  have hdouble : Rounding.ofRat q = JsNumber.fin (nearest q) := ofBinary64_of_abs_le hk h
  unfold number
  rw [hdouble]

theorem number_rate_le : number (9999 / 10000) ≤ 1 := by
  have hone : Representable ((1 : ℤ) : ℚ) := representable_intCast (by norm_num)
  rw [number_of_abs_le (Nat.zero_le 1023) (by norm_num [abs_le])]
  have := nearest_le (q := 9999 / 10000) hone (by norm_num)
  rwa [Int.cast_one] at this

section Rate

variable {s : Rates} (hs : s.Valid)

include hs

theorem Rates.Valid.tax_le_one : s.taxRate ≤ 1 :=
  hs.tax_le.trans number_rate_le

theorem Rates.Valid.service_le_one : s.serviceChargeRate ≤ 1 :=
  hs.service_le.trans number_rate_le

end Rate

section Parts

variable {lo hi : ℤ} {c r : ℚ} (hlo : lo ≤ 0) (hhi : 0 ≤ hi) (hge : lo ≤ c) (hle : c ≤ hi)
  (hlo' : -2 ^ 53 ≤ lo) (hhi' : hi ≤ 2 ^ 53) (hr : 0 ≤ r) (hr1 : r ≤ 1)

include hlo hhi hge hle hlo' hhi' hr hr1

theorem mul_within : Within lo hi (.fin c * .fin r) := by
  have hbounds := share_bounds (b := c) hr hr1
  have hloq : (lo : ℚ) ≤ 0 := by
    exact_mod_cast hlo
  have hhiq : (0 : ℚ) ≤ hi := by
    exact_mod_cast hhi
  rw [double_mul]
  exact within_ofBinary64 ((le_min hloq hge).trans hbounds.1) (hbounds.2.trans (max_le hhiq hle))
    hlo' hhi'

theorem mulRate_within
    : ∃ z : ℤ, mulRate (.fin c) (.fin r) = (z : JsNumber) ∧ lo ≤ z ∧ z ≤ hi :=
  halfUp_within (mul_within hlo hhi hge hle hlo' hhi' hr hr1) hlo' hhi'

theorem vatIncluded_within
    : ∃ z : ℤ, vatIncluded (.fin c) (.fin r) = (z : JsNumber) ∧ lo ≤ z ∧ z ≤ hi := by
  unfold vatIncluded
  split
  . exact ⟨0, by rw [zero_eq, Int.cast_zero], hlo, hhi⟩
  . obtain ⟨x, hx, hxGe, hxLe⟩ := mul_within hlo hhi hge hle hlo' hhi' hr hr1
    have hdiv : Within 1 2 (1 + .fin r) := by
      rw [ofNat_eq, double_add]
      apply within_ofBinary64 <;> norm_num <;> linarith
    obtain ⟨d, hd, hd1, _⟩ := hdiv
    have hpart := part_bounds (g := x) (d := d) (by exact_mod_cast hd1)
    have hloq : (lo : ℚ) ≤ 0 := by
      exact_mod_cast hlo
    have hhiq : (0 : ℚ) ≤ hi := by
      exact_mod_cast hhi
    apply halfUp_within _ hlo' hhi'
    rw [hx, hd, double_div (by norm_num at hd1; linarith)]
    exact within_ofBinary64 ((le_min hloq hxGe).trans hpart.1) (hpart.2.trans (max_le hhiq hxLe))
      hlo' hhi'

end Parts

theorem min_zero_cast (g : ℤ) : ((min 0 g : ℤ) : ℚ) = min 0 (g : ℚ) := by
  push_cast
  rfl

theorem max_zero_cast (g : ℤ) : ((max 0 g : ℤ) : ℚ) = max 0 (g : ℚ) := by
  push_cast
  rfl

theorem representable_two_zpow {e : ℤ} (h : -1074 ≤ e) : Representable (2 ^ e) :=
  ⟨1, e, by norm_num, h, by simp⟩

/-- The double of a number of thousandths, times 1000. -/
theorem nearest_thousandths (h : |n| ≤ 10 ^ 9)
    : |nearest (n / 1000) * 1000| < 2 ^ 30
        ∧ |nearest (nearest (n / 1000) * 1000) - n| ≤ 2 ^ (-23 : ℤ) := by
  have hn : |(n : ℚ)| ≤ 10 ^ 9 := by
    exact_mod_cast h
  have hpart : |(n : ℚ) / 1000| < 2 ^ (19 + 1) := by
    rw [abs_div]
    norm_num at hn ⊢
    linarith
  have hfirst := abs_nearest_sub_le_of_lt hpart
  have hproduct : |nearest (n / 1000) * 1000 - n| ≤ 2 ^ (-24 : ℤ) := by
    have heq : nearest ((n : ℚ) / 1000) * 1000 - n = (nearest (n / 1000) - n / 1000) * 1000 := by
      ring
    rw [heq, abs_mul]
    norm_num at hfirst ⊢
    linarith
  have hlt : |nearest ((n : ℚ) / 1000) * 1000| < 2 ^ (29 + 1) := by
    have hsum := abs_add_le (nearest ((n : ℚ) / 1000) * 1000 - n) n
    rw [sub_add_cancel] at hsum
    refine hsum.trans_lt ?_
    norm_num at hproduct ⊢
    linarith
  have hsecond := abs_nearest_sub_le_of_lt hlt
  refine ⟨hlt, ?_⟩
  have hsum := abs_add_le (nearest (nearest ((n : ℚ) / 1000) * 1000) - nearest (n / 1000) * 1000)
    (nearest (n / 1000) * 1000 - n)
  rw [sub_add_sub_cancel] at hsum
  refine hsum.trans ?_
  norm_num at hproduct hsecond ⊢
  linarith

/-- The double of a quantity times 1000 is close to its thousandths, so it is rounded to them. -/
theorem qtyToMilli_val {qty : Qty} (h : |qty.milli| ≤ 10 ^ 9)
    : qtyToMilli (number qty.val) = .ok (qty.milli : JsNumber) := by
  obtain ⟨hlt, hoff⟩ := nearest_thousandths h
  change |nearest qty.val * 1000| < 2 ^ 30 at hlt
  change |nearest (nearest qty.val * 1000) - qty.milli| ≤ 2 ^ (-23 : ℤ) at hoff
  have hval : |qty.val| ≤ 2 ^ 20 := by
    have hmilli : |(qty.milli : ℚ)| ≤ 10 ^ 9 := by
      exact_mod_cast h
    unfold Qty.val
    rw [abs_div]
    norm_num at hmilli ⊢
    linarith
  have hm : (.fin (nearest qty.val) * 1000 : JsNumber)
      = .fin (nearest (nearest qty.val * 1000)) := by
    rw [ofNat_eq, double_mul]
    exact ofBinary64_of_abs_le (by norm_num) hlt.le
  have hround : (JsNumber.fin (nearest (nearest qty.val * 1000))).round = (qty.milli : JsNumber) := by
    have hfloor := floor_half_eq (hoff.trans_lt (by norm_num))
    unfold JsNumber.round
    dsimp only
    rw [hfloor]
  have hsub : (.fin (nearest (nearest qty.val * 1000)) - (qty.milli : JsNumber))
      = .fin (nearest (nearest (nearest qty.val * 1000) - qty.milli)) := by
    rw [double_sub]
    exact ofBinary64_of_abs_le (k := 0) (by norm_num) (hoff.trans (by norm_num))
  have hlimit : number (1 / 1000000) = nearest (1 / 1000000) :=
    number_of_abs_le (k := 0) (by norm_num) (by norm_num)
  have hdifference := abs_nearest_le (representable_two_zpow (by norm_num)) hoff
  have htolerance : (2 : ℚ) ^ (-20 : ℤ) ≤ nearest (1 / 1000000) :=
    le_nearest (representable_two_zpow (by norm_num)) (by norm_num)
  unfold qtyToMilli
  dsimp only
  rw [number_of_abs_le (by norm_num) hval, hm, hround, hsub, hlimit, if_neg]
  unfold JsNumber.abs
  rw [blt_fin, decide_eq_true_eq, not_lt]
  refine hdifference.trans (le_trans ?_ htolerance)
  norm_num

end Rounding

section Discount

variable {d : Option DiscountSpec} {baseC amount : ℚ}

theorem discountAmountC_fin (d : Option DiscountSpec) (baseC : ℚ)
    : discountAmountC d (.fin baseC)
        =
      match d with
      | none => 0
      | some d => if baseC ≤ 0 then 0 else (d.amountC (.fin baseC)).min (.fin baseC) := by
  unfold discountAmountC DiscountSpec.amountC
  split
  . rfl
  . rw [zero_eq, ble_fin]
    simp only [decide_eq_true_eq]

theorem min_eq_fin {x : JsNumber} (h : x.min (.fin baseC) = .fin amount)
    : amount ≤ baseC ∧ (x = .fin amount ∨ amount = baseC) := by
  cases x with
  | fin p =>
    change (if decide (baseC < p) then JsNumber.fin baseC else .fin p) = _ at h
    split at h
    . cases h
      exact ⟨le_rfl, .inr rfl⟩
    . next hlt =>
      cases h
      exact ⟨by simpa using hlt, .inl rfl⟩
  | posInf =>
    cases h
    exact ⟨le_rfl, .inr rfl⟩
  | nan => cases h
  | negInf => cases h

theorem amountC_nonNeg {d : DiscountSpec} (hbase : 0 < baseC) (h : NonNeg d.value)
    : NonNeg (d.amountC (.fin baseC)) := by
  unfold DiscountSpec.amountC
  split
  . exact nonNeg_halfUp ((h.mul hbase).div (by norm_num))
  . exact h

theorem amountC_nonPos {d : DiscountSpec} (hbase : 0 < baseC) (h : NonPos d.value)
    : NonPos (d.amountC (.fin baseC)) := by
  unfold DiscountSpec.amountC
  split
  . exact nonPos_halfUp ((h.mul hbase).div (by norm_num))
  . exact h

theorem halfUp_eq_zero_iff {x : JsNumber} (h : NonPos x)
    : halfUp x = 0 ↔ JsNumber.blt (.fin (-1 / 2)) x = true := by
  rcases h with rfl | ⟨q, hq, rfl⟩
  . exact iff_of_false (by intro h; cases h) (by intro h; cases h)
  . rw [halfUp_ofRat, blt_fin, decide_eq_true_eq, ← sqlRound_nonneg_iff]
    have hle : sqlRound q ≤ 0 := sqlRound_le (n := 0) (by exact_mod_cast hq)
    constructor
    . intro hzero
      by_contra hneg
      have hone : Representable ((-1 : ℤ) : ℚ) := representable_intCast (by norm_num)
      have hnearest : nearest (sqlRound q) ≤ ((-1 : ℤ) : ℚ) := by
        apply nearest_le hone
        exact_mod_cast (by omega : sqlRound q ≤ -1)
      rw [← eq_nearest hzero] at hnearest
      norm_num at hnearest
    . intro hnonneg
      rw [le_antisymm hle hnonneg]
      exact ofBinary64_int 0 (by norm_num)

theorem amountC_eq_zero_iff {d : DiscountSpec} (hbase : 0 < baseC) (hvalue : d.value.blt 0 = true)
    : d.amountC (.fin baseC) = 0 ↔ d.Negligible (.fin baseC) := by
  unfold DiscountSpec.amountC DiscountSpec.Negligible
  split
  . next hkind =>
    have hneg : NonPos d.value := nonPos_of_blt hvalue
    have hpart : NonPos (.fin baseC * d.value / 100) := (hneg.mul hbase).div (by norm_num)
    rw [and_iff_right hkind]
    exact halfUp_eq_zero_iff hpart
  . next hkind =>
    apply iff_of_false _ fun h => hkind h.1
    intro hzero
    rw [hzero] at hvalue
    cases hvalue

theorem amount_nonneg_iff (h : discountAmountC d (.fin baseC) = .fin amount)
    : 0 ≤ amount
        ↔ ∀ d', d = some d' → d'.value.blt 0 = true →
            (JsNumber.fin baseC).ble 0 = true ∨ d'.Negligible (.fin baseC) := by
  rw [discountAmountC_fin] at h
  rw [zero_eq, ble_fin, decide_eq_true_eq]
  cases d with
  | none =>
    cases h
    exact iff_of_true le_rfl fun d' hd' => absurd hd' (by simp)
  | some d =>
    simp only [Option.some.injEq, forall_eq']
    dsimp only at h
    split at h
    . next hbase =>
      cases h
      exact iff_of_true le_rfl fun _ => .inl hbase
    . next hbase =>
      have hpos : 0 < baseC := not_le.mp hbase
      by_cases hvalue : d.value.blt (.fin 0) = true
      . have hneg : NonPos d.value := nonPos_of_blt hvalue
        have hnegligible := amountC_eq_zero_iff hpos hvalue
        rcases amountC_nonPos hpos hneg with hraw | ⟨raw, hraw, hrawEq⟩
        . rw [hraw] at h
          cases h
        . rw [hrawEq, zero_eq, fin.injEq] at hnegligible
          rw [hrawEq] at h
          change (if decide (baseC < raw) then JsNumber.fin baseC else .fin raw) = _ at h
          rw [if_neg (by simp; linarith)] at h
          cases h
          simp only [hvalue, hbase, false_or, true_implies, ← hnegligible]
          exact ⟨fun hnonneg => le_antisymm hraw hnonneg, fun hzero => hzero.ge⟩
      . refine iff_of_true ?_ fun htrue => absurd htrue hvalue
        have hnonneg : d.value = .nan ∨ NonNeg d.value := by
          cases hv : d.value with
          | fin v =>
            rw [hv, blt_fin, decide_eq_true_eq, not_lt] at hvalue
            exact .inr (.inr ⟨v, hvalue, rfl⟩)
          | nan => exact .inl rfl
          | posInf => exact .inr (.inl rfl)
          | negInf =>
            rw [hv] at hvalue
            exact absurd rfl hvalue
        rcases hnonneg with hnan | hnonneg
        . have hraw : d.amountC (.fin baseC) = .nan := by
            unfold DiscountSpec.amountC
            rw [hnan]
            split <;> rfl
          rw [hraw] at h
          cases h
        . rcases amountC_nonNeg hpos hnonneg with hraw | ⟨raw, hraw, hrawEq⟩
          . rw [hraw] at h
            cases h
            exact hpos.le
          . rw [hrawEq] at h
            change (if decide (baseC < raw) then JsNumber.fin baseC else .fin raw) = _ at h
            split at h
            . cases h
              exact hpos.le
            . cases h
              exact hraw

theorem discountAmountC_bounds (h : discountAmountC d (.fin baseC) = .fin amount)
    : (baseC ≤ 0 → amount = 0) ∧ (0 < baseC → amount ≤ baseC) := by
  rw [discountAmountC_fin] at h
  split at h
  . cases h
    exact ⟨fun _ => rfl, fun hbase => hbase.le⟩
  . split at h
    . next hbase =>
      cases h
      exact ⟨fun _ => rfl, fun hpos => absurd hbase (not_le.mpr hpos)⟩
    . next hbase => exact ⟨fun hle => absurd hle hbase, fun _ => (min_eq_fin h).1⟩

end Discount

end SentryPos
