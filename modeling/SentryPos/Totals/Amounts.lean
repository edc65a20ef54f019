import SentryPos.Totals.Rounding

/-!
This module contains what the lines of a cart come to and what is left of them, in binary64 arithmetic.
-/

namespace SentryPos

open Binary64
open JsNumber hiding min

namespace CartLine

def amountC (line : CartLine) : ℤ :=
  sqlRound (line.qty.val * (lineUnitWithModsC line).toRat)

def baseC (line : CartLine) (s : Rates) : JsNumber :=
  halfUp ((line.amountC : JsNumber) / (1 + .fin s.taxRate))

def shareC (line : CartLine) (s : Rates) : ℤ :=
  ⌊(pct (line.baseC s) 80).toRat⌋

def promoC (line : CartLine) : JsNumber :=
  discountAmountC line.discount (line.amountC : JsNumber)

/-- What is left of a line that its own discount makes cheaper, or all of it. -/
def restC (line : CartLine) : JsNumber :=
  if JsNumber.blt 0 line.promoC then line.amountC - line.promoC else line.amountC

/-- The engine works out the amount of the line without rounding errors. -/
structure Exact (line : CartLine) : Prop where
  gross : mulQtyPriceC line.qty (lineUnitWithModsC line) = (line.amountC : JsNumber)
  le : |line.amountC| ≤ 2 ^ 45

end CartLine

section Cart

variable (cart : Cart) (s : Rates)

def TakesScPwd (line : CartLine) : Prop :=
  (cart.scPwd.isSome && line.scPwdMarked) = true ∧ line.shareC s < line.amountC
    ∧ line.promoC.ble ((line.amountC - line.shareC s : ℤ) : JsNumber) = true

instance : DecidablePred (TakesScPwd cart s) := fun _ => inferInstanceAs (Decidable (_ ∧ _ ∧ _))

def TakesPromo (line : CartLine) : Prop :=
  ¬ TakesScPwd cart s line ∧ JsNumber.blt 0 line.promoC = true

instance : DecidablePred (TakesPromo cart s) := fun _ => inferInstanceAs (Decidable (_ ∧ _))

def sharesC (lines : List CartLine) : ℤ :=
  ((lines.filter (TakesScPwd cart s)).map (·.shareC s)).sum

def scPwdsC (lines : List CartLine) : ℤ :=
  ((lines.filter (TakesScPwd cart s)).map fun line => line.amountC - line.shareC s).sum

def promosC (lines : List CartLine) : JsNumber :=
  JsNumber.sum ((lines.filter (TakesPromo cart s)).map (·.promoC))

def restsC (lines : List CartLine) : JsNumber :=
  JsNumber.sum ((lines.filter (¬ TakesScPwd cart s ·)).map (·.restC))

end Cart

section Append

variable (cart : Cart) (s : Rates) (lines : List CartLine) (line : CartLine)

theorem promosC_append
    : promosC cart s (lines ++ [line])
        =
      if TakesPromo cart s line then promosC cart s lines + line.promoC else promosC cart s lines := by
  unfold promosC
  rw [List.filter_append]
  split
  . next htakes =>
    rw [List.filter_singleton, decide_eq_true htakes, cond_true, List.map_append, List.map_singleton,
      sum_append_singleton]
  . next htakes =>
    rw [List.filter_singleton, decide_eq_false htakes, cond_false, List.append_nil]

theorem restsC_append
    : restsC cart s (lines ++ [line])
        =
      if TakesScPwd cart s line then restsC cart s lines else restsC cart s lines + line.restC := by
  unfold restsC
  rw [List.filter_append]
  split
  . next htakes =>
    rw [List.filter_singleton, decide_eq_false (not_not.mpr htakes), cond_false, List.append_nil]
  . next htakes =>
    rw [List.filter_singleton, decide_eq_true htakes, cond_true, List.map_append, List.map_singleton,
      sum_append_singleton]

end Append

section Line

variable {cart : Cart} {s : Rates} {line : CartLine}

theorem units_eq_sum {c : ℤ} (hc : |c| ≤ 2 ^ 53) (mods : List CartModifier)
    : mods.foldl (fun sum m => sum + (m.priceDeltaC : JsNumber)) (c : JsNumber)
        =
      JsNumber.sum ((c :: mods.map (·.priceDeltaC)).map fun z : ℤ => (z : JsNumber)) := by
  have hfirst : (0 : JsNumber) + (c : JsNumber) = (c : JsNumber) := by
    have := int_add (a := 0) (b := c) (by rwa [zero_add])
    rwa [zero_add] at this
  unfold JsNumber.sum
  rw [List.map_cons, List.foldl_cons, hfirst, List.map_map, List.foldl_map]
  rfl

theorem unit_isInt {u : ℚ} (hc : |line.unitPriceC| ≤ 2 ^ 53)
    (h : lineUnitWithModsC line = .fin u) : ∃ price : ℤ, u = price := by
  unfold lineUnitWithModsC at h
  rw [units_eq_sum hc] at h
  apply int_of_sum _ h
  intro x hx
  obtain ⟨z, _, rfl⟩ := List.mem_map.mp hx
  exact ⟨z, rfl⟩

theorem gross_eq_nearest {u g : ℚ} (hunit : lineUnitWithModsC line = .fin u)
    (h : mulQtyPriceC line.qty (lineUnitWithModsC line) = .fin g)
    : g = nearest (sqlRound (nearest (nearest (line.qty.milli * u) / 1000))) := by
  unfold mulQtyPriceC at h
  rw [hunit] at h
  obtain ⟨y, hy⟩ : ∃ y, (line.qty.milli : JsNumber) * .fin u / 1000 = .fin y :=
    ⟨_, (halfUp_isInt h).1⟩
  obtain ⟨x, hx⟩ : ∃ x, (line.qty.milli : JsNumber) * .fin u = .fin x :=
    ⟨_, fin_of_div (ofNat_eq 1000 ▸ hy)⟩
  rw [hy, halfUp_ofRat] at h
  rw [hx, ofNat_eq, double_div (by norm_num)] at hy
  rw [double_mul] at hx
  rw [eq_nearest h, eq_nearest hy, eq_nearest hx]
  rfl

theorem gross_fin {g : ℚ} (h : mulQtyPriceC line.qty (lineUnitWithModsC line) = .fin g)
    : lineUnitWithModsC line = .fin (lineUnitWithModsC line).toRat := by
  unfold mulQtyPriceC at h
  have hquot := (halfUp_isInt h).1
  rw [ofNat_eq] at hquot
  exact (fin_of_mul (fin_of_div hquot)).2

/-- A line comes to no less than zero if and only if its thousandths come to more than minus a half. -/
theorem gross_nonneg_iff {price : ℤ} {g : ℚ} (hunit : lineUnitWithModsC line = (price : JsNumber))
    (h : mulQtyPriceC line.qty (lineUnitWithModsC line) = .fin g)
    : 0 ≤ g ↔ -500 < line.qty.milli * price := by
  rw [gross_eq_nearest hunit h]
  constructor
  . intro hg
    by_contra hle
    have hproduct : nearest (line.qty.milli * price) ≤ ((-500 : ℤ) : ℚ) := by
      apply nearest_le (representable_intCast (by norm_num))
      exact_mod_cast not_lt.mp hle
    have hhalf : Representable (((-1 : ℤ) : ℚ) * 2 ^ (-1 : ℤ)) :=
      ⟨-1, -1, by norm_num, by norm_num, rfl⟩
    have hquot := nearest_le (q := nearest (line.qty.milli * price) / 1000) hhalf
      (by norm_num at hproduct ⊢; linarith)
    have hneg : ¬ 0 ≤ sqlRound (nearest (nearest (line.qty.milli * price) / 1000)) := by
      rw [sqlRound_nonneg_iff, not_lt]
      norm_num at hquot ⊢
      exact hquot
    have hround : (sqlRound (nearest (nearest (line.qty.milli * price) / 1000)) : ℚ) ≤ ((-1 : ℤ) : ℚ) := by
      exact_mod_cast (by omega : sqlRound (nearest (nearest (line.qty.milli * price) / 1000)) ≤ -1)
    have hlast := nearest_le (representable_intCast (by norm_num)) hround
    norm_num at hlast
    linarith
  . intro hgt
    apply nearest_nonneg
    rw [Int.cast_nonneg_iff, sqlRound_nonneg_iff]
    have hproduct : ((-499 : ℤ) : ℚ) ≤ nearest (line.qty.milli * price) := by
      apply le_nearest (representable_intCast (by norm_num))
      exact_mod_cast (by omega : -499 ≤ line.qty.milli * price)
    have hquot : nearest (-499 / 1000) ≤ nearest (nearest (line.qty.milli * price) / 1000) := by
      apply nearest_mono
      norm_num at hproduct ⊢
      linarith
    have hthreshold : (-1 / 2 : ℚ) < nearest (-499 / 1000) := by
      have herror := abs_nearest_sub_le_of_lt (q := -499 / 1000) (k := 0) (by norm_num [abs_lt])
      rw [abs_le] at herror
      norm_num at herror
      linarith [herror.1]
    linarith

theorem exact_of_product {price : ℤ} (hunit : lineUnitWithModsC line = (price : JsNumber))
    (h : |line.qty.milli * price| ≤ 2 ^ 53) : line.Exact := by
  have hquot : |((line.qty.milli * price : ℤ) / 1000 : ℚ)| ≤ 2 ^ 44 := by
    have hq : ((|line.qty.milli * price| : ℤ) : ℚ) ≤ 2 ^ 53 := by
      exact_mod_cast h
    rw [Int.cast_abs] at hq
    rw [abs_div, abs_of_pos (by norm_num : (0 : ℚ) < 1000), div_le_iff₀ (by norm_num)]
    linarith
  have hamount : line.amountC = sqlRound ((line.qty.milli * price : ℤ) / 1000) := by
    unfold CartLine.amountC Qty.val
    rw [hunit, toRat_fin]
    push_cast
    ring_nf
  have hle : |line.amountC| ≤ 2 ^ 44 := by
    rw [abs_le] at hquot ⊢
    rw [hamount]
    constructor
    . apply le_sqlRound
      push_cast at hquot ⊢
      exact hquot.1
    . apply sqlRound_le
      push_cast at hquot ⊢
      exact hquot.2
  refine ⟨?_, by omega⟩
  unfold mulQtyPriceC
  rw [hunit, double_mul, ← Int.cast_mul, ofBinary64_int _ h, ofNat_eq, double_div (by norm_num),
    show (((1000 : ℕ) : ℚ)) = 1000 from rfl, ofBinary64_of_abs_le (by norm_num) hquot, halfUp_ofRat,
    sqlRound_nearest_thousandths h, ← hamount]
  exact ofBinary64_int _ (by omega)

theorem exact_of_gross {price : ℤ} {g : ℚ} (hunit : lineUnitWithModsC line = (price : JsNumber))
    (h : mulQtyPriceC line.qty (lineUnitWithModsC line) = .fin g) (hge : 0 ≤ g) (hlt : g < 2 ^ 43)
    : line.Exact := by
  apply exact_of_product hunit
  have hgt := (gross_nonneg_iff hunit h).mp hge
  rw [gross_eq_nearest hunit h] at hlt
  have hle : line.qty.milli * price ≤ 2 ^ 53 := by
    by_contra hbig
    have hproduct : ((2 ^ 53 : ℤ) : ℚ) ≤ nearest (line.qty.milli * price) := by
      apply le_nearest (representable_intCast (by norm_num))
      exact_mod_cast (not_le.mp hbig).le
    have hquot : ((2 ^ 43 : ℤ) : ℚ) ≤ nearest (nearest (line.qty.milli * price) / 1000) := by
      apply le_nearest (representable_intCast (by norm_num))
      norm_num at hproduct ⊢
      linarith
    have hround : ((2 ^ 43 : ℤ) : ℚ) ≤ sqlRound (nearest (nearest (line.qty.milli * price) / 1000)) := by
      exact_mod_cast le_sqlRound hquot
    have hlast := le_nearest (representable_intCast (by norm_num)) hround
    norm_num at hlast
    linarith
  rw [abs_le]
  omega

theorem scPwd_bounds (h : |line.amountC| ≤ 2 ^ 45) (ht : 0 ≤ s.taxRate) (ht1 : s.taxRate ≤ 1)
    : ∃ base : ℤ, line.baseC s = (base : JsNumber) ∧ |base| ≤ 2 ^ 45
        ∧ line.baseC s * 80 = ((base * 80 : ℤ) : JsNumber)
        ∧ pct (line.baseC s) 80 = (line.shareC s : JsNumber)
        ∧ min 0 line.amountC ≤ line.shareC s ∧ line.shareC s ≤ max 0 line.amountC := by
  rw [abs_le] at h
  have hdiv : Within 1 2 (1 + .fin s.taxRate) := by
    rw [ofNat_eq, double_add]
    apply within_ofBinary64 <;> norm_num <;> linarith
  obtain ⟨d, hd, hd1, _⟩ := hdiv
  have hpart := part_bounds (g := line.amountC) (d := d) (by exact_mod_cast hd1)
  rw [← min_zero_cast, ← max_zero_cast] at hpart
  have hquot : Within (min 0 line.amountC) (max 0 line.amountC)
      ((line.amountC : JsNumber) / (1 + .fin s.taxRate)) := by
    rw [hd, double_div (by norm_num at hd1; linarith)]
    exact within_ofBinary64 hpart.1 hpart.2 (by omega) (by omega)
  obtain ⟨base, hbase, hbaseGe, hbaseLe⟩ := halfUp_within hquot (by omega) (by omega)
  have hbaseC : line.baseC s = (base : JsNumber) := hbase
  have hproduct : line.baseC s * 80 = ((base * 80 : ℤ) : JsNumber) := by
    rw [hbaseC, ofNat_eq, double_mul]
    norm_num
    exact_mod_cast ofBinary64_int (base * 80) (by rw [abs_le]; omega)
  have hshareBounds := share_bounds (b := base) (r := 80 / 100) (by norm_num) (by norm_num)
  rw [← min_zero_cast, ← max_zero_cast] at hshareBounds
  have hpart : Within (min 0 base) (max 0 base) (line.baseC s * 80 / 100) := by
    rw [hproduct, ofNat_eq, double_div (by norm_num)]
    push_cast
    rw [mul_div_assoc]
    exact within_ofBinary64 hshareBounds.1 hshareBounds.2 (by omega) (by omega)
  obtain ⟨share, hshare, hshareGe, hshareLe⟩ := halfUp_within hpart (by omega) (by omega)
  have hshareC : line.shareC s = share := by
    unfold CartLine.shareC
    rw [show pct (line.baseC s) 80 = (share : JsNumber) from hshare, toRat_fin, Int.floor_intCast]
  refine ⟨base, hbaseC, by rw [abs_le]; omega, hproduct, ?_, by omega, by omega⟩
  rw [hshareC]
  exact hshare

variable (h : line.Exact)

include h

theorem grossC_amountC : (lineTotals cart s line).grossC = (line.amountC : JsNumber) :=
  h.gross

theorem promoDiscountC_promoC : (lineTotals cart s line).promoDiscountC = line.promoC := by
  unfold CartLine.promoC
  rw [← h.gross]
  rfl

omit h in
theorem promoC_bounds {p : ℚ} (hpromo : line.promoC = .fin p) (hpos : 0 < p)
    : p ≤ line.amountC := by
  have hbounds := discountAmountC_bounds hpromo
  rcases le_or_gt (line.amountC : ℚ) 0 with hamount | hamount
  . rw [hbounds.1 hamount] at hpos
    exact absurd hpos (lt_irrefl 0)
  . exact hbounds.2 hamount

theorem restC_within (hfin : JsNumber.blt 0 line.promoC = true → line.promoC = .fin line.promoC.toRat)
    : Within (min 0 line.amountC) line.amountC line.restC := by
  have hle := abs_le.mp h.le
  unfold CartLine.restC
  split
  . next hpos =>
    have hpromo := hfin hpos
    generalize line.promoC.toRat = p at hpromo
    rw [hpromo] at hpos ⊢
    rw [zero_eq, blt_fin, decide_eq_true_eq] at hpos
    have hbound := promoC_bounds hpromo hpos
    have hamount : 0 < line.amountC := by
      exact_mod_cast hpos.trans_le hbound
    rw [double_sub, min_eq_left hamount.le]
    apply within_ofBinary64
    . push_cast
      linarith
    . linarith
    . omega
    . omega
  . refine ⟨line.amountC, rfl, ?_, le_rfl⟩
    exact_mod_cast min_le_right 0 line.amountC

variable (ht : 0 ≤ s.taxRate) (ht1 : s.taxRate ≤ 1)

include ht ht1

theorem scPwdDiscountC_eq
    : (lineTotals cart s line).scPwdDiscountC
        =
      if cart.scPwd.isSome && line.scPwdMarked then
        ((line.amountC - line.shareC s : ℤ) : JsNumber)
      else 0 := by
  obtain ⟨_, _, _, _, hshare, hge, hle⟩ := scPwd_bounds h.le ht ht1
  have hamount := abs_le.mp h.le
  have hscPwd : (lineTotals cart s line).scPwdDiscountC
      = if cart.scPwd.isSome && line.scPwdMarked then
          mulQtyPriceC line.qty (lineUnitWithModsC line)
            - pct (halfUp (mulQtyPriceC line.qty (lineUnitWithModsC line) / (1 + .fin s.taxRate))) 80
        else 0 := rfl
  rw [hscPwd, h.gross]
  change (if _ then _ - pct (line.baseC s) 80 else _) = _
  rw [hshare, int_sub]
  rw [abs_le]
  omega

theorem applied_eq
    : ∃ c : ℚ,
        c = (if (cart.scPwd.isSome && line.scPwdMarked) = true then
            ((line.amountC - line.shareC s : ℤ) : ℚ) else 0)
          ∧ (lineTotals cart s line).scPwdDiscountC = .fin c
          ∧ (lineTotals cart s line).applied
            = if JsNumber.blt 0 line.promoC || JsNumber.blt 0 (.fin c) then
                if line.promoC.ble (.fin c) then some .scpwd else some .promo
              else none := by
  have happlied : (lineTotals cart s line).applied
      = if JsNumber.blt 0 (lineTotals cart s line).promoDiscountC
            || JsNumber.blt 0 (lineTotals cart s line).scPwdDiscountC then
          if (lineTotals cart s line).promoDiscountC.ble (lineTotals cart s line).scPwdDiscountC then
            some .scpwd
          else some .promo
        else none := rfl
  have hscPwd := @scPwdDiscountC_eq cart s line h ht ht1
  rw [promoDiscountC_promoC h] at happlied
  by_cases hmarked : (cart.scPwd.isSome && line.scPwdMarked) = true
  . rw [if_pos hmarked] at hscPwd ⊢
    refine ⟨_, rfl, hscPwd, ?_⟩
    rw [happlied, hscPwd]
  . rw [if_neg hmarked] at hscPwd ⊢
    refine ⟨_, rfl, hscPwd, ?_⟩
    rw [happlied, hscPwd]
    rfl

omit h ht ht1 in
theorem scPwd_taken {x : JsNumber} {c : ℚ}
    (h : (JsNumber.blt 0 x || JsNumber.blt 0 (.fin c)) = true) (hle : x.ble (.fin c) = true)
    : 0 < c := by
  rw [zero_eq, blt_fin, Bool.or_eq_true, decide_eq_true_eq] at h
  cases h with
  | inr hc => exact hc
  | inl hx =>
    cases x with
    | fin p =>
      rw [blt_fin, decide_eq_true_eq] at hx
      rw [ble_fin, decide_eq_true_eq] at hle
      linarith
    | nan => cases hx
    | posInf => cases hle
    | negInf => cases hx

theorem applied_scPwd_iff
    : (lineTotals cart s line).applied = some .scpwd ↔ TakesScPwd cart s line := by
  obtain ⟨c, hc, _, happlied⟩ := @applied_eq cart s line h ht ht1
  rw [happlied]
  unfold TakesScPwd
  by_cases hmarked : (cart.scPwd.isSome && line.scPwdMarked) = true
  . rw [if_pos hmarked] at hc
    have hpositive : 0 < c ↔ line.shareC s < line.amountC := by
      rw [hc, Int.cast_pos, sub_pos]
    rw [← hc, ← hpositive]
    constructor
    . intro hscPwd
      split at hscPwd
      . next htaken =>
        split at hscPwd
        . next hle => exact ⟨hmarked, scPwd_taken htaken hle, hle⟩
        . cases hscPwd
      . cases hscPwd
    . intro ⟨_, hpos, hle⟩
      have htaken : JsNumber.blt 0 (.fin c) = true := by
        rw [zero_eq, blt_fin, decide_eq_true_eq]
        exact hpos
      rw [htaken, Bool.or_true, if_pos rfl, if_pos hle]
  . rw [if_neg hmarked] at hc
    rw [hc]
    constructor
    . intro hscPwd
      split at hscPwd
      . next htaken =>
        split at hscPwd
        . next hle => exact absurd (scPwd_taken htaken hle) (lt_irrefl 0)
        . cases hscPwd
      . cases hscPwd
    . intro htakes
      exact absurd htakes.1 hmarked

theorem applied_promo_iff
    (hfin : (lineTotals cart s line).applied = some .promo →
      line.promoC = .fin line.promoC.toRat)
    : (lineTotals cart s line).applied = some .promo ↔ TakesPromo cart s line := by
  obtain ⟨c, hc, _, happlied⟩ := @applied_eq cart s line h ht ht1
  unfold TakesPromo
  rw [← applied_scPwd_iff h ht ht1]
  constructor
  . intro hpromo
    have hvalue := hfin hpromo
    rw [hpromo]
    refine ⟨by simp, ?_⟩
    rw [hpromo] at happlied
    split at happlied
    . next htaken =>
      split at happlied
      . cases happlied
      . next hle =>
        rw [hvalue] at htaken hle ⊢
        simp only [zero_eq, blt_fin, ble_fin, Bool.or_eq_true, decide_eq_true_eq] at htaken hle ⊢
        rcases htaken with hpos | hpos
        . exact hpos
        . linarith
    . cases happlied
  . rintro ⟨hscPwd, hpos⟩
    rw [hpos, Bool.true_or, if_pos rfl] at happlied
    split at happlied
    . exact absurd happlied hscPwd
    . exact happlied

theorem promoC_finite
    (hfin : (lineTotals cart s line).applied = some .promo →
      line.promoC = .fin line.promoC.toRat)
    (hpos : JsNumber.blt 0 line.promoC = true) : line.promoC = .fin line.promoC.toRat := by
  by_cases htakes : TakesScPwd cart s line
  . have hle := htakes.2.2
    cases hpromo : line.promoC with
    | fin p => rfl
    | nan =>
      rw [hpromo] at hpos
      cases hpos
    | posInf =>
      rw [hpromo] at hle
      cases hle
    | negInf =>
      rw [hpromo] at hpos
      cases hpos
  . exact hfin ((applied_promo_iff h ht ht1 hfin).mpr ⟨htakes, hpos⟩)

theorem netC_shareC (htakes : TakesScPwd cart s line)
    : (lineTotals cart s line).netC = (line.shareC s : JsNumber) := by
  obtain ⟨_, _, _, _, _, hge, hle⟩ := scPwd_bounds h.le ht ht1
  have hamount := abs_le.mp h.le
  rw [lineTotals_netC, (applied_scPwd_iff h ht ht1).mpr htakes, scPwdDiscountC_eq h ht ht1,
    if_pos htakes.1, grossC_amountC h]
  dsimp only [takenC]
  rw [int_sub]
  . congr 2
    omega
  . rw [abs_le]
    omega

theorem netC_restC
    (hfin : (lineTotals cart s line).applied = some .promo →
      line.promoC = .fin line.promoC.toRat)
    (htakes : ¬ TakesScPwd cart s line)
    : (lineTotals cart s line).netC = line.restC := by
  have hpromo := @applied_promo_iff cart s line h ht ht1 hfin
  have hamount := abs_le.mp h.le
  rw [lineTotals_netC, promoDiscountC_promoC h, grossC_amountC h]
  unfold CartLine.restC
  unfold TakesPromo at hpromo
  split
  . next hpos =>
    rw [hpromo.mpr ⟨htakes, hpos⟩]
    rfl
  . next hpos =>
    have hnone : (lineTotals cart s line).applied = none := by
      cases happlied : (lineTotals cart s line).applied with
      | none => rfl
      | some applied =>
        cases applied with
        | scpwd => exact absurd ((applied_scPwd_iff h ht ht1).mp happlied) htakes
        | promo => exact absurd (hpromo.mp happlied).2 hpos
    rw [hnone]
    change (line.amountC : JsNumber) - ((0 : ℤ) : JsNumber) = _
    rw [int_sub, sub_zero]
    rw [abs_le]
    omega

end Line

section Lines

variable {cart : Cart} {s : Rates} {lines : List CartLine}

theorem takesScPwd_bounds {line : CartLine} (hs : s.Valid) (h : line.Exact)
    (htakes : TakesScPwd cart s line) : 0 ≤ line.shareC s ∧ 0 ≤ line.amountC - line.shareC s := by
  obtain ⟨_, _, _, _, _, hge, hle⟩ := scPwd_bounds h.le hs.tax_nonneg hs.tax_le_one
  have hsaves := htakes.2.1
  omega

theorem shares_nonneg (cart : Cart) (hs : s.Valid) (h : ∀ line ∈ lines, line.Exact)
    : ∀ z ∈ (lines.filter (TakesScPwd cart s)).map (·.shareC s), 0 ≤ z := by
  intro z hz
  obtain ⟨line, hline, rfl⟩ := List.mem_map.mp hz
  obtain ⟨hmem, htakes⟩ := List.mem_filter.mp hline
  exact (takesScPwd_bounds hs (h line hmem) (of_decide_eq_true htakes)).1

theorem scPwds_nonneg (cart : Cart) (hs : s.Valid) (h : ∀ line ∈ lines, line.Exact)
    : ∀ z ∈ (lines.filter (TakesScPwd cart s)).map (fun line => line.amountC - line.shareC s),
        0 ≤ z := by
  intro z hz
  obtain ⟨line, hline, rfl⟩ := List.mem_map.mp hz
  obtain ⟨hmem, htakes⟩ := List.mem_filter.mp hline
  exact (takesScPwd_bounds hs (h line hmem) (of_decide_eq_true htakes)).2

theorem foldl_grossC (h : ∀ line ∈ lines, line.Exact)
    : (lines.map (lineTotals cart s)).foldl (fun sum l => sum + l.grossC) 0
        =
      JsNumber.sum ((lines.map (·.amountC)).map fun z : ℤ => (z : JsNumber)) := by
  rw [foldl_eq_sum, List.map_map, List.map_map]
  congr 1
  exact List.map_congr_left fun line hline => grossC_amountC (h line hline)

theorem foldl_lines {p : LineTotals → Prop} [DecidablePred p] {p' : CartLine → Prop}
    [DecidablePred p'] {f : LineTotals → JsNumber} {f' : CartLine → JsNumber}
    (hp : ∀ line ∈ lines, p (lineTotals cart s line) ↔ p' line)
    (hf : ∀ line ∈ lines, p' line → f (lineTotals cart s line) = f' line)
    : (lines.map (lineTotals cart s)).foldl (fun sum l => if p l then sum + f l else sum) 0
        =
      JsNumber.sum ((lines.filter p').map f') := by
  rw [foldl_if_eq_sum, List.filter_map, List.map_map]
  have hfilter : lines.filter ((fun l => decide (p l)) ∘ lineTotals cart s)
      = lines.filter fun line => decide (p' line) := by
    apply List.filter_congr
    intro line hline
    exact decide_eq_decide.mpr (hp line hline)
  rw [hfilter]
  congr 1
  apply List.map_congr_left
  intro line hline
  rw [List.mem_filter, decide_eq_true_eq] at hline
  exact hf line hline.1 hline.2

variable (h : ∀ line ∈ lines, line.Exact) (ht : 0 ≤ s.taxRate) (ht1 : s.taxRate ≤ 1)

include h ht ht1

theorem foldl_scPwdC
    : (lines.map (lineTotals cart s)).foldl
          (fun sum l => if l.applied = some .scpwd then sum + l.scPwdDiscountC else sum) 0
        =
      JsNumber.sum
        (((lines.filter (TakesScPwd cart s)).map fun line => line.amountC - line.shareC s).map
          fun z : ℤ => (z : JsNumber)) := by
  rw [List.map_map]
  apply foldl_lines
  . intro line hline
    exact applied_scPwd_iff (h line hline) ht ht1
  . intro line hline htakes
    rw [scPwdDiscountC_eq (h line hline) ht ht1, if_pos htakes.1]
    rfl

theorem foldl_shareC
    : (lines.map (lineTotals cart s)).foldl
          (fun sum l => if l.applied = some .scpwd then sum + l.netC else sum) 0
        =
      JsNumber.sum
        (((lines.filter (TakesScPwd cart s)).map (·.shareC s)).map fun z : ℤ => (z : JsNumber)) := by
  rw [List.map_map]
  apply foldl_lines
  . intro line hline
    exact applied_scPwd_iff (h line hline) ht ht1
  . intro line hline htakes
    exact netC_shareC (h line hline) ht ht1 htakes

variable (hfin : ∀ line ∈ lines, (lineTotals cart s line).applied = some .promo →
  line.promoC = .fin line.promoC.toRat)

include hfin

theorem foldl_promoC
    : (lines.map (lineTotals cart s)).foldl
          (fun sum l => if l.applied = some .promo then sum + l.promoDiscountC else sum) 0
        =
      promosC cart s lines := by
  apply foldl_lines
  . intro line hline
    exact applied_promo_iff (h line hline) ht ht1 (hfin line hline)
  . intro line hline _
    exact promoDiscountC_promoC (h line hline)

theorem foldl_restC
    : (lines.map (lineTotals cart s)).foldl
          (fun sum l => if l.applied = some .scpwd then sum else sum + l.netC) 0
        =
      restsC cart s lines := by
  simp only [← ite_not (_ = some Applied.scpwd)]
  apply foldl_lines
  . intro line hline
    rw [applied_scPwd_iff (h line hline) ht ht1]
  . intro line hline htakes
    exact netC_restC (h line hline) ht ht1 (hfin line hline) htakes

end Lines

end SentryPos
