import SentryPos.Pos.Books
import SentryPos.Pos.OwnReferences
import SentryPos.Totals.Amounts

/-!
This module contains the bounds of the money columns of a stored sale, and when a sale keeps them.
-/

namespace SentryPos

open ReadCommitted Binary64
open JsNumber hiding min

/-- The bounds of the columns: no discount, tax or base below zero, none above what it is part of. -/
structure AdmissionBounds (sale : Sale) : Prop where
  discount : 0 ≤ sale.discount
  scPwdDiscount : 0 ≤ sale.scPwdDiscount
  discounts : sale.discount + sale.scPwdDiscount ≤ sale.subtotal
  serviceCharge : 0 ≤ sale.serviceCharge
  vatExemptSales : 0 ≤ sale.vatExemptSales
  tax : 0 ≤ sale.tax
  total : sale.tax + sale.vatExemptSales ≤ sale.total

def LinesInBounds (cart : Cart) (s : Rates) : Prop :=
  ∀ line ∈ cart.lines, JsNumber.ble 0 (lineTotals cart s line).netC = true
    ∧ (lineTotals cart s line).netC.ble (lineTotals cart s line).grossC = true

/-- The columns of a sale, its lines and what the order is granted are in bounds. -/
structure KeepsBounds (dto : SaleDraftDto) (s : Rates) (sale : Sale) : Prop where
  columns : AdmissionBounds sale
  lines : LinesInBounds dto.cart s
  order : JsNumber.ble 0 (orderDiscountC dto.cart s) = true

/--
No modifiers take a line half a centavo below zero, and an order discount below zero is one of nothing
or negligible. The sums of promos and of what they leave are rounded after every line: over very
many lines, that could add up to a centavo.
-/
structure WithinBounds (dto : SaleDraftDto) (s : Rates) : Prop where
  lines : ∀ line ∈ dto.cart.lines, ∃ price : ℤ,
    lineUnitWithModsC line = (price : JsNumber) ∧ -500 < line.qty.milli * price
  order : ∀ d, dto.orderDiscount = some d → d.value.blt 0 = true →
    (restsC dto.cart s dto.cart.lines).ble 0 = true
      ∨ d.Negligible (restsC dto.cart s dto.cart.lines)
  rounding : dto.lines.length ≤ 2 ^ 19
    ∨ sharesC dto.cart s dto.cart.lines ≤ dto.payment.amountC

section Lines

variable {cart : Cart} {s : Rates}

theorem subtotalC_eq (cart : Cart) (s : Rates)
    : (computeTotals cart s).subtotalC
        =
      JsNumber.sum (cart.lines.map fun line => mulQtyPriceC line.qty (lineUnitWithModsC line)) := by
  have hfold : (computeTotals cart s).subtotalC
      = (cart.lines.map (lineTotals cart s)).foldl (fun sum l => sum + l.grossC) 0 := rfl
  rw [hfold, foldl_eq_sum, List.map_map]
  rfl

theorem gross_of_subtotal {q : ℚ} (h : (computeTotals cart s).subtotalC = .fin q)
    : ∀ line ∈ cart.lines, mulQtyPriceC line.qty (lineUnitWithModsC line)
        = .fin (mulQtyPriceC line.qty (lineUnitWithModsC line)).toRat := by
  intro line hline
  rw [subtotalC_eq] at h
  exact fin_of_sum h _ (List.mem_map_of_mem hline)

theorem exact_of_subtotal {subtotal : ℤ} (hle : subtotal ≤ 2 ^ 31)
    (h : (computeTotals cart s).subtotalC = (subtotal : JsNumber))
    (hlines : ∀ line ∈ cart.lines, ∃ price : ℤ,
      lineUnitWithModsC line = (price : JsNumber) ∧ -500 < line.qty.milli * price)
    : ∀ line ∈ cart.lines, line.Exact ∧ 0 ≤ line.amountC := by
  rw [subtotalC_eq] at h
  have hfin := fin_of_sum h
  have hgross : ∀ x ∈ cart.lines.map (fun line => mulQtyPriceC line.qty (lineUnitWithModsC line)),
      0 ≤ x.toRat ∧ Representable x.toRat := by
    intro x hx
    have hvalue := hfin x hx
    obtain ⟨line, hline, rfl⟩ := List.mem_map.mp hx
    obtain ⟨price, hunit, hgt⟩ := hlines line hline
    exact ⟨(gross_nonneg_iff hunit hvalue).mpr hgt, halfUp_representable hvalue⟩
  intro line hline
  obtain ⟨price, hunit, hgt⟩ := hlines line hline
  have hmem := List.mem_map_of_mem (f := fun line => mulQtyPriceC line.qty (lineUnitWithModsC line)) hline
  have hbound := le_sum (fun x hx => (hgross x hx).1) (fun x hx => (hgross x hx).2) h _ hmem
  have hleq : (subtotal : ℚ) ≤ 2 ^ 31 := by
    exact_mod_cast hle
  have hexact := exact_of_gross hunit (hfin _ hmem) (hgross _ hmem).1 (by linarith)
  refine ⟨hexact, ?_⟩
  have hnonneg := (hgross _ hmem).1
  rw [hexact.gross, toRat_fin] at hnonneg
  exact_mod_cast hnonneg

theorem promos_finite {q : ℚ} (h : (computeTotals cart s).promoDiscountC = .fin q)
    : ∀ line ∈ cart.lines, (lineTotals cart s line).applied = some .promo →
        (lineTotals cart s line).promoDiscountC
          = .fin (lineTotals cart s line).promoDiscountC.toRat := by
  intro line hline happlied
  have hsum : (computeTotals cart s).promoDiscountC
      = (computeTotals cart s).linePromoC + orderDiscountC cart s := rfl
  rw [hsum] at h
  have hlines := (JsNumber.fin_of_add h).1
  unfold CartTotals.linePromoC at hlines
  exact (JsNumber.finite_of_foldl hlines).2 _ (List.mem_map_of_mem hline) happlied

end Lines

section Rounding

variable {cart : Cart} {s : Rates}

def othersC (cart : Cart) (s : Rates) (lines : List CartLine) : ℤ :=
  ((lines.filter (¬ TakesScPwd cart s ·)).map (·.amountC)).sum

theorem othersC_append (cart : Cart) (s : Rates) (lines : List CartLine) (line : CartLine)
    : othersC cart s (lines ++ [line])
        =
      if TakesScPwd cart s line then othersC cart s lines else othersC cart s lines + line.amountC := by
  unfold othersC
  rw [List.filter_append, List.filter_singleton]
  split
  . next htakes => rw [decide_eq_false (not_not.mpr htakes), cond_false, List.append_nil]
  . next htakes =>
    rw [decide_eq_true htakes, cond_true, List.map_append, List.sum_append, List.map_singleton,
      List.sum_singleton]

theorem double_add_le {a b : ℚ} (ha : 0 ≤ a) (hb : 0 ≤ b) (h : a + b < 2 ^ 32)
    : ∃ c : ℚ, (.fin a + .fin b : JsNumber) = .fin c ∧ 0 ≤ c ∧ c ≤ a + b + 1 / 2 ^ 22 := by
  have hsum : 0 ≤ a + b := by
    linarith
  have habs : |a + b| < 2 ^ (31 + 1) := by
    rw [abs_of_nonneg hsum]
    norm_num at h ⊢
    exact h
  have herror := abs_le.mp (abs_nearest_sub_le_of_lt habs)
  refine ⟨nearest (a + b), ?_, nearest_nonneg hsum, ?_⟩
  . rw [double_add, ofBinary64_of_abs_le (by norm_num) habs.le]
  . norm_num at herror ⊢
    linarith [herror.2]

theorem promo_rest_le {line : CartLine} {p : ℚ} (hpos : JsNumber.blt 0 line.promoC = true)
    (hpromo : line.promoC = .fin p) (hle : line.amountC ≤ 2 ^ 31)
    : 0 < p ∧ ∃ r : ℚ, line.restC = .fin r ∧ 0 ≤ r ∧ p + r ≤ line.amountC + 1 / 2 ^ 22 := by
  have hbound : 0 < p → p ≤ line.amountC := promoC_bounds hpromo
  unfold CartLine.restC
  rw [if_pos hpos]
  rw [hpromo] at hpos ⊢
  rw [zero_eq, blt_fin, decide_eq_true_eq] at hpos
  refine ⟨hpos, ?_⟩
  have hp := hbound hpos
  have hleq : (line.amountC : ℚ) ≤ 2 ^ 31 := by
    exact_mod_cast hle
  have hnonneg : 0 ≤ (line.amountC : ℚ) - p := by
    linarith
  have habs : |(line.amountC : ℚ) - p| < 2 ^ (31 + 1) := by
    rw [abs_of_nonneg hnonneg]
    norm_num at hleq ⊢
    linarith
  have herror := abs_le.mp (abs_nearest_sub_le_of_lt habs)
  refine ⟨nearest (line.amountC - p), ?_, nearest_nonneg hnonneg, ?_⟩
  . rw [double_sub, ofBinary64_of_abs_le (by norm_num) habs.le]
  . norm_num at herror ⊢
    linarith [herror.2]

/-- Promos and what they leave add up to the price, but for three rounding errors a line. -/
theorem promos_rests_bounds {lines : List CartLine} (hnonneg : ∀ line ∈ lines, 0 ≤ line.amountC)
    (hfin : ∀ line ∈ lines, JsNumber.blt 0 line.promoC = true → line.promoC = .fin line.promoC.toRat)
    (hothers : othersC cart s lines ≤ 2 ^ 31) (hlength : lines.length ≤ 2 ^ 19)
    : ∃ promos rests : ℚ, promosC cart s lines = .fin promos ∧ restsC cart s lines = .fin rests
        ∧ 0 ≤ promos ∧ 0 ≤ rests
        ∧ promos + rests ≤ othersC cart s lines + lines.length * (3 / 2 ^ 22) := by
  -- The sums are rounded after each line, so the induction is on the lines from the end.
  induction lines using List.reverseRecOn with
  | nil => exact ⟨0, 0, rfl, rfl, le_rfl, le_rfl, by simp [othersC]⟩
  | append_singleton lines line ih =>
    have hline : 0 ≤ line.amountC := hnonneg line (by simp)
    rw [List.length_append, List.length_singleton] at hlength ⊢
    rw [othersC_append] at hothers ⊢
    have hbefore : othersC cart s lines ≤ 2 ^ 31 := by
      split at hothers <;> omega
    obtain ⟨promos, rests, hpromos, hrests, hpromosNonneg, hrestsNonneg, hle⟩ :=
      ih (fun line hline => hnonneg line (List.mem_append_left _ hline))
        (fun line hline => hfin line (List.mem_append_left _ hline)) hbefore (by omega)
    have hothersNonneg : 0 ≤ othersC cart s lines := by
      apply List.sum_nonneg
      intro c hc
      obtain ⟨line, hline, rfl⟩ := List.mem_map.mp hc
      exact hnonneg line (List.mem_append_left _ (List.mem_of_mem_filter hline))
    have hlengthq : (lines.length : ℚ) + 1 ≤ 2 ^ 19 := by
      exact_mod_cast hlength
    rw [promosC_append, restsC_append, hpromos, hrests]
    push_cast
    by_cases htakes : TakesScPwd cart s line
    . rw [if_pos htakes, if_pos htakes, if_neg fun htakesPromo => htakesPromo.1 htakes]
      refine ⟨promos, rests, rfl, rfl, hpromosNonneg, hrestsNonneg, ?_⟩
      norm_num at hle ⊢
      linarith
    . rw [if_neg htakes] at hothers ⊢
      rw [if_neg htakes]
      have hothersq : (othersC cart s lines : ℚ) + line.amountC ≤ 2 ^ 31 := by
        exact_mod_cast hothers
      have hlineq : (0 : ℚ) ≤ line.amountC := by
        exact_mod_cast hline
      have hothersNonnegq : (0 : ℚ) ≤ othersC cart s lines := by
        exact_mod_cast hothersNonneg
      norm_num at hle hothersq hlengthq
      -- A line with a promo is rounded three times: what is left of it, and the two sums.
      by_cases hpos : JsNumber.blt 0 line.promoC = true
      . have hvalue := hfin line (by simp) hpos
        obtain ⟨hp, rest, hrest, hrestNonneg, hsplit⟩ := promo_rest_le hpos hvalue (by omega)
        norm_num at hsplit
        rw [if_pos ⟨htakes, hpos⟩, hvalue, hrest]
        obtain ⟨promos', hpromos', hpromosNonneg', hpromosLe⟩ :=
          double_add_le hpromosNonneg hp.le (by norm_num; linarith)
        obtain ⟨rests', hrests', hrestsNonneg', hrestsLe⟩ :=
          double_add_le hrestsNonneg hrestNonneg (by norm_num; linarith)
        refine ⟨promos', rests', hpromos', hrests', hpromosNonneg', hrestsNonneg', ?_⟩
        norm_num at hpromosLe hrestsLe ⊢
        linarith
      . have hrest : line.restC = (line.amountC : JsNumber) := if_neg hpos
        rw [if_neg fun htakesPromo => hpos htakesPromo.2, hrest]
        obtain ⟨rests', hrests', hrestsNonneg', hrestsLe⟩ :=
          double_add_le hrestsNonneg hlineq (by norm_num; linarith)
        refine ⟨promos, rests', rfl, hrests', hpromosNonneg, hrestsNonneg', ?_⟩
        norm_num at hrestsLe ⊢
        linarith

theorem promosC_nonneg {lines : List CartLine} {promos : ℚ} (h : promosC cart s lines = .fin promos)
    : 0 ≤ promos := by
  apply JsNumber.sum_nonneg _ h
  intro x hx
  obtain ⟨line, hline, rfl⟩ := List.mem_map.mp hx
  have htakes : TakesPromo cart s line := of_decide_eq_true (List.mem_filter.mp hline).2
  have hpos := htakes.2
  cases hvalue : line.promoC with
  | fin p =>
    rw [hvalue, zero_eq, blt_fin, decide_eq_true_eq] at hpos
    exact hpos.le
  | nan => exact le_rfl
  | posInf => exact le_rfl
  | negInf => exact le_rfl

theorem restsC_within {lines : List CartLine} (hexact : ∀ line ∈ lines, line.Exact)
    (hnonneg : ∀ line ∈ lines, 0 ≤ line.amountC)
    (hfin : ∀ line ∈ lines, JsNumber.blt 0 line.promoC = true → line.promoC = .fin line.promoC.toRat)
    (hothers : othersC cart s lines ≤ 2 ^ 53)
    : Within 0 (othersC cart s lines) (restsC cart s lines) := by
  -- What a promo leaves of a line is neither below zero nor above its price.
  induction lines using List.reverseRecOn with
  | nil => exact ⟨0, rfl, by simp, by simp [othersC]⟩
  | append_singleton lines line ih =>
    have hline : 0 ≤ line.amountC := hnonneg line (by simp)
    rw [othersC_append] at hothers ⊢
    have hbefore : othersC cart s lines ≤ 2 ^ 53 := by
      split at hothers <;> omega
    obtain ⟨rests, hrests, hrestsNonneg, hrestsLe⟩ :=
      ih (fun line hline => hexact line (List.mem_append_left _ hline))
        (fun line hline => hnonneg line (List.mem_append_left _ hline))
        (fun line hline => hfin line (List.mem_append_left _ hline)) hbefore
    rw [restsC_append, hrests]
    split
    . exact ⟨rests, rfl, hrestsNonneg, hrestsLe⟩
    . next htakes =>
      rw [if_neg htakes] at hothers
      obtain ⟨rest, hrest, hrestNonneg, hrestLe⟩ := restC_within (hexact line (by simp)) (hfin line (by simp))
      rw [min_eq_left hline] at hrestNonneg
      rw [hrest, double_add]
      apply within_ofBinary64 _ _ (by norm_num) hothers
      . push_cast at hrestsNonneg hrestNonneg ⊢
        linarith
      . push_cast
        linarith

end Rounding

section Figures

variable {cart : Cart} {s : Rates} (hexact : ∀ line ∈ cart.lines, line.Exact)

include hexact

theorem promos_applied {discount : ℚ} (hdiscount : (computeTotals cart s).promoDiscountC = .fin discount)
    : ∀ line ∈ cart.lines, (lineTotals cart s line).applied = some .promo →
        line.promoC = .fin line.promoC.toRat := by
  intro line hline happlied
  have hvalue := promos_finite hdiscount line hline happlied
  rwa [promoDiscountC_promoC (hexact line hline)] at hvalue

variable (hnonneg : ∀ line ∈ cart.lines, 0 ≤ line.amountC)

include hnonneg

theorem subtotal_eq {subtotal : ℤ} (hle : subtotal ≤ 2 ^ 31)
    (h : (computeTotals cart s).subtotalC = (subtotal : JsNumber))
    : subtotal = (cart.lines.map (·.amountC)).sum := by
  have hfold : (computeTotals cart s).subtotalC
      = (cart.lines.map (lineTotals cart s)).foldl (fun sum l => sum + l.grossC) 0 := rfl
  rw [hfold, foldl_grossC hexact] at h
  have hleq : (subtotal : ℚ) ≤ 2 ^ 31 := by
    exact_mod_cast hle
  have hsum := sum_int_of_nonneg (by simpa using hnonneg) h (by linarith)
  exact_mod_cast hsum

variable (hs : s.Valid)

include hs

omit hnonneg in
theorem scPwd_eq {scPwd exempt : ℤ} (hscPwdLe : scPwd ≤ 2 ^ 31) (hexemptLe : exempt ≤ 2 ^ 31)
    (hscPwd : (computeTotals cart s).scPwdDiscountC = (scPwd : JsNumber))
    (hexempt : (computeTotals cart s).vatExemptSalesC = (exempt : JsNumber))
    : scPwd = scPwdsC cart s cart.lines ∧ 0 ≤ scPwd
        ∧ exempt = sharesC cart s cart.lines ∧ 0 ≤ exempt := by
  have ht := hs.tax_nonneg
  have ht1 := hs.tax_le_one
  have hscPwdFold : (computeTotals cart s).scPwdDiscountC
      = (cart.lines.map (lineTotals cart s)).foldl
        (fun sum l => if l.applied = some .scpwd then sum + l.scPwdDiscountC else sum) 0 := rfl
  have hexemptFold : (computeTotals cart s).vatExemptSalesC
      = (cart.lines.map (lineTotals cart s)).foldl
        (fun sum l => if l.applied = some .scpwd then sum + l.netC else sum) 0 := rfl
  rw [hscPwdFold, foldl_scPwdC hexact ht ht1] at hscPwd
  rw [hexemptFold, foldl_shareC hexact ht ht1] at hexempt
  have hscPwdq : (scPwd : ℚ) ≤ 2 ^ 31 := by
    exact_mod_cast hscPwdLe
  have hexemptq : (exempt : ℚ) ≤ 2 ^ 31 := by
    exact_mod_cast hexemptLe
  have hsaved := scPwds_nonneg cart hs hexact
  have hshares := shares_nonneg cart hs hexact
  have hscPwdSum := sum_int_of_nonneg hsaved hscPwd (by linarith)
  have hexemptSum := sum_int_of_nonneg hshares hexempt (by linarith)
  have hscPwdEq : scPwd = scPwdsC cart s cart.lines := by
    exact_mod_cast hscPwdSum
  have hexemptEq : exempt = sharesC cart s cart.lines := by
    exact_mod_cast hexemptSum
  refine ⟨hscPwdEq, ?_, hexemptEq, ?_⟩
  . rw [hscPwdEq]
    exact List.sum_nonneg hsaved
  . rw [hexemptEq]
    exact List.sum_nonneg hshares

variable {discount : ℚ} (hdiscount : (computeTotals cart s).promoDiscountC = .fin discount)

include hdiscount

omit hnonneg in
theorem promos_positive : ∀ line ∈ cart.lines, JsNumber.blt 0 line.promoC = true →
    line.promoC = .fin line.promoC.toRat := by
  intro line hline hpos
  exact promoC_finite (hexact line hline) hs.tax_nonneg hs.tax_le_one
    (promos_applied hexact hdiscount line hline) hpos

theorem discount_eq (hothers : othersC cart s cart.lines ≤ 2 ^ 31)
    : ∃ promos rests orderC : ℚ, promosC cart s cart.lines = .fin promos ∧ 0 ≤ promos
        ∧ restsC cart s cart.lines = .fin rests ∧ 0 ≤ rests
        ∧ orderDiscountC cart s = discountAmountC cart.orderDiscount (.fin rests)
        ∧ orderDiscountC cart s = .fin orderC ∧ discount = nearest (promos + orderC) := by
  have happlied := promos_applied hexact hdiscount
  have hwithin : Within 0 (othersC cart s cart.lines) (restsC cart s cart.lines) :=
    restsC_within hexact hnonneg (promos_positive hexact hs hdiscount) (by omega)
  obtain ⟨rests, hrests, hrestsNonneg, _⟩ := hwithin
  have hpromo : (computeTotals cart s).linePromoC = promosC cart s cart.lines :=
    foldl_promoC hexact hs.tax_nonneg hs.tax_le_one happlied
  have horder : orderDiscountC cart s = discountAmountC cart.orderDiscount (.fin rests) := by
    rw [← hrests, ← foldl_restC hexact hs.tax_nonneg hs.tax_le_one happlied]
    rfl
  have hsum : (computeTotals cart s).promoDiscountC
      = (computeTotals cart s).linePromoC + orderDiscountC cart s := rfl
  rw [hsum, hpromo] at hdiscount
  obtain ⟨hpromos, horderFin⟩ := fin_of_add hdiscount
  refine ⟨_, rests, _, hpromos, promosC_nonneg hpromos, hrests, by exact_mod_cast hrestsNonneg, horder,
    horderFin, ?_⟩
  rw [hpromos, horderFin, double_add] at hdiscount
  exact eq_nearest hdiscount

end Figures

section Columns

variable {dto : SaleDraftDto} {data : SaleData} {s : Rates} {costByLine : List (Uuid × Option ℤ)}
  {branchId terminalId : Uuid}

theorem sum_amountC (cart : Cart) (s : Rates) (lines : List CartLine)
    : (lines.map (·.amountC)).sum = othersC cart s lines + scPwdsC cart s lines + sharesC cart s lines := by
  unfold othersC scPwdsC sharesC
  induction lines with
  | nil => rfl
  | cons line lines ih =>
    rw [List.map_cons, List.sum_cons, ih]
    by_cases htakes : TakesScPwd cart s line
    . simp only [List.filter_cons, htakes, not_true_eq_false, decide_false, decide_true, if_true,
        Bool.false_eq_true, if_false, List.map_cons, List.sum_cons]
      omega
    . simp only [List.filter_cons, htakes, not_false_eq_true, decide_false, decide_true, if_true,
        Bool.false_eq_true, if_false, List.map_cons, List.sum_cons]
      omega

theorem SaleDraftDto.unitPriceC_le (dto : SaleDraftDto)
    : ∀ line ∈ dto.cart.lines, |line.unitPriceC| ≤ 2 ^ 53 := by
  intro line hline
  obtain ⟨l, _, rfl⟩ := List.mem_map.mp hline
  have hnonneg := l.unitPriceC_nonneg
  have hle := l.unitPriceC_le
  unfold MAX_CENTAVOS at hle
  rw [abs_le]
  omega

/-- The figures of a stored sale that has no line below zero. -/
structure Settled (dto : SaleDraftDto) (s : Rates) (sale : Sale) (promos rests orderC : ℚ) : Prop where
  exact : ∀ line ∈ dto.cart.lines, line.Exact
  nonneg : ∀ line ∈ dto.cart.lines, 0 ≤ line.amountC
  positive : ∀ line ∈ dto.cart.lines, JsNumber.blt 0 line.promoC = true →
    line.promoC = .fin line.promoC.toRat
  applied : ∀ line ∈ dto.cart.lines, (lineTotals dto.cart s line).applied = some .promo →
    line.promoC = .fin line.promoC.toRat
  subtotal : sale.subtotal = othersC dto.cart s dto.cart.lines + sale.scPwdDiscount + sale.vatExemptSales
  exempt : sale.vatExemptSales = sharesC dto.cart s dto.cart.lines
  scPwd_nonneg : 0 ≤ sale.scPwdDiscount
  exempt_nonneg : 0 ≤ sale.vatExemptSales
  promos_eq : promosC dto.cart s dto.cart.lines = .fin promos
  promos_nonneg : 0 ≤ promos
  rests_eq : restsC dto.cart s dto.cart.lines = .fin rests
  rests_nonneg : 0 ≤ rests
  order : discountAmountC dto.orderDiscount (.fin rests) = .fin orderC
  order_eq : orderDiscountC dto.cart s = .fin orderC
  discount : (sale.discount : ℚ) = nearest (promos + orderC)

theorem settled_of_lines (hs : s.Valid)
    (hbuilt : data.BuiltFrom dto (computeTotals dto.cart s) costByLine branchId terminalId)
    (hlines : ∀ line ∈ dto.cart.lines, ∃ price : ℤ,
      lineUnitWithModsC line = (price : JsNumber) ∧ -500 < line.qty.milli * price)
    : ∃ promos rests orderC, Settled dto s data.sale promos rests orderC := by
  have hsubtotalLe := (abs_le.mp (abs_le_of_intColumn hbuilt.subtotal)).2
  have hscPwdLe := (abs_le.mp (abs_le_of_intColumn hbuilt.scPwdDiscount)).2
  have hexemptLe := (abs_le.mp (abs_le_of_intColumn hbuilt.vatExemptSales)).2
  have hboth := exact_of_subtotal hsubtotalLe (intColumn_eq_ok hbuilt.subtotal) hlines
  have hexact : ∀ line ∈ dto.cart.lines, line.Exact := fun line hline => (hboth line hline).1
  have hnonneg : ∀ line ∈ dto.cart.lines, 0 ≤ line.amountC := fun line hline => (hboth line hline).2
  have hsubtotal := subtotal_eq hexact hnonneg hsubtotalLe (intColumn_eq_ok hbuilt.subtotal)
  obtain ⟨hscPwd, hscPwdNonneg, hexempt, hexemptNonneg⟩ := scPwd_eq hexact hs hscPwdLe
    hexemptLe (intColumn_eq_ok hbuilt.scPwdDiscount) (intColumn_eq_ok hbuilt.vatExemptSales)
  rw [sum_amountC dto.cart s, ← hscPwd, ← hexempt] at hsubtotal
  have hdiscount := intColumn_eq_ok hbuilt.discount
  obtain ⟨promos, rests, orderC, hpromos, hpromosNonneg, hrests, hrestsNonneg, horder, horderEq, hsum⟩ :=
    discount_eq hexact hnonneg hs hdiscount (by omega)
  exact ⟨promos, rests, orderC, hexact, hnonneg, promos_positive hexact hs hdiscount,
    promos_applied hexact hdiscount, hsubtotal, hexempt, hscPwdNonneg, hexemptNonneg, hpromos,
    hpromosNonneg, hrests, hrestsNonneg, horder.symm.trans horderEq, horderEq, hsum⟩

theorem left_nonneg (hs : s.Valid)
    (hbuilt : data.BuiltFrom dto (computeTotals dto.cart s) costByLine branchId terminalId)
    (hpayment : assertPayment dto.payment (computeTotals dto.cart s).totalC = .ok ())
    : 0 ≤ data.sale.subtotal - data.sale.discount - data.sale.scPwdDiscount
        ∧ 0 ≤ data.sale.serviceCharge
        ∧ data.sale.total = data.sale.subtotal - data.sale.discount - data.sale.scPwdDiscount
          + data.sale.serviceCharge := by
  have hsubtotal := abs_le.mp (abs_le_of_intColumn hbuilt.subtotal)
  have hdiscount := abs_le.mp (abs_le_of_intColumn hbuilt.discount)
  have hscPwd := abs_le.mp (abs_le_of_intColumn hbuilt.scPwdDiscount)
  have hcharge := abs_le.mp (abs_le_of_intColumn hbuilt.serviceCharge)
  have htotal : 0 ≤ data.sale.total := by
    rw [intColumn_of_assertPayment hpayment hbuilt.total]
    exact dto.payment.amountC_nonneg
  have hleft : (computeTotals dto.cart s).discountedSubtotalC
      = ((data.sale.subtotal - data.sale.discount - data.sale.scPwdDiscount : ℤ) : JsNumber) := by
    have heq : (computeTotals dto.cart s).discountedSubtotalC = (computeTotals dto.cart s).subtotalC
        - (computeTotals dto.cart s).promoDiscountC - (computeTotals dto.cart s).scPwdDiscountC := rfl
    rw [heq, intColumn_eq_ok hbuilt.subtotal, intColumn_eq_ok hbuilt.discount,
      intColumn_eq_ok hbuilt.scPwdDiscount, int_sub (abs_le.mpr (by omega)),
      int_sub (abs_le.mpr (by omega))]
  obtain ⟨left, hleftEq⟩ : ∃ left, left = data.sale.subtotal - data.sale.discount - data.sale.scPwdDiscount :=
    ⟨_, rfl⟩
  rw [← hleftEq] at hleft ⊢
  -- The service charge has the sign of what it is on.
  have hsign : min 0 left ≤ data.sale.serviceCharge ∧ data.sale.serviceCharge ≤ max 0 left := by
    have heq : (computeTotals dto.cart s).serviceChargeC = if dto.cart.orderType = .dine_in then
        mulRate (computeTotals dto.cart s).discountedSubtotalC (.fin s.serviceChargeRate) else 0 := rfl
    rw [hleft, intColumn_eq_ok hbuilt.serviceCharge] at heq
    split at heq
    . obtain ⟨z, hz, hge, hle⟩ := mulRate_within (c := left) (min_le_left 0 left) (le_max_left 0 left)
        (by exact_mod_cast min_le_right 0 left) (by exact_mod_cast le_max_right 0 left) (by omega)
        (by omega) hs.service_nonneg hs.service_le_one
      rw [hz, fin.injEq, Int.cast_inj] at heq
      omega
    . rw [zero_eq, fin.injEq, Int.cast_eq_zero] at heq
      omega
  have hsum : (computeTotals dto.cart s).totalC
      = (computeTotals dto.cart s).discountedSubtotalC + (computeTotals dto.cart s).serviceChargeC := rfl
  rw [hleft, intColumn_eq_ok hbuilt.serviceCharge, intColumn_eq_ok hbuilt.total,
    int_add (abs_le.mpr (by omega)), fin.injEq, Int.cast_inj] at hsum
  omega

theorem tax_bounds (hs : s.Valid)
    (hbuilt : data.BuiltFrom dto (computeTotals dto.cart s) costByLine branchId terminalId)
    (h : data.sale.vatExemptSales ≤ data.sale.total)
    : 0 ≤ data.sale.tax ∧ data.sale.tax ≤ data.sale.total - data.sale.vatExemptSales := by
  have hexempt := abs_le.mp (abs_le_of_intColumn hbuilt.vatExemptSales)
  have htotal := abs_le.mp (abs_le_of_intColumn hbuilt.total)
  have htax : (computeTotals dto.cart s).vatC = vatIncluded
      ((computeTotals dto.cart s).totalC - (computeTotals dto.cart s).vatExemptSalesC)
      (.fin s.taxRate) := rfl
  rw [intColumn_eq_ok hbuilt.tax, intColumn_eq_ok hbuilt.total, intColumn_eq_ok hbuilt.vatExemptSales,
    int_sub (abs_le.mpr (by omega))] at htax
  have hbase : 0 ≤ data.sale.total - data.sale.vatExemptSales := by
    omega
  obtain ⟨z, hz, hge, hle⟩ := vatIncluded_within (c := (data.sale.total - data.sale.vatExemptSales : ℤ))
    le_rfl hbase (by exact_mod_cast hbase) le_rfl (by norm_num) (by omega) hs.tax_nonneg hs.tax_le_one
  rw [hz, fin.injEq, Int.cast_inj] at htax
  omega

theorem line_bounds {cart : Cart} {line : CartLine} (hs : s.Valid) (hexact : line.Exact)
    (hnonneg : 0 ≤ line.amountC)
    (hfin : (lineTotals cart s line).applied = some .promo → line.promoC = .fin line.promoC.toRat)
    : JsNumber.ble 0 (lineTotals cart s line).netC = true
        ∧ (lineTotals cart s line).netC.ble (lineTotals cart s line).grossC = true := by
  have ht := hs.tax_nonneg
  have ht1 := hs.tax_le_one
  rw [grossC_amountC hexact]
  have hnet : ∃ q : ℚ, (lineTotals cart s line).netC = .fin q ∧ 0 ≤ q ∧ q ≤ line.amountC := by
    by_cases htakes : TakesScPwd cart s line
    . obtain ⟨_, _, _, _, _, hge, hle⟩ := scPwd_bounds hexact.le ht ht1
      refine ⟨_, netC_shareC hexact ht ht1 htakes, ?_, ?_⟩
      . exact_mod_cast (by omega : 0 ≤ line.shareC s)
      . exact_mod_cast (by omega : line.shareC s ≤ line.amountC)
    . obtain ⟨q, hq, hge, hle⟩ :=
        restC_within hexact fun hpos => promoC_finite hexact ht ht1 hfin hpos
      rw [min_eq_left hnonneg, Int.cast_zero] at hge
      exact ⟨q, (netC_restC hexact ht ht1 hfin htakes).trans hq, hge, hle⟩
  obtain ⟨q, hq, hge, hle⟩ := hnet
  rw [hq, zero_eq, ble_fin, ble_fin]
  exact ⟨decide_eq_true hge, decide_eq_true hle⟩

theorem Settled.discount_le {promos rests orderC : ℚ}
    (h : Settled dto s data.sale promos rests orderC) (hlength : dto.lines.length ≤ 2 ^ 19)
    (hothers : othersC dto.cart s dto.cart.lines ≤ 2 ^ 31)
    : data.sale.discount ≤ othersC dto.cart s dto.cart.lines := by
  have hlines : dto.cart.lines.length = dto.lines.length := List.length_map _
  obtain ⟨promos', rests', hpromos, hrests, _, _, hle⟩ := promos_rests_bounds h.nonneg h.positive hothers
    (by rwa [hlines])
  rw [h.promos_eq, fin.injEq] at hpromos
  rw [h.rests_eq, fin.injEq] at hrests
  rw [← hpromos, ← hrests, hlines] at hle
  have horder : orderC ≤ rests := by
    have hbounds := discountAmountC_bounds h.order
    rcases le_or_gt rests 0 with hrests | hrests
    . rw [hbounds.1 hrests]
      exact h.rests_nonneg
    . exact hbounds.2 hrests
  have hlengthq : (dto.lines.length : ℚ) ≤ 524288 := by
    exact_mod_cast hlength
  have hothersNonneg : 0 ≤ othersC dto.cart s dto.cart.lines := by
    apply List.sum_nonneg
    intro c hc
    obtain ⟨line, hline, rfl⟩ := List.mem_map.mp hc
    exact h.nonneg line (List.mem_of_mem_filter hline)
  -- Half a centavo more is not yet rounded to the next one.
  have hhalf : Representable ((2 * othersC dto.cart s dto.cart.lines + 1 : ℤ) * 2 ^ (-1 : ℤ)) :=
    ⟨_, -1, by rw [abs_le]; omega, by norm_num, rfl⟩
  have hround := nearest_le (q := promos + orderC) hhalf (by
    push_cast
    norm_num at hle ⊢
    linarith)
  rw [← h.discount] at hround
  push_cast at hround
  norm_num at hround
  have hlt : (data.sale.discount : ℚ) < othersC dto.cart s dto.cart.lines + 1 := by
    linarith
  have hltz : data.sale.discount < othersC dto.cart s dto.cart.lines + 1 := by
    exact_mod_cast hlt
  omega

theorem keepsBounds_iff (hs : s.Valid)
    (hbuilt : data.BuiltFrom dto (computeTotals dto.cart s) costByLine branchId terminalId)
    (hpayment : assertPayment dto.payment (computeTotals dto.cart s).totalC = .ok ())
    : KeepsBounds dto s data.sale ↔ WithinBounds dto s := by
  obtain ⟨hleft, hcharge, htotal⟩ := left_nonneg hs hbuilt hpayment
  have hpaid := intColumn_of_assertPayment hpayment hbuilt.total
  have hsubtotal := intColumn_eq_ok hbuilt.subtotal
  constructor
  . intro h
    have hlines : ∀ line ∈ dto.cart.lines, ∃ price : ℤ,
        lineUnitWithModsC line = (price : JsNumber) ∧ -500 < line.qty.milli * price := by
      intro line hline
      have hgross := gross_of_subtotal hsubtotal line hline
      have hunit := gross_fin hgross
      obtain ⟨price, hprice⟩ := unit_isInt (dto.unitPriceC_le line hline) hunit
      rw [hprice] at hunit
      refine ⟨price, hunit, (gross_nonneg_iff hunit hgross).mp ?_⟩
      obtain ⟨hnonneg, hle⟩ := h.lines line hline
      have hgrossC : (lineTotals dto.cart s line).grossC
          = .fin (mulQtyPriceC line.qty (lineUnitWithModsC line)).toRat := hgross
      rw [hgrossC] at hle
      cases hnet : (lineTotals dto.cart s line).netC with
      | fin q =>
        rw [hnet, zero_eq, ble_fin, decide_eq_true_eq] at hnonneg
        rw [hnet, ble_fin, decide_eq_true_eq] at hle
        exact hnonneg.trans hle
      | nan =>
        rw [hnet] at hle
        cases hle
      | posInf =>
        rw [hnet] at hle
        cases hle
      | negInf =>
        rw [hnet] at hnonneg
        cases hnonneg
    obtain ⟨promos, rests, orderC, hsettled⟩ := settled_of_lines hs hbuilt hlines
    constructor
    . exact hlines
    . have horder := h.order
      rw [hsettled.order_eq, zero_eq, ble_fin, decide_eq_true_eq] at horder
      rw [hsettled.rests_eq]
      exact (amount_nonneg_iff hsettled.order).mp horder
    . right
      have htax := h.columns.tax
      have hle := h.columns.total
      rw [← hsettled.exempt, ← hpaid]
      omega
  . intro h
    obtain ⟨promos, rests, orderC, hsettled⟩ := settled_of_lines hs hbuilt h.lines
    have horder : 0 ≤ orderC := by
      apply (amount_nonneg_iff hsettled.order).mpr
      rw [← hsettled.rests_eq]
      exact h.order
    have hdiscount : 0 ≤ data.sale.discount := by
      have hround := nearest_nonneg (add_nonneg hsettled.promos_nonneg horder)
      rw [← hsettled.discount] at hround
      exact_mod_cast hround
    have hexempt : data.sale.vatExemptSales ≤ data.sale.total := by
      rcases h.rounding with hlength | hpays
      . have hcolumn := (abs_le.mp (abs_le_of_intColumn hbuilt.subtotal)).2
        have hparts := hsettled.subtotal
        have hscPwd := hsettled.scPwd_nonneg
        have hexemptNonneg := hsettled.exempt_nonneg
        have hle := hsettled.discount_le hlength (by omega)
        omega
      . rwa [hsettled.exempt, hpaid]
    obtain ⟨htax, htaxLe⟩ := tax_bounds hs hbuilt hexempt
    constructor
    . exact ⟨hdiscount, hsettled.scPwd_nonneg, by omega, hcharge, hsettled.exempt_nonneg, htax, by omega⟩
    . intro line hline
      exact line_bounds hs (hsettled.exact line hline) (hsettled.nonneg line hline)
        (hsettled.applied line hline)
    . rw [hsettled.order_eq, zero_eq, ble_fin]
      exact decide_eq_true horder

end Columns

section Run

variable {ι : Type} [DecidableEq ι] {reqs : ι → Request} {c : System ι} {ctx : TerminalContext}
  {dto : SaleDraftDto} {now : DateTime} {db : Database}

/-- What a call of a run posts keeps its bounds if and only if the draft is within them. -/
theorem admission_bounds (hdb : db.Valid)
    (hrates : ∀ b ∈ db.businesses, b.rates.Valid)
    (hrun : Run (.error .aborted) (System.start db reqs) c) {e : Event ι Database}
    (he : e ∈ c.history) (hreq : reqs e.client = .completeSale ctx dto now)
    : e.after = e.before
        ∨ ∃ rates costs data,
            Recorded (· ∈ c.databases db) ctx dto now rates costs data e.before e.after
            ∧ (KeepsBounds dto rates data.sale ↔ WithinBounds dto rates) := by
  have hok := (keeps_databases reqs db c).ok hdb List.mem_cons_self hrun.within
  have hsame := unchanged_databases hdb hrun
  have hevent := hok.events e he
  rw [hreq] at hevent
  obtain ⟨log, _, _, hcommit, hafter⟩ := hevent.commit
  cases hcommit with
  | found => exact .inl hafter
  | posted haccepted hposted =>
    rw [← hafter] at hposted
    obtain ⟨d, hd, ⟨b, hbusiness, htotals⟩, _⟩ := haccepted.business
    obtain ⟨d', hd', hcosts, _⟩ := haccepted.costs
    have hdata := hposted.data
    have hpayment := haccepted.payment
    rw [htotals] at hdata hpayment
    have hmem : b ∈ db.businesses := by
      rw [← (hsame d hd.2).2]
      exact List.mem_of_find?_eq_some hbusiness
    right
    refine ⟨b.rates, d', _, ?_, keepsBounds_iff (hrates b hmem) (buildSaleData_ok hdata) hpayment⟩
    exact ⟨⟨d, b, hd.2, hbusiness, rfl⟩, hd'.2, ⟨_, hcosts, hdata⟩, hposted.sales, hposted.saleItems⟩

end Run

namespace Cafe

def surcharge : DiscountSpec where
  source := some "manual"
  discountId := none
  kind := some "fixed"
  value := .fin (-50)

def surcharged : SaleDraftDto :=
  { sale with
    orderDiscount := some surcharge
    totals := (computeTotals { cart 7 with orderDiscount := some surcharge } business.rates).toJson
    payment := { payment 7 with
      id := 1007
      amountC := 250
      tenderedC := 250
      amountC_nonneg := by decide
      amountC_le := by decide
      tenderedC_nonneg := by decide
      tenderedC_le := by decide
      changeC_nonneg := zeroC_nonneg
      changeC_le := zeroC_le }
    receiptNo_length := sale.receiptNo_length
    lines_ne := sale.lines_ne }

def surchargedSystem : System Unit :=
  System.start database fun _ => .completeSale terminal surcharged 100

theorem rates_valid : business.rates.Valid := by
  constructor <;> decide +kernel

theorem businesses_valid : ∀ b ∈ database.businesses, b.rates.Valid := by
  intro b hb
  rw [List.mem_singleton.mp hb]
  exact rates_valid

theorem surchargedSystem_facts
    : (surchargedSystem.turns (List.replicate 17 ())).map (fun c =>
          c.history.any fun e => e.before.sales.length ≠ e.after.sales.length)
        =
      some true := by
  decide +kernel

end Cafe

/-- An order discount below zero raises the price, and is stored as a discount below zero. -/
theorem admission_out_of_bounds
    : ¬ ∀ (reqs : Unit → Request) (db : Database), db.Valid →
        (∀ b ∈ db.businesses, b.rates.Valid) →
        ∀ c : System Unit, Run (.error .aborted) (System.start db reqs) c →
          ∀ e ∈ c.history, ∀ ctx dto now, reqs e.client = .completeSale ctx dto now →
            e.after = e.before
              ∨ ∃ rates costs data,
                  Recorded (· ∈ c.databases db) ctx dto now rates costs data e.before e.after
                  ∧ KeepsBounds dto rates data.sale := by
  intro hall
  have hfacts := Cafe.surchargedSystem_facts
  rw [Option.map_eq_some_iff] at hfacts
  obtain ⟨c, hturns, hposts⟩ := hfacts
  simp only [List.any_eq_true, decide_eq_true_eq] at hposts
  obtain ⟨e, he, hlengths⟩ := hposts
  have hrun : Run (.error .aborted) Cafe.surchargedSystem c := Config.run_of_turns _ _ hturns
  cases hall _ _ Cafe.database_valid Cafe.businesses_valid c hrun e he Cafe.terminal Cafe.surcharged 100 rfl with
  | inl hsame =>
    rw [hsame] at hlengths
    exact hlengths rfl
  | inr hposted =>
    obtain ⟨rates, costs, data, hrecorded, hbounds⟩ := hposted
    obtain ⟨d, b, hd, hbusiness, hb⟩ := hrecorded.business
    have hmem : b ∈ Cafe.database.businesses := by
      rw [← (unchanged_databases Cafe.database_valid hrun d hd).2]
      exact List.mem_of_find?_eq_some hbusiness
    have hrate : rates = Cafe.business.rates := by
      rw [← hb, List.mem_singleton.mp hmem]
    obtain ⟨_, _, hdata⟩ := hrecorded.built
    have hdiscount := (buildSaleData_ok hdata).discount
    rw [hrate] at hdiscount
    have hvalue : intColumn (computeTotals Cafe.surcharged.cart Cafe.business.rates).promoDiscountC
        = .ok (-50) := by
      decide +kernel
    have heq : -50 = data.sale.discount := Except.ok.inj (hvalue.symm.trans hdiscount)
    have hnonneg := hbounds.columns.discount
    omega

theorem admission_bounds_cafe
    : ∃ c, Cafe.race.turns Cafe.schedule = some c
        ∧ ∀ e ∈ c.history, e.after = e.before
          ∨ ∃ rates costs data,
              Recorded (· ∈ c.databases Cafe.database) Cafe.terminal Cafe.sale 100 rates costs data
                e.before e.after
              ∧ KeepsBounds Cafe.sale rates data.sale := by
  have hlevel := Cafe.race_level
  rw [Option.map_eq_some_iff] at hlevel
  obtain ⟨c, hturns, _⟩ := hlevel
  have hrun : Run (.error .aborted) Cafe.race c := Config.run_of_turns _ _ hturns
  refine ⟨c, hturns, ?_⟩
  intro e he
  cases admission_bounds Cafe.database_valid Cafe.businesses_valid hrun he rfl with
  | inl hsame => exact .inl hsame
  | inr hposted =>
    obtain ⟨rates, costs, data, hrecorded, hiff⟩ := hposted
    obtain ⟨d, b, hd, hbusiness, hb⟩ := hrecorded.business
    have hmem : b ∈ Cafe.database.businesses := by
      rw [← (unchanged_databases Cafe.database_valid hrun d hd).2]
      exact List.mem_of_find?_eq_some hbusiness
    refine .inr ⟨rates, costs, data, hrecorded, hiff.mpr ?_⟩
    constructor
    . intro line hline
      rw [List.mem_singleton.mp hline]
      exact ⟨100, by decide +kernel, by decide⟩
    . intro d hd
      cases hd
    . exact .inl (by decide)

end SentryPos
