import SentryPos.Pos.SafeIntegers

/-!
This module contains the sums that the totals engine works out for a cart whose total is paid, and when
they are safe integers: where all promos are integers, the subtotal and what SC/PWD lines cost bound them.
-/

namespace SentryPos

open ReadCommitted Binary64
open JsNumber hiding min

structure PromosInRange (cart : Cart) (s : Rates) : Prop where
  promos : ∀ lines, lines <+: cart.lines → IsSafe (promosC cart s lines)
  discount : FitsColumn
    (promosC cart s cart.lines + discountAmountC cart.orderDiscount (restsC cart s cart.lines))
  subtotal : -2 ^ 31 ≤ (cart.lines.map (·.amountC)).sum
  scPwds : scPwdsC cart s cart.lines < 2 ^ 31
  items : ∀ line ∈ cart.lines, ¬ TakesScPwd cart s line → FitsColumn (line.amountC - line.restC)

section Prefixes

variable {α β : Type} {p : α → Prop} [DecidablePred p] {f : α → β} {xs : List α}

theorem prefix_map_filter {ys : List β} (h : ys <+: (xs.filter p).map f)
    : ∃ xs', xs' <+: xs ∧ ys = (xs'.filter p).map f := by
  obtain ⟨zs, hzs, rfl⟩ := List.prefix_map_iff.mp h
  obtain ⟨xs', hxs', rfl⟩ := List.prefix_filter_iff.mp hzs
  exact ⟨xs', hxs', rfl⟩

theorem map_filter_initial {xs' : List α} (h : xs' <+: xs)
    : (xs'.filter p).map f <+: (xs.filter p).map f :=
  (h.filter _).map f

end Prefixes

section Sums

variable {cart : Cart} {s : Rates}

theorem left_of_total (hs : s.Valid) {amountC : ℤ} (hnonneg : 0 ≤ amountC)
    (hle : amountC ≤ MAX_CENTAVOS) (htotal : (computeTotals cart s).totalC = (amountC : JsNumber))
    : Within 0 amountC (computeTotals cart s).discountedSubtotalC
        ∧ ∃ charge : ℤ, (computeTotals cart s).serviceChargeC = (charge : JsNumber)
          ∧ 0 ≤ charge ∧ charge ≤ amountC := by
  have hsum : (computeTotals cart s).totalC
      = (computeTotals cart s).discountedSubtotalC + (computeTotals cart s).serviceChargeC := rfl
  have hcharge : (computeTotals cart s).serviceChargeC = if cart.orderType = .dine_in then
      mulRate (computeTotals cart s).discountedSubtotalC (.fin s.serviceChargeRate) else 0 := rfl
  have hleft : (computeTotals cart s).discountedSubtotalC = (computeTotals cart s).subtotalC
      - (computeTotals cart s).promoDiscountC - (computeTotals cart s).scPwdDiscountC := rfl
  rw [htotal] at hsum
  obtain ⟨hleftFin, hchargeFin⟩ := fin_of_add hsum.symm
  have hrep : Representable (computeTotals cart s).discountedSubtotalC.toRat := by
    rw [hleft] at hleftFin ⊢
    obtain ⟨hafter, hscPwd⟩ := fin_of_sub hleftFin
    rw [hafter, hscPwd, double_sub] at hleftFin ⊢
    exact representable_of_ofBinary64 hleftFin
  generalize (computeTotals cart s).discountedSubtotalC.toRat = left at hleftFin hrep
  generalize (computeTotals cart s).serviceChargeC.toRat = charge at hchargeFin
  rw [hleftFin, hchargeFin, double_add] at hsum
  have hvalue := eq_nearest hsum.symm
  rw [hleftFin, hchargeFin] at hcharge
  -- The service charge has the sign of what it is on.
  have hnonnegLeft : 0 ≤ left := by
    by_contra hneg
    have hchargeLe : charge ≤ 0 := by
      split at hcharge
      . have hproduct : NonPos (.fin left * .fin s.serviceChargeRate) :=
          nonPos_ofBinary64 (mul_nonpos_of_nonpos_of_nonneg (not_le.mp hneg).le hs.service_nonneg)
        rcases nonPos_halfUp hproduct with hinf | ⟨q, hq, hqEq⟩
        . exact absurd (hcharge.trans hinf) (by simp)
        . have := hcharge.trans hqEq
          rw [fin.injEq] at this
          rwa [this]
      . rw [zero_eq, fin.injEq] at hcharge
        exact hcharge.le
    have hround := nearest_le (q := left + charge) hrep (by linarith)
    have hamountq : (0 : ℚ) ≤ amountC := by
      exact_mod_cast hnonneg
    linarith
  have hchargeNonneg : 0 ≤ charge := by
    split at hcharge
    . have hproduct : NonNeg (.fin left * .fin s.serviceChargeRate) :=
        nonNeg_ofBinary64 (mul_nonneg hnonnegLeft hs.service_nonneg)
      rcases nonNeg_halfUp hproduct with hinf | ⟨q, hq, hqEq⟩
      . exact absurd (hcharge.trans hinf) (by simp)
      . have := hcharge.trans hqEq
        rw [fin.injEq] at this
        rwa [this]
    . rw [zero_eq, fin.injEq] at hcharge
      exact hcharge.ge
  have hleftLe : left ≤ amountC := by
    have hround := le_nearest (q := left + charge) hrep (by linarith)
    linarith
  refine ⟨⟨left, hleftFin, by exact_mod_cast hnonnegLeft, hleftLe⟩, ?_⟩
  rw [hchargeFin, hcharge]
  split
  . unfold MAX_CENTAVOS at hle
    exact mulRate_within le_rfl hnonneg (by exact_mod_cast hnonnegLeft) hleftLe (by norm_num)
      (by omega) hs.service_nonneg hs.service_le_one
  . exact ⟨0, by rw [zero_eq, Int.cast_zero], le_rfl, hnonneg⟩

theorem restsC_lt {lines : List CartLine} (hexact : ∀ line ∈ lines, line.Exact)
    (hpositive : ∀ line ∈ lines, JsNumber.blt 0 line.promoC = true →
      line.promoC = .fin line.promoC.toRat)
    (hsafe : ∀ lines', lines' <+: lines → IsSafe (restsC cart s lines'))
    : ∃ rests : ℚ, restsC cart s lines = .fin rests ∧ |rests| < 2 ^ 53 := by
  induction lines using List.reverseRecOn with
  | nil => exact ⟨0, rfl, by norm_num⟩
  | append_singleton lines line ih =>
    have hlast := hsafe _ (List.prefix_refl _)
    obtain ⟨rests, hrests, hlt⟩ := ih (fun line hline => hexact line (List.mem_append_left _ hline))
      (fun line hline => hpositive line (List.mem_append_left _ hline))
      fun lines' hinit => hsafe lines' (hinit.trans (List.prefix_append _ _))
    rw [restsC_append, hrests] at hlast ⊢
    split
    . exact ⟨rests, rfl, hlt⟩
    . next htakes =>
      rw [if_neg htakes] at hlast
      have hline : line ∈ lines ++ [line] := by
        simp
      obtain ⟨rest, hrest, hge, hle⟩ := restC_within (hexact line hline) (hpositive line hline)
      have hamount := abs_le.mp (hexact line hline).le
      have hgeq : (-2 ^ 45 : ℚ) ≤ rest := by
        refine le_trans ?_ hge
        exact_mod_cast (by omega : -2 ^ 45 ≤ min 0 line.amountC)
      have hleq : rest ≤ 2 ^ 45 := by
        refine le_trans hle ?_
        exact_mod_cast hamount.2
      rw [abs_lt] at hlt
      have habs : |rests + rest| ≤ 2 ^ 54 := by
        rw [abs_le]
        constructor <;> linarith
      rw [hrest, double_add] at hlast ⊢
      have hfin := ofBinary64_of_abs_le (by norm_num) habs
      rw [hfin] at hlast
      exact ⟨_, hfin, lt_of_isSafe (representable_nearest _) hlast⟩

/-- The figures of a cart with exact amounts and a total that is paid. -/
structure Payable (cart : Cart) (s : Rates) (amountC : ℤ) : Prop where
  nonneg : 0 ≤ amountC
  le : amountC ≤ MAX_CENTAVOS
  total : (computeTotals cart s).totalC = (amountC : JsNumber)
  exact : ∀ line ∈ cart.lines, line.Exact
  applied : ∀ line ∈ cart.lines, (lineTotals cart s line).applied = some .promo →
    line.promoC = .fin line.promoC.toRat

namespace Payable

variable {amountC : ℤ} (h : Payable cart s amountC)

include h

theorem positive (hs : s.Valid) : ∀ line ∈ cart.lines, JsNumber.blt 0 line.promoC = true →
    line.promoC = .fin line.promoC.toRat := by
  intro line hline hpos
  exact promoC_finite (h.exact line hline) hs.tax_nonneg hs.tax_le_one (h.applied line hline) hpos

theorem subtotals {lines : List CartLine} (hinit : lines <+: cart.lines)
    : (lines.map (lineTotals cart s)).foldl (fun sum l => sum + l.grossC) 0
        = JsNumber.sum ((lines.map (·.amountC)).map fun z : ℤ => (z : JsNumber)) :=
  foldl_grossC fun line hline => h.exact line (hinit.subset hline)

variable (hs : s.Valid)

include hs

theorem scPwdDiscounts {lines : List CartLine} (hinit : lines <+: cart.lines)
    : (lines.map (lineTotals cart s)).foldl
          (fun sum l => if l.applied = some .scpwd then sum + l.scPwdDiscountC else sum) 0
        = JsNumber.sum
          (((lines.filter (TakesScPwd cart s)).map fun line => line.amountC - line.shareC s).map
            fun z : ℤ => (z : JsNumber)) :=
  foldl_scPwdC (fun line hline => h.exact line (hinit.subset hline)) hs.tax_nonneg hs.tax_le_one

theorem vatExempts {lines : List CartLine} (hinit : lines <+: cart.lines)
    : (lines.map (lineTotals cart s)).foldl
          (fun sum l => if l.applied = some .scpwd then sum + l.netC else sum) 0
        = JsNumber.sum (((lines.filter (TakesScPwd cart s)).map (·.shareC s)).map
            fun z : ℤ => (z : JsNumber)) :=
  foldl_shareC (fun line hline => h.exact line (hinit.subset hline)) hs.tax_nonneg hs.tax_le_one

theorem linePromos {lines : List CartLine} (hinit : lines <+: cart.lines)
    : (lines.map (lineTotals cart s)).foldl
          (fun sum l => if l.applied = some .promo then sum + l.promoDiscountC else sum) 0
        = promosC cart s lines :=
  foldl_promoC (fun line hline => h.exact line (hinit.subset hline)) hs.tax_nonneg hs.tax_le_one
    fun line hline => h.applied line (hinit.subset hline)

theorem orderBases {lines : List CartLine} (hinit : lines <+: cart.lines)
    : (lines.map (lineTotals cart s)).foldl
          (fun sum l => if l.applied = some .scpwd then sum else sum + l.netC) 0
        = restsC cart s lines :=
  foldl_restC (fun line hline => h.exact line (hinit.subset hline)) hs.tax_nonneg hs.tax_le_one
    fun line hline => h.applied line (hinit.subset hline)

theorem promoDiscountC_eq
    : (computeTotals cart s).promoDiscountC
        = promosC cart s cart.lines + discountAmountC cart.orderDiscount (restsC cart s cart.lines) := by
  rw [← h.linePromos hs (List.prefix_refl _), ← h.orderBases hs (List.prefix_refl _)]
  rfl

theorem promoDiscountC_lt (hcolumn : FitsColumn (computeTotals cart s).promoDiscountC)
    : ∃ discount : ℚ, (computeTotals cart s).promoDiscountC = .fin discount
        ∧ |discount| ≤ 2 ^ 52 := by
  obtain ⟨⟨left, hleft, _⟩, _⟩ := left_of_total hs h.nonneg h.le h.total
  have hsum : (computeTotals cart s).discountedSubtotalC = (computeTotals cart s).subtotalC
      - (computeTotals cart s).promoDiscountC - (computeTotals cart s).scPwdDiscountC := rfl
  have hfin := (fin_of_sub (fin_of_sub (hsum.symm.trans hleft)).1).2
  have heq := h.promoDiscountC_eq hs
  have hrep : Representable (computeTotals cart s).promoDiscountC.toRat := by
    rw [heq] at hfin ⊢
    obtain ⟨hpromos, horder⟩ := fin_of_add hfin
    rw [hpromos, horder, double_add] at hfin ⊢
    exact representable_of_ofBinary64 hfin
  generalize (computeTotals cart s).promoDiscountC.toRat = discount at hfin hrep
  refine ⟨discount, hfin, ?_⟩
  rcases nearest_isInt_or discount with ⟨z, hz⟩ | hlt
  . rw [nearest_of_representable hrep] at hz
    rw [hfin, hz] at hcolumn
    obtain ⟨hge, hlt⟩ := fitsColumn_int.mp hcolumn
    have habs : |z| ≤ 2 ^ 52 := by
      rw [abs_le]
      omega
    rw [hz]
    exact_mod_cast habs
  . rw [nearest_of_representable hrep] at hlt
    exact hlt.le

omit hs in
theorem subtotals_eq
    (hamounts : ∀ lines, lines <+: cart.lines → SafeInteger (lines.map (·.amountC)).sum)
    {lines : List CartLine} (hinit : lines <+: cart.lines)
    : (lines.map (lineTotals cart s)).foldl (fun sum l => sum + l.grossC) 0
        = (((lines.map (·.amountC)).sum : ℤ) : JsNumber) := by
  rw [h.subtotals hinit]
  apply sum_int
  intro zs hzs
  obtain ⟨lines', hlines', rfl⟩ := List.prefix_map_iff.mp hzs
  exact (safeInteger_iff.mp (hamounts lines' (hlines'.trans hinit))).le

theorem vatExemptSalesC_eq (hshares : sharesC cart s cart.lines < 2 ^ 31)
    : (computeTotals cart s).vatExemptSalesC = (sharesC cart s cart.lines : JsNumber)
        ∧ 0 ≤ sharesC cart s cart.lines := by
  have hfold : (computeTotals cart s).vatExemptSalesC
      = (cart.lines.map (lineTotals cart s)).foldl
        (fun sum l => if l.applied = some .scpwd then sum + l.netC else sum) 0 := rfl
  rw [hfold, h.vatExempts hs (List.prefix_refl _)]
  obtain ⟨hsum, hnonneg, _⟩ := sum_int_of_prefix (shares_nonneg cart hs h.exact)
    (by unfold sharesC at hshares; omega) (List.prefix_refl _)
  exact ⟨hsum, hnonneg⟩

theorem scPwdDiscountC_sum (hscPwds : scPwdsC cart s cart.lines < 2 ^ 31)
    : (computeTotals cart s).scPwdDiscountC = (scPwdsC cart s cart.lines : JsNumber)
        ∧ 0 ≤ scPwdsC cart s cart.lines := by
  have hfold : (computeTotals cart s).scPwdDiscountC
      = (cart.lines.map (lineTotals cart s)).foldl
        (fun sum l => if l.applied = some .scpwd then sum + l.scPwdDiscountC else sum) 0 := rfl
  rw [hfold, h.scPwdDiscounts hs (List.prefix_refl _)]
  obtain ⟨hsum, hnonneg, _⟩ := sum_int_of_prefix (scPwds_nonneg cart hs h.exact)
    (by unfold scPwdsC at hscPwds; omega) (List.prefix_refl _)
  exact ⟨hsum, hnonneg⟩

theorem taxed_eq (hshares : sharesC cart s cart.lines < 2 ^ 31)
    : (computeTotals cart s).totalC - (computeTotals cart s).vatExemptSalesC
          = ((amountC - sharesC cart s cart.lines : ℤ) : JsNumber)
        ∧ ∃ tax : ℤ, (computeTotals cart s).vatC = (tax : JsNumber) ∧ -2 ^ 31 < tax ∧ tax < 2 ^ 31 := by
  obtain ⟨hexempt, hnonneg⟩ := h.vatExemptSalesC_eq hs hshares
  have hamount := h.nonneg
  have hle := h.le
  unfold MAX_CENTAVOS at hle
  have htaxed : (computeTotals cart s).totalC - (computeTotals cart s).vatExemptSalesC
      = ((amountC - sharesC cart s cart.lines : ℤ) : JsNumber) := by
    rw [h.total, hexempt]
    apply int_sub
    rw [abs_le]
    omega
  refine ⟨htaxed, ?_⟩
  have htax : (computeTotals cart s).vatC = vatIncluded
      ((computeTotals cart s).totalC - (computeTotals cart s).vatExemptSalesC)
      (.fin s.taxRate) := rfl
  rw [htax, htaxed]
  have hge : ((-2 ^ 31 + 1 : ℤ) : ℚ) ≤ (amountC - sharesC cart s cart.lines : ℤ) := by
    exact_mod_cast (by omega : -2 ^ 31 + 1 ≤ amountC - sharesC cart s cart.lines)
  have hle : ((amountC - sharesC cart s cart.lines : ℤ) : ℚ) ≤ (2 ^ 31 - 1 : ℤ) := by
    exact_mod_cast (by omega : amountC - sharesC cart s cart.lines ≤ 2 ^ 31 - 1)
  obtain ⟨tax, htaxEq, htaxGe, htaxLe⟩ := vatIncluded_within (by norm_num) (by norm_num) hge hle
    (by norm_num) (by norm_num) hs.tax_nonneg hs.tax_le_one
  exact ⟨tax, htaxEq, by omega, by omega⟩

theorem formedIn_isSafe
    (hlines : ∀ line ∈ cart.lines, ∀ x, FormedOn cart s line x → IsSafe x)
    (horder : JsNumber.blt 0 (restsC cart s cart.lines) = true →
      ∀ d, cart.orderDiscount = some d → d.SafeOn (restsC cart s cart.lines))
    (hamounts : ∀ lines, lines <+: cart.lines → SafeInteger (lines.map (·.amountC)).sum)
    (hrests : ∀ lines, lines <+: cart.lines → IsSafe (restsC cart s lines))
    (hsubtotal : (cart.lines.map (·.amountC)).sum < 2 ^ 31)
    (hshares : sharesC cart s cart.lines < 2 ^ 31) (hpromos : PromosInRange cart s)
    : ∀ x, FormedIn cart s x → IsSafe x := by
  have hcap := h.le
  have hnonneg := h.nonneg
  unfold MAX_CENTAVOS at hcap
  obtain ⟨hleft, charge, hcharge, hchargeGe, hchargeLe⟩ := left_of_total hs h.nonneg h.le h.total
  obtain ⟨hexempt, hexemptNonneg⟩ := h.vatExemptSalesC_eq hs hshares
  obtain ⟨htaxed, tax, htax, htaxGe, htaxLt⟩ := h.taxed_eq hs hshares
  have htaxedGe : ((-2 ^ 31 : ℤ) : ℚ) ≤ (amountC - sharesC cart s cart.lines : ℤ) := by
    exact_mod_cast (by omega : -2 ^ 31 ≤ amountC - sharesC cart s cart.lines)
  have htaxedLe : ((amountC - sharesC cart s cart.lines : ℤ) : ℚ) ≤ (2 ^ 31 : ℤ) := by
    exact_mod_cast (by omega : amountC - sharesC cart s cart.lines ≤ 2 ^ 31)
  have hdiscountFits := hpromos.discount
  rw [← h.promoDiscountC_eq hs] at hdiscountFits
  intro x hx
  cases hx with
  | line hline hx => exact hlines _ hline x hx
  | subtotal hinit =>
    rw [h.subtotals_eq hamounts hinit, isSafe_int]
    exact hamounts _ hinit
  | linePromo hinit =>
    rw [h.linePromos hs hinit]
    exact hpromos.promos _ hinit
  | scPwdDiscount hinit =>
    have hle := hpromos.scPwds
    unfold scPwdsC at hle
    obtain ⟨hsum, hsumGe, hsumLe⟩ := sum_int_of_prefix (scPwds_nonneg cart hs h.exact) (by omega)
      (map_filter_initial hinit)
    rw [h.scPwdDiscounts hs hinit, hsum, isSafe_int, safeInteger_iff, abs_lt]
    omega
  | orderBase hinit =>
    rw [h.orderBases hs hinit]
    exact hrests _ hinit
  | vatExemptSales hinit =>
    have hle := hshares
    unfold sharesC at hle
    obtain ⟨hsum, hsumGe, hsumLe⟩ := sum_int_of_prefix (shares_nonneg cart hs h.exact) (by omega)
      (map_filter_initial hinit)
    rw [h.vatExempts hs hinit, hsum, isSafe_int, safeInteger_iff, abs_lt]
    omega
  | orderDiscount hx =>
    have hbase : orderBaseC cart s = restsC cart s cart.lines := h.orderBases hs (List.prefix_refl _)
    obtain ⟨rests, hrestsEq, hlt⟩ := restsC_lt h.exact (h.positive hs) hrests
    rw [hbase, hrestsEq] at hx
    rw [hrestsEq, zero_eq, blt_fin, decide_eq_true_eq] at horder
    exact (formedFrom_iff (abs_lt.mp hlt).2).mpr horder x hx
  | promoDiscount =>
    intro z hz
    rw [hz] at hdiscountFits
    have hbounds := fitsColumn_int.mp hdiscountFits
    rw [safeInteger_iff, abs_lt]
    omega
  | afterPromo =>
    obtain ⟨discount, hdiscount, hdiscountLe⟩ := h.promoDiscountC_lt hs hdiscountFits
    have hsubtotalC : (computeTotals cart s).subtotalC = _ :=
      h.subtotals_eq hamounts (List.prefix_refl _)
    have hge := hpromos.subtotal
    have hgeq : (-2 ^ 31 : ℚ) ≤ ((cart.lines.map (·.amountC)).sum : ℤ) := by
      exact_mod_cast hge
    have hltq : (((cart.lines.map (·.amountC)).sum : ℤ) : ℚ) < 2 ^ 31 := by
      exact_mod_cast hsubtotal
    rw [abs_le] at hdiscountLe
    rw [hsubtotalC, hdiscount, double_sub]
    have hwithin : Within (-2 ^ 52 - 2 ^ 31) (2 ^ 52 + 2 ^ 31)
        (ofBinary64 (((cart.lines.map (·.amountC)).sum : ℤ) - discount)) := by
      generalize (cart.lines.map (·.amountC)).sum = subtotal at hgeq hltq ⊢
      apply within_ofBinary64
      . push_cast
        linarith
      . push_cast
        linarith
      . norm_num
      . norm_num
    exact isSafe_of_within hwithin (by norm_num) (by norm_num)
  | discountedSubtotal => exact isSafe_of_within hleft (by norm_num) (by omega)
  | serviceChargeOf =>
    obtain ⟨left, hleftEq, hleftGe, hleftLe⟩ := hleft
    rw [hleftEq]
    exact isSafe_of_within (mul_within le_rfl hnonneg hleftGe hleftLe (by norm_num) (by omega)
      hs.service_nonneg hs.service_le_one) (by norm_num) (by omega)
  | serviceCharge =>
    rw [hcharge, isSafe_int, safeInteger_iff, abs_lt]
    omega
  | total =>
    rw [h.total, isSafe_int, safeInteger_iff, abs_lt]
    omega
  | taxed =>
    rw [htaxed, isSafe_int, safeInteger_iff, abs_lt]
    omega
  | taxOf =>
    rw [htaxed]
    exact isSafe_of_within (mul_within (by norm_num) (by norm_num) htaxedGe htaxedLe (by norm_num)
      (by norm_num) hs.tax_nonneg hs.tax_le_one) (by norm_num) (by norm_num)
  | tax =>
    rw [htax, isSafe_int, safeInteger_iff, abs_lt]
    omega
  | vatableSales =>
    have hvatable : (computeTotals cart s).vatableSalesC
        = (computeTotals cart s).totalC - (computeTotals cart s).vatExemptSalesC
          - (computeTotals cart s).vatC := rfl
    rw [hvatable, htaxed, htax, int_sub (abs_le.mpr (by omega)), isSafe_int, safeInteger_iff, abs_lt]
    omega

end Payable

theorem itemDiscount_eq {amountC : ℤ} (h : Payable cart s amountC) (hs : s.Valid) {line : CartLine}
    (hline : line ∈ cart.lines)
    : (lineTotals cart s line).grossC - (lineTotals cart s line).netC
        =
      if TakesScPwd cart s line then ((line.amountC - line.shareC s : ℤ) : JsNumber)
      else line.amountC - line.restC := by
  have hexact := h.exact line hline
  rw [grossC_amountC hexact]
  split
  . next htakes =>
    have hbounds := takesScPwd_bounds hs hexact htakes
    have hamount := abs_le.mp hexact.le
    rw [netC_shareC hexact hs.tax_nonneg hs.tax_le_one htakes]
    apply int_sub
    rw [abs_le]
    omega
  . next htakes =>
    rw [netC_restC hexact hs.tax_nonneg hs.tax_le_one (h.applied line hline) htakes]

section Whole

def CartLine.wholePromoC (line : CartLine) : ℤ :=
  ⌊line.promoC.toRat⌋

def CartLine.wholeRestC (line : CartLine) : ℤ :=
  if JsNumber.blt 0 line.promoC then line.amountC - line.wholePromoC else line.amountC

variable {amountC : ℤ} (h : Payable cart s amountC)
  (hwhole : ∀ line ∈ cart.lines, TakesPromo cart s line → line.promoC.IsInt)

include hwhole

theorem wholePromoC_bounds : ∀ line ∈ cart.lines, TakesPromo cart s line →
    line.promoC = (line.wholePromoC : JsNumber) ∧ 0 < line.wholePromoC
      ∧ line.wholePromoC ≤ line.amountC := by
  intro line hline htakes
  obtain ⟨z, hz⟩ := hwhole line hline htakes
  have hpos := htakes.2
  have heq : line.wholePromoC = z := by
    unfold CartLine.wholePromoC
    rw [hz, toRat_fin, Int.floor_intCast]
  rw [hz, zero_eq, blt_fin, decide_eq_true_eq] at hpos
  have hle := promoC_bounds hz hpos
  rw [heq]
  refine ⟨hz, ?_, ?_⟩
  . exact_mod_cast hpos
  . exact_mod_cast hle

theorem promosC_whole {lines : List CartLine} (hinit : lines <+: cart.lines)
    : promosC cart s lines
        = JsNumber.sum (((lines.filter (TakesPromo cart s)).map (·.wholePromoC)).map
            fun z : ℤ => (z : JsNumber)) := by
  unfold promosC
  rw [List.map_map]
  congr 1
  apply List.map_congr_left
  intro line hline
  obtain ⟨hmem, htakes⟩ := List.mem_filter.mp hline
  exact (wholePromoC_bounds hwhole line (hinit.subset hmem) (of_decide_eq_true htakes)).1

theorem wholePromos_nonneg
    : ∀ z ∈ (cart.lines.filter (TakesPromo cart s)).map (·.wholePromoC), 0 ≤ z := by
  intro z hz
  obtain ⟨line, hline, rfl⟩ := List.mem_map.mp hz
  obtain ⟨hmem, htakes⟩ := List.mem_filter.mp hline
  exact (wholePromoC_bounds hwhole line hmem (of_decide_eq_true htakes)).2.1.le

include h

theorem restC_whole : ∀ line ∈ cart.lines, ¬ TakesScPwd cart s line →
    line.restC = (line.wholeRestC : JsNumber) := by
  intro line hline htakes
  unfold CartLine.restC CartLine.wholeRestC
  split
  . next hpos =>
    obtain ⟨hpromo, hgt, hle⟩ := wholePromoC_bounds hwhole line hline ⟨htakes, hpos⟩
    have hamount := abs_le.mp (h.exact line hline).le
    rw [hpromo, int_sub]
    rw [abs_le]
    omega
  . rfl

theorem restsC_whole {lines : List CartLine} (hinit : lines <+: cart.lines)
    : restsC cart s lines
        = JsNumber.sum (((lines.filter (¬ TakesScPwd cart s ·)).map (·.wholeRestC)).map
            fun z : ℤ => (z : JsNumber)) := by
  unfold restsC
  rw [List.map_map]
  congr 1
  apply List.map_congr_left
  intro line hline
  obtain ⟨hmem, htakes⟩ := List.mem_filter.mp hline
  exact restC_whole h hwhole line (hinit.subset hmem) (of_decide_eq_true htakes)

omit h hwhole in
theorem othersC_whole (lines : List CartLine)
    : othersC cart s lines
        = ((lines.filter (TakesPromo cart s)).map (·.wholePromoC)).sum
          + ((lines.filter (¬ TakesScPwd cart s ·)).map (·.wholeRestC)).sum := by
  unfold othersC
  induction lines with
  | nil => rfl
  | cons line lines ih =>
    have hpromo : TakesPromo cart s line
        ↔ ¬ TakesScPwd cart s line ∧ JsNumber.blt 0 line.promoC = true := Iff.rfl
    unfold CartLine.wholeRestC at ih ⊢
    by_cases htakes : TakesScPwd cart s line
    . simp only [List.filter_cons, hpromo, htakes, not_true_eq_false, false_and, decide_false,
        Bool.false_eq_true, if_false]
      exact ih
    . by_cases hpos : JsNumber.blt 0 line.promoC = true
      . simp only [List.filter_cons, hpromo, htakes, hpos, not_false_eq_true, true_and, decide_true,
          if_true, List.map_cons, List.sum_cons]
        omega
      . simp only [List.filter_cons, hpromo, htakes, hpos, not_false_eq_true, and_false, decide_true,
          decide_false, if_true, Bool.false_eq_true, if_false, List.map_cons, List.sum_cons]
        omega

theorem restsC_int (hs : s.Valid)
    (hrests : ∀ lines, lines <+: cart.lines → IsSafe (restsC cart s lines))
    : restsC cart s cart.lines
        = ((((cart.lines.filter (¬ TakesScPwd cart s ·)).map (·.wholeRestC)).sum : ℤ) : JsNumber) := by
  rw [restsC_whole h hwhole (List.prefix_refl _)]
  have hlt : ∀ zs, zs <+: (cart.lines.filter (¬ TakesScPwd cart s ·)).map (·.wholeRestC) →
      |zs.sum| < 2 ^ 53 := by
    apply sum_int_of_lt
    intro zs hzs
    obtain ⟨lines, hinit, rfl⟩ := prefix_map_filter hzs
    rw [← restsC_whole h hwhole hinit]
    exact restsC_lt (fun line hline => h.exact line (hinit.subset hline))
      (fun line hline => h.positive hs line (hinit.subset hline))
      fun lines' hinit' => hrests lines' (hinit'.trans hinit)
  exact sum_int fun zs hzs => (hlt zs hzs).le

omit h hwhole in
theorem nonneg_of_nearest {z : ℤ} (h : 0 ≤ nearest z) : 0 ≤ z := by
  have hlt := lt_of_lt_nearest (q := z) (n := -1) (by norm_num) (by push_cast; linarith)
  have hltz : -1 < z := by
    exact_mod_cast hlt
  omega

omit h hwhole in
theorem sums_le_of_left {promos scPwds : List ℤ} {subtotal : ℤ} {left : ℚ}
    (hpromos : ∀ z ∈ promos, 0 ≤ z) (hscPwds : ∀ z ∈ scPwds, 0 ≤ z) (hsubtotal : subtotal < 2 ^ 31)
    (hleft : (subtotal : JsNumber)
        - (JsNumber.sum (promos.map fun z : ℤ => (z : JsNumber)) + ((0 : ℤ) : JsNumber))
        - JsNumber.sum (scPwds.map fun z : ℤ => (z : JsNumber)) = .fin left)
    (hnonneg : 0 ≤ left) : promos.sum + scPwds.sum ≤ subtotal := by
  have hints : ∀ zs : List ℤ, ∀ x ∈ zs.map (fun z : ℤ => (z : JsNumber)), IsInt x := by
    intro zs x hx
    obtain ⟨z, _, rfl⟩ := List.mem_map.mp hx
    exact ⟨z, rfl⟩
  obtain ⟨hafter, hscPwdFin⟩ := fin_of_sub hleft
  have hdiscountFin := (fin_of_sub hafter).2
  have hpromoFin := (fin_of_add hdiscountFin).1
  obtain ⟨promo, hpromo⟩ := int_of_sum (hints _) hpromoFin
  obtain ⟨scPwd, hscPwd⟩ := int_of_sum (hints _) hscPwdFin
  rw [hpromo] at hpromoFin
  rw [hscPwd] at hscPwdFin
  have hscPwdNonneg : 0 ≤ scPwd := by
    have hnonneg := JsNumber.sum_nonneg (by
      intro x hx
      obtain ⟨z, hz, rfl⟩ := List.mem_map.mp hx
      rw [toRat_fin]
      exact_mod_cast hscPwds z hz) hscPwdFin
    exact_mod_cast hnonneg
  -- The sum of the promos is not rounded again, and is below the subtotal.
  rw [hpromoFin, double_add, Int.cast_zero, add_zero] at hdiscountFin
  have hdiscount := eq_nearest hdiscountFin
  rw [nearest_of_representable (representable_of_sum hpromoFin)] at hdiscount
  rw [hpromoFin, double_add, Int.cast_zero, add_zero, hdiscountFin, hdiscount] at hafter hleft
  rw [double_sub, ← Int.cast_sub] at hafter
  obtain ⟨after, hafterInt⟩ := int_of_ofBinary64 hafter
  rw [hafterInt] at hafter
  rw [double_sub, ← Int.cast_sub, hafter, hscPwdFin, double_sub, ← Int.cast_sub] at hleft
  rw [eq_nearest hleft] at hnonneg
  have hafterGe := nonneg_of_nearest hnonneg
  have hafterEq := eq_nearest hafter
  have hpromoLe : 0 ≤ subtotal - promo := by
    apply nonneg_of_nearest
    rw [← hafterEq]
    exact_mod_cast (by omega : 0 ≤ after)
  have hpromoLt : (promo : ℚ) < 2 ^ 53 := by
    exact_mod_cast (by omega : promo < 2 ^ 53)
  have hpromoSum := sum_int_of_nonneg hpromos hpromoFin hpromoLt
  have hpromoNonneg : 0 ≤ promos.sum := List.sum_nonneg hpromos
  have hpromoEq : promo = promos.sum := by
    exact_mod_cast hpromoSum
  rw [nearest_of_representable (representable_intCast (by rw [abs_le]; omega)), Int.cast_inj] at hafterEq
  have hscPwdLt : (scPwd : ℚ) < 2 ^ 53 := by
    exact_mod_cast (by omega : scPwd < 2 ^ 53)
  have hscPwdSum := sum_int_of_nonneg hscPwds hscPwdFin hscPwdLt
  have hscPwdEq : scPwd = scPwds.sum := by
    exact_mod_cast hscPwdSum
  omega

theorem wholeSums_bounds (hs : s.Valid)
    (hamounts : ∀ lines, lines <+: cart.lines → SafeInteger (lines.map (·.amountC)).sum)
    (hrests : ∀ lines, lines <+: cart.lines → IsSafe (restsC cart s lines))
    (hsubtotal : (cart.lines.map (·.amountC)).sum < 2 ^ 31)
    (hshares : sharesC cart s cart.lines < 2 ^ 31)
    : ((cart.lines.filter (TakesPromo cart s)).map (·.wholePromoC)).sum + scPwdsC cart s cart.lines
        ≤ (cart.lines.map (·.amountC)).sum := by
  obtain ⟨_, hsharesNonneg⟩ := h.vatExemptSalesC_eq hs hshares
  have hsum := sum_amountC cart s cart.lines
  rw [othersC_whole] at hsum
  have hrestsEq := restsC_int h hwhole hs hrests
  rcases le_or_gt ((cart.lines.filter (¬ TakesScPwd cart s ·)).map (·.wholeRestC)).sum 0 with hneg | hpos
  . -- No discount is granted to the order: what is left after the promos covers SC/PWD.
    obtain ⟨⟨left, hleft, hleftGe, _⟩, _⟩ := left_of_total hs h.nonneg h.le h.total
    have hparts : (computeTotals cart s).discountedSubtotalC = (computeTotals cart s).subtotalC
        - (computeTotals cart s).promoDiscountC - (computeTotals cart s).scPwdDiscountC := rfl
    have hsubtotalC : (computeTotals cart s).subtotalC = _ :=
      h.subtotals_eq hamounts (List.prefix_refl _)
    have hscPwdC : (computeTotals cart s).scPwdDiscountC = _ :=
      h.scPwdDiscounts hs (List.prefix_refl _)
    have hnone : discountAmountC cart.orderDiscount (restsC cart s cart.lines) = ((0 : ℤ) : JsNumber) := by
      rw [hrestsEq, discountAmountC_fin]
      split
      . rfl
      . rw [if_pos (by exact_mod_cast hneg)]
        rfl
    rw [hparts, hsubtotalC, h.promoDiscountC_eq hs, hnone,
      promosC_whole hwhole (List.prefix_refl _), hscPwdC] at hleft
    exact sums_le_of_left (wholePromos_nonneg hwhole) (scPwds_nonneg cart hs h.exact) hsubtotal hleft
      (by exact_mod_cast hleftGe)
  . -- All parts of the subtotal are positive.
    omega

theorem discount_lt (hs : s.Valid)
    (hrests : ∀ lines, lines <+: cart.lines → IsSafe (restsC cart s lines)) {promo z : ℤ}
    (hpromo : promosC cart s cart.lines = (promo : JsNumber)) (hge : 0 ≤ promo) (hlt : promo < 2 ^ 31)
    (hsum : 0 < ((cart.lines.filter (¬ TakesScPwd cart s ·)).map (·.wholeRestC)).sum →
      promo + ((cart.lines.filter (¬ TakesScPwd cart s ·)).map (·.wholeRestC)).sum < 2 ^ 31)
    (hz : promosC cart s cart.lines + discountAmountC cart.orderDiscount (restsC cart s cart.lines)
      = (z : JsNumber)) : z < 2 ^ 31 := by
  rw [hpromo, restsC_int h hwhole hs hrests] at hz
  generalize ((cart.lines.filter (¬ TakesScPwd cart s ·)).map (·.wholeRestC)).sum = rests at *
  obtain ⟨orderC, horder⟩ : ∃ orderC, discountAmountC cart.orderDiscount (rests : JsNumber) = .fin orderC :=
    ⟨_, (fin_of_add hz).2⟩
  have hbounds := discountAmountC_bounds horder
  rw [horder, double_add] at hz
  have hround : nearest (promo + orderC) ≤ (2 ^ 31 - 1 : ℤ) := by
    apply nearest_le (representable_intCast (by norm_num))
    rcases le_or_gt rests 0 with hneg | hpos
    . rw [hbounds.1 (by exact_mod_cast hneg), add_zero]
      exact_mod_cast (by omega : promo ≤ 2 ^ 31 - 1)
    . have hle := hbounds.2 (by exact_mod_cast hpos)
      have hsumLt := hsum hpos
      have hsumLe : ((promo + rests : ℤ) : ℚ) ≤ (2 ^ 31 - 1 : ℤ) := by
        exact_mod_cast (by omega : promo + rests ≤ 2 ^ 31 - 1)
      push_cast at hsumLe ⊢
      linarith
  rw [← eq_nearest hz, Int.cast_le] at hround
  omega

omit hwhole in
theorem discount_ge (hs : s.Valid)
    (hamounts : ∀ lines, lines <+: cart.lines → SafeInteger (lines.map (·.amountC)).sum)
    (hscPwds : scPwdsC cart s cart.lines < 2 ^ 31) (hscPwdsNonneg : 0 ≤ scPwdsC cart s cart.lines)
    (hsubtotal : scPwdsC cart s cart.lines ≤ (cart.lines.map (·.amountC)).sum) {z : ℤ}
    (hz : promosC cart s cart.lines + discountAmountC cart.orderDiscount (restsC cart s cart.lines)
      = (z : JsNumber)) : -2 ^ 31 ≤ z := by
  by_contra hlt
  obtain ⟨⟨left, hleft, _, hleftLe⟩, _⟩ := left_of_total hs h.nonneg h.le h.total
  have hcap := h.le
  unfold MAX_CENTAVOS at hcap
  have hparts : (computeTotals cart s).discountedSubtotalC = (computeTotals cart s).subtotalC
      - (computeTotals cart s).promoDiscountC - (computeTotals cart s).scPwdDiscountC := rfl
  have hsubtotalC : (computeTotals cart s).subtotalC = _ :=
    h.subtotals_eq hamounts (List.prefix_refl _)
  rw [hparts, hsubtotalC, h.promoDiscountC_eq hs, hz, (h.scPwdDiscountC_sum hs hscPwds).1] at hleft
  obtain ⟨after, hafter⟩ : ∃ after, (((cart.lines.map (·.amountC)).sum : ℤ) : JsNumber) - (z : JsNumber)
      = .fin after := ⟨_, (fin_of_sub hleft).1⟩
  rw [hafter, double_sub] at hleft
  rw [double_sub] at hafter
  have hgap : ((2 ^ 31 + scPwdsC cart s cart.lines : ℤ) : ℚ)
      ≤ ((cart.lines.map (·.amountC)).sum : ℤ) - z := by
    exact_mod_cast (by omega : 2 ^ 31 + scPwdsC cart s cart.lines ≤ (cart.lines.map (·.amountC)).sum - z)
  have hafterGe := le_nearest (representable_intCast (by rw [abs_le]; omega)) hgap
  rw [← eq_nearest hafter] at hafterGe
  have hleftGe : ((2 ^ 31 : ℤ) : ℚ) ≤ left := by
    rw [eq_nearest hleft]
    apply le_nearest (representable_intCast (by norm_num))
    push_cast at hafterGe ⊢
    linarith
  have hcontra : ((2 ^ 31 : ℤ) : ℚ) ≤ amountC := hleftGe.trans hleftLe
  have : (2 ^ 31 : ℤ) ≤ amountC := by
    exact_mod_cast hcontra
  omega

theorem promosInRange_of_whole (hs : s.Valid)
    (hamounts : ∀ lines, lines <+: cart.lines → SafeInteger (lines.map (·.amountC)).sum)
    (hrests : ∀ lines, lines <+: cart.lines → IsSafe (restsC cart s lines))
    (hsubtotal : (cart.lines.map (·.amountC)).sum < 2 ^ 31)
    (hshares : sharesC cart s cart.lines < 2 ^ 31) : PromosInRange cart s := by
  have hle := wholeSums_bounds h hwhole hs hamounts hrests hsubtotal hshares
  have hsum := sum_amountC cart s cart.lines
  rw [othersC_whole] at hsum
  obtain ⟨_, hsharesNonneg⟩ := h.vatExemptSalesC_eq hs hshares
  have hscPwdsNonneg : 0 ≤ scPwdsC cart s cart.lines := List.sum_nonneg (scPwds_nonneg cart hs h.exact)
  have hpromosNonneg := wholePromos_nonneg hwhole
  have hpromoNonneg : 0 ≤ ((cart.lines.filter (TakesPromo cart s)).map (·.wholePromoC)).sum :=
    List.sum_nonneg hpromosNonneg
  have hpromosEq : ∀ lines, lines <+: cart.lines → ∃ z : ℤ, promosC cart s lines = (z : JsNumber)
      ∧ 0 ≤ z ∧ z ≤ ((cart.lines.filter (TakesPromo cart s)).map (·.wholePromoC)).sum := by
    intro lines hinit
    rw [promosC_whole hwhole hinit]
    exact ⟨_, sum_int_of_prefix hpromosNonneg (by omega) (map_filter_initial hinit)⟩
  constructor
  . intro lines hinit
    obtain ⟨z, hz, hge, hzLe⟩ := hpromosEq lines hinit
    rw [hz, isSafe_int, safeInteger_iff, abs_lt]
    omega
  . obtain ⟨promo, hpromo, hpromoGe, hpromoLe⟩ := hpromosEq cart.lines (List.prefix_refl _)
    intro z hz
    have hbounds : -2 ^ 31 ≤ z ∧ z < 2 ^ 31 :=
      ⟨discount_ge h hs hamounts (by omega) hscPwdsNonneg (by omega) hz,
        discount_lt h hwhole hs hrests hpromo hpromoGe (by omega) (by omega) hz⟩
    rw [hz]
    exact fitsColumn_int.mpr hbounds z rfl
  . omega
  . omega
  . intro line hline htakes
    have hamount := abs_le.mp (h.exact line hline).le
    rw [restC_whole h hwhole line hline htakes]
    unfold CartLine.wholeRestC
    split
    . next hpos =>
      have htakesPromo : TakesPromo cart s line := ⟨htakes, hpos⟩
      obtain ⟨_, hgt, hlineLe⟩ := wholePromoC_bounds hwhole line hline htakesPromo
      have hpromoLe : line.wholePromoC
          ≤ ((cart.lines.filter (TakesPromo cart s)).map (·.wholePromoC)).sum :=
        List.single_le_sum hpromosNonneg _ (List.mem_map.mpr
          ⟨line, List.mem_filter.mpr ⟨hline, decide_eq_true htakesPromo⟩, rfl⟩)
      rw [int_sub (by rw [abs_le]; omega), fitsColumn_int]
      omega
    . rw [int_sub (by rw [abs_le]; omega), fitsColumn_int]
      omega

end Whole

end Sums

end SentryPos
