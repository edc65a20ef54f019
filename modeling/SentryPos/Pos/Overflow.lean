import SentryPos.Pos.SafeSums

/-!
This module contains the integers that are worked out for a draft and the ones that a sale is stored
with, and when all of them stay in their range.
-/

namespace SentryPos

open ReadCommitted Binary64
open JsNumber hiding min

/-- The totals and the payment of a draft are the ones the server works out. -/
structure SaleDraftDto.Admissible (dto : SaleDraftDto) (s : Rates) : Prop where
  totals : canonical (computeTotals dto.cart s).toJson = canonical dto.totals
  payment : assertPayment dto.payment (computeTotals dto.cart s).totalC = .ok ()

section Draft

variable (dto : SaleDraftDto) (s : Rates)

inductive Formed : JsNumber → Prop where
  | totals {x} (h : FormedIn dto.cart s x) : Formed x
  | change (h : dto.payment.method = .cash)
    : Formed ((dto.payment.tenderedC : JsNumber) - (computeTotals dto.cart s).totalC)
  | receiptSeq : Formed ((seqOf dto.receiptNo : ℤ) : JsNumber)

/-- The numbers that a sale is stored with in columns of type Int. -/
inductive Written : JsNumber → Prop where
  | subtotal : Written (computeTotals dto.cart s).subtotalC
  | discount : Written (computeTotals dto.cart s).promoDiscountC
  | serviceCharge : Written (computeTotals dto.cart s).serviceChargeC
  | scPwdDiscount : Written (computeTotals dto.cart s).scPwdDiscountC
  | vatExemptSales : Written (computeTotals dto.cart s).vatExemptSalesC
  | tax : Written (computeTotals dto.cart s).vatC
  | total : Written (computeTotals dto.cart s).totalC
  | itemDiscount {lt} (h : lt ∈ (computeTotals dto.cart s).lines) : Written (lt.grossC - lt.netC)
  | unitPrice {line} (h : line ∈ dto.lines) : Written (line.unitPriceC : ℤ)
  | amount : Written (dto.payment.amountC : ℤ)
  | tendered : Written (dto.payment.tenderedC : ℤ)
  | change : Written (dto.payment.changeC : ℤ)
  | receiptSeq : Written ((seqOf dto.receiptNo + 1 : ℤ) : JsNumber)

structure NoOverflow : Prop where
  formed : ∀ x, Formed dto s x → IsSafe x
  written : ∀ x, Written dto s x → FitsColumn x

/--
The draft is in range by its receipt number, its lines and its order discount. The sums with promos
only have to be looked at where a promo is no integer.
-/
structure InRange : Prop where
  receiptNo : seqOf dto.receiptNo + 1 < 2 ^ 31
  lines : ∀ line ∈ dto.cart.lines, line.InRange
  order : JsNumber.blt 0 (restsC dto.cart s dto.cart.lines) = true →
    ∀ d, dto.orderDiscount = some d → d.SafeOn (restsC dto.cart s dto.cart.lines)
  amounts : ∀ lines, lines <+: dto.cart.lines → SafeInteger (lines.map (·.amountC)).sum
  rests : ∀ lines, lines <+: dto.cart.lines → IsSafe (restsC dto.cart s lines)
  subtotal : (dto.cart.lines.map (·.amountC)).sum < 2 ^ 31
  shares : sharesC dto.cart s dto.cart.lines < 2 ^ 31
  fractions : (∃ line ∈ dto.cart.lines, TakesPromo dto.cart s line ∧ ¬ line.promoC.IsInt) →
    PromosInRange dto.cart s

end Draft

section Draft

variable {dto : SaleDraftDto} {s : Rates}

theorem written_fits (hs : s.Valid) (h : Payable dto.cart s dto.payment.amountC)
    (hamounts : ∀ lines, lines <+: dto.cart.lines → SafeInteger (lines.map (·.amountC)).sum)
    (hsubtotal : (dto.cart.lines.map (·.amountC)).sum < 2 ^ 31)
    (hshares : sharesC dto.cart s dto.cart.lines < 2 ^ 31) (hpromos : PromosInRange dto.cart s)
    (hreceipt : seqOf dto.receiptNo + 1 < 2 ^ 31) : ∀ x, Written dto s x → FitsColumn x := by
  have hcap := h.le
  have hnonneg := h.nonneg
  unfold MAX_CENTAVOS at hcap
  obtain ⟨_, charge, hcharge, hchargeGe, hchargeLe⟩ := left_of_total hs h.nonneg h.le h.total
  obtain ⟨hexempt, hexemptNonneg⟩ := h.vatExemptSalesC_eq hs hshares
  obtain ⟨hscPwd, hscPwdNonneg⟩ := h.scPwdDiscountC_sum hs hpromos.scPwds
  obtain ⟨_, tax, htax, htaxGe, htaxLt⟩ := h.taxed_eq hs hshares
  have hscPwds := hpromos.scPwds
  intro x hx
  cases hx with
  | subtotal =>
    have hsubtotalC : (computeTotals dto.cart s).subtotalC = _ :=
      h.subtotals_eq hamounts (List.prefix_refl _)
    rw [hsubtotalC, fitsColumn_int]
    exact ⟨hpromos.subtotal, hsubtotal⟩
  | discount =>
    rw [h.promoDiscountC_eq hs]
    exact hpromos.discount
  | serviceCharge =>
    rw [hcharge, fitsColumn_int]
    omega
  | scPwdDiscount =>
    rw [hscPwd, fitsColumn_int]
    omega
  | vatExemptSales =>
    rw [hexempt, fitsColumn_int]
    omega
  | tax =>
    rw [htax, fitsColumn_int]
    omega
  | total =>
    rw [h.total, fitsColumn_int]
    omega
  | itemDiscount hlt =>
    have hlines : (computeTotals dto.cart s).lines = dto.cart.lines.map (lineTotals dto.cart s) := rfl
    rw [hlines] at hlt
    obtain ⟨line, hline, rfl⟩ := List.mem_map.mp hlt
    rw [itemDiscount_eq h hs hline]
    split
    . next htakes =>
      have hbounds := takesScPwd_bounds hs (h.exact line hline) htakes
      have hle : line.amountC - line.shareC s ≤ scPwdsC dto.cart s dto.cart.lines :=
        List.single_le_sum (scPwds_nonneg dto.cart hs h.exact) _ (List.mem_map.mpr
          ⟨line, List.mem_filter.mpr ⟨hline, decide_eq_true htakes⟩, rfl⟩)
      rw [fitsColumn_int]
      omega
    . next htakes => exact hpromos.items line hline htakes
  | unitPrice hline =>
    rename_i line
    have hnonneg := line.unitPriceC_nonneg
    have hle := line.unitPriceC_le
    rw [fitsColumn_int]
    unfold MAX_CENTAVOS at hle
    omega
  | amount =>
    rw [fitsColumn_int]
    omega
  | tendered =>
    have hnonneg := dto.payment.tenderedC_nonneg
    have hle := dto.payment.tenderedC_le
    rw [fitsColumn_int]
    unfold MAX_CENTAVOS at hle
    omega
  | change =>
    have hnonneg := dto.payment.changeC_nonneg
    have hle := dto.payment.changeC_le
    rw [fitsColumn_int]
    unfold MAX_CENTAVOS at hle
    omega
  | receiptSeq =>
    have hnonneg : 0 ≤ seqOf dto.receiptNo := Int.natCast_nonneg _
    rw [fitsColumn_int]
    omega

theorem SaleDraftDto.cart_qty (dto : SaleDraftDto) (line : CartLine) (hline : line ∈ dto.cart.lines)
    : 0 < line.qty.milli ∧ line.qty.milli ≤ MAX_QTY := by
  obtain ⟨l, _, rfl⟩ := List.mem_map.mp hline
  exact ⟨l.qty_pos, l.qty_le⟩

section Admissible

variable (hs : s.Valid) (h : dto.Admissible s)

include hs h

theorem SaleDraftDto.Admissible.finite
    : (∃ q, (computeTotals dto.cart s).subtotalC = .fin q)
        ∧ ∃ q, (computeTotals dto.cart s).promoDiscountC = .fin q := by
  obtain ⟨⟨left, hleft, _⟩, _⟩ := left_of_total hs dto.payment.amountC_nonneg dto.payment.amountC_le
    (totalC_of_assertPayment h.payment)
  have hsum : (computeTotals dto.cart s).discountedSubtotalC = (computeTotals dto.cart s).subtotalC
      - (computeTotals dto.cart s).promoDiscountC - (computeTotals dto.cart s).scPwdDiscountC := rfl
  have hboth := fin_of_sub (fin_of_sub (hsum.symm.trans hleft)).1
  exact ⟨⟨_, hboth.1⟩, ⟨_, hboth.2⟩⟩

theorem SaleDraftDto.Admissible.payable (hexact : ∀ line ∈ dto.cart.lines, line.Exact)
    : Payable dto.cart s dto.payment.amountC := by
  obtain ⟨_, _, hdiscount⟩ := h.finite hs
  exact ⟨dto.payment.amountC_nonneg, dto.payment.amountC_le, totalC_of_assertPayment h.payment, hexact,
    promos_applied hexact hdiscount⟩

theorem formedOn_iff_inRange {line : CartLine} (hline : line ∈ dto.cart.lines)
    : (∀ x, FormedOn dto.cart s line x → IsSafe x) ↔ line.InRange := by
  have hqty := dto.cart_qty line hline
  obtain ⟨⟨_, hsubtotal⟩, _, hdiscount⟩ := h.finite hs
  apply formedOn_iff hs hqty.1 hqty.2 (dto.unitPriceC_le line hline)
    (gross_of_subtotal hsubtotal line hline)
  intro hexact happlied
  have hvalue := promos_finite hdiscount line hline happlied
  rwa [promoDiscountC_promoC hexact] at hvalue

end Admissible

theorem NoOverflow.inRange (hs : s.Valid) (h : dto.Admissible s) (hno : NoOverflow dto s)
    : InRange dto s := by
  have hformed : ∀ x, FormedIn dto.cart s x → IsSafe x := fun x hx => hno.formed x (.totals hx)
  have hlines : ∀ line ∈ dto.cart.lines, line.InRange := fun line hline =>
    (formedOn_iff_inRange hs h hline).mp fun x hx => hformed x (.line hline hx)
  have hpayable := h.payable hs fun line hline => (hlines line hline).exact (dto.unitPriceC_le line hline)
  have hamounts : ∀ lines, lines <+: dto.cart.lines → SafeInteger (lines.map (·.amountC)).sum := by
    have hlt : ∀ zs, zs <+: dto.cart.lines.map (·.amountC) → |zs.sum| < 2 ^ 53 := by
      apply sum_lt_of_isSafe
      . intro z hz
        obtain ⟨line, hline, rfl⟩ := List.mem_map.mp hz
        exact (hpayable.exact line hline).le
      . intro zs hzs
        obtain ⟨lines, hinit, rfl⟩ := List.prefix_map_iff.mp hzs
        rw [← hpayable.subtotals hinit]
        exact hformed _ (.subtotal hinit)
    intro lines hinit
    exact safeInteger_iff.mpr (hlt _ (hinit.map _))
  have hrests : ∀ lines, lines <+: dto.cart.lines → IsSafe (restsC dto.cart s lines) := by
    intro lines hinit
    rw [← hpayable.orderBases hs hinit]
    exact hformed _ (.orderBase hinit)
  have hsubtotal : -2 ^ 31 ≤ (dto.cart.lines.map (·.amountC)).sum
      ∧ (dto.cart.lines.map (·.amountC)).sum < 2 ^ 31 := by
    have hfits := hno.written _ .subtotal
    rwa [show (computeTotals dto.cart s).subtotalC = _ from
      hpayable.subtotals_eq hamounts (List.prefix_refl _), fitsColumn_int] at hfits
  have hsmall : ∀ line ∈ dto.cart.lines, TakesScPwd dto.cart s line →
      |line.shareC s| ≤ 2 ^ 45 ∧ |line.amountC - line.shareC s| ≤ 2 ^ 45 := by
    intro line hline htakes
    have hamount := abs_le.mp (hpayable.exact line hline).le
    have hbounds := takesScPwd_bounds hs (hpayable.exact line hline) htakes
    rw [abs_le, abs_le]
    omega
  have hshares : sharesC dto.cart s dto.cart.lines < 2 ^ 31 := by
    have hlt : ∀ zs, zs <+: (dto.cart.lines.filter (TakesScPwd dto.cart s)).map (·.shareC s) →
        |zs.sum| < 2 ^ 53 := by
      apply sum_lt_of_isSafe
      . intro z hz
        obtain ⟨line, hline, rfl⟩ := List.mem_map.mp hz
        obtain ⟨hmem, htakes⟩ := List.mem_filter.mp hline
        exact (hsmall line hmem (of_decide_eq_true htakes)).1
      . intro zs hzs
        obtain ⟨lines, hinit, rfl⟩ := prefix_map_filter hzs
        rw [← hpayable.vatExempts hs hinit]
        exact hformed _ (.vatExemptSales hinit)
    have hfits := hno.written _ .vatExemptSales
    rw [show (computeTotals dto.cart s).vatExemptSalesC = _ from
      hpayable.vatExempts hs (List.prefix_refl _), sum_int fun zs hzs => (hlt zs hzs).le,
      fitsColumn_int] at hfits
    exact hfits.2
  have hscPwds : scPwdsC dto.cart s dto.cart.lines < 2 ^ 31 := by
    have hlt : ∀ zs, zs <+: (dto.cart.lines.filter (TakesScPwd dto.cart s)).map
        (fun line => line.amountC - line.shareC s) → |zs.sum| < 2 ^ 53 := by
      apply sum_lt_of_isSafe
      . intro z hz
        obtain ⟨line, hline, rfl⟩ := List.mem_map.mp hz
        obtain ⟨hmem, htakes⟩ := List.mem_filter.mp hline
        exact (hsmall line hmem (of_decide_eq_true htakes)).2
      . intro zs hzs
        obtain ⟨lines, hinit, rfl⟩ := prefix_map_filter hzs
        rw [← hpayable.scPwdDiscounts hs hinit]
        exact hformed _ (.scPwdDiscount hinit)
    have hfits := hno.written _ .scPwdDiscount
    rw [show (computeTotals dto.cart s).scPwdDiscountC = _ from
      hpayable.scPwdDiscounts hs (List.prefix_refl _), sum_int fun zs hzs => (hlt zs hzs).le,
      fitsColumn_int] at hfits
    exact hfits.2
  refine ⟨(fitsColumn_int.mp (hno.written _ .receiptSeq)).2, hlines, ?_, hamounts, hrests,
    hsubtotal.2, hshares, fun _ => ⟨?_, ?_, hsubtotal.1, hscPwds, ?_⟩⟩
  . obtain ⟨rests, hrestsEq, hlt⟩ := restsC_lt hpayable.exact (hpayable.positive hs) hrests
    have hbase : orderBaseC dto.cart s = restsC dto.cart s dto.cart.lines :=
      hpayable.orderBases hs (List.prefix_refl _)
    rw [hrestsEq] at hbase ⊢
    rw [zero_eq, blt_fin, decide_eq_true_eq]
    apply (formedFrom_iff (abs_lt.mp hlt).2).mp
    intro x hx
    rw [← hbase] at hx
    exact hformed x (.orderDiscount hx)
  . intro lines hinit
    rw [← hpayable.linePromos hs hinit]
    exact hformed _ (.linePromo hinit)
  . have hfits := hno.written _ .discount
    rwa [hpayable.promoDiscountC_eq hs] at hfits
  . intro line hline htakes
    have hfits := hno.written _ (.itemDiscount (List.mem_map_of_mem hline))
    rwa [itemDiscount_eq hpayable hs hline, if_neg htakes] at hfits

/-- No integer leaves its range if and only if the draft is in range. -/
theorem noOverflow_iff (hs : s.Valid) (h : dto.Admissible s)
    : NoOverflow dto s ↔ InRange dto s := by
  refine ⟨fun hno => hno.inRange hs h, ?_⟩
  intro hrange
  have hpayable := h.payable hs fun line hline =>
    (hrange.lines line hline).exact (dto.unitPriceC_le line hline)
  have hpromos : PromosInRange dto.cart s := by
    by_cases hfractions : ∃ line ∈ dto.cart.lines, TakesPromo dto.cart s line ∧ ¬ line.promoC.IsInt
    . exact hrange.fractions hfractions
    . apply promosInRange_of_whole hpayable _ hs hrange.amounts hrange.rests hrange.subtotal
        hrange.shares
      intro line hline htakes
      by_contra hfraction
      exact hfractions ⟨line, hline, htakes, hfraction⟩
  constructor
  . intro x hx
    cases hx with
    | totals hx =>
      exact hpayable.formedIn_isSafe hs
        (fun line hline => (formedOn_iff_inRange hs h hline).mpr (hrange.lines line hline))
        hrange.order hrange.amounts hrange.rests hrange.subtotal hrange.shares hpromos x hx
    | change =>
      have hamount := dto.payment.amountC_nonneg
      have hamountLe := dto.payment.amountC_le
      have htendered := dto.payment.tenderedC_nonneg
      have htenderedLe := dto.payment.tenderedC_le
      unfold MAX_CENTAVOS at *
      rw [hpayable.total, int_sub (by rw [abs_le]; omega), isSafe_int, safeInteger_iff, abs_lt]
      omega
    | receiptSeq =>
      have hnonneg : 0 ≤ seqOf dto.receiptNo := Int.natCast_nonneg _
      have hreceipt := hrange.receiptNo
      rw [isSafe_int, safeInteger_iff, abs_lt]
      omega
  . exact written_fits hs hpayable hrange.amounts hrange.subtotal hrange.shares hpromos hrange.receiptNo

end Draft

namespace Cafe

def bulkLine : CartLineDto :=
  { line with
    qty := ⟨1000000000⟩
    unitPriceC := 100000000
    trackStock := false
    qty_pos := by decide
    qty_le := by decide
    unitPriceC_nonneg := by decide
    unitPriceC_le := by decide
    priceDeltaC_ge := line.priceDeltaC_ge
    priceDeltaC_le := line.priceDeltaC_le }

def giveaway : DiscountSpec where
  source := some "free"
  discountId := none
  kind := some "fixed"
  value := .fin 100000000000000

def bulk : SaleDraftDto :=
  { sale with
    lines := [bulkLine]
    orderDiscount := some giveaway
    totals := (computeTotals
      { cart 7 with lines := [bulkLine.toCartLine], orderDiscount := some giveaway }
      business.rates).toJson
    payment := { payment 1007 with
      amountC := 0
      tenderedC := 0
      amountC_nonneg := zeroC_nonneg
      amountC_le := zeroC_le
      tenderedC_nonneg := zeroC_nonneg
      tenderedC_le := zeroC_le
      changeC_nonneg := zeroC_nonneg
      changeC_le := zeroC_le }
    receiptNo_length := sale.receiptNo_length
    lines_ne := by simp }

theorem bulk_admissible : bulk.Admissible business.rates where
  totals := rfl
  payment := by
    decide +kernel

theorem sale_admissible : sale.Admissible business.rates where
  totals := rfl
  payment := by
    decide +kernel

end Cafe

theorem noOverflow_sale : NoOverflow Cafe.sale Cafe.business.rates := by
  apply (noOverflow_iff Cafe.rates_valid Cafe.sale_admissible).mpr
  have hinites : ∀ lines, lines <+: Cafe.sale.cart.lines →
      lines = [] ∨ lines = [Cafe.line.toCartLine] := by
    intro lines hinit
    cases List.prefix_cons_iff.mp hinit with
    | inl hnil => exact .inl hnil
    | inr hcons =>
      obtain ⟨rest, rfl, hrest⟩ := hcons
      rw [List.prefix_nil.mp hrest]
      exact .inr rfl
  constructor
  . decide +kernel
  . intro line hline
    rw [List.mem_singleton.mp hline]
    constructor
    . intro mods hmods
      rw [List.prefix_nil.mp hmods]
      decide +kernel
    . decide +kernel
    . intro _ d hd
      cases hd
  . intro _ d hd
    cases hd
  . intro lines hinit
    cases hinites lines hinit with
    | inl hnil =>
      rw [hnil]
      decide +kernel
    | inr hline =>
      rw [hline]
      decide +kernel
  . intro lines hinit
    apply isSafe_of_within _ (by norm_num : (-2 ^ 53 : ℤ) < 0) (by norm_num : (200 : ℤ) < 2 ^ 53)
    cases hinites lines hinit with
    | inl hnil =>
      rw [hnil]
      exact ⟨0, by decide +kernel, by decide, by decide⟩
    | inr hline =>
      rw [hline]
      exact ⟨200, by decide +kernel, by decide, by decide⟩
  . decide +kernel
  . decide +kernel
  . rintro ⟨line, hline, htakes, _⟩
    rw [List.mem_singleton.mp hline] at htakes
    exact absurd htakes (by decide +kernel)

/-- A subtotal has no bound: here it is given away, and no column takes it. -/
theorem bulk_overflows
    : ¬ ∀ (dto : SaleDraftDto) (s : Rates), s.Valid → dto.Admissible s → NoOverflow dto s := by
  intro hall
  have hno := hall Cafe.bulk Cafe.business.rates Cafe.rates_valid Cafe.bulk_admissible
  have hfits := hno.written _ .subtotal
  have hvalue : (computeTotals Cafe.bulk.cart Cafe.business.rates).subtotalC
      = ((100000000000000 : ℤ) : JsNumber) := by
    decide +kernel
  rw [hvalue, fitsColumn_int] at hfits
  omega

end SentryPos
