import SentryPos.Analytics.Today
import SentryPos.Pos.SafeIntegers

/-!
This module contains that the reports on the profit and on the leaks share the revenue out between the
products and the open lines, and that no report makes up a profit, for sales whose lines are worked
out in safe integers.
-/

namespace SentryPos

open Binary64
open JsNumber hiding min

/-- The price, the product and the sums that the engine works out for the lines are safe integers. -/
structure SaleDraftDto.SafeLines (dto : SaleDraftDto) : Prop where
  units : ∀ line ∈ dto.lines, ∀ mods, mods <+: line.modifiers → SafeInteger (line.priceC mods)
  products : ∀ line ∈ dto.lines, SafeInteger (line.qty.milli * line.priceC line.modifiers)
  sums : ∀ lines, lines <+: dto.lines → SafeInteger (lines.map (·.grossC)).sum

namespace SaleDraftDto.SafeLines

variable {dto : SaleDraftDto} (h : dto.SafeLines)

include h

theorem unit_line {line : CartLineDto} (hline : line ∈ dto.lines)
    : lineUnitWithModsC line.toCartLine = (line.priceC line.modifiers : JsNumber) := by
  have hge := line.unitPriceC_nonneg
  have hle := line.unitPriceC_le
  unfold MAX_CENTAVOS at hle
  refine unit_eq ?_ (h.units line hline) (List.prefix_refl _)
  rw [abs_le]
  omega

theorem exact_line {line : CartLineDto} (hline : line ∈ dto.lines) : line.toCartLine.Exact :=
  exact_of_product (h.unit_line hline) (safeInteger_iff.mp (h.products line hline)).le

theorem amountC_line {line : CartLineDto} (hline : line ∈ dto.lines)
    : line.toCartLine.amountC = line.grossC := by
  unfold CartLine.amountC
  rw [h.unit_line hline]
  rfl

theorem addsUp : dto.AddsUp := by
  intro rates
  have hlines : ∀ line ∈ dto.cart.lines, line.Exact := by
    intro line hline
    obtain ⟨l, hl, heq⟩ := List.mem_map.mp hline
    rw [← heq]
    exact h.exact_line hl
  have hsubtotal : (computeTotals dto.cart rates).subtotalC
      = (dto.cart.lines.map (lineTotals dto.cart rates)).foldl (fun sum l => sum + l.grossC) 0 := rfl
  have hamounts : dto.cart.lines.map (·.amountC) = dto.lines.map (·.grossC) := by
    change (dto.lines.map (·.toCartLine)).map (·.amountC) = _
    rw [List.map_map]
    exact List.map_congr_left fun line hline => h.amountC_line hline
  rw [hsubtotal, foldl_grossC hlines, hamounts]
  apply sum_int
  intro zs hinit
  obtain ⟨lines, hlines, rfl⟩ := List.prefix_map_iff.mp hinit
  exact (safeInteger_iff.mp (h.sums lines hlines)).le

end SaleDraftDto.SafeLines

namespace Cafe

theorem sale_safeLines : sale.SafeLines where
  units := by
    intro line hline mods hmods
    rw [List.mem_singleton.mp hline] at hmods ⊢
    rw [List.prefix_nil.mp hmods]
    decide +kernel
  products := by
    intro line hline
    rw [List.mem_singleton.mp hline]
    decide +kernel
  sums := by
    intro lines hlines
    cases List.prefix_cons_iff.mp hlines with
    | inl hnil =>
      rw [hnil]
      decide +kernel
    | inr hcons =>
      obtain ⟨rest, heq, hrest⟩ := hcons
      rw [heq, List.prefix_nil.mp hrest]
      decide +kernel

def wholesaleLine : CartLineDto :=
  { line with
    productId := none
    name := "Wholesale"
    qty := ⟨90072501⟩
    unitPriceC := 99999999
    trackStock := false
    qty_pos := by decide
    qty_le := by decide
    unitPriceC_nonneg := by decide
    unitPriceC_le := by decide
    priceDeltaC_ge := line.priceDeltaC_ge
    priceDeltaC_le := line.priceDeltaC_le }

def rebateLine : CartLineDto :=
  { line with
    id := 2
    productId := none
    name := "Rebate"
    qty := ⟨90072500⟩
    unitPriceC := 0
    modifiers := [⟨"1", "1", "Rebate", -100000000⟩]
    trackStock := false
    qty_pos := by decide
    qty_le := by decide
    unitPriceC_nonneg := zeroC_nonneg
    unitPriceC_le := zeroC_le
    priceDeltaC_ge := by simp [MAX_CENTAVOS]
    priceDeltaC_le := by simp [MAX_CENTAVOS] }

def wholesale : SaleDraftDto :=
  { sale with
    lines := [wholesaleLine, rebateLine]
    totals := (computeTotals
      { cart 7 with lines := [wholesaleLine.toCartLine, rebateLine.toCartLine] } business.rates).toJson
    payment := { payment 1007 with
      amountC := 9928
      tenderedC := 9928
      amountC_nonneg := by decide
      amountC_le := by decide
      tenderedC_nonneg := by decide
      tenderedC_le := by decide
      changeC_nonneg := zeroC_nonneg
      changeC_le := zeroC_le }
    receiptNo_length := sale.receiptNo_length
    lines_ne := by simp }

def wholesaleSystem : System Unit :=
  System.start database fun _ => .completeSale terminal wholesale 100

end Cafe

end SentryPos

namespace SentryPos.Analytics

open Calendar JsDate ReadCommitted

/-- No report makes up a profit: it is unknown exactly where no line of the group has a cost. -/
structure OverviewReport.Unfaked (o : OverviewReport) (db : Database) (scope : ResolvedScope)
    (granularity : Granularity) (profit : ProfitReport) (trend : List TrendBucket) : Prop where
  overview : o.grossProfitC.value = none
    ↔ ∀ line ∈ linesIn db scope.businesses, line.1.costSnapshot = none
  overTime : ∀ row ∈ profit.overTime, row.grossProfitC = none
    ↔ ∀ line ∈ bucketLines db scope.businesses granularity row.bucket, line.1.costSnapshot = none
  trend : ∀ row ∈ trend, row.grossProfitC = none
    ↔ ∀ line ∈ bucketLines db scope.businesses granularity row.bucket, line.1.costSnapshot = none
  products : ∀ row ∈ profit.byProduct, row.grossProfitC = none
    ↔ ∀ line ∈ groupOf db scope.businesses productKey (row.productId, row.variantId),
      line.1.costSnapshot = none
  categories : ∀ row ∈ profit.byCategory, row.grossProfitC = none
    ↔ ∀ line ∈ groupOf db scope.businesses (categoryKey db) row.categoryId,
      line.1.costSnapshot = none

def DashboardBusiness.Unfaked (row : DashboardBusiness) (lines : List Line) : Prop :=
  ∀ branch ∈ row.branches, branch.grossProfitC = none
    ↔ ∀ line ∈ lines, line.2.branchId = branch.branchId → line.1.costSnapshot = none

section Scope

variable {db : Database} (scope : ResolvedScope)

theorem unfaked_overviewOf (hdb : db.Valid) (hlinked : db.Linked) (granularity : Granularity)
    : (overviewOf db scope).Unfaked db scope granularity (profitOf db scope granularity)
        (trendOf db scope granularity) where
  overview := by
    rw [grossProfitC_overviewOf, Option.map_eq_none_iff]
    exact marginsOf_unknown _
  overTime := by
    intro row hrow
    rw [(overTime_margins scope granularity hrow).1]
    exact marginsOf_unknown _
  trend := by
    intro row hrow
    rw [trend_margins scope granularity hrow]
    exact marginsOf_unknown _
  products := (byProduct_margins scope granularity).unknown
  categories := (byCategory_margins scope hdb hlinked granularity).unknown

end Scope

section Dashboard

variable {db : DashboardDatabase} (hdb : db.Valid) {ownerId : Uuid} {now : ℤ}

include hdb in
theorem dashboardBusiness_unfaked {b : ScopedBusiness} {row : DashboardBusiness}
    (h : dashboardBusiness db.toDatabase now b = .ok row)
    : row.businessId = b.id ∧ row.Unfaked (b.lines db.toDatabase) := by
  unfold dashboardBusiness at h
  rw [Checks.bind_eq_ok] at h
  obtain ⟨_, _, h⟩ := h
  cases h
  refine ⟨rfl, ?_⟩
  intro branch hbranch
  obtain ⟨r, hr, heq⟩ := List.mem_map.mp hbranch
  obtain ⟨branch', _, hrow⟩ :=
    List.mem_map.mp ((dashboardBranchSql_perm db.toDatabase b _ _ hdb).mem_iff.mp hr)
  have hunknown := marginsOf_unknown (branchLines db.toDatabase b b.fromUtc b.toUtc branch')
  have hgross : (figuresOf [r]).grossProfitC
      = (marginsOf (costedOf (branchLines db.toDatabase b b.fromUtc b.toUtc branch'))).grossProfitC := by
    rw [costedOf_eq, ← hrow]
    unfold figuresOf branchRow marginsOf grossProfitC addInto emptyCosted
    simp
  rw [← heq]
  dsimp only
  rw [hgross, hunknown, ← hrow]
  unfold branchLines branchRow ScopedBusiness.lines
  simp [List.mem_filter]

theorem dashboard_rows (hnow : OnClock now) {report : DashboardReport}
    (h : dashboard db ownerId now = .ok report)
    : List.Forall₂ (fun (x : Business × List Uuid) row =>
          dashboardBusiness db.toDatabase now (todayWindows now x.1 x.2) = .ok row)
        (todayBusinesses db.toDatabase ownerId) report.businesses := by
  obtain ⟨scope, hscope, hbusinesses⟩ := resolveToday_eq hnow db.toDatabase ownerId
  unfold dashboard at h
  rw [hscope, Checks.bind_eq_ok] at h
  obtain ⟨_, heq, h⟩ := h
  cases heq
  rw [Checks.bind_eq_ok] at h
  obtain ⟨rows, hrows, h⟩ := h
  cases h
  rw [hbusinesses] at hrows
  exact List.forall₂_map_left_iff.mp (Checks.mapM_eq_ok hrows)

end Dashboard

namespace Cafe

theorem wholesale_figures
    : (SentryPos.Cafe.wholesaleSystem.turns (List.replicate 12 ())).map (fun c =>
          (c.db.products.map (·.id),
            (overview (sharing c.db).toDatabase 1 epochDay).map (·.netSalesC.value),
            (profit (sharing c.db).toDatabase 1 epochDay none).map fun report =>
              report.costedRevenueC + report.uncostedRevenueC,
            (leaks (sharing c.db).toLeaksDatabase 1 epochDay).map (·.orderLevelDiscountC)))
        = some ([50], .ok 9928, .ok 9927, .ok 0) := by
  decide +kernel

theorem race_shared
    : (SentryPos.Cafe.race.turns SentryPos.Cafe.schedule).map (fun c =>
          (c.db.products.map (·.id),
            (overview (sharing c.db).toDatabase 1 epochDay).map (·.netSalesC.value),
            (profit (sharing c.db).toDatabase 1 epochDay (some .day)).map
              (·.byProduct.map (·.grossProfitC))))
        = some ([50], .ok 200, .ok [some 120]) := by
  decide +kernel

theorem sharing_linked (pos : SentryPos.Database) : (sharing pos).Linked :=
  explaining_linked pos

end Cafe

end SentryPos.Analytics
