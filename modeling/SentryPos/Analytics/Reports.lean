import Mathlib.Data.Char
import Mathlib.Data.List.Lex
import SentryPos.Analytics.Sql

/-!
This module contains the money reports: the overview, the sales over time and by kind, the profit
and the tax. Each of them adds up what the queries find for the businesses of its scope.
-/

namespace SentryPos.Analytics

open Grouping

/-! The overview. -/

structure Totals where
  grossSalesC : ℤ
  discountsC : ℤ
  serviceChargeC : ℤ
  transactions : ℕ
  voidCount : ℕ
  refundCount : ℕ
  costedLines : ℕ
  costedRevenueC : ℤ
  costedCostC : ℤ
  uncostedRevenueC : ℤ
  deriving DecidableEq

/-- A figure with the one of the period before, and its relative change. -/
structure Kpi where
  value : ℤ
  previous : ℤ
  changePct : Option ℚ
  deriving DecidableEq

structure NullableKpi where
  value : Option JsNumber
  previous : Option JsNumber
  changePct : Option JsNumber

structure MarginKpi where
  value : Option ℚ
  previous : Option ℚ
  changePoints : Option ℚ
  deriving DecidableEq

def emptyTotals : Totals where
  grossSalesC := 0
  discountsC := 0
  serviceChargeC := 0
  transactions := 0
  voidCount := 0
  refundCount := 0
  costedLines := 0
  costedRevenueC := 0
  costedCostC := 0
  uncostedRevenueC := 0

def addRows (into : Totals) (sales : SalesAggregateRow) (lines : LineAggregateRow) : Totals where
  grossSalesC := into.grossSalesC + sales.grossSalesC
  discountsC := into.discountsC + sales.discountsC
  serviceChargeC := into.serviceChargeC + sales.serviceChargeC
  transactions := into.transactions + sales.transactions
  voidCount := into.voidCount + sales.voidCount
  refundCount := into.refundCount + sales.refundCount
  costedLines := into.costedLines + lines.costedLines
  costedRevenueC := into.costedRevenueC + lines.costedRevenueC
  costedCostC := into.costedCostC + lines.costedCostC
  uncostedRevenueC := into.uncostedRevenueC + lines.uncostedRevenueC

def netSalesC (t : Totals) : ℤ :=
  t.grossSalesC - t.discountsC

def grossProfitC (t : Totals) : Option ℤ :=
  if t.costedLines = 0 then none else some (t.costedRevenueC - t.costedCostC)

def marginPct (t : Totals) : Option ℚ :=
  match grossProfitC t with
  | none => none
  | some profit => if t.costedRevenueC = 0 then none else some (profit / t.costedRevenueC)

def averageBasketC (t : Totals) : Option JsNumber :=
  if t.transactions = 0 then none
  else some (halfUp (((netSalesC t : ℤ) : JsNumber) / ((t.transactions : ℤ) : JsNumber)))

def toKpi (value previous : ℤ) : Kpi where
  value := value
  previous := previous
  changePct := if previous = 0 then none else some ((value - previous) / previous)

def toNullableKpi (value previous : Option JsNumber) : NullableKpi where
  value := value
  previous := previous
  changePct :=
    match value, previous with
    | some value, some previous =>
      if previous.strictEq 0 then none else some ((value - previous) / previous)
    | _, _ => none

def toMarginKpi (value previous : Option ℚ) : MarginKpi where
  value := value
  previous := previous
  changePoints :=
    match value, previous with
    | some value, some previous => some (value - previous)
    | _, _ => none

structure OverviewReport where
  fromDate : List Char
  toDate : List Char
  grossSalesC : Kpi
  discountsC : Kpi
  netSalesC : Kpi
  serviceChargeC : Kpi
  transactions : Kpi
  voidCount : Kpi
  refundCount : Kpi
  averageBasketC : NullableKpi
  grossProfitC : NullableKpi
  marginPct : MarginKpi
  costedRevenueC : ℤ
  uncostedRevenueC : ℤ

def OverviewReport.build (fromDate toDate : List Char) (current previous : Totals)
    : OverviewReport where
  fromDate := fromDate
  toDate := toDate
  grossSalesC := toKpi current.grossSalesC previous.grossSalesC
  discountsC := toKpi current.discountsC previous.discountsC
  netSalesC := toKpi (Analytics.netSalesC current) (Analytics.netSalesC previous)
  serviceChargeC := toKpi current.serviceChargeC previous.serviceChargeC
  transactions := toKpi current.transactions previous.transactions
  voidCount := toKpi current.voidCount previous.voidCount
  refundCount := toKpi current.refundCount previous.refundCount
  averageBasketC := toNullableKpi (Analytics.averageBasketC current)
    (Analytics.averageBasketC previous)
  grossProfitC := toNullableKpi ((Analytics.grossProfitC current).map (↑))
    ((Analytics.grossProfitC previous).map (↑))
  marginPct := toMarginKpi (Analytics.marginPct current) (Analytics.marginPct previous)
  costedRevenueC := current.costedRevenueC
  uncostedRevenueC := current.uncostedRevenueC

/-- The totals of the windows that `window` picks. -/
def totalsOf (db : Database) (window : ScopedBusiness → ℤ × ℤ) (businesses : List ScopedBusiness)
    : Totals :=
  businesses.foldl (fun into b =>
    addRows into (salesAggregateSql db b (window b).1 (window b).2)
      (lineAggregateSql db b (window b).1 (window b).2)) emptyTotals

def ScopedBusiness.window (b : ScopedBusiness) : ℤ × ℤ := (b.fromUtc, b.toUtc)

def ScopedBusiness.previousWindow (b : ScopedBusiness) : ℤ × ℤ := (b.previousFromUtc, b.previousToUtc)

def overviewOf (db : Database) (scope : ResolvedScope) : OverviewReport :=
  .build scope.fromDate scope.toDate (totalsOf db ScopedBusiness.window scope.businesses)
    (totalsOf db ScopedBusiness.previousWindow scope.businesses)

def overview (db : Database) (ownerId : Uuid) (query : AnalyticsQueryDto)
    : Except ApiError OverviewReport := do
  let scope ← resolve db ownerId query
  return overviewOf db scope

/-! The sales. -/

def Tally.zero : Tally := { salesC := 0, transactions := 0 }

def Tally.add (a b : Tally) : Tally where
  salesC := a.salesC + b.salesC
  transactions := a.transactions + b.transactions

def addTallies {κ : Type} [DecidableEq κ] (m : Entries κ Tally) (rows : List (κ × Tally))
    : Entries κ Tally :=
  m.merge Prod.fst (fun acc row => (acc.getD .zero).add row.2) rows

/-- The days of a scope, whose range `resolve` has checked. -/
def ResolvedScope.days (scope : ResolvedScope) : List (List Char) :=
  match businessDaySeries scope.fromDate scope.toDate with
  | .ok days => days
  | .error _ => []

structure HeatmapDay extends Tally where
  date : List Char
  deriving DecidableEq

def keyed {β : Type} (rows : List (ℤ × β)) : List (List Char × β) :=
  rows.map fun row => (bucketKey row.1, row.2)

def heatmapOf (db : Database) (scope : ResolvedScope) : List HeatmapDay :=
  let sales := scope.businesses.foldl (fun m b => addTallies m (keyed (heatmapSql db b))) []
  scope.days.map fun date => { (sales.get? date).getD .zero with date }

def heatmap (db : Database) (ownerId : Uuid) (query : AnalyticsQueryDto)
    : Except ApiError (List HeatmapDay) := do
  let scope ← resolve db ownerId query
  return heatmapOf db scope

structure TrendBucket extends Tally where
  bucket : List Char
  grossProfitC : Option ℤ
  deriving DecidableEq

structure BucketProfit where
  costedLines : ℕ
  revenueC : ℤ
  costC : ℤ
  deriving DecidableEq

def BucketProfit.zero : BucketProfit := { costedLines := 0, revenueC := 0, costC := 0 }

def BucketProfit.add (acc : BucketProfit) (row : LineAggregateRow) : BucketProfit where
  costedLines := acc.costedLines + row.costedLines
  revenueC := acc.revenueC + row.costedRevenueC
  costC := acc.costC + row.costedCostC

def addProfits (m : Entries (List Char) BucketProfit) (rows : List (List Char × LineAggregateRow))
    : Entries (List Char) BucketProfit :=
  m.merge Prod.fst (fun acc row => (acc.getD .zero).add row.2) rows

def trendOf (db : Database) (scope : ResolvedScope) (granularity : Granularity)
    : List TrendBucket :=
  let sales := scope.businesses.foldl
    (fun m b => addTallies m (keyed (trendSalesSql granularity db b))) []
  let profit := scope.businesses.foldl
    (fun m b => addProfits m (keyed (trendLinesSql granularity db b))) []
  (sales.mergeSort fun a b => a.1 ≤ b.1).map fun (bucket, row) =>
    { row with
      bucket
      grossProfitC := (profit.get? bucket).bind fun p =>
        if 0 < p.costedLines then some (p.revenueC - p.costC) else none }

def trend (db : Database) (ownerId : Uuid) (query : AnalyticsQueryDto)
    (granularity : Option Granularity) : Except ApiError (List TrendBucket) := do
  let scope ← resolve db ownerId query
  return trendOf db scope (granularity.getD .day)

structure PatternsReport where
  hourOfDay : List Tally
  dayOfWeek : List Tally
  deriving DecidableEq

def addAt (slots : List Tally) (rows : List (ℕ × Tally)) : List Tally :=
  rows.foldl (fun slots row => slots.modify row.1 (·.add row.2)) slots

def patternsOf (db : Database) (scope : ResolvedScope) : PatternsReport where
  hourOfDay := scope.businesses.foldl (fun slots b => addAt slots (hourPatternSql db b))
    (List.replicate 24 .zero)
  dayOfWeek := scope.businesses.foldl (fun slots b => addAt slots (dowPatternSql db b))
    (List.replicate 7 .zero)

def patterns (db : Database) (ownerId : Uuid) (query : AnalyticsQueryDto)
    : Except ApiError PatternsReport := do
  let scope ← resolve db ownerId query
  return patternsOf db scope

structure BreakdownsReport where
  byPaymentMethod : Entries PaymentMethod Tally
  byOrderType : Entries OrderType Tally
  byBranch : List BranchSalesRow
  deriving DecidableEq

def breakdownsOf (db : Database) (scope : ResolvedScope) : BreakdownsReport where
  byPaymentMethod :=
    scope.businesses.foldl (fun m b => addTallies m (paymentBreakdownSql db b)) []
  byOrderType := scope.businesses.foldl (fun m b => addTallies m (orderTypeBreakdownSql db b)) []
  byBranch :=
    (scope.businesses.foldl (fun rows b => rows ++ branchBreakdownSql db b) []).mergeSort
      fun a b => b.salesC ≤ a.salesC

def breakdowns (db : Database) (ownerId : Uuid) (query : AnalyticsQueryDto)
    : Except ApiError BreakdownsReport := do
  let scope ← resolve db ownerId query
  return breakdownsOf db scope

/-! The profit. -/

structure MarginFigures where
  revenueC : ℤ
  costC : Option ℤ
  grossProfitC : Option ℤ
  marginPct : Option ℚ
  deriving DecidableEq

structure ProductMarginRow extends MarginFigures where
  productId : Uuid
  variantId : Option Uuid
  name : String
  deriving DecidableEq

structure CategoryMarginRow extends MarginFigures where
  categoryId : Uuid
  name : String
  deriving DecidableEq

structure ProfitBucket where
  bucket : List Char
  grossProfitC : Option ℤ
  marginPct : Option ℚ
  deriving DecidableEq

structure ProfitReport where
  fromDate : List Char
  toDate : List Char
  granularity : Granularity
  overTime : List ProfitBucket
  byProduct : List ProductMarginRow
  byCategory : List CategoryMarginRow
  costedRevenueC : ℤ
  uncostedRevenueC : ℤ
  deriving DecidableEq

structure Costed where
  revenueC : ℤ
  costedLines : ℕ
  costedRevenueC : ℤ
  costedCostC : ℤ
  deriving DecidableEq

def emptyCosted : Costed :=
  { revenueC := 0, costedLines := 0, costedRevenueC := 0, costedCostC := 0 }

def addInto (target : Costed) (revenueC : ℤ) (row : LineAggregateRow) : Costed where
  revenueC := target.revenueC + revenueC
  costedLines := target.costedLines + row.costedLines
  costedRevenueC := target.costedRevenueC + row.costedRevenueC
  costedCostC := target.costedCostC + row.costedCostC

def marginsOf (c : Costed) : MarginFigures :=
  let totals := { emptyTotals with
    costedLines := c.costedLines
    costedRevenueC := c.costedRevenueC
    costedCostC := c.costedCostC }
  {
    revenueC := c.revenueC
    costC := if c.costedLines = 0 then none else some c.costedCostC
    grossProfitC := grossProfitC totals
    marginPct := marginPct totals
  }

def addOverTime (m : Entries (List Char) Costed) (rows : List (List Char × LineAggregateRow))
    : Entries (List Char) Costed :=
  m.merge Prod.fst (fun current row => addInto (current.getD emptyCosted) 0 row.2) rows

/-- A product keeps the name of the first row that it came in with. -/
def addProducts (m : Entries (Uuid × Option Uuid) (Costed × String)) (rows : List ProductSalesRow)
    : Entries (Uuid × Option Uuid) (Costed × String) :=
  m.merge (fun row => (row.productId, row.variantId)) (fun current row =>
    let (costed, name) := current.getD (emptyCosted, row.name)
    (addInto costed row.revenueC row.toLineAggregateRow, name)) rows

def addCategories (m : Entries Uuid (Costed × String)) (rows : List CategorySalesRow)
    : Entries Uuid (Costed × String) :=
  m.merge (·.categoryId) (fun current row =>
    let (costed, name) := current.getD (emptyCosted, row.name)
    (addInto costed row.revenueC row.toLineAggregateRow, name)) rows

def addRevenue (totals : ℤ × ℤ) (row : LineAggregateRow) : ℤ × ℤ :=
  (totals.1 + row.costedRevenueC, totals.2 + row.uncostedRevenueC)

def profitOf (db : Database) (scope : ResolvedScope) (granularity : Granularity) : ProfitReport :=
  let overTime := scope.businesses.foldl
    (fun m b => addOverTime m (keyed (trendLinesSql granularity db b))) []
  let byProduct := scope.businesses.foldl (fun m b => addProducts m (productSalesSql db b)) []
  let byCategory := scope.businesses.foldl (fun m b => addCategories m (categorySalesSql db b)) []
  let totals := scope.businesses.foldl
    (fun totals b => addRevenue totals (lineAggregateSql db b b.fromUtc b.toUtc)) (0, 0)
  let keys := if granularity = .day then scope.days
    else (overTime.map Prod.fst).mergeSort fun a b => a ≤ b
  {
    fromDate := scope.fromDate
    toDate := scope.toDate
    granularity
    overTime := keys.map fun bucket =>
      let margins := marginsOf ((overTime.get? bucket).getD emptyCosted)
      { bucket, grossProfitC := margins.grossProfitC, marginPct := margins.marginPct }
    byProduct := (byProduct.map fun (key, costed, name) =>
      { marginsOf costed with productId := key.1, variantId := key.2, name
        : ProductMarginRow }).mergeSort fun a b => b.revenueC ≤ a.revenueC
    byCategory := (byCategory.map fun (categoryId, costed, name) =>
      { marginsOf costed with categoryId, name : CategoryMarginRow }).mergeSort fun a b =>
        b.revenueC ≤ a.revenueC
    costedRevenueC := totals.1
    uncostedRevenueC := totals.2
  }

def profit (db : Database) (ownerId : Uuid) (query : AnalyticsQueryDto)
    (granularity : Option Granularity) : Except ApiError ProfitReport := do
  let scope ← resolve db ownerId query
  return profitOf db scope (granularity.getD .day)

/-! The tax. -/

structure TaxBusinessRow extends TaxRow where
  businessId : Uuid
  name : String
  taxRate : ℚ
  deriving DecidableEq

structure TaxReport where
  fromDate : List Char
  toDate : List Char
  businesses : List TaxBusinessRow
  totals : TaxRow
  deriving DecidableEq

def TaxRow.zero : TaxRow where
  vatableSalesC := 0
  vatC := 0
  vatExemptSalesC := 0
  scPwdDiscountC := 0
  serviceChargeC := 0

def TaxRow.add (totals row : TaxRow) : TaxRow where
  vatableSalesC := totals.vatableSalesC + row.vatableSalesC
  vatC := totals.vatC + row.vatC
  vatExemptSalesC := totals.vatExemptSalesC + row.vatExemptSalesC
  scPwdDiscountC := totals.scPwdDiscountC + row.scPwdDiscountC
  serviceChargeC := totals.serviceChargeC + row.serviceChargeC

def taxRow (db : Database) (b : ScopedBusiness) : TaxBusinessRow :=
  { taxSummarySql db b with businessId := b.id, name := b.name, taxRate := b.taxRate }

def taxOf (db : Database) (scope : ResolvedScope) : TaxReport where
  fromDate := scope.fromDate
  toDate := scope.toDate
  businesses := scope.businesses.map (taxRow db)
  totals := scope.businesses.foldl (fun totals b => totals.add (taxSummarySql db b)) .zero

def tax (db : Database) (ownerId : Uuid) (query : AnalyticsQueryDto) : Except ApiError TaxReport := do
  let scope ← resolve db ownerId query
  return taxOf db scope

end SentryPos.Analytics
