import SentryPos.Analytics.Scope
import SentryPos.Grouping
import SentryPos.Pos.LineMoney

/-!
This module contains the queries of the money reports. Each of them reads the sales of the branches
of one business in a window.
-/

namespace SentryPos.Analytics

open Calendar JsDate Grouping

abbrev Line := SaleLine × Sale

/-- `LINE_COST_C`. -/
def costC (item : SaleItem) : Option ℤ :=
  item.costSnapshot.map fun cost => sqlRound (item.qty.val * (cost : ℤ))

/-- `NET_SALES`. -/
def netSales (s : Sale) : ℤ :=
  s.subtotal - s.discount - s.scPwdDiscount

def inWindow (branchIds : List Uuid) (fromUtc toUtc : ℤ) (s : Sale) : Bool :=
  branchIds.contains s.branchId && s.deletedAt.isNone && fromUtc ≤ s.createdAt && s.createdAt < toUtc

def salesInWindow (db : Database) (branchIds : List Uuid) (fromUtc toUtc : ℤ) : List Sale :=
  db.sales.filter (inWindow branchIds fromUtc toUtc)

def isStatus (status : SaleStatus) (s : Sale) : Bool :=
  s.status = status

/-- `completedInWindow`. -/
def completedSales (db : Database) (branchIds : List Uuid) (fromUtc toUtc : ℤ) : List Sale :=
  (salesInWindow db branchIds fromUtc toUtc).filter (isStatus .completed)

/-- `completedLinesInWindow`, with the sales that the lines join. -/
def completedLines (db : Database) (branchIds : List Uuid) (fromUtc toUtc : ℤ) : List Line :=
  (db.saleLines.filter (·.deletedAt.isNone)).flatMap fun si =>
    ((completedSales db branchIds fromUtc toUtc).filter (·.id = si.saleId)).map fun s => (si, s)

structure SalesAggregateRow where
  grossSalesC : ℤ
  discountsC : ℤ
  serviceChargeC : ℤ
  transactions : ℕ
  voidCount : ℕ
  refundCount : ℕ
  deriving DecidableEq

def salesAggregateSql (db : Database) (business : ScopedBusiness) (fromUtc toUtc : ℤ)
    : SalesAggregateRow :=
  let sales := salesInWindow db business.branchIds fromUtc toUtc
  let completed := sales.filter (isStatus .completed)
  {
    grossSalesC := (completed.map (·.subtotal)).sum
    discountsC := (completed.map fun s => s.discount + s.scPwdDiscount).sum
    serviceChargeC := (completed.map (·.serviceCharge)).sum
    transactions := completed.length
    voidCount := (sales.filter (isStatus .voided)).length
    refundCount := (sales.filter (isStatus .refunded)).length
  }

structure LineAggregateRow where
  costedLines : ℕ
  costedRevenueC : ℤ
  costedCostC : ℤ
  uncostedRevenueC : ℤ
  deriving DecidableEq

def isCosted (line : Line) : Bool :=
  line.1.costSnapshot.isSome

/-- The aggregates over the lines with a cost and over those without one. -/
def aggregateLines (lines : List Line) : LineAggregateRow where
  costedLines := (lines.filter isCosted).length
  costedRevenueC := ((lines.filter isCosted).map (·.1.netC)).sum
  costedCostC := (lines.filterMap (costC ·.1.toSaleItem)).sum
  uncostedRevenueC := ((lines.filter (!isCosted ·)).map (·.1.netC)).sum

def lineAggregateSql (db : Database) (business : ScopedBusiness) (fromUtc toUtc : ℤ)
    : LineAggregateRow :=
  aggregateLines (completedLines db business.branchIds fromUtc toUtc)

structure Tally where
  salesC : ℤ
  transactions : ℕ
  deriving DecidableEq

def tally (sales : List Sale) : Tally where
  salesC := (sales.map netSales).sum
  transactions := sales.length

namespace ScopedBusiness

variable (db : Database) (business : ScopedBusiness)

def sales : List Sale :=
  completedSales db business.branchIds business.fromUtc business.toUtc

def lines : List Line :=
  completedLines db business.branchIds business.fromUtc business.toUtc

end ScopedBusiness

/-- The tallies of the completed sales in the window of a business. -/
def tallyBy {κ : Type} [DecidableEq κ] (key : Sale → κ) (db : Database) (business : ScopedBusiness)
    : List (κ × Tally) :=
  (groupBy key (business.sales db)).map fun g => (g.1, tally g.2)

inductive Granularity where
  | day
  | week
  | month
  deriving DecidableEq

def dayBucketExpr (business : ScopedBusiness) (s : Sale) : ℤ :=
  dayBucket s.createdAt business.dayStartMinutes

/-- `date_trunc`, on the number of a day. Weeks start on Monday, and day 0 was a Thursday. -/
def dateTrunc : Granularity → ℤ → ℤ
  | .day, n => n
  | .week, n => n - (n + 3) % 7
  | .month, n => n - ((CivilDate.ofDay n).day - 1)

def bucketExpr (business : ScopedBusiness) (granularity : Granularity) (s : Sale) : ℤ :=
  dateTrunc granularity (dayBucketExpr business s)

def heatmapSql (db : Database) (business : ScopedBusiness) : List (ℤ × Tally) :=
  tallyBy (dayBucketExpr business) db business

def trendSalesSql (granularity : Granularity) (db : Database) (business : ScopedBusiness)
    : List (ℤ × Tally) :=
  tallyBy (bucketExpr business granularity) db business

def trendLinesSql (granularity : Granularity) (db : Database) (business : ScopedBusiness)
    : List (ℤ × LineAggregateRow) :=
  (groupBy (fun line => bucketExpr business granularity line.2) (business.lines db)).map fun g =>
    (g.1, aggregateLines g.2)

/-- `EXTRACT(HOUR …)` of the wall clock in Manila. -/
def hourOf (s : Sale) : ℕ :=
  ((s.createdAt + MANILA_OFFSET_MINUTES * 60000) % DAY_MS / 3600000).toNat

def hourPatternSql (db : Database) (business : ScopedBusiness) : List (ℕ × Tally) :=
  tallyBy hourOf db business

/-- `EXTRACT(DOW …)` of the business day, 0 for a Sunday. -/
def dayOfWeek (business : ScopedBusiness) (s : Sale) : ℕ :=
  ((dayBucketExpr business s + 4) % 7).toNat

def dowPatternSql (db : Database) (business : ScopedBusiness) : List (ℕ × Tally) :=
  tallyBy (dayOfWeek business) db business

/-- The live payments of the sales, with the sales that they join. -/
def salePayments (db : Database) (business : ScopedBusiness) : List (SalePayment × Sale) :=
  (db.salePayments.filter (·.deletedAt.isNone)).flatMap fun p =>
    ((business.sales db).filter (·.id = p.saleId)).map fun s => (p, s)

def paymentBreakdownSql (db : Database) (business : ScopedBusiness) : List (PaymentMethod × Tally) :=
  (groupBy (·.1.method) (salePayments db business)).map fun g =>
    (g.1, {
      salesC := (g.2.map (·.1.amount)).sum
      transactions := (g.2.map (·.2.id)).dedup.length })

def orderTypeBreakdownSql (db : Database) (business : ScopedBusiness) : List (OrderType × Tally) :=
  tallyBy (·.orderType) db business

structure BranchSalesRow extends Tally where
  branchId : Uuid
  name : String
  deriving DecidableEq

def branchNames (db : Database) (branchId : Uuid) : List String :=
  (db.branches.filter (·.id = branchId)).map (·.name)

def branchBreakdownSql (db : Database) (business : ScopedBusiness) : List BranchSalesRow :=
  let sales := (business.sales db).flatMap fun s =>
    (branchNames db s.branchId).map fun name => (s, name)
  let rows := (groupBy (fun (s, name) => (s.branchId, name)) sales).map fun g =>
    { tally (g.2.map (·.1)) with branchId := g.1.1, name := g.1.2 : BranchSalesRow }
  rows.mergeSort fun a b => b.salesC ≤ a.salesC

structure ProductSalesRow extends LineAggregateRow where
  productId : Uuid
  variantId : Option Uuid
  name : String
  units : ℤ
  revenueC : ℤ
  deriving DecidableEq

def latestName (lines : List Line) : String :=
  match lines.mergeSort (fun a b => b.2.createdAt ≤ a.2.createdAt) with
  | [] => ""
  | line :: _ => line.1.nameSnapshot

/-- `units` is in thousandths. -/
def unitsOf (lines : List Line) : ℤ :=
  (lines.map (·.1.qty.milli)).sum

def revenueOf (lines : List Line) : ℤ :=
  (lines.map (·.1.netC)).sum

def productLines (db : Database) (business : ScopedBusiness) : List (Uuid × Line) :=
  (business.lines db).filterMap fun line => line.1.productId.map fun id => (id, line)

def productSalesSql (db : Database) (business : ScopedBusiness) : List ProductSalesRow :=
  (groupBy (fun (id, line) => (id, line.1.variantId)) (productLines db business)).map fun g =>
    let lines := g.2.map (·.2)
    { aggregateLines lines with
      productId := g.1.1
      variantId := g.1.2
      name := latestName lines
      units := unitsOf lines
      revenueC := revenueOf lines }

structure CategorySalesRow extends LineAggregateRow where
  categoryId : Uuid
  name : String
  units : ℤ
  revenueC : ℤ
  deriving DecidableEq

def categoriesOf (db : Database) (productId : Uuid) : List (Uuid × String) :=
  (db.products.filter (·.id = productId)).flatMap fun p =>
    (db.categories.filter (·.id = p.categoryId)).map fun c => (c.id, c.name)

def categorySalesSql (db : Database) (business : ScopedBusiness) : List CategorySalesRow :=
  let joined := (productLines db business).flatMap fun x =>
    (categoriesOf db x.1).map fun c => (c, x.2)
  (groupBy (·.1) joined).map fun g =>
    let lines := g.2.map (·.2)
    { aggregateLines lines with
      categoryId := g.1.1
      name := g.1.2
      units := unitsOf lines
      revenueC := revenueOf lines }

structure TaxRow where
  vatableSalesC : ℤ
  vatC : ℤ
  vatExemptSalesC : ℤ
  scPwdDiscountC : ℤ
  serviceChargeC : ℤ
  deriving DecidableEq

def taxSummarySql (db : Database) (business : ScopedBusiness) : TaxRow :=
  let sales := business.sales db
  {
    vatableSalesC := (sales.map fun s => s.total - s.vatExemptSales - s.tax).sum
    vatC := (sales.map (·.tax)).sum
    vatExemptSalesC := (sales.map (·.vatExemptSales)).sum
    scPwdDiscountC := (sales.map (·.scPwdDiscount)).sum
    serviceChargeC := (sales.map (·.serviceCharge)).sum
  }

end SentryPos.Analytics
