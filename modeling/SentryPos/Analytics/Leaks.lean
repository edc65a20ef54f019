import SentryPos.Analytics.Margins
import SentryPos.Analytics.Settlement

/-!
This module contains the report on what sales have lost: the discounts, the open lines, the sales
that were voided or refunded and the drawers that were over or short. What it finds explains the
difference between the revenue of the lines and the net sales.
-/

namespace SentryPos.Analytics

open Calendar JsDate Grouping ReadCommitted

inductive DiscountKind where
  | percent
  | fixed
  deriving DecidableEq

/-- The database with the columns that no other report reads. -/
structure LeaksDatabase extends Database where
  discountKind : Uuid → DiscountKind
  shifts : List Shift

/-! The queries. -/

/-- `LINE_DISCOUNTS_LATERAL`. -/
def lineDiscounts (db : Database) (s : Sale) : ℤ :=
  ((db.saleLines.filter fun li => li.saleId = s.id && li.deletedAt.isNone).map (·.discount)).sum

structure DiscountTotalsRow where
  saleDiscountC : ℤ
  lineDiscountC : ℤ
  scPwdDiscountC : ℤ
  vatExemptSalesC : ℤ
  scPwdSales : ℕ
  netSalesC : ℤ
  deriving DecidableEq

def discountTotalsSql (db : Database) (business : ScopedBusiness) : DiscountTotalsRow :=
  let sales := business.sales db
  {
    saleDiscountC := (sales.map (·.discount)).sum
    lineDiscountC := (sales.map (lineDiscounts db)).sum
    scPwdDiscountC := (sales.map (·.scPwdDiscount)).sum
    vatExemptSalesC := (sales.map (·.vatExemptSales)).sum
    scPwdSales := (sales.filter (·.scPwd.isSome)).length
    netSalesC := (sales.map netSales).sum
  }

structure NamedDiscount where
  discountId : Uuid
  name : String
  kind : DiscountKind
  timesUsed : ℕ
  amountC : ℤ
  deriving DecidableEq

def discountsOf (db : Database) (discountId : Option Uuid) : List Discount :=
  db.discounts.filter fun d => some d.id = discountId

/-- Rows that join a discount, grouped by it, with what `amount` says they have taken off. -/
def namedDiscounts {α : Type} (db : LeaksDatabase) (discountId : α → Option Uuid) (amount : α → ℤ)
    (rows : List α) : List NamedDiscount :=
  let joined := rows.flatMap fun r => (discountsOf db.toDatabase (discountId r)).map fun d => (d, r)
  (groupBy (fun x => (x.1.id, x.1.name, db.discountKind x.1.id)) joined).map fun g =>
    {
      discountId := g.1.1
      name := g.1.2.1
      kind := g.1.2.2
      timesUsed := g.2.length
      amountC := (g.2.map (amount ·.2)).sum
    }

def lineDiscountsSql (db : LeaksDatabase) (business : ScopedBusiness) : List NamedDiscount :=
  namedDiscounts db (·.1.discountId) (·.1.discount) (business.lines db.toDatabase)

def orderDiscountsSql (db : LeaksDatabase) (business : ScopedBusiness) : List NamedDiscount :=
  namedDiscounts db (·.discountId)
    (fun s => s.discount - (lineDiscounts db.toDatabase s - s.scPwdDiscount))
    (business.sales db.toDatabase)

def miscLinesSql (db : Database) (business : ScopedBusiness) : ℤ :=
  (((business.lines db).filter (·.1.productId.isNone)).map (·.1.netC)).sum

/-- `COALESCE(NULLIF(s.status_reason, ''), '(no reason given)')`. -/
def reasonOf (s : Sale) : String :=
  (s.statusReason.filter (· ≠ "")).getD "(no reason given)"

structure StatusValueRow where
  status : SaleStatus
  reason : String
  count : ℕ
  valueC : ℤ
  deriving DecidableEq

def statusValueSql (db : Database) (business : ScopedBusiness) : List StatusValueRow :=
  let sales := (salesInWindow db business.branchIds business.fromUtc business.toUtc).filter fun s =>
    isStatus .voided s || isStatus .refunded s
  (groupBy (fun s => (s.status, reasonOf s)) sales).map fun g =>
    {
      status := g.1.1
      reason := g.1.2
      count := g.2.length
      valueC := (g.2.map netSales).sum
    }

structure OverShortRow where
  shiftId : Uuid
  branchId : Uuid
  branchName : String
  closedAt : DateTime
  expectedCash : Option ℤ
  closingCash : Option ℤ
  deriving DecidableEq

/-- The shifts that were closed in the window, by the time of their close. -/
def overShortSql (db : LeaksDatabase) (business : ScopedBusiness) : List OverShortRow :=
  let closed := db.shifts.filterMap fun sh =>
    sh.closedAt.bind fun closedAt =>
      if business.branchIds.contains sh.branchId && sh.deletedAt.isNone
          && business.fromUtc ≤ closedAt && closedAt < business.toUtc then
        some (sh, closedAt)
      else none
  let rows := closed.flatMap fun x =>
    (branchNames db.toDatabase x.1.branchId).map fun branchName =>
      {
        shiftId := x.1.id
        branchId := x.1.branchId
        branchName
        closedAt := x.2
        expectedCash := x.1.expectedCash
        closingCash := x.1.closingCash
        : OverShortRow
      }
  rows.mergeSort fun a b => b.closedAt ≤ a.closedAt

/-! The report. -/

structure ReasonValue where
  reason : String
  count : ℕ
  valueC : ℤ
  deriving DecidableEq

structure StatusBucket where
  count : ℕ
  valueC : ℤ
  reasons : List ReasonValue
  deriving DecidableEq

structure OverShortEntry where
  shiftId : Uuid
  branchId : Uuid
  branchName : String
  closedAt : DateTime
  expectedCashC : Option ℤ
  closingCashC : Option ℤ
  varianceC : Option ℤ
  deriving DecidableEq

structure ScPwdLeak where
  discountC : ℤ
  vatExemptSalesC : ℤ
  saleCount : ℕ
  deriving DecidableEq

structure MiscLines where
  revenueC : ℤ
  pctOfNetSales : Option ℚ
  deriving DecidableEq

structure LeaksReport where
  fromDate : List Char
  toDate : List Char
  discountsByName : List NamedDiscount
  orderLevelDiscountC : ℤ
  scPwd : ScPwdLeak
  miscLines : MiscLines
  voids : StatusBucket
  refunds : StatusBucket
  overShort : List OverShortEntry
  deriving DecidableEq

structure LeakTotals where
  orderLevelDiscountC : ℤ
  scPwdDiscountC : ℤ
  vatExemptSalesC : ℤ
  scPwdSales : ℕ
  miscRevenueC : ℤ
  netSalesC : ℤ
  deriving DecidableEq

def LeakTotals.zero : LeakTotals where
  orderLevelDiscountC := 0
  scPwdDiscountC := 0
  vatExemptSalesC := 0
  scPwdSales := 0
  miscRevenueC := 0
  netSalesC := 0

def addLeaks (db : Database) (into : LeakTotals) (business : ScopedBusiness) : LeakTotals :=
  let totals := discountTotalsSql db business
  let linePromos := totals.lineDiscountC - totals.scPwdDiscountC
  {
    orderLevelDiscountC := into.orderLevelDiscountC + (totals.saleDiscountC - linePromos)
    scPwdDiscountC := into.scPwdDiscountC + totals.scPwdDiscountC
    vatExemptSalesC := into.vatExemptSalesC + totals.vatExemptSalesC
    scPwdSales := into.scPwdSales + totals.scPwdSales
    miscRevenueC := into.miscRevenueC + miscLinesSql db business
    netSalesC := into.netSalesC + totals.netSalesC
  }

/-- A discount keeps the name and the kind of the first row that it came in with. -/
def addNamed (m : Entries Uuid NamedDiscount) (rows : List NamedDiscount) : Entries Uuid NamedDiscount :=
  m.merge (·.discountId) (fun current row =>
    (current.map fun current => { current with
      timesUsed := current.timesUsed + row.timesUsed
      amountC := current.amountC + row.amountC }).getD row) rows

def addReasons (m : Entries String (ℕ × ℤ)) (rows : List StatusValueRow) : Entries String (ℕ × ℤ) :=
  m.merge (·.reason) (fun current row =>
    ((current.getD (0, 0)).1 + row.count, (current.getD (0, 0)).2 + row.valueC)) rows

def toBucket (reasons : Entries String (ℕ × ℤ)) : StatusBucket :=
  let rows := (reasons.map fun entry =>
    { reason := entry.1, count := entry.2.1, valueC := entry.2.2 : ReasonValue }).mergeSort
      fun a b => b.valueC ≤ a.valueC
  {
    count := (rows.map (·.count)).sum
    valueC := (rows.map (·.valueC)).sum
    reasons := rows
  }

def toEntry (row : OverShortRow) : OverShortEntry where
  shiftId := row.shiftId
  branchId := row.branchId
  branchName := row.branchName
  closedAt := row.closedAt
  expectedCashC := row.expectedCash
  closingCashC := row.closingCash
  varianceC := row.expectedCash.bind fun expected => row.closingCash.map fun closing =>
    closing - expected

/-- The reasons of the rows that one of the two maps collects. -/
def reasonsOf (db : Database) (target : SaleStatus → Bool) (businesses : List ScopedBusiness)
    : Entries String (ℕ × ℤ) :=
  businesses.foldl (fun m b => addReasons m ((statusValueSql db b).filter (target ·.status))) []

def leaksOf (db : LeaksDatabase) (scope : ResolvedScope) : LeaksReport :=
  let totals := scope.businesses.foldl (addLeaks db.toDatabase) .zero
  let named := scope.businesses.foldl
    (fun m b => addNamed (addNamed m (lineDiscountsSql db b)) (orderDiscountsSql db b)) []
  let overShort := scope.businesses.flatMap fun b => (overShortSql db b).map toEntry
  {
    fromDate := scope.fromDate
    toDate := scope.toDate
    discountsByName := (named.map (·.2)).mergeSort fun a b => b.amountC ≤ a.amountC
    orderLevelDiscountC := totals.orderLevelDiscountC
    scPwd := {
      discountC := totals.scPwdDiscountC
      vatExemptSalesC := totals.vatExemptSalesC
      saleCount := totals.scPwdSales
    }
    miscLines := {
      revenueC := totals.miscRevenueC
      pctOfNetSales := if totals.netSalesC = 0 then none else some (totals.miscRevenueC / totals.netSalesC)
    }
    voids := toBucket (reasonsOf db.toDatabase (· = .voided) scope.businesses)
    refunds := toBucket (reasonsOf db.toDatabase (· ≠ .voided) scope.businesses)
    overShort := overShort.mergeSort fun a b => b.closedAt ≤ a.closedAt
  }

def leaks (db : LeaksDatabase) (ownerId : Uuid) (query : AnalyticsQueryDto)
    : Except ApiError LeaksReport := do
  let scope ← resolve db.toDatabase ownerId query
  return leaksOf db scope

end SentryPos.Analytics
