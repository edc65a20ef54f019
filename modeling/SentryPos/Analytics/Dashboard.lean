import SentryPos.Analytics.Leaks
import SentryPos.Analytics.Movements

/-!
This module contains the dashboard: the figures of today and of the same day last week for every
business of an owner, each on its own day, its last seven days and what needs attention.
-/

namespace SentryPos.Analytics

open Calendar JsDate Grouping

structure Terminal where
  id : Uuid
  branchId : Uuid
  name : String
  code : String
  deviceTokenHash : Option String
  lastSeenAt : Option DateTime
  deletedAt : Option DateTime
  deriving DecidableEq

structure Notification where
  businessId : Option Uuid
  readAt : Option DateTime
  deletedAt : Option DateTime
  deriving DecidableEq

/-- The database with the columns that only the dashboard reads. Quantities are in thousandths. -/
structure DashboardDatabase extends LeaksDatabase where
  terminals : List Terminal
  notifications : List Notification
  branchStock : List BranchStock
  lowStockThreshold : Uuid → Option ℤ

/-! The scope. -/

/-- A business on the day that it has at `now`, against the same day one week earlier. -/
def todayBusiness (now : DateTime) (business : Business) (branchIds : List Uuid)
    : Except ApiError ScopedBusiness := do
  let dayStartMinutes ← internal (parseDayStart business.dayStartTime)
  let today := businessDayOf now dayStartMinutes
  let lastWeek ← internal (addDays today (-7))
  let fromUtc ← internal (businessDayStartUtc today dayStartMinutes)
  let tomorrow ← internal (addDays today 1)
  let toUtc ← internal (businessDayStartUtc tomorrow dayStartMinutes)
  let previousFromUtc ← internal (businessDayStartUtc lastWeek dayStartMinutes)
  let afterLastWeek ← internal (addDays lastWeek 1)
  let previousToUtc ← internal (businessDayStartUtc afterLastWeek dayStartMinutes)
  return {
    id := business.id
    name := business.name
    dayStartTime := business.dayStartTime
    dayStartMinutes
    taxRate := business.taxRate
    branchIds
    fromUtc
    toUtc
    previousFromUtc
    previousToUtc
  }

def resolveToday (db : Database) (ownerId : Uuid) (now : DateTime)
    : Except ApiError ResolvedScope := do
  let businesses := (db.ownBusinesses ownerId).filter (!·.isDemo)
  let branches := (db.ownBranches ownerId).filter fun b =>
    (businesses.map (·.id)).contains b.businessId
  let scopedBusinesses ← (withBranches businesses branches).mapM fun x => todayBusiness now x.1 x.2
  let stamp := businessDayOf now ((scopedBusinesses.head?.map (·.dayStartMinutes)).getD 0)
  return {
    businesses := scopedBusinesses
    branchIds := scopedBusinesses.flatMap (·.branchIds)
    fromDate := stamp
    toDate := stamp
    dayCount := 1
  }

/-! The queries. -/

structure DashboardBranchRow where
  branchId : Uuid
  name : String
  salesC : ℤ
  transactions : ℕ
  costedLines : ℕ
  costedRevenueC : ℤ
  costedCostC : ℤ
  deriving DecidableEq

/-- `COALESCE(MAX(..), 0)`. -/
def maxOf {α : Type} [Max α] [Zero α] (values : List (Option α)) : α :=
  (values.reduceOption.max?).getD 0

/-- A branch with one of its sales, if it has one, and what its lines are together. -/
abbrev BranchJoin := Branch × Option Sale × Option (Uuid × LineAggregateRow)

def branchJoins (db : Database) (business : ScopedBusiness) (fromUtc toUtc : ℤ) : List BranchJoin :=
  let scopedSales := completedSales db business.branchIds fromUtc toUtc
  let lines := (groupBy (fun line => line.2.branchId)
    (completedLines db business.branchIds fromUtc toUtc)).map fun g => (g.1, aggregateLines g.2)
  let branches := db.branches.filter fun b => business.branchIds.contains b.id && b.deletedAt.isNone
  branches.flatMap fun b =>
    (leftJoin (scopedSales.filter (·.branchId = b.id))).flatMap fun s =>
      (leftJoin (lines.filter (·.1 = b.id))).map fun l => (b, s, l)

def dashboardBranchSql (db : Database) (business : ScopedBusiness) (fromUtc toUtc : ℤ)
    : List DashboardBranchRow :=
  let rows := (groupBy (fun x : BranchJoin => (x.1.id, x.1.name))
    (branchJoins db business fromUtc toUtc)).map fun g =>
      {
        branchId := g.1.1
        name := g.1.2
        salesC := (g.2.map fun x => (x.2.1.map netSales).getD 0).sum
        transactions := (g.2.filter (·.2.1.isSome)).length
        costedLines := maxOf (g.2.map fun x => x.2.2.map (·.2.costedLines))
        costedRevenueC := maxOf (g.2.map fun x => x.2.2.map (·.2.costedRevenueC))
        costedCostC := maxOf (g.2.map fun x => x.2.2.map (·.2.costedCostC))
        : DashboardBranchRow
      }
  rows.mergeSort fun a b => a.name ≤ b.name

def dashboardSparklineSql (db : Database) (business : ScopedBusiness) (fromUtc toUtc : ℤ)
    : List (ℤ × ℤ) :=
  (groupBy (dayBucketExpr business) (completedSales db business.branchIds fromUtc toUtc)).map fun g =>
    (g.1, (g.2.map netSales).sum)

def lowStockCountSql (db : DashboardDatabase) (business : ScopedBusiness) : ℕ :=
  let joined := db.branchStock.flatMap fun bs =>
    (db.products.filter (·.id = bs.productId)).map fun p => (bs, p)
  (joined.filter fun x =>
    business.branchIds.contains x.1.branchId && x.1.deletedAt.isNone && x.2.deletedAt.isNone
      && (db.lowStockThreshold x.2.id).any (x.1.qty ≤ ·)).length

/-! The report. -/

def SPARKLINE_DAYS : ℕ := 7

def UNCLOSED_SHIFT_HOURS : ℤ := 24

structure DayFigures where
  salesC : ℤ
  grossProfitC : Option ℤ
  transactions : ℕ
  deriving DecidableEq

structure BranchFigures extends DayFigures where
  branchId : Uuid
  name : String
  deriving DecidableEq

structure SparklineEntry where
  date : List Char
  salesC : ℤ
  deriving DecidableEq

structure DashboardBusiness where
  businessId : Uuid
  name : String
  today : DayFigures
  sameDayLastWeek : DayFigures
  branches : List BranchFigures
  sparkline : List SparklineEntry
  deriving DecidableEq

structure OpenShift where
  shiftId : Uuid
  businessId : Option Uuid
  branchId : Uuid
  branchName : String
  terminalName : String
  openedAt : DateTime
  deriving DecidableEq

structure LiveTerminal where
  terminalId : Uuid
  businessId : Option Uuid
  branchId : Uuid
  name : String
  code : String
  lastSeenAt : Option DateTime
  paired : Bool
  deriving DecidableEq

structure DashboardReport where
  businesses : List DashboardBusiness
  openShifts : List OpenShift
  terminals : List LiveTerminal
  unreadNotifications : ℕ
  lowStock : List (Uuid × ℕ)
  unclosedShifts : List (Uuid × ℕ)
  deriving DecidableEq

def figuresOf (rows : List DashboardBranchRow) : DayFigures :=
  let costedLines := (rows.map (·.costedLines)).sum
  let revenue := (rows.map (·.costedRevenueC)).sum
  let cost := (rows.map (·.costedCostC)).sum
  {
    salesC := (rows.map (·.salesC)).sum
    grossProfitC := if costedLines = 0 then none else some (revenue - cost)
    transactions := (rows.map (·.transactions)).sum
  }

def byDate (rows : List (ℤ × ℤ)) : Entries (List Char) ℤ :=
  rows.foldl (fun m row => m.set (bucketKey row.1) row.2) []

def sparkline (db : Database) (business : ScopedBusiness) (now : DateTime)
    : Except ApiError (List SparklineEntry) := do
  let today := businessDayOf now business.dayStartMinutes
  let first ← internal (addDays today (-((SPARKLINE_DAYS : ℤ) - 1)))
  let fromUtc ← internal (businessDayStartUtc first business.dayStartMinutes)
  let rows := byDate (dashboardSparklineSql db business fromUtc business.toUtc)
  (List.range SPARKLINE_DAYS).mapM fun (i : ℕ) => do
    let date ← internal (addDays first i)
    return { date, salesC := (rows.get? date).getD 0 }

def dashboardBusiness (db : Database) (now : DateTime) (business : ScopedBusiness)
    : Except ApiError DashboardBusiness := do
  let todayRows := dashboardBranchSql db business business.fromUtc business.toUtc
  let lastWeekRows := dashboardBranchSql db business business.previousFromUtc business.previousToUtc
  let sparkRows ← sparkline db business now
  return {
    businessId := business.id
    name := business.name
    today := figuresOf todayRows
    sameDayLastWeek := figuresOf lastWeekRows
    branches := todayRows.map fun row =>
      { figuresOf [row] with branchId := row.branchId, name := row.name }
    sparkline := sparkRows
  }

def branchIndex (businesses : List ScopedBusiness) : Entries Uuid Uuid :=
  businesses.foldl (fun index business =>
    business.branchIds.foldl (fun index branchId => index.set branchId business.id) index) []

def ownOpenShifts (db : DashboardDatabase) (ownerId : Uuid) (businesses : List ScopedBusiness)
    : List Shift :=
  db.shifts.filter fun sh =>
    ((db.ownBranches ownerId).map (·.id)).contains sh.branchId && sh.deletedAt.isNone
      && ((branchIndex businesses).map Prod.fst).contains sh.branchId && sh.closedAt.isNone

def openShifts (db : DashboardDatabase) (ownerId : Uuid) (businesses : List ScopedBusiness)
    : List OpenShift :=
  let rows := (ownOpenShifts db ownerId businesses).mergeSort fun a b => a.openedAt ≤ b.openedAt
  rows.flatMap fun row =>
    (branchNames db.toDatabase row.branchId).flatMap fun branchName =>
      ((db.terminals.filter (·.id = row.terminalId)).map (·.name)).map fun terminalName =>
        {
          shiftId := row.id
          businessId := (branchIndex businesses).get? row.branchId
          branchId := row.branchId
          branchName
          terminalName
          openedAt := row.openedAt
        }

def liveTerminals (db : DashboardDatabase) (ownerId : Uuid) (businesses : List ScopedBusiness)
    : List LiveTerminal :=
  let rows := db.terminals.filter fun t =>
    ((db.ownBranches ownerId).map (·.id)).contains t.branchId && t.deletedAt.isNone
      && ((branchIndex businesses).map Prod.fst).contains t.branchId
  (rows.mergeSort fun a b => a.code ≤ b.code).map fun row =>
    {
      terminalId := row.id
      businessId := (branchIndex businesses).get? row.branchId
      branchId := row.branchId
      name := row.name
      code := row.code
      lastSeenAt := row.lastSeenAt
      paired := row.deviceTokenHash.isSome
    }

def unclosedShifts (db : DashboardDatabase) (ownerId : Uuid) (businesses : List ScopedBusiness)
    (now : DateTime) : List (Uuid × ℕ) :=
  let cutoff := now - UNCLOSED_SHIFT_HOURS * 3600000
  let rows := (ownOpenShifts db ownerId businesses).filter (·.openedAt < cutoff)
  let counts := businesses.foldl (fun (m : Entries Uuid ℕ) business => m.set business.id 0) []
  rows.foldl (fun (counts : Entries Uuid ℕ) row =>
    ((branchIndex businesses).get? row.branchId).elim counts fun businessId =>
      counts.set businessId ((counts.get? businessId).getD 0 + 1)) counts

def dashboard (db : DashboardDatabase) (ownerId : Uuid) (now : DateTime)
    : Except ApiError DashboardReport := do
  let scope ← resolveToday db.toDatabase ownerId now
  let businesses ← scope.businesses.mapM (dashboardBusiness db.toDatabase now)
  return {
    businesses
    openShifts := openShifts db ownerId scope.businesses
    terminals := liveTerminals db ownerId scope.businesses
    unreadNotifications := (db.notifications.filter fun n =>
      n.businessId.any (((db.ownBusinesses ownerId).map (·.id)).contains ·) && n.deletedAt.isNone
        && n.readAt.isNone).length
    lowStock := scope.businesses.map fun b => (b.id, lowStockCountSql db b)
    unclosedShifts := unclosedShifts db ownerId scope.businesses now
  }

end SentryPos.Analytics
