import SentryPos.Analytics.Dashboard

/-!
This module contains the reports on stock: what adjustments have lost, by their reason, and the stock on
hand with its value and how long it lasts.
-/

namespace SentryPos.Analytics

open Grouping

/-- The database with the costs. -/
structure InventoryDatabase extends DashboardDatabase where
  productCost : Uuid → Option ℤ
  variantCost : Uuid → Option ℤ

/-- The `float8` of a decimal in thousandths. -/
def float8 (milli : ℤ) : JsNumber :=
  .fin (milliToQty milli)

/-! The days of stock. -/

def daysOfStock (qty unitsSold : JsNumber) (dayCount : ℕ) : Option JsNumber :=
  if unitsSold.ble 0 || dayCount = 0 then none
  else some (qty / (unitsSold / ((dayCount : ℤ) : JsNumber)))

def valuationC (qty : JsNumber) (unitCostC : Option ℤ) : Option JsNumber :=
  unitCostC.map fun unitCostC => halfUp (qty * (unitCostC : JsNumber))

def isLow (qty : JsNumber) (threshold : Option JsNumber) : Bool :=
  match threshold with
  | none => false
  | some threshold => qty.ble threshold

/-! The queries. -/

/-- What joins a row of the stock: its product and, as a left join, its variant. -/
def joinStocked (db : Database) (key : StockKey) : List (Product × Option ProductVariant) :=
  (db.products.filter (·.id = key.productId)).flatMap fun p =>
    (leftJoin (db.variants.filter fun v => key.variantId = some v.id)).map fun v => (p, v)

/-- `COALESCE(v.cost, p.cost)`. -/
def unitCost (db : InventoryDatabase) (x : Product × Option ProductVariant) : Option ℤ :=
  (x.2.bind fun v => db.variantCost v.id).or (db.productCost x.1.id)

def isLoss (business : ScopedBusiness) (m : Movement) : Bool :=
  business.branchIds.contains m.branchId && m.deletedAt.isNone && m.type = .adjustment
    && m.qtyDelta < 0 && business.fromUtc ≤ m.createdAt && m.createdAt < business.toUtc

/-- A loss in thousandths, with its reason and the current cost of what has shrunk. -/
structure Loss where
  reasonCategory : ReasonCategory
  milli : ℤ
  cost : Option ℤ
  deriving DecidableEq

def Loss.valueC (loss : Loss) : Option ℤ :=
  loss.cost.map fun cost => sqlRound ((loss.milli : ℚ) / 1000 * cost)

def losses (db : InventoryDatabase) (business : ScopedBusiness) : List Loss :=
  (db.movements.filter (isLoss business)).flatMap fun m =>
    m.reasonCategory.toList.flatMap fun reasonCategory =>
      (joinStocked db.toDatabase m.toStockKey).map fun x =>
        { reasonCategory, milli := -m.qtyDelta, cost := unitCost db x }

structure ShrinkageRow where
  reasonCategory : ReasonCategory
  units : JsNumber
  costedRows : ℕ
  valueC : ℤ
  uncostedUnits : JsNumber
  deriving DecidableEq

def shrinkageSql (db : InventoryDatabase) (business : ScopedBusiness) : List ShrinkageRow :=
  (groupBy (·.reasonCategory) (losses db business)).map fun g =>
    {
      reasonCategory := g.1
      units := float8 (g.2.map (·.milli)).sum
      costedRows := (g.2.filter (·.cost.isSome)).length
      valueC := (g.2.filterMap (·.valueC)).sum
      uncostedUnits := float8 ((g.2.filter (·.cost.isNone)).map (·.milli)).sum
    }

structure OnHandRow where
  branchId : Uuid
  branchName : String
  productId : Uuid
  variantId : Option Uuid
  name : String
  qty : JsNumber
  unitCost : Option ℤ
  lowStockThreshold : Option JsNumber
  unitsSold : JsNumber
  deriving DecidableEq

/-- The lines that have sold what a row of the stock is about. -/
def soldLines (db : Database) (business : ScopedBusiness) (key : StockKey) : List Line :=
  (completedLines db [key.branchId] business.fromUtc business.toUtc).filter fun line =>
    line.1.productId = some key.productId && line.1.variantId = key.variantId

def onHandRow (db : InventoryDatabase) (business : ScopedBusiness) (bs : BranchStock)
    (branchName : String) (x : Product × Option ProductVariant) : OnHandRow where
  branchId := bs.branchId
  branchName := branchName
  productId := bs.productId
  variantId := bs.variantId
  name := match x.2 with
    | none => x.1.name
    | some v => x.1.name ++ " — " ++ v.name
  qty := float8 bs.qty
  unitCost := unitCost db x
  lowStockThreshold := (db.lowStockThreshold x.1.id).map float8
  unitsSold := float8 (unitsOf (soldLines db.toDatabase business bs.toStockKey))

def onHandSql (db : InventoryDatabase) (business : ScopedBusiness) : List OnHandRow :=
  let stock := db.branchStock.filter fun bs =>
    business.branchIds.contains bs.branchId && bs.deletedAt.isNone
  let joined := stock.flatMap fun bs =>
    (branchNames db.toDatabase bs.branchId).flatMap fun branchName =>
      ((joinStocked db.toDatabase bs.toStockKey).filter (·.1.deletedAt.isNone)).map fun x =>
        (x.1.name, onHandRow db business bs branchName x)
  -- `ORDER BY b.name ASC, p.name ASC`
  (joined.mergeSort fun a b =>
    a.2.branchName < b.2.branchName || a.2.branchName = b.2.branchName && a.1 ≤ b.1).map (·.2)

/-! The reports. -/

structure ShrinkageEntry where
  reasonCategory : ReasonCategory
  units : JsNumber
  valueC : Option ℤ
  uncostedUnits : JsNumber
  deriving DecidableEq

structure ShrinkageReport where
  fromDate : List Char
  toDate : List Char
  rows : List ShrinkageEntry
  deriving DecidableEq

structure ShrinkageTally where
  units : JsNumber
  costedRows : ℕ
  valueC : ℤ
  uncostedUnits : JsNumber
  deriving DecidableEq

def ShrinkageTally.zero : ShrinkageTally where
  units := 0
  costedRows := 0
  valueC := 0
  uncostedUnits := 0

def addShrinkage (m : Entries ReasonCategory ShrinkageTally) (rows : List ShrinkageRow)
    : Entries ReasonCategory ShrinkageTally :=
  m.merge (·.reasonCategory) (fun current row =>
    let current := current.getD .zero
    {
      units := current.units + row.units
      costedRows := current.costedRows + row.costedRows
      valueC := current.valueC + row.valueC
      uncostedUnits := current.uncostedUnits + row.uncostedUnits
    }) rows

def shrinkageOf (db : InventoryDatabase) (scope : ResolvedScope) : ShrinkageReport :=
  let merged := scope.businesses.foldl (fun m b => addShrinkage m (shrinkageSql db b)) []
  let rows := merged.map fun (reasonCategory, r) =>
    {
      reasonCategory
      units := r.units
      valueC := if r.costedRows = 0 then none else some r.valueC
      uncostedUnits := r.uncostedUnits
      : ShrinkageEntry
    }
  {
    fromDate := scope.fromDate
    toDate := scope.toDate
    rows := rows.mergeSort fun a b => b.valueC.getD 0 ≤ a.valueC.getD 0
  }

def shrinkage (db : InventoryDatabase) (ownerId : Uuid) (query : AnalyticsQueryDto)
    : Except ApiError ShrinkageReport := do
  let scope ← resolve db.toDatabase ownerId query
  return shrinkageOf db scope

structure OnHandEntry where
  branchId : Uuid
  branchName : String
  productId : Uuid
  variantId : Option Uuid
  name : String
  qty : JsNumber
  unitCostC : Option ℤ
  valueC : Option JsNumber
  lowStockThreshold : Option JsNumber
  isLow : Bool
  daysOfStock : Option JsNumber
  deriving DecidableEq

structure OnHandTotals where
  valueC : JsNumber
  uncostedItems : ℕ
  deriving DecidableEq

structure OnHandReport where
  fromDate : List Char
  toDate : List Char
  rows : List OnHandEntry
  totals : OnHandTotals
  deriving DecidableEq

def onHandEntry (dayCount : ℕ) (row : OnHandRow) : OnHandEntry where
  branchId := row.branchId
  branchName := row.branchName
  productId := row.productId
  variantId := row.variantId
  name := row.name
  qty := row.qty
  unitCostC := row.unitCost
  valueC := valuationC row.qty row.unitCost
  lowStockThreshold := row.lowStockThreshold
  isLow := Analytics.isLow row.qty row.lowStockThreshold
  daysOfStock := Analytics.daysOfStock row.qty row.unitsSold dayCount

def addValue (totals : OnHandTotals) (entry : OnHandEntry) : OnHandTotals :=
  match entry.valueC with
  | none => { totals with uncostedItems := totals.uncostedItems + 1 }
  | some value => { totals with valueC := totals.valueC + value }

def onHandOf (db : InventoryDatabase) (scope : ResolvedScope) : OnHandReport :=
  let rows := scope.businesses.flatMap fun b => (onHandSql db b).map (onHandEntry scope.dayCount)
  {
    fromDate := scope.fromDate
    toDate := scope.toDate
    rows
    totals := rows.foldl addValue { valueC := 0, uncostedItems := 0 }
  }

def onHand (db : InventoryDatabase) (ownerId : Uuid) (query : AnalyticsQueryDto)
    : Except ApiError OnHandReport := do
  let scope ← resolve db.toDatabase ownerId query
  return onHandOf db scope

end SentryPos.Analytics
