import SentryPos.Analytics.OwnQueries

/-!
This module contains that no report to an owner depends on the rows of other owners: over the owner's
rows alone, each of them is the same.
-/

namespace SentryPos.Analytics

open Grouping

/-! The reports. -/

section Reports

variable {db : Database} {ownerId : Uuid}

section Money

variable {scope : ResolvedScope} (hscope : ∀ b ∈ scope.businesses, db.Admits ownerId b)

include hscope

theorem totalsOf_ofOwner (window : ScopedBusiness → ℤ × ℤ)
    : totalsOf (db.ofOwner ownerId) window scope.businesses = totalsOf db window scope.businesses := by
  unfold totalsOf
  apply List.foldl_ext
  intro totals b hb
  rw [salesAggregateSql_ofOwner (hscope b hb), lineAggregateSql_ofOwner (hscope b hb)]

theorem overviewOf_ofOwner : overviewOf (db.ofOwner ownerId) scope = overviewOf db scope := by
  unfold overviewOf
  rw [totalsOf_ofOwner hscope, totalsOf_ofOwner hscope]

/-- What is merged from a query that is isolated is isolated. -/
theorem foldl_ofOwner {α β : Type} (query : Database → ScopedBusiness → α)
    (hquery : ∀ b, db.Admits ownerId b → query (db.ofOwner ownerId) b = query db b)
    (add : β → α → β) (start : β)
    : scope.businesses.foldl (fun m b => add m (query (db.ofOwner ownerId) b)) start
        = scope.businesses.foldl (fun m b => add m (query db b)) start := by
  apply List.foldl_ext
  intro m b hb
  rw [hquery b (hscope b hb)]

theorem heatmapOf_ofOwner : heatmapOf (db.ofOwner ownerId) scope = heatmapOf db scope := by
  have hsales := foldl_ofOwner hscope heatmapSql (fun b hb => tallyBy_ofOwner hb _)
    (fun m rows => addTallies m (keyed rows)) []
  unfold heatmapOf
  rw [hsales]

theorem trendOf_ofOwner (granularity : Granularity)
    : trendOf (db.ofOwner ownerId) scope granularity = trendOf db scope granularity := by
  have hsales := foldl_ofOwner hscope (trendSalesSql granularity)
    (fun b hb => tallyBy_ofOwner hb _) (fun m rows => addTallies m (keyed rows)) []
  have hprofit := foldl_ofOwner hscope (trendLinesSql granularity)
    (fun b hb => trendLinesSql_ofOwner hb _) (fun m rows => addProfits m (keyed rows)) []
  unfold trendOf
  rw [hsales, hprofit]

theorem patternsOf_ofOwner : patternsOf (db.ofOwner ownerId) scope = patternsOf db scope := by
  have hhours := foldl_ofOwner hscope hourPatternSql
    (fun b hb => tallyBy_ofOwner hb _) addAt (List.replicate 24 .zero)
  have hdays := foldl_ofOwner hscope dowPatternSql
    (fun b hb => tallyBy_ofOwner hb _) addAt (List.replicate 7 .zero)
  unfold patternsOf
  rw [hhours, hdays]

theorem breakdownsOf_ofOwner (hdb : db.Valid)
    : breakdownsOf (db.ofOwner ownerId) scope = breakdownsOf db scope := by
  have hmethods := foldl_ofOwner hscope paymentBreakdownSql
    (fun b hb => paymentBreakdownSql_ofOwner hb) addTallies []
  have htypes := foldl_ofOwner hscope orderTypeBreakdownSql
    (fun b hb => tallyBy_ofOwner hb _) addTallies []
  have hbranches := foldl_ofOwner hscope branchBreakdownSql
    (fun b hb => branchBreakdownSql_ofOwner hb hdb) (fun rows rows' => rows ++ rows') []
  unfold breakdownsOf
  rw [hmethods, htypes, hbranches]

theorem profitOf_ofOwner (hwithin : db.StaysWithin ownerId) (granularity : Granularity)
    : profitOf (db.ofOwner ownerId) scope granularity = profitOf db scope granularity := by
  have hoverTime := foldl_ofOwner hscope (trendLinesSql granularity)
    (fun b hb => trendLinesSql_ofOwner hb _) (fun m rows => addOverTime m (keyed rows)) []
  have hproducts := foldl_ofOwner hscope productSalesSql
    (fun b hb => productSalesSql_ofOwner hb) addProducts []
  have hcategories := foldl_ofOwner hscope categorySalesSql
    (fun b hb => categorySalesSql_ofOwner hb hwithin) addCategories []
  have htotals := foldl_ofOwner hscope
    (fun db b => lineAggregateSql db b b.fromUtc b.toUtc)
    (fun b hb => lineAggregateSql_ofOwner hb _ _) addRevenue (0, 0)
  unfold profitOf
  rw [hoverTime, hproducts, hcategories, htotals]

theorem taxOf_ofOwner : taxOf (db.ofOwner ownerId) scope = taxOf db scope := by
  have htotals := foldl_ofOwner hscope taxSummarySql
    (fun b hb => taxSummarySql_ofOwner hb) TaxRow.add .zero
  have hrows : scope.businesses.map (taxRow (db.ofOwner ownerId)) = scope.businesses.map (taxRow db) := by
    apply List.map_congr_left
    intro b hb
    unfold taxRow
    rw [taxSummarySql_ofOwner (hscope b hb)]
  unfold taxOf
  rw [htotals, hrows]

theorem soldEntries_ofOwner
    : ProductsReport.soldEntries (db.ofOwner ownerId) scope.businesses
        = ProductsReport.soldEntries db scope.businesses := by
  unfold ProductsReport.soldEntries
  apply List.foldl_ext
  intro m b hb
  rw [productSalesSql_ofOwner (hscope b hb)]

theorem topOf_ofOwner (hwithin : db.StaysWithin ownerId) (by_ : Option RankBy) (limit : Option ℕ)
    : ProductsReport.topOf (db.ofOwner ownerId) scope by_ limit
        = ProductsReport.topOf db scope by_ limit := by
  have hcategories : ProductsReport.categoryEntries (db.ofOwner ownerId) scope.businesses
      = ProductsReport.categoryEntries db scope.businesses := by
    unfold ProductsReport.categoryEntries
    apply List.foldl_ext
    intro m b hb
    rw [categorySalesSql_ofOwner (hscope b hb) hwithin]
  unfold ProductsReport.topOf ProductsReport.sold
  rw [soldEntries_ofOwner hscope, hcategories]

theorem slowOf_ofOwner (hwithin : db.StaysWithin ownerId) (by_ : Option RankBy) (limit : Option ℕ)
    : ProductsReport.slowOf (db.ofOwner ownerId) scope by_ limit
        = ProductsReport.slowOf db scope by_ limit := by
  have hzero : scope.businesses.flatMap (zeroSalesSql (db.ofOwner ownerId))
      = scope.businesses.flatMap (zeroSalesSql db) :=
    List.flatMap_congr fun b hb => zeroSalesSql_ofOwner (hscope b hb) hwithin
  unfold ProductsReport.slowOf ProductsReport.sold
  rw [soldEntries_ofOwner hscope, hzero]

theorem productTrendOf_ofOwner (productId : Uuid) (granularity : Granularity)
    : ProductsReport.trendOf (db.ofOwner ownerId) scope productId granularity
        = ProductsReport.trendOf db scope productId granularity := by
  have hbuckets : ProductsReport.bucketEntries (db.ofOwner ownerId) productId granularity
      scope.businesses = ProductsReport.bucketEntries db productId granularity scope.businesses := by
    unfold ProductsReport.bucketEntries
    apply List.foldl_ext
    intro m b hb
    rw [productTrendSql_ofOwner (hscope b hb)]
  unfold ProductsReport.trendOf
  rw [hbuckets]

end Money

theorem findOwned_ofOwner (productId : Uuid)
    : ProductsReport.findOwned (db.ofOwner ownerId) ownerId productId
        = ProductsReport.findOwned db ownerId productId := by
  unfold ProductsReport.findOwned
  rw [ownBusinesses_ofOwner, ← List.head?_filter, ← List.head?_filter]
  congr 1
  apply Table.filter_of_imp
  intro p hp h
  simp only [Bool.and_eq_true] at h
  exact hasBusiness_of_mem (fun b hb => hb) h.1.2

theorem productTrend_ofOwner (productId : Uuid) (query : AnalyticsQueryDto)
    (granularity : Option Granularity)
    : ProductsReport.trend (db.ofOwner ownerId) ownerId productId query granularity
        = ProductsReport.trend db ownerId productId query granularity := by
  unfold ProductsReport.trend
  rw [findOwned_ofOwner]
  split
  . simp only [bind, Except.bind, throw, throwThe, MonadExceptOf.throw]
  . exact isolated_of_scope fun scope hscope => productTrendOf_ofOwner hscope productId _

section Movements

variable {scope : ResolvedScope} (hscope : ∀ b ∈ scope.businesses, db.Admits ownerId b)
  (filter : MovementFilter)

include hscope

theorem entries_ofOwner (hdb : db.Valid) (hwithin : db.StaysWithin ownerId) (reach : ℕ)
    : (scope.businesses.flatMap fun b => (movementsSql (db.ofOwner ownerId) b filter reach).map (·.entry))
        = scope.businesses.flatMap fun b => (movementsSql db b filter reach).map (·.entry) := by
  apply List.flatMap_congr
  intro b hb
  rw [movementsSql_ofOwner (hscope b hb) hwithin hdb]

theorem counts_ofOwner
    : (scope.businesses.map fun b => movementsCountSql (db.ofOwner ownerId) b filter)
        = scope.businesses.map fun b => movementsCountSql db b filter := by
  apply List.map_congr_left
  intro b hb
  rw [movementsCountSql_ofOwner (hscope b hb)]

end Movements

theorem movements_ofOwner (hdb : db.Valid) (hwithin : db.StaysWithin ownerId)
    (localeCompare : Uuid → Uuid → ℤ) (query : MovementsQueryDto)
    : movements localeCompare (db.ofOwner ownerId) ownerId query
        = movements localeCompare db ownerId query := by
  unfold movements
  rw [resolve_ofOwner]
  cases hresolve : resolve db ownerId query.toAnalyticsQueryDto with
  | error e => simp only [bind, Except.bind]
  | ok scope =>
    have hscope : ∀ b ∈ scope.businesses, db.Admits ownerId b :=
      fun _ hb => admits_of_resolve hresolve hb
    simp only [bind, Except.bind, entries_ofOwner hscope _ hdb hwithin, counts_ofOwner hscope]

end Reports

section Leaks

variable {db : LeaksDatabase} {ownerId : Uuid} (hdb : db.Valid) (hwithin : db.StaysWithin ownerId)
  {scope : ResolvedScope} (hscope : ∀ b ∈ scope.businesses, db.Admits ownerId b)

include hscope

theorem addLeaks_ofOwner
    : scope.businesses.foldl (addLeaks (db.toDatabase.ofOwner ownerId)) .zero
        = scope.businesses.foldl (addLeaks db.toDatabase) .zero := by
  apply List.foldl_ext
  intro totals b hb
  unfold addLeaks
  rw [discountTotalsSql_ofOwner (hscope b hb), miscLinesSql_ofOwner (hscope b hb)]

theorem reasonsOf_ofOwner (target : SaleStatus → Bool)
    : reasonsOf (db.toDatabase.ofOwner ownerId) target scope.businesses
        = reasonsOf db.toDatabase target scope.businesses :=
  foldl_ofOwner hscope statusValueSql (fun _ hb => statusValueSql_ofOwner hb)
    (fun m rows => addReasons m (rows.filter (target ·.status))) []

include hdb hwithin

theorem leaksOf_ofOwner : leaksOf (db.ofOwner ownerId) scope = leaksOf db scope := by
  have hnamed : scope.businesses.foldl (fun m b =>
      addNamed (addNamed m (lineDiscountsSql (db.ofOwner ownerId) b))
        (orderDiscountsSql (db.ofOwner ownerId) b)) []
      = scope.businesses.foldl (fun m b =>
        addNamed (addNamed m (lineDiscountsSql db b)) (orderDiscountsSql db b)) [] := by
    apply List.foldl_ext
    intro m b hb
    rw [lineDiscountsSql_ofOwner (hscope b hb) hwithin, orderDiscountsSql_ofOwner (hscope b hb) hwithin]
  have hoverShort : (scope.businesses.flatMap fun b =>
      (overShortSql (db.ofOwner ownerId) b).map toEntry)
        = scope.businesses.flatMap fun b => (overShortSql db b).map toEntry := by
    apply List.flatMap_congr
    intro b hb
    rw [overShortSql_ofOwner (hscope b hb) hdb]
  unfold leaksOf
  rw [toDatabase_ofOwner, addLeaks_ofOwner hscope, hnamed, hoverShort, reasonsOf_ofOwner hscope,
    reasonsOf_ofOwner hscope]

end Leaks

section Stock

variable {db : InventoryDatabase} {ownerId : Uuid} (hdb : db.Valid) (hwithin : db.StaysWithin ownerId)
  {scope : ResolvedScope} (hscope : ∀ b ∈ scope.businesses, db.Admits ownerId b)

include hwithin hscope

theorem shrinkageOf_ofOwner : shrinkageOf (db.ofOwner ownerId) scope = shrinkageOf db scope := by
  have hmerged : scope.businesses.foldl (fun m b => addShrinkage m (shrinkageSql (db.ofOwner ownerId) b)) []
      = scope.businesses.foldl (fun m b => addShrinkage m (shrinkageSql db b)) [] := by
    apply List.foldl_ext
    intro m b hb
    rw [shrinkageSql_ofOwner (hscope b hb) hwithin]
  unfold shrinkageOf
  rw [hmerged]

include hdb

theorem onHandOf_ofOwner : onHandOf (db.ofOwner ownerId) scope = onHandOf db scope := by
  have hrows : (scope.businesses.flatMap fun b =>
      (onHandSql (db.ofOwner ownerId) b).map (onHandEntry scope.dayCount))
        = scope.businesses.flatMap fun b => (onHandSql db b).map (onHandEntry scope.dayCount) := by
    apply List.flatMap_congr
    intro b hb
    rw [onHandSql_ofOwner (hscope b hb) hwithin hdb]
  unfold onHandOf
  rw [hrows]

end Stock

section Dashboard

variable {db : InventoryDatabase} {ownerId : Uuid} (hdb : db.Valid) (hwithin : db.StaysWithin ownerId)

theorem unread_ofOwner
    : ((db.ofOwner ownerId).notifications.filter fun n =>
        n.businessId.any (((db.ownBusinesses ownerId).map (·.id)).contains ·) && n.deletedAt.isNone
          && n.readAt.isNone)
      = db.notifications.filter fun n =>
        n.businessId.any (((db.ownBusinesses ownerId).map (·.id)).contains ·) && n.deletedAt.isNone
          && n.readAt.isNone := by
  apply Table.filter_of_imp
  intro n hn h
  simp only [Bool.and_eq_true, Option.any_eq_true] at h
  obtain ⟨id, hid, hown⟩ := h.1.1
  rw [Option.any_eq_true]
  exact ⟨id, hid, hasBusiness_of_mem (fun b hb => hb) hown⟩

include hdb hwithin

theorem dashboard_ofOwner (now : DateTime)
    : dashboard (db.ofOwner ownerId).toDashboardDatabase ownerId now
        = dashboard db.toDashboardDatabase ownerId now := by
  have htoday : resolveToday (db.ofOwner ownerId).toDatabase ownerId now
      = resolveToday db.toDatabase ownerId now := resolveToday_ofOwner now
  have hbusinesses : (db.ofOwner ownerId).ownBusinesses ownerId = db.ownBusinesses ownerId :=
    ownBusinesses_ofOwner
  unfold dashboard
  rw [htoday]
  cases hresolve : resolveToday db.toDatabase ownerId now with
  | error e => simp only [bind, Except.bind]
  | ok scope =>
    have hscope : ∀ b ∈ scope.businesses, db.Admits ownerId b :=
      fun _ hb => admits_of_resolveToday hresolve hb
    have hfigures : scope.businesses.mapM (dashboardBusiness (db.ofOwner ownerId).toDatabase now)
        = scope.businesses.mapM (dashboardBusiness db.toDatabase now) :=
      Checks.mapM_congr fun b hb => dashboardBusiness_ofOwner (hscope b hb) hdb now
    have hlow : (scope.businesses.map fun b =>
        (b.id, lowStockCountSql (db.ofOwner ownerId).toDashboardDatabase b))
          = scope.businesses.map fun b => (b.id, lowStockCountSql db.toDashboardDatabase b) := by
      apply List.map_congr_left
      intro b hb
      rw [lowStockCountSql_ofOwner (hscope b hb) hwithin]
    simp only [bind, Except.bind, hfigures, hlow, openShifts_ofOwner hdb hwithin, liveTerminals_ofOwner,
      unclosedShifts_ofOwner, hbusinesses, unread_ofOwner]

end Dashboard

/-! The requests. -/

/-- A request for a report, with what its query carries. -/
inductive ReportRequest where
  | dashboard (now : DateTime)
  | overview (query : AnalyticsQueryDto)
  | salesHeatmap (query : AnalyticsQueryDto)
  | salesTrend (query : AnalyticsQueryDto) (granularity : Option Granularity)
  | salesPatterns (query : AnalyticsQueryDto)
  | salesBreakdowns (query : AnalyticsQueryDto)
  | productsTop (query : ProductReportQueryDto)
  | productsSlow (query : ProductReportQueryDto)
  | productTrend (productId : Uuid) (query : AnalyticsQueryDto) (granularity : Option Granularity)
  | profit (query : AnalyticsQueryDto) (granularity : Option Granularity)
  | leaks (query : AnalyticsQueryDto)
  | inventoryMovements (query : MovementsQueryDto)
  | inventoryShrinkage (query : AnalyticsQueryDto)
  | inventoryOnHand (query : AnalyticsQueryDto)
  | tax (query : AnalyticsQueryDto)

namespace ReportRequest

def Report : ReportRequest → Type
  | .dashboard _ => DashboardReport
  | .overview _ => OverviewReport
  | .salesHeatmap _ => List HeatmapDay
  | .salesTrend _ _ => List TrendBucket
  | .salesPatterns _ => PatternsReport
  | .salesBreakdowns _ => BreakdownsReport
  | .productsTop _ => TopProductsReport
  | .productsSlow _ => SlowProductsReport
  | .productTrend _ _ _ => ProductTrendReport
  | .profit _ _ => ProfitReport
  | .leaks _ => LeaksReport
  | .inventoryMovements _ => Paginated MovementEntry
  | .inventoryShrinkage _ => ShrinkageReport
  | .inventoryOnHand _ => OnHandReport
  | .tax _ => TaxReport

def answer (localeCompare : Uuid → Uuid → ℤ) (db : InventoryDatabase) (ownerId : Uuid)
    : (request : ReportRequest) → Except ApiError request.Report
  | .dashboard now => Analytics.dashboard db.toDashboardDatabase ownerId now
  | .overview query => Analytics.overview db.toDatabase ownerId query
  | .salesHeatmap query => heatmap db.toDatabase ownerId query
  | .salesTrend query granularity => trend db.toDatabase ownerId query granularity
  | .salesPatterns query => patterns db.toDatabase ownerId query
  | .salesBreakdowns query => breakdowns db.toDatabase ownerId query
  | .productsTop query => ProductsReport.top db.toDatabase ownerId query
  | .productsSlow query => ProductsReport.slow db.toDatabase ownerId query
  | .productTrend productId query granularity =>
    ProductsReport.trend db.toDatabase ownerId productId query granularity
  | .profit query granularity => Analytics.profit db.toDatabase ownerId query granularity
  | .leaks query => Analytics.leaks db.toLeaksDatabase ownerId query
  | .inventoryMovements query => movements localeCompare db.toDatabase ownerId query
  | .inventoryShrinkage query => shrinkage db ownerId query
  | .inventoryOnHand query => onHand db ownerId query
  | .tax query => Analytics.tax db.toDatabase ownerId query

/-- A report to an owner reads no row but the owner's. -/
theorem answer_ofOwner (localeCompare : Uuid → Uuid → ℤ) {db : InventoryDatabase} {ownerId : Uuid}
    (hdb : db.Valid) (hwithin : db.StaysWithin ownerId) (request : ReportRequest)
    : request.answer localeCompare (db.ofOwner ownerId) ownerId
        = request.answer localeCompare db ownerId := by
  have hmoney : db.toDatabase.StaysWithin ownerId := hwithin.toStaysWithin
  cases request with
  | dashboard now => exact dashboard_ofOwner hdb hwithin now
  | overview query => exact isolated_of_scope fun scope hscope => overviewOf_ofOwner hscope
  | salesHeatmap query => exact isolated_of_scope fun scope hscope => heatmapOf_ofOwner hscope
  | salesTrend query granularity =>
    exact isolated_of_scope fun scope hscope => trendOf_ofOwner hscope _
  | salesPatterns query => exact isolated_of_scope fun scope hscope => patternsOf_ofOwner hscope
  | salesBreakdowns query =>
    exact isolated_of_scope fun scope hscope => breakdownsOf_ofOwner hscope hdb
  | productsTop query => exact isolated_of_scope fun scope hscope => topOf_ofOwner hscope hmoney _ _
  | productsSlow query => exact isolated_of_scope fun scope hscope => slowOf_ofOwner hscope hmoney _ _
  | productTrend productId query granularity =>
    exact productTrend_ofOwner productId query granularity
  | profit query granularity =>
    exact isolated_of_scope fun scope hscope => profitOf_ofOwner hscope hmoney _
  | leaks query =>
    exact isolated_of_scope fun scope hscope => leaksOf_ofOwner hdb hmoney hscope
  | inventoryMovements query => exact movements_ofOwner hdb hmoney localeCompare query
  | inventoryShrinkage query =>
    exact isolated_of_scope fun scope hscope => shrinkageOf_ofOwner hwithin hscope
  | inventoryOnHand query =>
    exact isolated_of_scope fun scope hscope => onHandOf_ofOwner hdb hwithin hscope
  | tax query => exact isolated_of_scope fun scope hscope => taxOf_ofOwner hscope

end ReportRequest

namespace Cafe

/-- The coffee that is left. -/
def leftCoffee : BranchStock where
  branchId := 20
  productId := 50
  variantId := none
  id := 70
  qty := 1500
  deletedAt := none

def stocking : InventoryDatabase where
  toDatabase := costing
  discountKind := fun _ => .percent
  shifts := []
  terminals := []
  notifications := []
  branchStock := [leftCoffee]
  lowStockThreshold := fun _ => some 2000
  productCost := fun _ => some 40
  variantCost := fun _ => none

/-- The same with the rows of another owner, who sells tea. -/
def neighboured : InventoryDatabase :=
  { stocking with
    businesses := [business, { business with id := 11, ownerId := 2, name := "Tea house" }]
    branches := [{ branch with id := 21, businessId := 11 }, branch]
    products := [coffee, { coffee with id := 51, businessId := 11, name := "Tea" }]
    sales := [{ soldCups with id := 8, branchId := 21 }, soldCups]
    saleLines := [{ cups with saleId := 8, productId := some 51, nameSnapshot := "Tea" }, cups]
    branchStock := [{ leftCoffee with id := 71, branchId := 21, productId := 51 }, leftCoffee]
    productCost := fun id => if id = 50 then some 40 else some 90 }

theorem stocking_within : stocking.StaysWithin 1 where
  product_category := by decide
  sale_discount := by decide
  line_discount := by decide
  line_product := by decide
  movement_product := by decide
  movement_variant := by decide
  shift_terminal := by decide
  stock_product := by decide
  stock_variant := by decide

theorem neighboured_valid : neighboured.Valid where
  businesses := by decide
  branches := by decide
  products := by decide
  variants := by decide
  movements := by decide
  movement_branch := by decide
  movement_product := by decide

theorem neighboured_within : neighboured.StaysWithin 1 where
  product_category := by decide
  sale_discount := by decide
  line_discount := by decide
  line_product := by decide
  movement_product := by decide
  movement_variant := by decide
  shift_terminal := by decide
  stock_product := by decide
  stock_variant := by decide

theorem ofOwner_neighboured : neighboured.ofOwner 1 = stocking.ofOwner 1 := by
  have hproduct : neighboured.hasProduct 1 = stocking.hasProduct 1 := by
    funext id
    unfold Database.hasProduct
    simp [neighboured, stocking, costing, coffee, Database.hasBusiness, business, selling, database]
  have hcost : (fun id => if stocking.hasProduct 1 id then neighboured.productCost id else none)
      = fun id => if stocking.hasProduct 1 id then stocking.productCost id else none := by
    funext id
    by_cases hid : id = 50
    . rw [hid]
      rfl
    . have hother : stocking.hasProduct 1 id = false := by
        simp [stocking, costing, coffee, Database.hasProduct, Ne.symm hid]
      rw [hother]
      rfl
  unfold InventoryDatabase.ofOwner DashboardDatabase.ofOwner LeaksDatabase.ofOwner
  rw [hproduct, hcost]
  rfl

end Cafe

end SentryPos.Analytics
