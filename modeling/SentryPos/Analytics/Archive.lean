import SentryPos.Analytics.Reports

/-!
This module contains what archiving a row of the catalogue or a branch does to the money reports.
-/

namespace SentryPos.Analytics

open Grouping

structure Reports where
  overview : OverviewReport
  heatmap : List HeatmapDay
  trend : List TrendBucket
  patterns : PatternsReport
  breakdowns : BreakdownsReport
  profit : ProfitReport
  tax : TaxReport

def reportsOf (db : Database) (scope : ResolvedScope) (granularity : Granularity) : Reports where
  overview := overviewOf db scope
  heatmap := heatmapOf db scope
  trend := trendOf db scope granularity
  patterns := patternsOf db scope
  breakdowns := breakdownsOf db scope
  profit := profitOf db scope granularity
  tax := taxOf db scope

def reports (db : Database) (ownerId : Uuid) (query : AnalyticsQueryDto)
    (granularity : Option Granularity) : Except ApiError Reports := do
  let scope ← resolve db ownerId query
  return reportsOf db scope (granularity.getD .day)

/-- A row that is archived: soft-deleted, or taken out of use. -/
inductive Archive where
  | product (id : Uuid)
  | inactiveProduct (id : Uuid)
  | category (id : Uuid)
  | discount (id : Uuid)
  | inactiveDiscount (id : Uuid)
  | modifierGroup (id : Uuid)
  | branch (id : Uuid)

def Database.archiveBranch (db : Database) (id : Uuid) (now : DateTime) : Database :=
  { db with
    branches := Table.modify (·.id) db.branches id fun b => { b with deletedAt := some now } }

def Archive.apply (now : DateTime) (db : Database) : Archive → Database
  | .product id =>
    { db with
      products := Table.modify (·.id) db.products id fun p => { p with deletedAt := some now } }
  | .inactiveProduct id =>
    { db with products := Table.modify (·.id) db.products id fun p => { p with active := false } }
  | .category id =>
    { db with
      categories := Table.modify (·.id) db.categories id fun c => { c with deletedAt := some now } }
  | .discount id =>
    { db with
      discounts := Table.modify (·.id) db.discounts id fun d => { d with deletedAt := some now } }
  | .inactiveDiscount id =>
    { db with discounts := Table.modify (·.id) db.discounts id fun d => { d with active := false } }
  | .modifierGroup id =>
    { db with
      modifierGroups :=
        Table.modify (·.id) db.modifierGroups id fun g => { g with deletedAt := some now } }
  | .branch id => db.archiveBranch id now

def Database.withoutSales (db : Database) (branchId : Uuid) : Database :=
  { db with sales := db.sales.filter fun s => s.branchId ≠ branchId }

structure SameJoins (db db' : Database) : Prop where
  saleLines : db'.saleLines = db.saleLines
  salePayments : db'.salePayments = db.salePayments
  names : branchNames db' = branchNames db
  categories : categoriesOf db' = categoriesOf db

inductive SameSales (db db' : Database) : ScopedBusiness → ScopedBusiness → Prop where
  | intro {b : ScopedBusiness} {branchIds : List Uuid}
    (h : ∀ fromUtc toUtc,
      salesInWindow db' branchIds fromUtc toUtc = salesInWindow db b.branchIds fromUtc toUtc)
    : SameSales db db' b { b with branchIds }

def NoSales (db : Database) (b : ScopedBusiness) : Prop :=
  ∀ fromUtc toUtc, salesInWindow db b.branchIds fromUtc toUtc = []

section Same

variable {db db' : Database} {b b' : ScopedBusiness} (hdb : SameJoins db db')
  (h : SameSales db db' b b')

include h

theorem SameSales.aggregate (fromUtc toUtc : ℤ)
    : salesAggregateSql db' b' fromUtc toUtc = salesAggregateSql db b fromUtc toUtc := by
  obtain ⟨hsales⟩ := h
  unfold salesAggregateSql
  rw [hsales]

theorem SameSales.sales : b'.sales db' = b.sales db := by
  obtain ⟨hsales⟩ := h
  unfold ScopedBusiness.sales completedSales
  rw [hsales]

theorem SameSales.tallyBy {κ : Type} [DecidableEq κ] (key : Sale → κ)
    : tallyBy key db' b' = tallyBy key db b := by
  unfold Analytics.tallyBy
  rw [h.sales]

theorem SameSales.dayStart : b'.dayStartMinutes = b.dayStartMinutes := by
  obtain ⟨_⟩ := h
  rfl

theorem SameSales.windows : b'.window = b.window ∧ b'.previousWindow = b.previousWindow := by
  obtain ⟨_⟩ := h
  exact ⟨rfl, rfl⟩

theorem SameSales.dayBucket : dayBucketExpr b' = dayBucketExpr b := by
  unfold dayBucketExpr
  rw [h.dayStart]

theorem SameSales.heatmap : heatmapSql db' b' = heatmapSql db b := by
  unfold heatmapSql
  rw [h.dayBucket, h.tallyBy]

theorem SameSales.bucket (granularity : Granularity)
    : bucketExpr b' granularity = bucketExpr b granularity := by
  unfold bucketExpr
  rw [h.dayBucket]

theorem SameSales.trendSales (granularity : Granularity)
    : trendSalesSql granularity db' b' = trendSalesSql granularity db b := by
  unfold trendSalesSql
  rw [h.bucket, h.tallyBy]

theorem SameSales.hours : hourPatternSql db' b' = hourPatternSql db b :=
  h.tallyBy hourOf

theorem SameSales.days : dowPatternSql db' b' = dowPatternSql db b := by
  have hday : dayOfWeek b' = dayOfWeek b := by
    unfold dayOfWeek
    rw [h.dayBucket]
  unfold dowPatternSql
  rw [hday, h.tallyBy]

theorem SameSales.orderTypes : orderTypeBreakdownSql db' b' = orderTypeBreakdownSql db b :=
  h.tallyBy _

theorem SameSales.tax : taxSummarySql db' b' = taxSummarySql db b := by
  unfold taxSummarySql
  rw [h.sales]

include hdb

theorem SameSales.linesOf (fromUtc toUtc : ℤ)
    : completedLines db' b'.branchIds fromUtc toUtc = completedLines db b.branchIds fromUtc toUtc := by
  obtain ⟨hsales⟩ := h
  unfold completedLines completedSales
  rw [hsales, hdb.saleLines]

theorem SameSales.lineAggregate (fromUtc toUtc : ℤ)
    : lineAggregateSql db' b' fromUtc toUtc = lineAggregateSql db b fromUtc toUtc := by
  unfold lineAggregateSql
  rw [h.linesOf hdb]

theorem SameSales.lines : b'.lines db' = b.lines db := by
  obtain ⟨hsales⟩ := h
  exact SameSales.linesOf hdb (.intro hsales) _ _

theorem SameSales.trendLines (granularity : Granularity)
    : trendLinesSql granularity db' b' = trendLinesSql granularity db b := by
  unfold trendLinesSql
  rw [h.bucket, h.lines hdb]

theorem SameSales.payments : paymentBreakdownSql db' b' = paymentBreakdownSql db b := by
  unfold paymentBreakdownSql salePayments
  rw [h.sales, hdb.salePayments]

theorem SameSales.branches : branchBreakdownSql db' b' = branchBreakdownSql db b := by
  unfold branchBreakdownSql
  rw [h.sales, hdb.names]

theorem SameSales.productLines : productLines db' b' = productLines db b := by
  unfold Analytics.productLines
  rw [h.lines hdb]

theorem SameSales.products : productSalesSql db' b' = productSalesSql db b := by
  unfold productSalesSql
  rw [h.productLines hdb]

theorem SameSales.categories : categorySalesSql db' b' = categorySalesSql db b := by
  unfold categorySalesSql
  rw [h.productLines hdb, hdb.categories]

end Same

section Nothing

variable {db : Database} {b : ScopedBusiness} (h : NoSales db b)

include h

theorem NoSales.sales : b.sales db = [] := by
  unfold ScopedBusiness.sales completedSales
  rw [h]
  rfl

theorem NoSales.linesOf (fromUtc toUtc : ℤ) : completedLines db b.branchIds fromUtc toUtc = [] := by
  unfold completedLines completedSales
  rw [h]
  simp

theorem NoSales.lines : b.lines db = [] :=
  h.linesOf _ _

theorem NoSales.tallyBy {κ : Type} [DecidableEq κ] (key : Sale → κ)
    : tallyBy key db b = [] := by
  unfold Analytics.tallyBy
  rw [h.sales]
  rfl

theorem NoSales.addRows (into : Totals) (fromUtc toUtc : ℤ)
    : addRows into (salesAggregateSql db b fromUtc toUtc) (lineAggregateSql db b fromUtc toUtc)
        = into := by
  unfold salesAggregateSql lineAggregateSql
  rw [h, h.linesOf]
  cases into
  simp [Analytics.addRows, aggregateLines]

theorem NoSales.trendLines (granularity : Granularity) : trendLinesSql granularity db b = [] := by
  unfold trendLinesSql
  rw [h.lines]
  rfl

theorem NoSales.payments : paymentBreakdownSql db b = [] := by
  have hpayments : salePayments db b = [] := by
    unfold salePayments
    rw [h.sales]
    simp
  unfold paymentBreakdownSql
  rw [hpayments]
  rfl

theorem NoSales.branches : branchBreakdownSql db b = [] := by
  unfold branchBreakdownSql
  rw [h.sales]
  exact List.mergeSort_nil

theorem NoSales.productLines : productLines db b = [] := by
  unfold Analytics.productLines
  rw [h.lines]
  rfl

theorem NoSales.products : productSalesSql db b = [] := by
  unfold productSalesSql
  rw [h.productLines]
  rfl

theorem NoSales.categories : categorySalesSql db b = [] := by
  unfold categorySalesSql
  rw [h.productLines]
  rfl

theorem NoSales.tax : taxSummarySql db b = .zero := by
  unfold taxSummarySql
  rw [h.sales]
  rfl

end Nothing

structure Reports.SameFigures (r r' : Reports) : Prop where
  overview : r'.overview = r.overview
  heatmap : r'.heatmap = r.heatmap
  trend : r'.trend = r.trend
  patterns : r'.patterns = r.patterns
  breakdowns : r'.breakdowns = r.breakdowns
  profit : r'.profit = r.profit
  taxDates : r'.tax.fromDate = r.tax.fromDate ∧ r'.tax.toDate = r.tax.toDate
  taxTotals : r'.tax.totals = r.tax.totals
  taxBusinesses : Thinned (fun row row' => row' = row) (fun row => row.toTaxRow = .zero)
    r.tax.businesses r'.tax.businesses

section Scopes

variable {db db' : Database} {scope scope' : ResolvedScope}

structure SameScope (db db' : Database) (scope scope' : ResolvedScope) : Prop where
  fromDate : scope'.fromDate = scope.fromDate
  toDate : scope'.toDate = scope.toDate
  businesses : Thinned (SameSales db db') (NoSales db) scope.businesses scope'.businesses

variable (hdb : SameJoins db db') (h : SameScope db db' scope scope')

include h

theorem SameScope.days : scope'.days = scope.days := by
  unfold ResolvedScope.days
  rw [h.fromDate, h.toDate]

theorem SameScope.foldl {γ ρ : Type} {query : Database → ScopedBusiness → ρ} {nothing : ρ}
    (add : γ → ρ → γ) (hsame : ∀ b b', SameSales db db' b b' → query db' b' = query db b)
    (hnone : ∀ b, NoSales db b → query db b = nothing) (hadd : ∀ c, add c nothing = c) (c : γ)
    : scope'.businesses.foldl (fun c b => add c (query db' b)) c
        = scope.businesses.foldl (fun c b => add c (query db b)) c := by
  apply h.businesses.foldl
  . intro b b' hb c
    rw [hsame b b' hb]
  . intro b hb c
    rw [hnone b hb, hadd]

theorem SameScope.heatmap : heatmapOf db' scope' = heatmapOf db scope := by
  have hsales := h.foldl (fun m rows => addTallies m (keyed rows))
    (fun b b' hb => hb.heatmap) (fun b hb => hb.tallyBy (dayBucketExpr b)) (fun _ => rfl) []
  unfold heatmapOf
  rw [h.days, hsales]

theorem SameScope.patterns : patternsOf db' scope' = patternsOf db scope := by
  have hhours := h.foldl addAt (fun b b' hb => hb.hours) (fun b hb => hb.tallyBy hourOf)
    (fun _ => rfl) (List.replicate 24 .zero)
  have hdays := h.foldl addAt (fun b b' hb => hb.days)
    (fun b hb => hb.tallyBy (dayOfWeek b)) (fun _ => rfl) (List.replicate 7 .zero)
  unfold patternsOf
  rw [hhours, hdays]

theorem SameScope.taxTotals : (taxOf db' scope').totals = (taxOf db scope).totals := by
  apply h.foldl TaxRow.add (fun b b' hb => hb.tax) fun b hb => hb.tax
  intro totals
  cases totals
  simp [TaxRow.add, TaxRow.zero]

theorem SameScope.taxBusinesses
    : Thinned (fun row row' => row' = row) (fun row => row.toTaxRow = .zero)
        (taxOf db scope).businesses (taxOf db' scope').businesses := by
  apply h.businesses.map
  . intro b b' hb
    have htax := hb.tax
    obtain ⟨_⟩ := hb
    unfold taxRow
    rw [htax]
  . intro b hb
    exact hb.tax

include hdb

theorem SameScope.overview : overviewOf db' scope' = overviewOf db scope := by
  have htotals : ∀ window : ScopedBusiness → ℤ × ℤ,
      (∀ b b', SameSales db db' b b' → window b' = window b) →
        totalsOf db' window scope'.businesses = totalsOf db window scope.businesses := by
    intro window hwindow
    apply h.businesses.foldl
    . intro b b' hb into
      rw [hwindow b b' hb, hb.aggregate, hb.lineAggregate hdb]
    . intro b hb into
      exact hb.addRows into _ _
  unfold overviewOf
  rw [h.fromDate, h.toDate, htotals _ fun b b' hb => hb.windows.1,
    htotals _ fun b b' hb => hb.windows.2]

theorem SameScope.trend (granularity : Granularity)
    : trendOf db' scope' granularity = trendOf db scope granularity := by
  have hsales := h.foldl (fun m rows => addTallies m (keyed rows))
    (fun b b' hb => hb.trendSales granularity) (fun b hb => hb.tallyBy (bucketExpr b granularity))
    (fun _ => rfl) []
  have hprofit := h.foldl (fun m rows => addProfits m (keyed rows))
    (fun b b' hb => hb.trendLines hdb granularity) (fun b hb => hb.trendLines granularity)
    (fun _ => rfl) []
  unfold trendOf
  rw [hsales, hprofit]

theorem SameScope.breakdowns : breakdownsOf db' scope' = breakdownsOf db scope := by
  have hpayments := h.foldl addTallies (fun b b' hb => hb.payments hdb) (fun b hb => hb.payments)
    (fun _ => rfl) []
  have horders := h.foldl addTallies (fun b b' hb => hb.orderTypes)
    (fun b hb => hb.tallyBy (·.orderType)) (fun _ => rfl) []
  have hbranches := h.foldl (fun rows rows' : List BranchSalesRow => rows ++ rows')
    (fun b b' hb => hb.branches hdb) (fun b hb => hb.branches) List.append_nil []
  unfold breakdownsOf
  rw [hpayments, horders, hbranches]

theorem SameScope.profit (granularity : Granularity)
    : profitOf db' scope' granularity = profitOf db scope granularity := by
  have hbuckets := h.foldl (fun m rows => addOverTime m (keyed rows))
    (fun b b' hb => hb.trendLines hdb granularity) (fun b hb => hb.trendLines granularity)
    (fun _ => rfl) []
  have hproducts := h.foldl addProducts (fun b b' hb => hb.products hdb) (fun b hb => hb.products)
    (fun _ => rfl) []
  have hcategories := h.foldl addCategories (fun b b' hb => hb.categories hdb)
    (fun b hb => hb.categories) (fun _ => rfl) []
  have hrevenue : scope'.businesses.foldl
        (fun totals b => addRevenue totals (lineAggregateSql db' b b.fromUtc b.toUtc)) (0, 0)
      = scope.businesses.foldl
        (fun totals b => addRevenue totals (lineAggregateSql db b b.fromUtc b.toUtc)) (0, 0) := by
    apply h.businesses.foldl
    . intro b b' hb totals
      have haggregate := hb.lineAggregate hdb
      obtain ⟨_⟩ := hb
      rw [haggregate]
    . intro b hb totals
      unfold lineAggregateSql
      rw [hb.linesOf]
      simp [addRevenue, aggregateLines]
  unfold profitOf
  rw [hbuckets, hproducts, hcategories, hrevenue, h.fromDate, h.toDate, h.days]

theorem SameScope.figures (granularity : Granularity)
    : (reportsOf db scope granularity).SameFigures (reportsOf db' scope' granularity) where
  overview := h.overview hdb
  heatmap := h.heatmap
  trend := h.trend hdb granularity
  patterns := h.patterns
  breakdowns := h.breakdowns hdb
  profit := h.profit hdb granularity
  taxDates := ⟨h.fromDate, h.toDate⟩
  taxTotals := h.taxTotals
  taxBusinesses := h.taxBusinesses

end Scopes

section Branch

variable {db : Database} {now : DateTime} {id ownerId : Uuid} {query : AnalyticsQueryDto}

theorem sameJoins_archiveBranch : SameJoins (db.withoutSales id) (db.archiveBranch id now) where
  saleLines := rfl
  salePayments := rfl
  names := by
    funext branchId
    unfold branchNames Database.archiveBranch Database.withoutSales
    dsimp only
    rw [Table.filter_modify, Table.map_modify]
    . intro _
      rfl
    . intro _
      rfl
  categories := rfl

theorem scopeBranches_archiveBranch
    : (db.archiveBranch id now).scopeBranches ownerId query
        = (db.scopeBranches ownerId query).filter fun b => b.id ≠ id := by
  have hown : (db.archiveBranch id now).ownBranches ownerId
      = (db.ownBranches ownerId).filter fun b => b.id ≠ id := by
    unfold Database.ownBranches Database.archiveBranch
    dsimp only
    rw [Table.filter_modify_of_not]
    . rfl
    . intro b
      simp
  unfold Database.scopeBranches
  rw [hown, List.filter_filter, List.filter_filter]
  apply List.filter_congr
  intro b _
  rw [Bool.and_comm]
  rfl

theorem scopeBranches_named (h : query.branchId = some id)
    : (db.archiveBranch id now).scopeBranches ownerId query = [] := by
  rw [scopeBranches_archiveBranch, List.filter_eq_nil_iff]
  intro b hb
  unfold Database.scopeBranches at hb
  rw [List.mem_filter, h] at hb
  have hid : b.id = id := by
    simpa using (Bool.and_eq_true_iff.mp hb.2).2
  simp [hid]

theorem scopeBranches_other {other : Uuid} (h : query.branchId = some other) (hne : other ≠ id)
    : (db.archiveBranch id now).scopeBranches ownerId query = db.scopeBranches ownerId query := by
  rw [scopeBranches_archiveBranch, List.filter_eq_self]
  intro b hb
  unfold Database.scopeBranches at hb
  rw [List.mem_filter, h] at hb
  have hid : b.id = other := by
    simpa using (Bool.and_eq_true_iff.mp hb.2).2
  rw [decide_eq_true_eq, hid]
  exact hne

theorem salesInWindow_archiveBranch (branchIds : List Uuid) (fromUtc toUtc : ℤ)
    : salesInWindow (db.archiveBranch id now) (branchIds.filter fun branchId => branchId ≠ id)
          fromUtc toUtc
        = salesInWindow (db.withoutSales id) branchIds fromUtc toUtc := by
  unfold salesInWindow Database.archiveBranch Database.withoutSales
  dsimp only
  rw [List.filter_filter]
  apply List.filter_congr
  intro s _
  unfold inWindow
  rw [Bool.eq_iff_iff]
  simp only [Bool.and_eq_true, List.contains_iff_mem, List.mem_filter, decide_eq_true_eq]
  tauto

theorem thinned_withBranches {m n : ℤ} (businesses : List Business) (branches : List Branch)
    : Thinned (SameSales (db.withoutSales id) (db.archiveBranch id now)) (NoSales (db.withoutSales id))
        ((withBranches businesses branches).map fun x => windowsOf m n x.1 x.2)
        ((withBranches businesses (branches.filter fun b => b.id ≠ id)).map
          fun x => windowsOf m n x.1 x.2) := by
  unfold withBranches
  induction businesses with
  | nil => exact .nil
  | cons business businesses ih =>
    have hids : (((branches.filter fun b => b.id ≠ id).filter (·.businessId = business.id)).map (·.id))
        = ((branches.filter (·.businessId = business.id)).map (·.id)).filter
          fun branchId => branchId ≠ id := by
      rw [List.filter_map, List.filter_filter, List.filter_filter]
      congr 1
      apply List.filter_congr
      intro b _
      rw [Bool.and_comm]
      rfl
    rw [List.filterMap_cons, List.filterMap_cons]
    dsimp only
    rw [hids]
    generalize (branches.filter (·.businessId = business.id)).map (·.id) = branchIds
    by_cases hnone : branchIds = []
    . rw [hnone]
      exact ih
    . have hsome : branchIds.isEmpty = false := by
        simpa using hnone
      rw [hsome]
      by_cases hleft : branchIds.filter (fun branchId => branchId ≠ id) = []
      . rw [hleft]
        apply Thinned.drop _ ih
        intro fromUtc toUtc
        have hsales : salesInWindow (db.archiveBranch id now) _ fromUtc toUtc = _ :=
          salesInWindow_archiveBranch branchIds fromUtc toUtc
        rw [hleft] at hsales
        change salesInWindow (db.withoutSales id) branchIds fromUtc toUtc = []
        rw [← hsales]
        unfold salesInWindow inWindow
        simp
      . have hsome' : (branchIds.filter fun branchId => branchId ≠ id).isEmpty = false := by
          simpa using hleft
        rw [hsome']
        apply Thinned.keep _ ih
        exact .intro (salesInWindow_archiveBranch branchIds)

end Branch

section Catalogue

variable {db db' : Database}

theorem reportsOf_eq (hdb : SameJoins db db') (hsales : db'.sales = db.sales) (scope : ResolvedScope)
    (granularity : Granularity) : reportsOf db' scope granularity = reportsOf db scope granularity := by
  have hsame : ∀ b, SameSales db db' b b := by
    intro b
    apply @SameSales.intro db db' b b.branchIds
    intro fromUtc toUtc
    unfold salesInWindow
    rw [hsales]
  have hscope : SameScope db db' scope scope := ⟨rfl, rfl, .refl fun b _ => hsame b⟩
  have htax : taxOf db' scope = taxOf db scope := by
    have hrow : taxRow db' = taxRow db := by
      funext b
      unfold taxRow
      rw [(hsame b).tax]
    have htotals := hscope.taxTotals
    unfold taxOf at htotals ⊢
    rw [hrow]
    dsimp only at htotals
    rw [htotals]
  unfold reportsOf
  rw [hscope.overview hdb, hscope.heatmap, hscope.trend hdb, hscope.patterns, hscope.breakdowns hdb,
    hscope.profit hdb, htax]

theorem categoriesOf_products {id : Uuid} {f : Product → Product} (hid : ∀ p, (f p).id = p.id)
    (hcategory : ∀ p, (f p).categoryId = p.categoryId)
    : categoriesOf { db with products := Table.modify (·.id) db.products id f } = categoriesOf db := by
  funext productId
  unfold categoriesOf
  dsimp only
  rw [Table.filter_modify fun p => by rw [hid], List.flatMap_def, List.flatMap_def, Table.map_modify]
  intro p
  rw [hcategory]

theorem categoriesOf_categories {id : Uuid} {now : DateTime}
    : categoriesOf { db with
        categories := Table.modify (·.id) db.categories id fun c => { c with deletedAt := some now } }
        = categoriesOf db := by
  funext productId
  unfold categoriesOf
  dsimp only
  congr 1
  funext p
  rw [Table.filter_modify, Table.map_modify]
  . intro _
    rfl
  . intro _
    rfl

end Catalogue

inductive SameOutcome : Except ApiError Reports → Except ApiError Reports → Prop where
  | error (e : ApiError) : SameOutcome (.error e) (.error e)
  | ok {r r' : Reports} (h : r.SameFigures r') : SameOutcome (.ok r) (.ok r')

/-- What archiving a row does to the outcome of a query. -/
def Archive.Effect (now : DateTime) (db : Database) (ownerId : Uuid) (query : AnalyticsQueryDto)
    (granularity : Option Granularity) (a : Archive) : Prop :=
  match a with
  | .branch id =>
    if query.branchId = some id then
      reports (a.apply now db) ownerId query granularity
        = (reports db ownerId query granularity).bind fun _ => .error (.notFound "Branch not found.")
    else
      SameOutcome (reports (db.withoutSales id) ownerId query granularity)
        (reports (a.apply now db) ownerId query granularity)
  | _ => reports (a.apply now db) ownerId query granularity = reports db ownerId query granularity

section Effect

variable {db db' : Database} {ownerId : Uuid} {query : AnalyticsQueryDto}
  {granularity : Option Granularity}

theorem reports_eq (hdb : SameJoins db db') (hsales : db'.sales = db.sales)
    (hresolve : resolve db' ownerId query = resolve db ownerId query)
    : reports db' ownerId query granularity = reports db ownerId query granularity := by
  unfold reports
  rw [hresolve]
  cases resolve db ownerId query with
  | error e => rfl
  | ok scope =>
    simp only [bind, Except.bind, pure, Except.pure]
    rw [reportsOf_eq hdb hsales]

variable {id : Uuid} {now : DateTime}

theorem resolve_named (h : query.branchId = some id)
    : resolve (db.archiveBranch id now) ownerId query
        = (resolve db ownerId query).bind fun _ => .error (.notFound "Branch not found.") := by
  obtain ⟨m, hm⟩ := dayOf_of_isSome query.from_matches
  obtain ⟨n, hn⟩ := dayOf_of_isSome query.to_matches
  have hbusinesses : (db.archiveBranch id now).scopeBusinesses ownerId query
      = db.scopeBusinesses ownerId query := rfl
  rw [resolve_eq _ ownerId hm hn, resolve_eq db ownerId hm hn, hbusinesses, scopeBranches_named h, h]
  split
  . rfl
  . split
    . rfl
    . split
      . rfl
      . split
        . rfl
        . have hnone : ((some id).isSome && ([] : List Branch).isEmpty) = true := rfl
          rw [if_pos hnone]
          split
          . rfl
          . rfl

theorem resolve_unnamed (h : query.branchId ≠ some id)
    : (∃ e, resolve (db.withoutSales id) ownerId query = .error e
          ∧ resolve (db.archiveBranch id now) ownerId query = .error e)
        ∨ ∃ scope scope', resolve (db.withoutSales id) ownerId query = .ok scope
          ∧ resolve (db.archiveBranch id now) ownerId query = .ok scope'
          ∧ SameScope (db.withoutSales id) (db.archiveBranch id now) scope scope' := by
  obtain ⟨m, hm⟩ := dayOf_of_isSome query.from_matches
  obtain ⟨n, hn⟩ := dayOf_of_isSome query.to_matches
  have hbusinesses : (db.archiveBranch id now).scopeBusinesses ownerId query
      = (db.withoutSales id).scopeBusinesses ownerId query := rfl
  have hbranches : (query.branchId.isSome
        && ((db.archiveBranch id now).scopeBranches ownerId query).isEmpty)
      = (query.branchId.isSome && ((db.withoutSales id).scopeBranches ownerId query).isEmpty) := by
    cases hbranch : query.branchId with
    | none => rfl
    | some other =>
      have hne : other ≠ id := by
        rintro rfl
        exact h hbranch
      rw [scopeBranches_other hbranch hne]
      rfl
  rw [resolve_eq _ ownerId hm hn, resolve_eq _ ownerId hm hn, hbusinesses, hbranches]
  split
  . exact .inl ⟨_, rfl, rfl⟩
  . split
    . exact .inl ⟨_, rfl, rfl⟩
    . split
      . exact .inl ⟨_, rfl, rfl⟩
      . split
        . exact .inl ⟨_, rfl, rfl⟩
        . split
          . exact .inl ⟨_, rfl, rfl⟩
          . refine .inr ⟨_, _, rfl, rfl, rfl, rfl, ?_⟩
            unfold scopeOf
            dsimp only
            rw [scopeBranches_archiveBranch]
            exact thinned_withBranches _ _

/--
Archiving a row of the catalogue changes no report. Archiving a branch takes its sales out of them,
and the reports of the branch itself are refused.
-/
theorem archive_effect (now : DateTime) (db : Database) (ownerId : Uuid) (query : AnalyticsQueryDto)
    (granularity : Option Granularity) (a : Archive) : a.Effect now db ownerId query granularity := by
  cases a with
  | product id =>
    exact reports_eq ⟨rfl, rfl, rfl, categoriesOf_products (fun _ => rfl) fun _ => rfl⟩ rfl rfl
  | inactiveProduct id =>
    exact reports_eq ⟨rfl, rfl, rfl, categoriesOf_products (fun _ => rfl) fun _ => rfl⟩ rfl rfl
  | category id => exact reports_eq ⟨rfl, rfl, rfl, categoriesOf_categories⟩ rfl rfl
  | discount id => exact reports_eq ⟨rfl, rfl, rfl, rfl⟩ rfl rfl
  | inactiveDiscount id => exact reports_eq ⟨rfl, rfl, rfl, rfl⟩ rfl rfl
  | modifierGroup id => exact reports_eq ⟨rfl, rfl, rfl, rfl⟩ rfl rfl
  | branch id =>
    unfold Archive.Effect
    dsimp only
    split
    . next hnamed =>
      change reports (db.archiveBranch id now) ownerId query granularity = _
      unfold reports
      rw [resolve_named hnamed]
      cases resolve db ownerId query with
      | error e => rfl
      | ok scope => rfl
    . next hunnamed =>
      change SameOutcome _ (reports (db.archiveBranch id now) ownerId query granularity)
      unfold reports
      cases resolve_unnamed hunnamed with
      | inl herror =>
        obtain ⟨e, hbefore, hafter⟩ := herror
        rw [hbefore, hafter]
        exact .error e
      | inr hok =>
        obtain ⟨scope, scope', hbefore, hafter, hscope⟩ := hok
        rw [hbefore, hafter]
        exact .ok (hscope.figures sameJoins_archiveBranch _)

end Effect

namespace Cafe

def soldCups : Sale where
  id := 7
  branchId := 20
  terminalId := 30
  shiftId := some 40
  receiptNo := "T1-000001"
  orderType := .takeout
  status := .completed
  statusReason := none
  subtotal := 200
  discount := 0
  discountId := none
  serviceCharge := 0
  scPwd := none
  scPwdDiscount := 0
  vatExemptSales := 0
  tax := 0
  total := 200
  createdAtDevice := 1772424000000
  syncedAt := none
  voidedAt := none
  refundedAt := none
  refundShiftId := none
  draft := SentryPos.Cafe.sale
  createdAt := 1772424000000
  deletedAt := none

def selling : Database :=
  { database with sales := [soldCups] }

def inMarch : AnalyticsQueryDto where
  businessId := none
  branchId := none
  fromDate := ['2', '0', '2', '6', '-', '0', '3', '-', '0', '2']
  toDate := ['2', '0', '2', '6', '-', '0', '3', '-', '0', '6']
  from_matches := by decide
  to_matches := by decide

end Cafe

/-- A branch that is archived takes its sales with it. -/
theorem archived_branch_drops_sales
    : ¬ ∀ (now : DateTime) (db : Database) (ownerId : Uuid) (query : AnalyticsQueryDto)
          (granularity : Option Granularity) (a : Archive), query.branchId = none →
            (reports (a.apply now db) ownerId query granularity).map (·.overview.grossSalesC.value)
              = (reports db ownerId query granularity).map (·.overview.grossSalesC.value) := by
  intro hall
  have hfigure := hall 1775000000000 Cafe.selling 1 Cafe.inMarch none (.branch 20) rfl
  have hbefore : (reports Cafe.selling 1 Cafe.inMarch none).map (·.overview.grossSalesC.value)
      = .ok 200 := by
    decide +kernel
  have hafter : (reports ((Archive.branch 20).apply 1775000000000 Cafe.selling) 1 Cafe.inMarch none).map
      (·.overview.grossSalesC.value) = .ok 0 := by
    decide +kernel
  rw [hbefore, hafter] at hfigure
  cases hfigure

end SentryPos.Analytics
