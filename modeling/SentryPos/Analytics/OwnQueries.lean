import SentryPos.Analytics.OwnRows
import SentryPos.Analytics.ProductsReport

/-!
This module contains that the queries of the reports, each with its own joins and predicates, read no
rows of other owners.
-/

namespace SentryPos.Analytics

open Grouping

section Queries

variable {db : Database} {ownerId : Uuid} {b : ScopedBusiness} (hb : db.Admits ownerId b)

include hb

theorem sales_ofOwner : b.sales (db.ofOwner ownerId) = b.sales db :=
  completedSales_ofOwner hb.branches _ _

theorem lines_ofOwner : b.lines (db.ofOwner ownerId) = b.lines db :=
  completedLines_ofOwner hb.branches _ _

theorem hasBranch_of_sale {s : Sale} (hs : s ∈ b.sales db) : db.hasBranch ownerId s.branchId :=
  hb.branches s.branchId (mem_completedSales hs).2

theorem salesAggregateSql_ofOwner (fromUtc toUtc : ℤ)
    : salesAggregateSql (db.ofOwner ownerId) b fromUtc toUtc = salesAggregateSql db b fromUtc toUtc := by
  unfold salesAggregateSql
  rw [salesInWindow_ofOwner hb.branches]

theorem lineAggregateSql_ofOwner (fromUtc toUtc : ℤ)
    : lineAggregateSql (db.ofOwner ownerId) b fromUtc toUtc = lineAggregateSql db b fromUtc toUtc := by
  unfold lineAggregateSql
  rw [completedLines_ofOwner hb.branches]

theorem tallyBy_ofOwner {κ : Type} [DecidableEq κ] (key : Sale → κ)
    : tallyBy key (db.ofOwner ownerId) b = tallyBy key db b := by
  unfold tallyBy
  rw [sales_ofOwner hb]

theorem trendLinesSql_ofOwner (granularity : Granularity)
    : trendLinesSql granularity (db.ofOwner ownerId) b = trendLinesSql granularity db b := by
  unfold trendLinesSql
  rw [lines_ofOwner hb]

theorem paymentBreakdownSql_ofOwner
    : paymentBreakdownSql (db.ofOwner ownerId) b = paymentBreakdownSql db b := by
  have hpayments : salePayments (db.ofOwner ownerId) b = salePayments db b :=
    joinSales_ofOwner hb.branches _ _ (fun p : SalePayment => p.saleId)
      (fun p => p.deletedAt.isNone) db.salePayments
  unfold paymentBreakdownSql
  rw [hpayments]

theorem branchBreakdownSql_ofOwner (hdb : db.Valid)
    : branchBreakdownSql (db.ofOwner ownerId) b = branchBreakdownSql db b := by
  have hnames : ((b.sales db).flatMap fun s =>
      (branchNames (db.ofOwner ownerId) s.branchId).map fun name => (s, name))
        = (b.sales db).flatMap fun s => (branchNames db s.branchId).map fun name => (s, name) := by
    apply List.flatMap_congr
    intro s hs
    rw [branchNames_ofOwner hdb (hasBranch_of_sale hb hs)]
  unfold branchBreakdownSql
  rw [sales_ofOwner hb, hnames]

theorem productLines_ofOwner : productLines (db.ofOwner ownerId) b = productLines db b := by
  unfold productLines
  rw [lines_ofOwner hb]

theorem productSalesSql_ofOwner : productSalesSql (db.ofOwner ownerId) b = productSalesSql db b := by
  unfold productSalesSql
  rw [productLines_ofOwner hb]

theorem taxSummarySql_ofOwner : taxSummarySql (db.ofOwner ownerId) b = taxSummarySql db b := by
  unfold taxSummarySql
  rw [sales_ofOwner hb]

theorem miscLinesSql_ofOwner : miscLinesSql (db.ofOwner ownerId) b = miscLinesSql db b := by
  unfold miscLinesSql
  rw [lines_ofOwner hb]

theorem statusValueSql_ofOwner : statusValueSql (db.ofOwner ownerId) b = statusValueSql db b := by
  unfold statusValueSql
  rw [salesInWindow_ofOwner hb.branches]

theorem productTrendSql_ofOwner (productId : Uuid) (granularity : Granularity)
    : productTrendSql (db.ofOwner ownerId) productId granularity b
        = productTrendSql db productId granularity b := by
  unfold productTrendSql
  rw [lines_ofOwner hb]

theorem lineDiscounts_of_sale {s : Sale} (hs : s ∈ b.sales db)
    : lineDiscounts (db.ofOwner ownerId) s = lineDiscounts db s :=
  lineDiscounts_ofOwner (hasSale_of_completed hb.branches _ _ hs)

theorem discountTotalsSql_ofOwner
    : discountTotalsSql (db.ofOwner ownerId) b = discountTotalsSql db b := by
  have hlines : (b.sales db).map (lineDiscounts (db.ofOwner ownerId))
      = (b.sales db).map (lineDiscounts db) :=
    List.map_congr_left fun s hs => lineDiscounts_of_sale hb hs
  unfold discountTotalsSql
  rw [sales_ofOwner hb]
  dsimp only
  rw [hlines]

theorem movementWhere_ofOwner (filter : MovementFilter)
    : (db.ofOwner ownerId).movements.filter (movementWhere b filter)
        = db.movements.filter (movementWhere b filter) := by
  apply Table.filter_of_imp
  intro m hm h
  unfold movementWhere at h
  simp only [Bool.and_eq_true, List.contains_iff_mem] at h
  exact hb.branches m.branchId h.1.1.1.1.1

theorem movementsCountSql_ofOwner (filter : MovementFilter)
    : movementsCountSql (db.ofOwner ownerId) b filter = movementsCountSql db b filter := by
  unfold movementsCountSql
  rw [List.countP_eq_length_filter, List.countP_eq_length_filter, movementWhere_ofOwner hb]

theorem dashboardSparklineSql_ofOwner (fromUtc toUtc : ℤ)
    : dashboardSparklineSql (db.ofOwner ownerId) b fromUtc toUtc
        = dashboardSparklineSql db b fromUtc toUtc := by
  unfold dashboardSparklineSql
  rw [completedSales_ofOwner hb.branches]

section Within

variable (hwithin : db.StaysWithin ownerId)

include hwithin

/-- The product of a line of a report is the owner's. -/
theorem own_of_productLines {x : Uuid × Line} (hx : x ∈ productLines db b) {p : Product}
    (hp : p ∈ db.products) (hid : p.id = x.1)
    : db.hasBusiness ownerId p.businessId := by
  obtain ⟨line, hline, h⟩ := List.mem_filterMap.mp hx
  obtain ⟨id, hproduct, rfl⟩ := Option.map_eq_some_iff.mp h
  have hown := (own_of_completedLines hb.branches _ _ hline).1
  exact hwithin.line_product line.1 hown p hp (by rw [hproduct, hid])

theorem categorySalesSql_ofOwner : categorySalesSql (db.ofOwner ownerId) b = categorySalesSql db b := by
  have hcategories : ((productLines db b).flatMap fun x =>
      (categoriesOf (db.ofOwner ownerId) x.1).map fun c => (c, x.2))
        = (productLines db b).flatMap fun x => (categoriesOf db x.1).map fun c => (c, x.2) := by
    apply List.flatMap_congr
    intro x hx
    rw [categoriesOf_ofOwner hwithin fun p hp hid => own_of_productLines hb hwithin hx hp hid]
  unfold categorySalesSql
  rw [productLines_ofOwner hb, hcategories]

theorem zeroSalesSql_ofOwner : zeroSalesSql (db.ofOwner ownerId) b = zeroSalesSql db b := by
  have hunsold : isUnsold (db.ofOwner ownerId) b = isUnsold db b := by
    unfold isUnsold
    rw [lines_ofOwner hb]
  have hbusiness : ∀ p ∈ db.products, isUnsold db b p → db.hasBusiness ownerId p.businessId := by
    intro p hp h
    unfold isUnsold at h
    simp only [Bool.and_eq_true, decide_eq_true_eq] at h
    rw [h.1.1.1]
    exact hb.business
  have hproducts : (db.ofOwner ownerId).products.filter (isUnsold db b)
      = db.products.filter (isUnsold db b) := Table.filter_of_imp hbusiness
  unfold zeroSalesSql
  rw [hunsold, hproducts]
  congr 1
  apply List.flatMap_congr
  intro p hp
  rw [List.mem_filter] at hp
  rw [categories_ofOwner hwithin hp.1 (hbusiness p hp.1 hp.2)]

omit hb in
theorem movementRows_ofOwner (hdb : db.Valid) {m : Movement} (hm : m ∈ db.movements)
    (hbranch : db.hasBranch ownerId m.branchId)
    : movementRows (db.ofOwner ownerId) m = movementRows db m := by
  have hown : m ∈ (db.ofOwner ownerId).movements := List.mem_filter.mpr ⟨hm, hbranch⟩
  have hbranches : (db.ofOwner ownerId).branches.filter (·.id = m.branchId)
      = db.branches.filter (·.id = m.branchId) := by
    apply Table.filter_of_imp
    intro branch hmem h
    exact business_of_hasBranch hdb hbranch hmem (of_decide_eq_true h)
  have hvariants : (db.ofOwner ownerId).variants.filter (m.variantId = some ·.id)
      = db.variants.filter (m.variantId = some ·.id) := by
    apply Table.filter_of_imp
    intro v hv h
    exact hwithin.movement_variant m hown v hv (of_decide_eq_true h)
  have haudit : (db.ofOwner ownerId).auditLogs.find? (·.entityId = some m.id)
      = db.auditLogs.find? (·.entityId = some m.id) := by
    rw [← List.head?_filter, ← List.head?_filter]
    congr 1
    apply Table.filter_of_imp
    intro a ha h
    have hmovement : db.hasMovement ownerId m.id := by
      unfold Database.hasMovement
      rw [List.any_eq_true]
      refine ⟨m, hm, ?_⟩
      simp [hbranch]
    rw [of_decide_eq_true h]
    exact hmovement
  unfold movementRows
  rw [hbranches, products_ofOwner fun p hp hid => hwithin.movement_product m hown p hp hid, hvariants,
    haudit]

theorem movementsSql_ofOwner (hdb : db.Valid) (filter : MovementFilter) (limit : ℕ)
    : movementsSql (db.ofOwner ownerId) b filter limit = movementsSql db b filter limit := by
  unfold movementsSql
  rw [movementWhere_ofOwner hb]
  congr 1
  apply List.flatMap_congr
  intro m hm
  rw [List.mem_filter] at hm
  unfold movementWhere at hm
  simp only [Bool.and_eq_true, List.contains_iff_mem] at hm
  exact movementRows_ofOwner hwithin hdb hm.1 (hb.branches m.branchId hm.2.1.1.1.1.1)

end Within

end Queries

/-! The queries over more than the tables of the money. -/

section Leaks

variable {db : LeaksDatabase} {ownerId : Uuid}

theorem discountKind_ofOwner {d : Discount} (hd : d ∈ db.discounts)
    (hown : db.hasBusiness ownerId d.businessId)
    : (db.ofOwner ownerId).discountKind d.id = db.discountKind d.id := by
  have hdiscount : db.hasDiscount ownerId d.id := by
    unfold Database.hasDiscount
    rw [List.any_eq_true]
    refine ⟨d, hd, ?_⟩
    simp [hown]
  exact if_pos hdiscount

theorem toDatabase_ofOwner : (db.ofOwner ownerId).toDatabase = db.toDatabase.ofOwner ownerId := rfl

theorem namedDiscounts_ofOwner {α : Type} {discountId : α → Option Uuid} {amount amount' : α → ℤ}
    {rows : List α}
    (hown : ∀ r ∈ rows, ∀ d ∈ db.discounts, some d.id = discountId r →
      db.hasBusiness ownerId d.businessId)
    (hamount : ∀ r ∈ rows, amount' r = amount r)
    : namedDiscounts (db.ofOwner ownerId) discountId amount' rows
        = namedDiscounts db discountId amount rows := by
  let joined := rows.flatMap fun r => (discountsOf db.toDatabase (discountId r)).map fun d => (d, r)
  have hjoined : (rows.flatMap fun r =>
      (discountsOf (db.toDatabase.ofOwner ownerId) (discountId r)).map fun d => (d, r)) = joined := by
    apply List.flatMap_congr
    intro r hr
    rw [discountsOf_ofOwner (hown r hr)]
  have hmem : ∀ x ∈ joined,
      x.2 ∈ rows ∧ x.1 ∈ db.discounts ∧ db.hasBusiness ownerId x.1.businessId := by
    intro x hx
    obtain ⟨r, hr, hx⟩ := List.mem_flatMap.mp hx
    obtain ⟨d, hd, rfl⟩ := List.mem_map.mp hx
    have hdiscount := List.mem_filter.mp hd
    exact ⟨hr, hdiscount.1, hown r hr d hdiscount.1 (of_decide_eq_true hdiscount.2)⟩
  have hkeys : groupBy (fun x : Discount × α =>
      (x.1.id, x.1.name, (db.ofOwner ownerId).discountKind x.1.id)) joined
        = groupBy (fun x => (x.1.id, x.1.name, db.discountKind x.1.id)) joined :=
    groupBy_congr fun x hx => by rw [discountKind_ofOwner (hmem x hx).2.1 (hmem x hx).2.2]
  unfold namedDiscounts
  rw [toDatabase_ofOwner, hjoined]
  dsimp only
  rw [hkeys]
  apply List.map_congr_left
  intro g hg
  have hsum : g.2.map (amount' ·.2) = g.2.map (amount ·.2) := by
    apply List.map_congr_left
    intro x hx
    rw [(mem_groupBy.mp hg).2] at hx
    exact hamount x.2 (hmem x (List.mem_of_mem_filter hx)).1
  rw [hsum]

variable {b : ScopedBusiness} (hb : db.Admits ownerId b)

include hb

theorem lineDiscountsSql_ofOwner (hwithin : db.StaysWithin ownerId)
    : lineDiscountsSql (db.ofOwner ownerId) b = lineDiscountsSql db b := by
  unfold lineDiscountsSql
  rw [toDatabase_ofOwner, lines_ofOwner hb]
  apply namedDiscounts_ofOwner
  . intro line hline
    exact hwithin.line_discount line.1 (own_of_completedLines hb.branches _ _ hline).1
  . intro line hline
    rfl

theorem orderDiscountsSql_ofOwner (hwithin : db.StaysWithin ownerId)
    : orderDiscountsSql (db.ofOwner ownerId) b = orderDiscountsSql db b := by
  unfold orderDiscountsSql
  rw [toDatabase_ofOwner, sales_ofOwner hb]
  apply namedDiscounts_ofOwner
  . intro s hs
    apply hwithin.sale_discount s
    exact List.mem_filter.mpr ⟨(mem_completedSales hs).1, hasBranch_of_sale hb hs⟩
  . intro s hs
    rw [lineDiscounts_of_sale hb hs]

theorem overShortSql_ofOwner (hdb : db.Valid)
    : overShortSql (db.ofOwner ownerId) b = overShortSql db b := by
  let closedIn (sh : Shift) : Option (Shift × ℤ) := sh.closedAt.bind fun closedAt =>
    if b.branchIds.contains sh.branchId && sh.deletedAt.isNone
        && b.fromUtc ≤ closedAt && closedAt < b.toUtc then some (sh, closedAt)
    else none
  have hbranch : ∀ sh x, closedIn sh = some x → x.1 = sh ∧ db.hasBranch ownerId sh.branchId := by
    intro sh x hx
    obtain ⟨closedAt, hclosedAt, h⟩ := Option.bind_eq_some_iff.mp hx
    split at h
    . next hclosed =>
      simp only [Bool.and_eq_true, List.contains_iff_mem] at hclosed
      cases h
      exact ⟨rfl, hb.branches sh.branchId hclosed.1.1.1⟩
    . cases h
  have hclosed : (db.shifts.filter (db.hasBranch ownerId ·.branchId)).filterMap closedIn
      = db.shifts.filterMap closedIn := by
    rw [List.filterMap_filter]
    apply List.filterMap_congr
    intro sh hsh
    split
    . rfl
    . next hother =>
      cases h : closedIn sh with
      | none => rfl
      | some x => exact absurd (hbranch sh x h).2 hother
  have hnames : ∀ x ∈ db.shifts.filterMap closedIn,
      branchNames (db.ofOwner ownerId).toDatabase x.1.branchId
        = branchNames db.toDatabase x.1.branchId := by
    intro x hx
    obtain ⟨sh, hsh, h⟩ := List.mem_filterMap.mp hx
    rw [toDatabase_ofOwner, (hbranch sh x h).1, branchNames_ofOwner hdb (hbranch sh x h).2]
  unfold overShortSql
  dsimp only
  change (((db.shifts.filter (db.hasBranch ownerId ·.branchId)).filterMap closedIn).flatMap
    _).mergeSort _ = ((db.shifts.filterMap closedIn).flatMap _).mergeSort _
  rw [hclosed]
  congr 1
  apply List.flatMap_congr
  intro x hx
  rw [hnames x hx]

end Leaks

section Dashboard

variable {db : Database} {ownerId : Uuid} {b : ScopedBusiness} (hb : db.Admits ownerId b)

include hb

theorem branchJoins_ofOwner (hdb : db.Valid) (fromUtc toUtc : ℤ)
    : branchJoins (db.ofOwner ownerId) b fromUtc toUtc = branchJoins db b fromUtc toUtc := by
  have hbranches : (db.ofOwner ownerId).branches.filter
      (fun branch => b.branchIds.contains branch.id && branch.deletedAt.isNone)
        = db.branches.filter fun branch =>
          b.branchIds.contains branch.id && branch.deletedAt.isNone := by
    apply Table.filter_of_imp
    intro branch hmem h
    rw [Bool.and_eq_true, List.contains_iff_mem] at h
    exact business_of_hasBranch hdb (hb.branches branch.id h.1) hmem rfl
  unfold branchJoins
  rw [completedSales_ofOwner hb.branches, completedLines_ofOwner hb.branches, hbranches]

theorem dashboardBranchSql_ofOwner (hdb : db.Valid) (fromUtc toUtc : ℤ)
    : dashboardBranchSql (db.ofOwner ownerId) b fromUtc toUtc
        = dashboardBranchSql db b fromUtc toUtc := by
  unfold dashboardBranchSql
  rw [branchJoins_ofOwner hb hdb]

theorem dashboardBusiness_ofOwner (hdb : db.Valid) (now : DateTime)
    : dashboardBusiness (db.ofOwner ownerId) now b = dashboardBusiness db now b := by
  unfold dashboardBusiness sparkline
  simp only [dashboardBranchSql_ofOwner hb hdb, dashboardSparklineSql_ofOwner hb]

end Dashboard

section Attention

variable {db : InventoryDatabase} {ownerId : Uuid}

theorem mem_ownOpenShifts {businesses : List ScopedBusiness} {sh : Shift}
    (h : sh ∈ ownOpenShifts db.toDashboardDatabase ownerId businesses)
    : sh ∈ db.shifts ∧ db.hasBranch ownerId sh.branchId := by
  have hshift := List.mem_filter.mp h
  simp only [Bool.and_eq_true, List.contains_iff_mem] at hshift
  obtain ⟨branch, hbranch, hid⟩ := List.mem_map.mp hshift.2.1.1.1
  rw [← hid]
  exact ⟨hshift.1, hasBranch_of_own hbranch⟩

theorem ownOpenShifts_ofOwner (businesses : List ScopedBusiness)
    : ownOpenShifts (db.ofOwner ownerId).toDashboardDatabase ownerId businesses
        = ownOpenShifts db.toDashboardDatabase ownerId businesses := by
  have hbranches : (db.ofOwner ownerId).ownBranches ownerId = db.ownBranches ownerId :=
    ownBranches_ofOwner
  unfold ownOpenShifts
  rw [hbranches]
  apply Table.filter_of_imp
  intro sh hsh h
  exact (mem_ownOpenShifts (List.mem_filter.mpr ⟨hsh, h⟩)).2

theorem openShifts_ofOwner (hdb : db.Valid) (hwithin : db.StaysWithin ownerId)
    (businesses : List ScopedBusiness)
    : openShifts (db.ofOwner ownerId).toDashboardDatabase ownerId businesses
        = openShifts db.toDashboardDatabase ownerId businesses := by
  unfold openShifts
  rw [ownOpenShifts_ofOwner]
  apply List.flatMap_congr
  intro sh hsh
  obtain ⟨hmem, hbranch⟩ := mem_ownOpenShifts (List.mem_mergeSort.mp hsh)
  have hnames : branchNames (db.ofOwner ownerId).toDatabase sh.branchId
      = branchNames db.toDatabase sh.branchId := branchNames_ofOwner hdb hbranch
  have hterminals : (db.ofOwner ownerId).terminals.filter (·.id = sh.terminalId)
      = db.terminals.filter (·.id = sh.terminalId) := by
    apply Table.filter_of_imp
    intro t ht h
    exact hwithin.shift_terminal sh (List.mem_filter.mpr ⟨hmem, hbranch⟩) t ht (of_decide_eq_true h)
  rw [hnames, hterminals]

theorem liveTerminals_ofOwner (businesses : List ScopedBusiness)
    : liveTerminals (db.ofOwner ownerId).toDashboardDatabase ownerId businesses
        = liveTerminals db.toDashboardDatabase ownerId businesses := by
  have hbranches : (db.ofOwner ownerId).ownBranches ownerId = db.ownBranches ownerId :=
    ownBranches_ofOwner
  unfold liveTerminals
  rw [hbranches]
  dsimp only
  congr 2
  apply Table.filter_of_imp
  intro t ht h
  simp only [Bool.and_eq_true, List.contains_iff_mem] at h
  obtain ⟨branch, hbranch, hid⟩ := List.mem_map.mp h.1.1
  rw [← hid]
  exact hasBranch_of_own hbranch

theorem unclosedShifts_ofOwner (businesses : List ScopedBusiness) (now : DateTime)
    : unclosedShifts (db.ofOwner ownerId).toDashboardDatabase ownerId businesses now
        = unclosedShifts db.toDashboardDatabase ownerId businesses now := by
  unfold unclosedShifts
  rw [ownOpenShifts_ofOwner]

end Attention

section Stock

variable {db : InventoryDatabase} {ownerId : Uuid} {b : ScopedBusiness} (hb : db.Admits ownerId b)
  (hwithin : db.StaysWithin ownerId)

theorem lowStockThreshold_ofOwner {p : Product} (hp : p ∈ db.products)
    (hown : db.hasBusiness ownerId p.businessId)
    : (db.ofOwner ownerId).lowStockThreshold p.id = db.lowStockThreshold p.id :=
  if_pos (hasProduct_of_mem hp hown)

theorem unitCost_ofOwner {p : Product} (hp : p ∈ db.products)
    (hown : db.hasBusiness ownerId p.businessId) {v : Option ProductVariant}
    (hv : ∀ v' ∈ v, v' ∈ db.variants ∧ db.hasProduct ownerId v'.productId)
    : unitCost (db.ofOwner ownerId) (p, v) = unitCost db (p, v) := by
  have hproduct : (db.ofOwner ownerId).productCost p.id = db.productCost p.id :=
    if_pos (hasProduct_of_mem hp hown)
  unfold unitCost
  rw [hproduct]
  cases v with
  | none => rfl
  | some v =>
    obtain ⟨hmem, hvproduct⟩ := hv v rfl
    have hvariant : db.hasVariant ownerId v.id := by
      unfold Database.hasVariant
      rw [List.any_eq_true]
      refine ⟨v, hmem, ?_⟩
      simp [hvproduct]
    have hcost : (db.ofOwner ownerId).variantCost v.id = db.variantCost v.id := if_pos hvariant
    rw [Option.bind_some, Option.bind_some, hcost]

theorem mem_joinStocked {db : Database} {key : StockKey} {x : Product × Option ProductVariant}
    (hx : x ∈ joinStocked db key)
    : x.1 ∈ db.products ∧ x.1.id = key.productId ∧
        ∀ v ∈ x.2, v ∈ db.variants ∧ key.variantId = some v.id := by
  obtain ⟨p, hp, hx⟩ := List.mem_flatMap.mp hx
  obtain ⟨v, hv, rfl⟩ := List.mem_map.mp hx
  rw [List.mem_filter, decide_eq_true_eq] at hp
  refine ⟨hp.1, hp.2, ?_⟩
  intro v' hv'
  unfold leftJoin at hv
  split at hv
  . rw [List.mem_singleton] at hv
    rw [hv] at hv'
    cases hv'
  . obtain ⟨row, hrow, rfl⟩ := List.mem_map.mp hv
    cases hv'
    rw [List.mem_filter, decide_eq_true_eq] at hrow
    exact hrow

/-- The product and the variant of a row of the stock are the owner's. -/
def KeyWithin (db : Database) (ownerId : Uuid) (key : StockKey) : Prop :=
  (∀ p ∈ db.products, p.id = key.productId → db.hasBusiness ownerId p.businessId) ∧
    ∀ v ∈ db.variants, key.variantId = some v.id → db.hasProduct ownerId v.productId

section Key

variable {key : StockKey} (hkey : KeyWithin db.toDatabase ownerId key)

include hkey

theorem joinStocked_of_within : joinStocked (db.ofOwner ownerId).toDatabase key = joinStocked db.toDatabase key :=
  joinStocked_ofOwner hkey.1 hkey.2

theorem unitCost_of_within {x : Product × Option ProductVariant} (hx : x ∈ joinStocked db.toDatabase key)
    : unitCost (db.ofOwner ownerId) x = unitCost db x := by
  obtain ⟨hp, hid, hv⟩ := mem_joinStocked hx
  apply unitCost_ofOwner hp (hkey.1 x.1 hp hid)
  intro v hmem
  exact ⟨(hv v hmem).1, hkey.2 v (hv v hmem).1 (hv v hmem).2⟩

end Key

include hb hwithin

theorem lowStockCountSql_ofOwner
    : lowStockCountSql (db.ofOwner ownerId).toDashboardDatabase b
        = lowStockCountSql db.toDashboardDatabase b := by
  let low (db : DashboardDatabase) (x : BranchStock × Product) : Bool :=
    b.branchIds.contains x.1.branchId && x.1.deletedAt.isNone && x.2.deletedAt.isNone
      && (db.lowStockThreshold x.2.id).any (x.1.qty ≤ ·)
  let join (db : DashboardDatabase) (bs : BranchStock) : List (BranchStock × Product) :=
    ((db.products.filter (·.id = bs.productId)).map fun p => (bs, p)).filter (low db)
  have hjoin : ∀ bs ∈ db.branchStock.filter (db.hasBranch ownerId ·.branchId),
      join (db.ofOwner ownerId).toDashboardDatabase bs = join db.toDashboardDatabase bs := by
    intro bs hbs
    have hown := fun p hp hid => hwithin.stock_product bs hbs p hp hid
    have hproducts : (db.ofOwner ownerId).products.filter (·.id = bs.productId)
        = db.products.filter (·.id = bs.productId) := products_ofOwner hown
    unfold join
    rw [hproducts]
    apply List.filter_congr
    intro x hx
    obtain ⟨p, hp, rfl⟩ := List.mem_map.mp hx
    rw [List.mem_filter, decide_eq_true_eq] at hp
    unfold low
    rw [lowStockThreshold_ofOwner hp.1 (hown p hp.1 hp.2)]
  have hstock : (db.branchStock.filter (db.hasBranch ownerId ·.branchId)).flatMap
      (join db.toDashboardDatabase) = db.branchStock.flatMap (join db.toDashboardDatabase) := by
    apply Table.flatMap_of_nil
    intro bs hbs hne
    obtain ⟨x, hx⟩ := List.exists_mem_of_ne_nil _ hne
    obtain ⟨hx, hlow⟩ := List.mem_filter.mp hx
    obtain ⟨p, hp, rfl⟩ := List.mem_map.mp hx
    unfold low at hlow
    simp only [Bool.and_eq_true, List.contains_iff_mem] at hlow
    exact hb.branches bs.branchId hlow.1.1.1
  have hcount (db : DashboardDatabase)
      : lowStockCountSql db b = (db.branchStock.flatMap (join db)).length := by
    unfold lowStockCountSql
    dsimp only
    rw [List.filter_flatMap]
  rw [hcount, hcount, ← hstock, ← List.flatMap_congr hjoin]
  rfl

theorem losses_ofOwner : losses (db.ofOwner ownerId) b = losses db b := by
  have hbranch : ∀ m ∈ db.movements, isLoss b m → db.hasBranch ownerId m.branchId := by
    intro m hm h
    unfold isLoss at h
    simp only [Bool.and_eq_true, List.contains_iff_mem] at h
    exact hb.branches m.branchId h.1.1.1.1.1
  have hmovements : (db.ofOwner ownerId).movements.filter (isLoss b)
      = db.movements.filter (isLoss b) := Table.filter_of_imp hbranch
  unfold losses
  rw [hmovements]
  apply List.flatMap_congr
  intro m hm
  rw [List.mem_filter] at hm
  have hown : m ∈ (db.ofOwner ownerId).movements :=
    List.mem_filter.mpr ⟨hm.1, hbranch m hm.1 hm.2⟩
  have hkey : KeyWithin db.toDatabase ownerId m.toStockKey :=
    ⟨hwithin.movement_product m hown, hwithin.movement_variant m hown⟩
  rw [joinStocked_of_within hkey]
  apply List.flatMap_congr
  intro reasonCategory hreason
  apply List.map_congr_left
  intro x hx
  rw [unitCost_of_within hkey hx]

theorem shrinkageSql_ofOwner : shrinkageSql (db.ofOwner ownerId) b = shrinkageSql db b := by
  unfold shrinkageSql
  rw [losses_ofOwner hb hwithin]

omit hb in
theorem keyWithin_of_stock {bs : BranchStock} (hbs : bs ∈ (db.ofOwner ownerId).branchStock)
    : KeyWithin db.toDatabase ownerId bs.toStockKey :=
  ⟨hwithin.stock_product bs hbs, hwithin.stock_variant bs hbs⟩

omit hb in
theorem onHandRow_ofOwner {bs : BranchStock} (hbs : bs ∈ (db.ofOwner ownerId).branchStock)
    {x : Product × Option ProductVariant} (hx : x ∈ joinStocked db.toDatabase bs.toStockKey)
    (branchName : String)
    : onHandRow (db.ofOwner ownerId) b bs branchName x = onHandRow db b bs branchName x := by
  have hkey := keyWithin_of_stock hwithin hbs
  obtain ⟨hp, hid, -⟩ := mem_joinStocked hx
  have hthreshold := lowStockThreshold_ofOwner hp (hkey.1 x.1 hp hid)
  have hbranch : ∀ id ∈ [bs.branchId], db.hasBranch ownerId id := by
    intro id hid
    rw [List.mem_singleton] at hid
    rw [hid]
    exact (List.mem_filter.mp hbs).2
  have hsold : soldLines (db.ofOwner ownerId).toDatabase b bs.toStockKey
      = soldLines db.toDatabase b bs.toStockKey := by
    have hlines := completedLines_ofOwner hbranch b.fromUtc b.toUtc
    exact congrArg (List.filter _) hlines
  unfold onHandRow
  rw [unitCost_of_within hkey hx, hthreshold, hsold]

theorem onHandSql_ofOwner (hdb : db.Valid)
    : onHandSql (db.ofOwner ownerId) b = onHandSql db b := by
  have hbranch : ∀ bs ∈ db.branchStock, b.branchIds.contains bs.branchId && bs.deletedAt.isNone →
      db.hasBranch ownerId bs.branchId := by
    intro bs hbs h
    rw [Bool.and_eq_true, List.contains_iff_mem] at h
    exact hb.branches bs.branchId h.1
  have hstock : (db.ofOwner ownerId).branchStock.filter
      (fun bs => b.branchIds.contains bs.branchId && bs.deletedAt.isNone)
        = db.branchStock.filter fun bs =>
          b.branchIds.contains bs.branchId && bs.deletedAt.isNone := Table.filter_of_imp hbranch
  unfold onHandSql
  rw [hstock]
  dsimp only
  congr 2
  apply List.flatMap_congr
  intro bs hbs
  rw [List.mem_filter] at hbs
  have hown : bs ∈ (db.ofOwner ownerId).branchStock :=
    List.mem_filter.mpr ⟨hbs.1, hbranch bs hbs.1 hbs.2⟩
  have hnames : branchNames (db.ofOwner ownerId).toDatabase bs.branchId
      = branchNames db.toDatabase bs.branchId :=
    branchNames_ofOwner hdb (hbranch bs hbs.1 hbs.2)
  rw [hnames, joinStocked_of_within (keyWithin_of_stock hwithin hown)]
  apply List.flatMap_congr
  intro branchName hname
  apply List.map_congr_left
  intro x hx
  rw [onHandRow_ofOwner hwithin hown (List.mem_of_mem_filter hx)]

end Stock

end SentryPos.Analytics
