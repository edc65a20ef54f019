import SentryPos.Analytics.Inventory

/-!
This module contains the rows of an owner: what a scope admits of them and that what joins them is the
owner's, too.
-/

namespace SentryPos.Analytics

namespace Database

variable (db : Database) (ownerId : Uuid)

def hasBusiness (id : Uuid) : Bool :=
  db.businesses.any fun b => b.id = id && b.ownerId = ownerId

def hasBranch (id : Uuid) : Bool :=
  db.branches.any fun b => b.id = id && db.hasBusiness ownerId b.businessId

def hasProduct (id : Uuid) : Bool :=
  db.products.any fun p => p.id = id && db.hasBusiness ownerId p.businessId

def hasVariant (id : Uuid) : Bool :=
  db.variants.any fun v => v.id = id && db.hasProduct ownerId v.productId

def hasDiscount (id : Uuid) : Bool :=
  db.discounts.any fun d => d.id = id && db.hasBusiness ownerId d.businessId

def hasSale (id : Uuid) : Bool :=
  db.sales.any fun s => s.id = id && db.hasBranch ownerId s.branchId

def hasMovement (id : Uuid) : Bool :=
  db.movements.any fun m => m.id = id && db.hasBranch ownerId m.branchId

/-- The businesses of an owner and everything under them. -/
def ofOwner : Database where
  businesses := db.businesses.filter (·.ownerId = ownerId)
  branches := db.branches.filter (db.hasBusiness ownerId ·.businessId)
  categories := db.categories.filter (db.hasBusiness ownerId ·.businessId)
  products := db.products.filter (db.hasBusiness ownerId ·.businessId)
  variants := db.variants.filter (db.hasProduct ownerId ·.productId)
  modifierGroups := db.modifierGroups.filter (db.hasBusiness ownerId ·.businessId)
  discounts := db.discounts.filter (db.hasBusiness ownerId ·.businessId)
  sales := db.sales.filter (db.hasBranch ownerId ·.branchId)
  saleLines := db.saleLines.filter (db.hasSale ownerId ·.saleId)
  salePayments := db.salePayments.filter (db.hasSale ownerId ·.saleId)
  movements := db.movements.filter (db.hasBranch ownerId ·.branchId)
  auditLogs := db.auditLogs.filter (·.entityId.any (db.hasMovement ownerId))

/-- What the rows of an owner refer to is the owner's, too. -/
structure StaysWithin : Prop where
  product_category : ∀ p ∈ (db.ofOwner ownerId).products, ∀ c ∈ db.categories, c.id = p.categoryId →
    db.hasBusiness ownerId c.businessId
  sale_discount : ∀ s ∈ (db.ofOwner ownerId).sales, ∀ d ∈ db.discounts, some d.id = s.discountId →
    db.hasBusiness ownerId d.businessId
  line_discount : ∀ l ∈ (db.ofOwner ownerId).saleLines, ∀ d ∈ db.discounts,
    some d.id = l.discountId → db.hasBusiness ownerId d.businessId
  line_product : ∀ l ∈ (db.ofOwner ownerId).saleLines, ∀ p ∈ db.products,
    some p.id = l.productId → db.hasBusiness ownerId p.businessId
  movement_product : ∀ m ∈ (db.ofOwner ownerId).movements, ∀ p ∈ db.products, p.id = m.productId →
    db.hasBusiness ownerId p.businessId
  movement_variant : ∀ m ∈ (db.ofOwner ownerId).movements, ∀ v ∈ db.variants,
    m.variantId = some v.id → db.hasProduct ownerId v.productId

end Database

def LeaksDatabase.ofOwner (db : LeaksDatabase) (ownerId : Uuid) : LeaksDatabase :=
  { db.toDatabase.ofOwner ownerId with
    discountKind := fun id => if db.hasDiscount ownerId id then db.discountKind id else .percent
    shifts := db.shifts.filter (db.hasBranch ownerId ·.branchId) }

def DashboardDatabase.ofOwner (db : DashboardDatabase) (ownerId : Uuid) : DashboardDatabase :=
  { db.toLeaksDatabase.ofOwner ownerId with
    terminals := db.terminals.filter (db.hasBranch ownerId ·.branchId)
    notifications := db.notifications.filter (·.businessId.any (db.hasBusiness ownerId))
    branchStock := db.branchStock.filter (db.hasBranch ownerId ·.branchId)
    lowStockThreshold := fun id => if db.hasProduct ownerId id then db.lowStockThreshold id else none }

namespace InventoryDatabase

variable (db : InventoryDatabase) (ownerId : Uuid)

def ofOwner : InventoryDatabase :=
  { db.toDashboardDatabase.ofOwner ownerId with
    productCost := fun id => if db.hasProduct ownerId id then db.productCost id else none
    variantCost := fun id => if db.hasVariant ownerId id then db.variantCost id else none }

structure StaysWithin : Prop extends db.toDatabase.StaysWithin ownerId where
  shift_terminal : ∀ sh ∈ (db.ofOwner ownerId).shifts, ∀ t ∈ db.terminals, t.id = sh.terminalId →
    db.hasBranch ownerId t.branchId
  stock_product : ∀ bs ∈ (db.ofOwner ownerId).branchStock, ∀ p ∈ db.products, p.id = bs.productId →
    db.hasBusiness ownerId p.businessId
  stock_variant : ∀ bs ∈ (db.ofOwner ownerId).branchStock, ∀ v ∈ db.variants,
    bs.variantId = some v.id → db.hasProduct ownerId v.productId

end InventoryDatabase

/-! The scope. -/

/-- A business that a report to an owner is about. -/
structure Database.Admits (db : Database) (ownerId : Uuid) (b : ScopedBusiness) : Prop where
  business : db.hasBusiness ownerId b.id
  branches : ∀ id ∈ b.branchIds, db.hasBranch ownerId id

section Scope

variable {db : Database} {ownerId : Uuid}

theorem hasBusiness_of_mem {businesses : List Business}
    (h : ∀ b ∈ businesses, b ∈ db.ownBusinesses ownerId) {id : Uuid}
    (hid : (businesses.map (·.id)).contains id)
    : db.hasBusiness ownerId id := by
  rw [List.contains_iff_mem] at hid
  obtain ⟨b, hb, rfl⟩ := List.mem_map.mp hid
  have hown := List.mem_filter.mp (h b hb)
  unfold Database.hasBusiness
  rw [List.any_eq_true]
  refine ⟨b, hown.1, ?_⟩
  simp only [Bool.and_eq_true, decide_eq_true_eq] at hown ⊢
  exact ⟨trivial, hown.2.1⟩

theorem hasBranch_of_mem {branch : Branch} (h : branch ∈ db.branches)
    (hbusiness : db.hasBusiness ownerId branch.businessId)
    : db.hasBranch ownerId branch.id := by
  unfold Database.hasBranch
  rw [List.any_eq_true]
  refine ⟨branch, h, ?_⟩
  simp [hbusiness]

theorem ownBusinesses_ofOwner : (db.ofOwner ownerId).ownBusinesses ownerId = db.ownBusinesses ownerId := by
  unfold Database.ownBusinesses
  apply Table.filter_of_imp
  intro b hb h
  rw [Bool.and_eq_true] at h
  exact h.1

theorem ownBranches_ofOwner : (db.ofOwner ownerId).ownBranches ownerId = db.ownBranches ownerId := by
  unfold Database.ownBranches
  rw [ownBusinesses_ofOwner]
  apply Table.filter_of_imp
  intro b hb h
  rw [Bool.and_eq_true] at h
  exact hasBusiness_of_mem (fun b hb => hb) h.1

theorem hasBranch_of_own {branch : Branch} (h : branch ∈ db.ownBranches ownerId)
    : db.hasBranch ownerId branch.id := by
  have hown := List.mem_filter.mp h
  rw [Bool.and_eq_true] at hown
  exact hasBranch_of_mem hown.1 (hasBusiness_of_mem (fun b hb => hb) hown.2.1)

theorem resolve_ofOwner (query : AnalyticsQueryDto)
    : resolve (db.ofOwner ownerId) ownerId query = resolve db ownerId query := by
  unfold resolve Database.scopeBranches Database.scopeBusinesses
  rw [ownBusinesses_ofOwner, ownBranches_ofOwner]

theorem resolveToday_ofOwner (now : DateTime)
    : resolveToday (db.ofOwner ownerId) ownerId now = resolveToday db ownerId now := by
  unfold resolveToday
  rw [ownBusinesses_ofOwner, ownBranches_ofOwner]

theorem admits_of_withBranches {businesses : List Business} {branches : List Branch}
    (hbusinesses : ∀ b ∈ businesses, b ∈ db.ownBusinesses ownerId)
    (hbranches : ∀ b ∈ branches, b ∈ db.ownBranches ownerId) {x : Business × List Uuid}
    (hx : x ∈ withBranches businesses branches) {b : ScopedBusiness} (hid : b.id = x.1.id)
    (hids : b.branchIds = x.2)
    : db.Admits ownerId b := by
  rw [mem_withBranches] at hx
  constructor
  . rw [hid]
    apply hasBusiness_of_mem hbusinesses
    rw [List.contains_iff_mem]
    exact List.mem_map_of_mem hx.1
  . intro id hmem
    rw [hids, hx.2.2] at hmem
    obtain ⟨branch, hbranch, rfl⟩ := List.mem_map.mp hmem
    exact hasBranch_of_own (hbranches branch (List.mem_of_mem_filter hbranch))

theorem admits_of_resolve {query : AnalyticsQueryDto} {scope : ResolvedScope}
    (hscope : resolve db ownerId query = .ok scope) {b : ScopedBusiness} (hb : b ∈ scope.businesses)
    : db.Admits ownerId b := by
  obtain ⟨m, n, -, -, -, -, rfl⟩ := resolve_ok hscope
  obtain ⟨x, hx, rfl⟩ := List.mem_map.mp hb
  exact admits_of_withBranches (fun b hb => List.mem_of_mem_filter hb)
    (fun b hb => List.mem_of_mem_filter hb) hx rfl rfl

theorem todayBusiness_ids {now : DateTime} {business : Business} {branchIds : List Uuid}
    {b : ScopedBusiness} (h : todayBusiness now business branchIds = .ok b)
    : b.id = business.id ∧ b.branchIds = branchIds := by
  unfold todayBusiness at h
  simp only [Checks.bind_eq_ok] at h
  obtain ⟨_, _, _, _, _, _, _, _, _, _, _, _, _, _, _, _, hb⟩ := h
  cases hb
  exact ⟨rfl, rfl⟩

theorem admits_of_resolveToday {now : DateTime} {scope : ResolvedScope}
    (hscope : resolveToday db ownerId now = .ok scope) {b : ScopedBusiness} (hb : b ∈ scope.businesses)
    : db.Admits ownerId b := by
  unfold resolveToday at hscope
  rw [Checks.bind_eq_ok] at hscope
  obtain ⟨businesses, hbusinesses, hscope⟩ := hscope
  cases hscope
  obtain ⟨x, hx, htoday⟩ := Checks.exists_of_mem_right (Checks.mapM_eq_ok hbusinesses) hb
  obtain ⟨hid, hids⟩ := todayBusiness_ids htoday
  exact admits_of_withBranches (fun b hb => List.mem_of_mem_filter hb)
    (fun b hb => List.mem_of_mem_filter hb) hx hid hids

/-- A report over a scope is that of the owner's rows when it is so for the businesses it admits. -/
theorem isolated_of_scope {α : Type} {query : AnalyticsQueryDto} {report report' : ResolvedScope → α}
    (h : ∀ scope, (∀ b ∈ scope.businesses, db.Admits ownerId b) → report' scope = report scope)
    : (do let scope ← resolve (db.ofOwner ownerId) ownerId query; return report' scope)
        = (do let scope ← resolve db ownerId query; return report scope) := by
  rw [resolve_ofOwner]
  cases hscope : resolve db ownerId query with
  | error e => rfl
  | ok scope =>
    simp only [bind, Except.bind]
    rw [h scope fun b hb => admits_of_resolve hscope hb]

end Scope

/-! The rows that the queries join. -/

section Rows

variable {db : Database} {ownerId : Uuid}

theorem mem_completedSales {branchIds : List Uuid} {fromUtc toUtc : ℤ} {s : Sale}
    (h : s ∈ completedSales db branchIds fromUtc toUtc)
    : s ∈ db.sales ∧ s.branchId ∈ branchIds := by
  have hwindow := List.mem_filter.mp (List.mem_of_mem_filter h)
  unfold inWindow at hwindow
  simp only [Bool.and_eq_true, List.contains_iff_mem] at hwindow
  exact ⟨hwindow.1, hwindow.2.1.1.1⟩

theorem hasSale_of_mem {s : Sale} (h : s ∈ db.sales) (hbranch : db.hasBranch ownerId s.branchId)
    : db.hasSale ownerId s.id := by
  unfold Database.hasSale
  rw [List.any_eq_true]
  refine ⟨s, h, ?_⟩
  simp [hbranch]

theorem hasProduct_of_mem {p : Product} (h : p ∈ db.products)
    (hbusiness : db.hasBusiness ownerId p.businessId)
    : db.hasProduct ownerId p.id := by
  unfold Database.hasProduct
  rw [List.any_eq_true]
  refine ⟨p, h, ?_⟩
  simp [hbusiness]

/-- The branches with the id of a branch of the owner are the owner's. -/
theorem business_of_hasBranch (hdb : db.Valid) {id : Uuid} (hid : db.hasBranch ownerId id)
    {branch : Branch} (hmem : branch ∈ db.branches) (hbranch : branch.id = id)
    : db.hasBusiness ownerId branch.businessId := by
  unfold Database.hasBranch at hid
  rw [List.any_eq_true] at hid
  obtain ⟨own, hown, h⟩ := hid
  rw [Bool.and_eq_true, decide_eq_true_eq] at h
  have heq := Table.get_of_mem hdb.branches hown
  rw [h.1, ← hbranch, Table.get_of_mem hdb.branches hmem] at heq
  cases heq
  exact h.2

theorem branchNames_ofOwner (hdb : db.Valid) {id : Uuid} (hid : db.hasBranch ownerId id)
    : branchNames (db.ofOwner ownerId) id = branchNames db id := by
  unfold branchNames
  congr 1
  apply Table.filter_of_imp
  intro branch hmem hbranch
  exact business_of_hasBranch hdb hid hmem (of_decide_eq_true hbranch)

section Window

variable {branchIds : List Uuid} (hids : ∀ id ∈ branchIds, db.hasBranch ownerId id) (fromUtc toUtc : ℤ)

include hids

theorem salesInWindow_ofOwner
    : salesInWindow (db.ofOwner ownerId) branchIds fromUtc toUtc
        = salesInWindow db branchIds fromUtc toUtc := by
  unfold salesInWindow
  apply Table.filter_of_imp
  intro s hs h
  unfold inWindow at h
  simp only [Bool.and_eq_true, List.contains_iff_mem] at h
  exact hids s.branchId h.1.1.1

theorem completedSales_ofOwner
    : completedSales (db.ofOwner ownerId) branchIds fromUtc toUtc
        = completedSales db branchIds fromUtc toUtc := by
  unfold completedSales
  rw [salesInWindow_ofOwner hids]

theorem hasSale_of_completed {s : Sale} (h : s ∈ completedSales db branchIds fromUtc toUtc)
    : db.hasSale ownerId s.id := by
  obtain ⟨hs, hbranch⟩ := mem_completedSales h
  exact hasSale_of_mem hs (hids s.branchId hbranch)

/-- Rows that join a completed sale by `saleId` are rows of the owner. -/
theorem joinSales_ofOwner {α : Type} (saleId : α → Uuid) (live : α → Bool) (rows : List α)
    : ((rows.filter fun r => db.hasSale ownerId (saleId r)).filter live).flatMap (fun r =>
        ((completedSales (db.ofOwner ownerId) branchIds fromUtc toUtc).filter
          (·.id = saleId r)).map fun s => (r, s))
      = (rows.filter live).flatMap fun r =>
        ((completedSales db branchIds fromUtc toUtc).filter (·.id = saleId r)).map fun s => (r, s) := by
  rw [completedSales_ofOwner hids, List.filter_comm]
  apply Table.flatMap_of_nil
  intro r hr hne
  obtain ⟨x, hx⟩ := List.exists_mem_of_ne_nil _ hne
  obtain ⟨s, hs, rfl⟩ := List.mem_map.mp hx
  rw [List.mem_filter, decide_eq_true_eq] at hs
  rw [← hs.2]
  exact hasSale_of_completed hids fromUtc toUtc hs.1

theorem completedLines_ofOwner
    : completedLines (db.ofOwner ownerId) branchIds fromUtc toUtc
        = completedLines db branchIds fromUtc toUtc :=
  joinSales_ofOwner hids fromUtc toUtc (fun si : SaleLine => si.saleId)
    (fun si => si.deletedAt.isNone) db.saleLines

/-- A line of a report and the sale that it joins are rows of the owner. -/
theorem own_of_completedLines {line : Line} (h : line ∈ completedLines db branchIds fromUtc toUtc)
    : line.1 ∈ (db.ofOwner ownerId).saleLines ∧ line.2 ∈ completedSales db branchIds fromUtc toUtc := by
  obtain ⟨si, hsi, hline⟩ := List.mem_flatMap.mp h
  obtain ⟨s, hs, rfl⟩ := List.mem_map.mp hline
  rw [List.mem_filter, decide_eq_true_eq] at hs
  refine ⟨List.mem_filter.mpr ⟨List.mem_of_mem_filter hsi, ?_⟩, hs.1⟩
  rw [← hs.2]
  exact hasSale_of_completed hids fromUtc toUtc hs.1

end Window

theorem lineDiscounts_ofOwner {s : Sale} (h : db.hasSale ownerId s.id)
    : lineDiscounts (db.ofOwner ownerId) s = lineDiscounts db s := by
  unfold lineDiscounts
  congr 2
  apply Table.filter_of_imp
  intro li hli hsale
  rw [Bool.and_eq_true, decide_eq_true_eq] at hsale
  rw [hsale.1]
  exact h

theorem products_ofOwner {id : Uuid}
    (hid : ∀ p ∈ db.products, p.id = id → db.hasBusiness ownerId p.businessId)
    : (db.ofOwner ownerId).products.filter (·.id = id) = db.products.filter (·.id = id) := by
  apply Table.filter_of_imp
  intro p hp h
  exact hid p hp (of_decide_eq_true h)

theorem categories_ofOwner (hwithin : db.StaysWithin ownerId) {p : Product} (hp : p ∈ db.products)
    (hown : db.hasBusiness ownerId p.businessId)
    : (db.ofOwner ownerId).categories.filter (·.id = p.categoryId)
        = db.categories.filter (·.id = p.categoryId) := by
  apply Table.filter_of_imp
  intro c hc h
  exact hwithin.product_category p (List.mem_filter.mpr ⟨hp, hown⟩) c hc (of_decide_eq_true h)

theorem categoriesOf_ofOwner (hwithin : db.StaysWithin ownerId) {id : Uuid}
    (hid : ∀ p ∈ db.products, p.id = id → db.hasBusiness ownerId p.businessId)
    : categoriesOf (db.ofOwner ownerId) id = categoriesOf db id := by
  unfold categoriesOf
  rw [products_ofOwner hid]
  apply List.flatMap_congr
  intro p hp
  rw [List.mem_filter, decide_eq_true_eq] at hp
  rw [categories_ofOwner hwithin hp.1 (hid p hp.1 hp.2)]

theorem discountsOf_ofOwner {id : Option Uuid}
    (hid : ∀ d ∈ db.discounts, some d.id = id → db.hasBusiness ownerId d.businessId)
    : discountsOf (db.ofOwner ownerId) id = discountsOf db id := by
  unfold discountsOf
  apply Table.filter_of_imp
  intro d hd h
  exact hid d hd (of_decide_eq_true h)

theorem joinStocked_ofOwner {key : StockKey}
    (hproduct : ∀ p ∈ db.products, p.id = key.productId → db.hasBusiness ownerId p.businessId)
    (hvariant : ∀ v ∈ db.variants, key.variantId = some v.id → db.hasProduct ownerId v.productId)
    : joinStocked (db.ofOwner ownerId) key = joinStocked db key := by
  have hvariants : (db.ofOwner ownerId).variants.filter (key.variantId = some ·.id)
      = db.variants.filter (key.variantId = some ·.id) := by
    apply Table.filter_of_imp
    intro v hv h
    exact hvariant v hv (of_decide_eq_true h)
  unfold joinStocked
  rw [products_ofOwner hproduct, hvariants]

end Rows

end SentryPos.Analytics
