import SentryPos.Analytics.Scope
import SentryPos.Ranking

/-!
This module contains the ledger of stock movements: its queries and the pages that are merged from
them.
-/

namespace SentryPos.Analytics

open Ranking

def DEFAULT_PAGE_SIZE : ℕ := 50

def MAX_MERGE_ROWS : ℕ := 2000

structure MovementsQueryDto extends AnalyticsQueryDto where
  type : Option MovementType
  productId : Option Uuid
  page : Option ℕ
  pageSize : Option ℕ
  page_ge : ∀ n, page = some n → 1 ≤ n
  pageSize_ge : ∀ n, pageSize = some n → 1 ≤ n
  pageSize_le : ∀ n, pageSize = some n → n ≤ 200

structure MovementFilter where
  type : Option MovementType
  productId : Option Uuid

structure MovementRow where
  id : Uuid
  createdAt : DateTime
  branchId : Uuid
  branchName : String
  productId : Uuid
  variantId : Option Uuid
  productName : String
  variantName : Option String
  type : MovementType
  qtyDelta : ℤ
  reasonCategory : Option ReasonCategory
  unitCost : Option ℤ
  note : Option String
  actorType : Option String
  actorId : Option Uuid
  action : Option String
  deriving DecidableEq

structure Actor where
  actorType : String
  actorId : Option Uuid
  action : String
  deriving DecidableEq

structure MovementEntry where
  id : Uuid
  createdAt : DateTime
  branchId : Uuid
  branchName : String
  productId : Uuid
  variantId : Option Uuid
  productName : String
  variantName : Option String
  type : MovementType
  qtyDelta : ℤ
  reasonCategory : Option ReasonCategory
  unitCostC : Option ℤ
  note : Option String
  actor : Option Actor
  deriving DecidableEq

structure Paginated (α : Type) where
  data : List α
  page : ℕ
  pageSize : ℕ
  total : ℕ
  totalPages : ℕ
  deriving DecidableEq

def movementWhere (business : ScopedBusiness) (filter : MovementFilter) (m : Movement) : Bool :=
  business.branchIds.contains m.branchId && m.deletedAt.isNone
    && business.fromUtc ≤ m.createdAt && m.createdAt < business.toUtc
    && filter.type.all (m.type = ·) && filter.productId.all (m.productId = ·)

/-- The rows of a `LEFT JOIN`. -/
def leftJoin {α : Type} (rows : List α) : List (Option α) :=
  if rows.isEmpty then [none] else rows.map some

def movementRow (m : Movement) (b : Branch) (p : Product) (v : Option ProductVariant)
    (a : Option AuditLog) : MovementRow where
  id := m.id
  createdAt := m.createdAt
  branchId := m.branchId
  branchName := b.name
  productId := m.productId
  variantId := m.variantId
  productName := p.name
  variantName := v.map (·.name)
  type := m.type
  qtyDelta := m.qtyDelta
  reasonCategory := m.reasonCategory
  unitCost := m.unitCost
  note := m.note
  actorType := a.map (·.actorType)
  actorId := a.bind (·.actorId)
  action := a.map (·.action)

def movementRows (db : Database) (m : Movement) : List MovementRow :=
  (db.branches.filter (·.id = m.branchId)).flatMap fun b =>
    (db.products.filter (·.id = m.productId)).flatMap fun p =>
      (leftJoin (db.variants.filter fun v => m.variantId = some v.id)).map fun v =>
        movementRow m b p v (db.auditLogs.find? (·.entityId = some m.id))

/-- `ORDER BY m.created_at DESC, m.id DESC`. -/
def RowBefore (a b : MovementRow) : Prop :=
  b.createdAt < a.createdAt ∨ b.createdAt = a.createdAt ∧ b.id ≤ a.id

instance : DecidableRel RowBefore :=
  fun a b => inferInstanceAs
    (Decidable (b.createdAt < a.createdAt ∨ b.createdAt = a.createdAt ∧ b.id ≤ a.id))

def movementsSql (db : Database) (business : ScopedBusiness) (filter : MovementFilter) (limit : ℕ)
    : List MovementRow :=
  firstOf RowBefore limit
    ((db.movements.filter (movementWhere business filter)).flatMap (movementRows db))

def movementsCountSql (db : Database) (business : ScopedBusiness) (filter : MovementFilter) : ℕ :=
  db.movements.countP (movementWhere business filter)

def MovementRow.entry (row : MovementRow) : MovementEntry where
  id := row.id
  createdAt := row.createdAt
  branchId := row.branchId
  branchName := row.branchName
  productId := row.productId
  variantId := row.variantId
  productName := row.productName
  variantName := row.variantName
  type := row.type
  qtyDelta := row.qtyDelta
  reasonCategory := row.reasonCategory
  unitCostC := row.unitCost
  note := row.note
  actor := row.actorType.bind fun actorType =>
    row.action.map fun action => { actorType, actorId := row.actorId, action }

/-- What `rows.sort` compares with. -/
def compareEntries (localeCompare : Uuid → Uuid → ℤ) (a b : MovementEntry) : ℤ :=
  let byTime := b.createdAt - a.createdAt
  if byTime ≠ 0 then byTime else localeCompare b.id a.id

def movements (localeCompare : Uuid → Uuid → ℤ) (db : Database) (ownerId : Uuid)
    (query : MovementsQueryDto) : Except ApiError (Paginated MovementEntry) := do
  let page := query.page.getD 1
  let pageSize := query.pageSize.getD DEFAULT_PAGE_SIZE
  let reach := page * pageSize
  if reach > MAX_MERGE_ROWS then
    throw (.validationFailed
      "page x pageSize must not exceed 2000 — narrow the date range, branch, or product instead.")
  let scope ← resolve db ownerId query.toAnalyticsQueryDto
  let filter : MovementFilter := { type := query.type, productId := query.productId }
  let rows := scope.businesses.flatMap fun business =>
    (movementsSql db business filter reach).map (·.entry)
  let total := (scope.businesses.map fun business => movementsCountSql db business filter).sum
  let sorted := rows.insertionSort fun a b => compareEntries localeCompare a b ≤ 0
  return {
    data := (sorted.take reach).drop ((page - 1) * pageSize)
    page
    pageSize
    total
    totalPages := max 1 ((total + pageSize - 1) / pageSize)
  }

def EntryBefore (a b : MovementEntry) : Prop :=
  b.createdAt < a.createdAt ∨ b.createdAt = a.createdAt ∧ b.id ≤ a.id

instance : DecidableRel EntryBefore :=
  fun a b => inferInstanceAs
    (Decidable (b.createdAt < a.createdAt ∨ b.createdAt = a.createdAt ∧ b.id ≤ a.id))

instance : Std.Total EntryBefore where
  total a b := by
    unfold EntryBefore
    rcases lt_trichotomy a.createdAt b.createdAt with h | h | h
    . exact .inr (.inl h)
    . rcases le_total a.id b.id with hid | hid
      . exact .inr (.inr ⟨h, hid⟩)
      . exact .inl (.inr ⟨h.symm, hid⟩)
    . exact .inl (.inl h)

instance : IsTrans MovementEntry EntryBefore where
  trans a b c hab hbc := by
    unfold EntryBefore at *
    rcases hab with hab | ⟨hab, hid⟩
    . rcases hbc with hbc | ⟨hbc, -⟩
      . exact .inl (hbc.trans hab)
      . exact .inl (hbc ▸ hab)
    . rcases hbc with hbc | ⟨hbc, hid'⟩
      . exact .inl (hab ▸ hbc)
      . exact .inr ⟨hbc.trans hab, hid'.trans hid⟩

theorem compareEntries_le {localeCompare : Uuid → Uuid → ℤ}
    (hlocale : ∀ a b, localeCompare a b ≤ 0 ↔ a ≤ b) (a b : MovementEntry)
    : compareEntries localeCompare a b ≤ 0 ↔ EntryBefore a b := by
  have hle : compareEntries localeCompare a b ≤ 0 ↔
      (b.createdAt - a.createdAt ≠ 0 ∧ b.createdAt - a.createdAt ≤ 0 ∨
        b.createdAt - a.createdAt = 0 ∧ b.id ≤ a.id) := by
    unfold compareEntries
    dsimp only
    split
    . next hne => simp [hne]
    . next heq => simp [not_not.mp heq, hlocale]
  rw [hle]
  unfold EntryBefore
  rw [sub_ne_zero, sub_nonpos, sub_eq_zero, lt_iff_le_and_ne, and_comm]

def Database.matching (db : Database) (scope : ResolvedScope) (filter : MovementFilter)
    : List Movement :=
  db.movements.filter fun m => scope.businesses.any fun business => movementWhere business filter m

theorem mem_matching {db : Database} {scope : ResolvedScope} {filter : MovementFilter} {m : Movement}
    : m ∈ db.matching scope filter
        ↔ m ∈ db.movements ∧ m.deletedAt = none
          ∧ (∃ business ∈ scope.businesses, m.branchId ∈ business.branchIds
            ∧ business.fromUtc ≤ m.createdAt ∧ m.createdAt < business.toUtc)
          ∧ (∀ type, filter.type = some type → m.type = type)
          ∧ ∀ productId, filter.productId = some productId → m.productId = productId := by
  have htype : filter.type.all (m.type = ·) = true ↔ ∀ type, filter.type = some type → m.type = type := by
    cases filter.type <;> simp
  have hproduct : filter.productId.all (m.productId = ·) = true
      ↔ ∀ productId, filter.productId = some productId → m.productId = productId := by
    cases filter.productId <;> simp
  unfold Database.matching movementWhere
  rw [List.mem_filter, List.any_eq_true]
  simp only [Bool.and_eq_true, List.contains_iff_mem, Option.isNone_iff_eq_none, decide_eq_true_eq,
    htype, hproduct]
  constructor
  . intro h
    obtain ⟨hm, business, hbusiness, ⟨⟨⟨⟨hbranch, hlive⟩, hfrom⟩, hto⟩, htype⟩, hproduct⟩ := h
    exact ⟨hm, hlive, ⟨business, hbusiness, hbranch, hfrom, hto⟩, htype, hproduct⟩
  . intro h
    obtain ⟨hm, hlive, ⟨business, hbusiness, hbranch, hfrom, hto⟩, htype, hproduct⟩ := h
    exact ⟨hm, business, hbusiness, ⟨⟨⟨⟨hbranch, hlive⟩, hfrom⟩, hto⟩, htype⟩, hproduct⟩

/-- What the report has to show of a movement, with the names of what it is about. -/
def Database.entry (db : Database) (m : Movement) : MovementEntry where
  id := m.id
  createdAt := m.createdAt
  branchId := m.branchId
  branchName := ((Table.get (·.id) db.branches m.branchId).map (·.name)).getD ""
  productId := m.productId
  variantId := m.variantId
  productName := ((Table.get (·.id) db.products m.productId).map (·.name)).getD ""
  variantName := (m.variantId.bind (Table.get (·.id) db.variants)).map (·.name)
  type := m.type
  qtyDelta := m.qtyDelta
  reasonCategory := m.reasonCategory
  unitCostC := m.unitCost
  note := m.note
  actor := (db.auditLogs.find? (·.entityId = some m.id)).map fun a =>
    { actorType := a.actorType, actorId := a.actorId, action := a.action }

def Database.ledger (db : Database) (scope : ResolvedScope) (filter : MovementFilter)
    : List MovementEntry :=
  ((db.matching scope filter).map db.entry).insertionSort EntryBefore

theorem entry_movementRows {db : Database} (hdb : db.Valid) {m : Movement} (hm : m ∈ db.movements)
    : (movementRows db m).map (·.entry) = [db.entry m] := by
  obtain ⟨b, hb, hbid⟩ := List.mem_map.mp (hdb.movement_branch m hm)
  obtain ⟨p, hp, hpid⟩ := List.mem_map.mp (hdb.movement_product m hm)
  have hbranch : Table.get (·.id) db.branches m.branchId = some b := by
    rw [← hbid]
    exact Table.get_of_mem hdb.branches hb
  have hproduct : Table.get (·.id) db.products m.productId = some p := by
    rw [← hpid]
    exact Table.get_of_mem hdb.products hp
  have hvariants : (db.variants.filter fun v => m.variantId = some v.id) =
      (m.variantId.bind (Table.get (·.id) db.variants)).toList := by
    cases hvariant : m.variantId with
    | none => simp
    | some variantId =>
      rw [Option.bind_some, ← Table.filter_key hdb.variants variantId]
      congr 1
      ext v
      simp [eq_comm]
  have hactor : (movementRow m b p (m.variantId.bind (Table.get (·.id) db.variants))
      (db.auditLogs.find? (·.entityId = some m.id))).entry = db.entry m := by
    unfold movementRow MovementRow.entry Database.entry
    rw [hbranch, hproduct]
    cases db.auditLogs.find? (·.entityId = some m.id) <;> rfl
  unfold movementRows
  rw [Table.filter_key hdb.branches, Table.filter_key hdb.products, hbranch, hproduct, hvariants,
    ← hactor]
  cases m.variantId.bind (Table.get (·.id) db.variants) <;> rfl

theorem movementsSql_entries {db : Database} (hdb : db.Valid) (business : ScopedBusiness)
    (filter : MovementFilter) (limit : ℕ)
    : (movementsSql db business filter limit).map (·.entry) =
        firstOf EntryBefore limit
          ((db.movements.filter (movementWhere business filter)).map db.entry) := by
  have hentries : ((db.movements.filter (movementWhere business filter)).flatMap
      (movementRows db)).map (·.entry) =
        (db.movements.filter (movementWhere business filter)).map db.entry := by
    rw [List.map_flatMap, ← List.flatMap_singleton' ((db.movements.filter _).map db.entry),
      List.flatMap_map]
    apply List.flatMap_congr
    intro m hm
    exact entry_movementRows hdb (List.mem_of_mem_filter hm)
  unfold movementsSql firstOf
  rw [List.map_take, List.map_insertionSort RowBefore EntryBefore (·.entry) _
    (fun _ _ _ _ => Iff.rfl), hentries]

section Pages

variable {db : Database} (hdb : db.Valid) {ownerId : Uuid} {query : AnalyticsQueryDto}
  {scope : ResolvedScope} (hscope : resolve db ownerId query = .ok scope)

include hdb hscope

theorem matching_perm (filter : MovementFilter)
    : (db.matching scope filter).Perm
        (scope.businesses.flatMap fun b => db.movements.filter (movementWhere b filter)) := by
  have hmovements := hdb.movements.of_map
  have hbranch {b : ScopedBusiness} {m : Movement} (h : movementWhere b filter m)
      : m.branchId ∈ b.branchIds := by
    unfold movementWhere at h
    simp only [Bool.and_eq_true, List.contains_iff_mem] at h
    exact h.1.1.1.1.1
  unfold Database.matching
  rw [List.perm_ext_iff_of_nodup (hmovements.filter _)]
  . intro m
    simp only [List.mem_filter, List.any_eq_true, List.mem_flatMap]
    constructor
    . rintro ⟨hm, b, hb, hwhere⟩
      exact ⟨b, hb, hm, hwhere⟩
    . rintro ⟨b, hb, hm, hwhere⟩
      exact ⟨hm, b, hb, hwhere⟩
  . apply Table.nodup_flatMap (nodup_scope hdb hscope)
    . intro b hb
      exact hmovements.filter _
    . intro b hb b' hb' hne m hm hm'
      apply hne
      exact scope_of_branch hdb hscope hb hb' (hbranch (List.mem_filter.mp hm).2)
        (hbranch (List.mem_filter.mp hm').2)

theorem total_eq (filter : MovementFilter)
    : (scope.businesses.map fun b => movementsCountSql db b filter).sum =
        (db.matching scope filter).length := by
  rw [(matching_perm hdb hscope filter).length_eq, List.length_flatMap]
  congr 1
  apply List.map_congr_left
  intro b hb
  exact List.countP_eq_length_filter

omit hscope in
theorem separates_entries {ms : List Movement} (hms : ∀ m ∈ ms, m ∈ db.movements)
    : Separates EntryBefore (ms.map db.entry) := by
  intro a ha b hb hab hba
  obtain ⟨m, hm, rfl⟩ := List.mem_map.mp ha
  obtain ⟨m', hm', rfl⟩ := List.mem_map.mp hb
  have hid : m.id = m'.id := by
    rcases hab with hab | ⟨htime, hab⟩
    . rcases hba with hba | ⟨hba, -⟩
      . exact absurd hba (lt_asymm hab)
      . exact absurd hba (ne_of_gt hab)
    . rcases hba with hba | ⟨-, hba⟩
      . exact absurd htime (ne_of_gt hba)
      . exact le_antisymm hba hab
  have heq := Table.get_of_mem hdb.movements (hms m hm)
  rw [hid, Table.get_of_mem hdb.movements (hms m' hm')] at heq
  cases heq
  rfl

theorem firstOf_ledger (filter : MovementFilter) (reach : ℕ)
    : firstOf EntryBefore reach (scope.businesses.flatMap fun b =>
        (movementsSql db b filter reach).map (·.entry)) =
          (db.ledger scope filter).take reach := by
  have hperm := ((matching_perm hdb hscope filter).map db.entry)
  rw [List.map_flatMap] at hperm
  have hmem : ∀ m ∈ db.matching scope filter, m ∈ db.movements :=
    fun m hm => List.mem_of_mem_filter hm
  have hsep := separates_entries hdb hmem
  have hnodup : ((db.matching scope filter).map db.entry).Nodup := by
    apply List.Nodup.of_map (·.id)
    rw [List.map_map]
    exact hdb.movements.sublist (List.filter_sublist.map _)
  simp only [movementsSql_entries hdb]
  rw [firstOf_flatMap (hperm.nodup_iff.mp hnodup)]
  . unfold firstOf Database.ledger
    rw [insertionSort_perm hsep hperm]
  . intro a ha b hb
    exact hsep a (hperm.mem_iff.mpr ha) b (hperm.mem_iff.mpr hb)

end Pages

theorem movements_page {localeCompare : Uuid → Uuid → ℤ}
    (hlocale : ∀ a b, localeCompare a b ≤ 0 ↔ a ≤ b) {db : Database} (hdb : db.Valid)
    {ownerId : Uuid} {query : MovementsQueryDto} {scope : ResolvedScope}
    (hscope : resolve db ownerId query.toAnalyticsQueryDto = .ok scope) {page pageSize : ℕ}
    (hpage : query.page.getD 1 = page) (hsize : query.pageSize.getD DEFAULT_PAGE_SIZE = pageSize)
    (hreach : page * pageSize ≤ 2000) {filter : MovementFilter}
    (hfilter : filter = { type := query.type, productId := query.productId })
    : movements localeCompare db ownerId query = .ok {
          data := ((db.ledger scope filter).drop ((page - 1) * pageSize)).take pageSize
          page
          pageSize
          total := (db.matching scope filter).length
          totalPages := max 1 (((db.matching scope filter).length + pageSize - 1) / pageSize)
        } ∧
      (db.ledger scope filter).Perm ((db.matching scope filter).map db.entry) ∧
      (db.ledger scope filter).Pairwise EntryBefore ∧
      ((db.ledger scope filter).map (·.id)).Nodup := by
  have hperm : (db.ledger scope filter).Perm ((db.matching scope filter).map db.entry) :=
    List.perm_insertionSort EntryBefore _
  refine ⟨?_, hperm, List.pairwise_insertionSort EntryBefore _, ?_⟩
  . have hcompare (rows : List MovementEntry)
        : (rows.insertionSort fun a b => compareEntries localeCompare a b ≤ 0) =
            rows.insertionSort EntryBefore := by
      have hmap := List.map_insertionSort (fun a b => compareEntries localeCompare a b ≤ 0)
        EntryBefore id rows (fun a _ b _ => compareEntries_le hlocale a b)
      rwa [List.map_id, List.map_id] at hmap
    have hpos : 1 ≤ page := by
      rw [← hpage]
      cases hq : query.page with
      | none => exact le_refl 1
      | some n => exact query.page_ge n hq
    have hslice : page * pageSize - (page - 1) * pageSize = pageSize := by
      rw [← Nat.sub_mul, Nat.sub_sub_self hpos, Nat.one_mul]
    unfold movements
    rw [hpage, hsize, hscope, ← hfilter]
    simp only [bind, Except.bind, pure, Except.pure]
    rw [if_neg (by unfold MAX_MERGE_ROWS; omega), hcompare]
    have hrows := firstOf_ledger hdb hscope filter (page * pageSize)
    unfold firstOf at hrows
    rw [hrows, total_eq hdb hscope, List.drop_take, hslice]
  . rw [(hperm.map _).nodup_iff, List.map_map]
    exact hdb.movements.sublist (List.filter_sublist.map _)

namespace Cafe

def espresso : Product :=
  { id := 30, businessId := 10, categoryId := 25, name := "Espresso", active := true, deletedAt := none }

/-- Ten units received at noon of the first of March 2026, and one sold an hour later. -/
def received : Movement where
  branchId := 20
  productId := 30
  variantId := none
  type := .receive
  refId := 60
  qtyDelta := 10000
  reasonCategory := none
  unitCost := some 4000
  note := none
  deletedAt := none
  id := 41
  createdAt := 1772337600000

def sold : Movement :=
  { received with type := .sale, qtyDelta := -1000, unitCost := none, id := 40, createdAt := 1772341200000 }

/-- What is left out: a movement of the day before, a deleted one and one of another product. -/
def others : List Movement := [
  { received with id := 42, createdAt := 1772251200000 },
  { received with id := 43, deletedAt := some 1772337600000 },
  { received with id := 44, productId := 31 }
]

def stocked : Database :=
  { database with
    products := [espresso, { espresso with id := 31, name := "Filter" }]
    movements := others ++ [received, sold] }

def march : MovementsQueryDto where
  businessId := some 10
  branchId := none
  fromDate := ['2', '0', '2', '6', '-', '0', '3', '-', '0', '1']
  toDate := ['2', '0', '2', '6', '-', '0', '3', '-', '0', '5']
  from_matches := by decide
  to_matches := by decide
  type := none
  productId := some 30
  page := some 2
  pageSize := some 1
  page_ge := by decide
  pageSize_ge := by decide
  pageSize_le := by decide

def marchScope : ResolvedScope :=
  scopeOf stocked 1 march.toAnalyticsQueryDto 20513 20517

theorem resolve_march : resolve stocked 1 march.toAnalyticsQueryDto = .ok marchScope := by
  have hm : dayOf march.fromDate = some 20513 := by decide
  have hn : dayOf march.toDate = some 20517 := by decide
  rw [resolve_eq stocked 1 hm hn, if_neg (by decide), if_neg (by decide), if_neg (by decide),
    if_neg (by decide), if_neg (by decide)]
  rfl

theorem stocked_valid : stocked.Valid where
  businesses := by decide
  branches := by decide
  products := by decide
  variants := by decide
  movements := by decide
  movement_branch := by decide
  movement_product := by decide

def byNumber (a b : Uuid) : ℤ :=
  (a : ℤ) - b

theorem byNumber_le (a b : Uuid) : byNumber a b ≤ 0 ↔ a ≤ b := by
  unfold byNumber
  rw [sub_nonpos, Int.ofNat_le]

/-- The second page of one movement has the older one of two. -/
theorem movements_page_march
    : movements byNumber stocked 1 march = .ok {
        data := [stocked.entry received]
        page := 2
        pageSize := 1
        total := 2
        totalPages := 2
      } := by
  have hpage := movements_page byNumber_le stocked_valid resolve_march rfl rfl (by decide) rfl
  exact hpage.1.trans (congrArg Except.ok (by decide))

end Cafe

end SentryPos.Analytics
