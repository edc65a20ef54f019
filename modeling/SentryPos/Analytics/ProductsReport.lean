import SentryPos.Analytics.Explained

/-!
This module contains the reports on what is sold: the products that sell most and least, those that do
not sell and how one of them does over time. They share the lines of a scope out over its products.
-/

namespace SentryPos.Analytics

open Calendar JsDate Grouping

structure ZeroSalesRow where
  productId : Uuid
  name : String
  categoryName : String
  deriving DecidableEq

def isUnsold (db : Database) (business : ScopedBusiness) (p : Product) : Bool :=
  p.businessId = business.id && p.deletedAt.isNone && p.active
    && !(business.lines db).any fun line => line.1.productId = some p.id

def zeroSalesSql (db : Database) (business : ScopedBusiness) : List ZeroSalesRow :=
  ((db.products.filter (isUnsold db business)).flatMap fun p =>
    (db.categories.filter (·.id = p.categoryId)).map fun c =>
      { productId := p.id, name := p.name, categoryName := c.name : ZeroSalesRow }).mergeSort
    fun a b => a.name ≤ b.name

structure ProductTrendRow extends LineAggregateRow where
  units : ℤ
  revenueC : ℤ
  deriving DecidableEq

def productTrendSql (db : Database) (productId : Uuid) (granularity : Granularity)
    (business : ScopedBusiness) : List (ℤ × ProductTrendRow) :=
  -- All variants of the product are merged, other than in the rows of what is sold.
  let lines := (business.lines db).filter fun line => line.1.productId = some productId
  (groupBy (fun line => bucketExpr business granularity line.2) lines).map fun g =>
    (g.1, { aggregateLines g.2 with units := unitsOf g.2, revenueC := revenueOf g.2 })

inductive RankBy where
  | units
  | revenue
  deriving DecidableEq

inductive Direction where
  | asc
  | desc
  deriving DecidableEq

structure ProductReportQueryDto extends AnalyticsQueryDto where
  by_ : Option RankBy
  limit : Option ℕ
  limit_ge : ∀ n, limit = some n → 1 ≤ n
  limit_le : ∀ n, limit = some n → n ≤ 100

def DEFAULT_LIMIT : ℕ := 20

structure SoldRow where
  productId : Uuid
  variantId : Option Uuid
  name : String
  units : ℤ
  revenueC : ℤ
  grossProfitC : Option ℤ
  marginPct : Option ℚ
  deriving DecidableEq

def RankBy.value (by_ : RankBy) (row : SoldRow) : ℤ :=
  match by_ with
  | .units => row.units
  | .revenue => row.revenueC

structure CategoryRow where
  categoryId : Uuid
  name : String
  units : ℤ
  revenueC : ℤ
  deriving DecidableEq

structure TopProductsReport where
  fromDate : List Char
  toDate : List Char
  by_ : RankBy
  rows : List SoldRow
  categories : List CategoryRow
  deriving DecidableEq

structure SlowProductsReport where
  fromDate : List Char
  toDate : List Char
  bottom : List SoldRow
  zeroSales : List ZeroSalesRow
  deriving DecidableEq

structure ProductTrendBucket where
  bucket : List Char
  units : ℤ
  revenueC : ℤ
  grossProfitC : Option ℤ
  marginPct : Option ℚ
  deriving DecidableEq

structure ProductTrendReport where
  productId : Uuid
  fromDate : List Char
  toDate : List Char
  granularity : Granularity
  buckets : List ProductTrendBucket
  deriving DecidableEq

/-- A tally before margins are derived. `units` is in thousandths. -/
structure BucketTally extends Costed where
  units : ℤ
  deriving DecidableEq

def BucketTally.ofRow (units revenueC : ℤ) (row : LineAggregateRow) : BucketTally where
  units := units
  revenueC := revenueC
  costedLines := row.costedLines
  costedRevenueC := row.costedRevenueC
  costedCostC := row.costedCostC

def BucketTally.addRow (current : BucketTally) (units revenueC : ℤ) (row : LineAggregateRow)
    : BucketTally where
  units := current.units + units
  revenueC := current.revenueC + revenueC
  costedLines := current.costedLines + row.costedLines
  costedRevenueC := current.costedRevenueC + row.costedRevenueC
  costedCostC := current.costedCostC + row.costedCostC

structure Accumulated extends BucketTally where
  productId : Uuid
  variantId : Option Uuid
  name : String
  deriving DecidableEq

namespace ProductsReport

def accumulate (current : Option Accumulated) (row : ProductSalesRow) : Accumulated :=
  match current with
  | some acc =>
    { acc with
      toBucketTally := acc.addRow row.units row.revenueC row.toLineAggregateRow }
  | none =>
    { BucketTally.ofRow row.units row.revenueC row.toLineAggregateRow with
      productId := row.productId
      variantId := row.variantId
      name := row.name }

def soldEntries (db : Database) (businesses : List ScopedBusiness)
    : Entries (Uuid × Option Uuid) Accumulated :=
  businesses.foldl (fun m b =>
    m.merge (fun row => (row.productId, row.variantId)) accumulate (productSalesSql db b)) []

def sold (db : Database) (businesses : List ScopedBusiness) : List Accumulated :=
  (soldEntries db businesses).map Prod.snd

def toSoldRow (row : Accumulated) : SoldRow :=
  let margins := marginsOf row.toCosted
  {
    productId := row.productId
    variantId := row.variantId
    name := row.name
    units := row.units
    revenueC := row.revenueC
    grossProfitC := margins.grossProfitC
    marginPct := margins.marginPct
  }

def rankValue (by_ : RankBy) (row : Accumulated) : ℤ :=
  match by_ with
  | .units => row.units
  | .revenue => row.revenueC

/-- What `rank` compares with. -/
def rankBefore (by_ : RankBy) (direction : Direction) (a b : Accumulated) : Bool :=
  match direction with
  | .desc => rankValue by_ b ≤ rankValue by_ a
  | .asc => rankValue by_ a ≤ rankValue by_ b

def rank (rows : List Accumulated) (by_ : RankBy) (direction : Direction) : List SoldRow :=
  (rows.mergeSort (rankBefore by_ direction)).map toSoldRow

def addCategory (current : Option CategoryRow) (row : CategorySalesRow) : CategoryRow :=
  match current with
  | some acc =>
    { acc with units := acc.units + row.units, revenueC := acc.revenueC + row.revenueC }
  | none =>
    {
      categoryId := row.categoryId
      name := row.name
      units := row.units
      revenueC := row.revenueC
    }

def categoryEntries (db : Database) (businesses : List ScopedBusiness) : Entries Uuid CategoryRow :=
  businesses.foldl (fun m b => m.merge (·.categoryId) addCategory (categorySalesSql db b)) []

def topOf (db : Database) (scope : ResolvedScope) (by_ : Option RankBy) (limit : Option ℕ)
    : TopProductsReport where
  fromDate := scope.fromDate
  toDate := scope.toDate
  by_ := by_.getD .units
  rows := (rank (sold db scope.businesses) (by_.getD .units) .desc).take (limit.getD DEFAULT_LIMIT)
  categories := ((categoryEntries db scope.businesses).map Prod.snd).mergeSort
    fun a b => b.revenueC ≤ a.revenueC

def top (db : Database) (ownerId : Uuid) (query : ProductReportQueryDto)
    : Except ApiError TopProductsReport := do
  let scope ← resolve db ownerId query.toAnalyticsQueryDto
  return topOf db scope query.by_ query.limit

def slowOf (db : Database) (scope : ResolvedScope) (by_ : Option RankBy) (limit : Option ℕ)
    : SlowProductsReport where
  fromDate := scope.fromDate
  toDate := scope.toDate
  bottom := (rank (sold db scope.businesses) (by_.getD .units) .asc).take (limit.getD DEFAULT_LIMIT)
  zeroSales := scope.businesses.flatMap (zeroSalesSql db)

def slow (db : Database) (ownerId : Uuid) (query : ProductReportQueryDto)
    : Except ApiError SlowProductsReport := do
  let scope ← resolve db ownerId query.toAnalyticsQueryDto
  return slowOf db scope query.by_ query.limit

def addBucket (current : Option BucketTally) (row : List Char × ProductTrendRow) : BucketTally :=
  match current with
  | some tally => tally.addRow row.2.units row.2.revenueC row.2.toLineAggregateRow
  | none => .ofRow row.2.units row.2.revenueC row.2.toLineAggregateRow

def bucketEntries (db : Database) (productId : Uuid) (granularity : Granularity)
    (businesses : List ScopedBusiness) : Entries (List Char) BucketTally :=
  businesses.foldl (fun m b =>
    m.merge Prod.fst addBucket (keyed (productTrendSql db productId granularity b))) []

def trendOf (db : Database) (scope : ResolvedScope) (productId : Uuid) (granularity : Granularity)
    : ProductTrendReport :=
  let merged := bucketEntries db productId granularity scope.businesses
  -- A day without a sale is a bucket too. Weeks and months come from the data.
  let keys := if granularity = .day then scope.days
    else (merged.map Prod.fst).mergeSort fun a b => a ≤ b
  {
    productId
    fromDate := scope.fromDate
    toDate := scope.toDate
    granularity
    buckets := keys.map fun bucket =>
      let row := (merged.get? bucket).getD { emptyCosted with units := 0 }
      let margins := marginsOf row.toCosted
      {
        bucket
        units := row.units
        revenueC := row.revenueC
        grossProfitC := margins.grossProfitC
        marginPct := margins.marginPct
      }
  }

def findOwned (db : Database) (ownerId : Uuid) (productId : Uuid) : Option Product :=
  db.products.find? fun p =>
    p.id = productId && ((db.ownBusinesses ownerId).map (·.id)).contains p.businessId
      && p.deletedAt.isNone

def trend (db : Database) (ownerId : Uuid) (productId : Uuid) (query : AnalyticsQueryDto)
    (granularity : Option Granularity) : Except ApiError ProductTrendReport := do
  -- A product of somebody else is not told from one that does not exist.
  if (findOwned db ownerId productId).isNone then
    throw (.notFound "Product not found.")
  let scope ← resolve db ownerId query
  return trendOf db scope productId (granularity.getD .day)

abbrev Sold := ℤ × Costed

def lineSold (line : Line) : Sold :=
  (line.1.qty.milli, lineCosted line)

def rowSold (units revenueC : ℤ) (row : LineAggregateRow) : Sold :=
  (units, rowCosted revenueC row)

theorem sum_lineSold (lines : List Line)
    : (lines.map lineSold).sum = (unitsOf lines, costedOf lines) := by
  induction lines with
  | nil => rfl
  | cons line lines ih =>
    rw [List.map_cons, List.sum_cons, ih]
    rfl

theorem rowSold_lines (lines : List Line)
    : rowSold (unitsOf lines) (revenueOf lines) (aggregateLines lines) = (lines.map lineSold).sum := by
  rw [sum_lineSold, costedOf_eq]
  rfl

structure OfLines (lines : List Line) (units revenueC : ℤ) (grossProfitC : Option ℤ)
    (marginPct : Option ℚ) : Prop where
  units : units = unitsOf lines
  revenueC : revenueC = revenueOf lines
  grossProfitC : grossProfitC = (marginsOf (costedOf lines)).grossProfitC
  marginPct : marginPct = (marginsOf (costedOf lines)).marginPct

theorem ofLines_of_sold {lines : List Line} {t : BucketTally}
    (h : (t.units, t.toCosted) = (lines.map lineSold).sum)
    : OfLines lines t.units t.revenueC (marginsOf t.toCosted).grossProfitC
        (marginsOf t.toCosted).marginPct := by
  rw [sum_lineSold, Prod.mk.injEq] at h
  have hrevenue : t.revenueC = (costedOf lines).revenueC := congrArg Costed.revenueC h.2
  rw [(costedOf_fields lines).1] at hrevenue
  constructor
  . exact h.1
  . exact hrevenue
  . rw [h.2]
  . rw [h.2]

section Sold

variable {db : Database} {businesses : List ScopedBusiness}

theorem adds_accumulate
    : Entries.Adds (fun acc : Accumulated => ((acc.units, acc.toCosted) : Sold)) accumulate
        fun row => rowSold row.units row.revenueC row.toLineAggregateRow := by
  intro acc row
  cases acc with
  | none => simp [accumulate, BucketTally.ofRow, rowSold, rowCosted, addInto, emptyCosted]
  | some acc =>
    simp [accumulate, BucketTally.addRow, rowSold, rowCosted, addInto, emptyCosted, Costed.add_eq]

theorem adds_addBucket
    : Entries.Adds (fun t : BucketTally => ((t.units, t.toCosted) : Sold)) addBucket
        fun row => rowSold row.2.units row.2.revenueC row.2.toLineAggregateRow := by
  intro acc row
  cases acc with
  | none => simp [addBucket, BucketTally.ofRow, rowSold, rowCosted, addInto, emptyCosted]
  | some acc =>
    simp [addBucket, BucketTally.addRow, rowSold, rowCosted, addInto, emptyCosted, Costed.add_eq]

theorem soldEntries_key {e : (Uuid × Option Uuid) × Accumulated} (he : e ∈ soldEntries db businesses)
    : (e.2.productId, e.2.variantId) = e.1 := by
  have hadd : ∀ (acc : Option Accumulated) (row : ProductSalesRow),
      (∀ b, acc = some b → (b.productId, b.variantId) = (row.productId, row.variantId)) →
        ((accumulate acc row).productId, (accumulate acc row).variantId)
          = (row.productId, row.variantId) := by
    intro acc row hacc
    cases acc with
    | none => rfl
    | some acc => exact hacc acc rfl
  exact Entries.forall_mergeAll (P := fun k acc => (acc.productId, acc.variantId) = k) hadd (by simp)
    (productSalesSql db) businesses e he

/-- Each product that has sold, in each variant, with the figures of its lines. -/
structure SoldRows (db : Database) (scope : ResolvedScope) (rows : List SoldRow) : Prop where
  once : (rows.map fun row => (row.productId, row.variantId)).Nodup
  keys : ∀ k, k ∈ rows.map (fun row => (row.productId, row.variantId))
    ↔ groupOf db scope.businesses productKey k ≠ []
  figures : ∀ row ∈ rows,
    OfLines (groupOf db scope.businesses productKey (row.productId, row.variantId)) row.units
      row.revenueC row.grossProfitC row.marginPct

theorem line_of_product {productId : Uuid} {variantId : Option Uuid} {line : Line}
    (hline : line ∈ groupOf db businesses productKey (productId, variantId))
    : line.1.productId = some productId ∧ ∃ b ∈ businesses, line ∈ b.lines db := by
  unfold groupOf productKey at hline
  obtain ⟨b, hb, hline⟩ := List.mem_flatMap.mp hline
  obtain ⟨hline, hkey⟩ := List.mem_filter.mp hline
  rw [decide_eq_true_eq, Option.map_eq_some_iff] at hkey
  obtain ⟨id, hid, heq⟩ := hkey
  rw [Prod.mk.injEq] at heq
  exact ⟨by rw [hid, heq.1], b, hb, hline⟩

theorem group_of_line {b : ScopedBusiness} (hb : b ∈ businesses) {line : Line}
    (hline : line ∈ b.lines db) {k : Uuid × Option Uuid} (hk : productKey b line = some k)
    : groupOf db businesses productKey k ≠ [] := by
  apply List.ne_nil_of_mem (a := line)
  unfold groupOf
  rw [List.mem_flatMap]
  exact ⟨b, hb, by simp [hline, hk]⟩

theorem productRows_sold (b : ScopedBusiness) (k : Uuid × Option Uuid)
    : (((productSalesSql db b).filter fun row => (row.productId, row.variantId) = k).map fun row =>
          rowSold row.units row.revenueC row.toLineAggregateRow).sum
        =
      (((b.lines db).filter fun line => productKey b line = some k).map lineSold).sum := by
  apply productRows_value
  intro row lines hunits hrevenue haggregate
  rw [hunits, hrevenue, haggregate]
  exact rowSold_lines lines

theorem sold_soldRows (scope : ResolvedScope)
    : SoldRows db scope ((sold db scope.businesses).map toSoldRow) := by
  obtain ⟨hnodup, hkeys, hat⟩ := merged_lines db scope.businesses adds_accumulate
    (fun b _ => productRows_sold b) (fun b _ => productRows_keys b)
  obtain ⟨hrowKeys, hvalue⟩ := Entries.values_of_keys
    (fun acc : Accumulated => ((acc.units, acc.toCosted) : Sold))
    (fun acc => (acc.productId, acc.variantId)) hnodup fun e he => soldEntries_key he
  constructor
  . rw [List.map_map]
    exact hrowKeys ▸ hnodup
  . rw [List.map_map]
    exact hrowKeys ▸ hkeys
  . intro row hrow
    obtain ⟨acc, hacc, heq⟩ := List.mem_map.mp hrow
    rw [← heq]
    apply ofLines_of_sold
    rw [← hvalue acc hacc]
    exact hat _

/-- The first rows of all by a figure, the greatest first. -/
def Ranked (value : SoldRow → ℤ) (limit : ℕ) (all listed : List SoldRow) : Prop :=
  ∃ rest, (listed ++ rest).Perm all ∧ (listed ++ rest).Pairwise (fun a b => value b ≤ value a)
    ∧ listed.length = min limit all.length

theorem rank_ranked {rows : List Accumulated} {by_ : RankBy} {direction : Direction}
    {value : SoldRow → ℤ} (limit : ℕ)
    (hvalue : ∀ a b,
      rankBefore by_ direction a b = true ↔ value (toSoldRow b) ≤ value (toSoldRow a))
    : Ranked value limit (rows.map toSoldRow) ((rank rows by_ direction).take limit) := by
  refine ⟨(rank rows by_ direction).drop limit, ?_, ?_, ?_⟩
  . rw [List.take_append_drop]
    exact (List.mergeSort_perm _ _).map _
  . have hsorted : (rows.mergeSort (rankBefore by_ direction)).Pairwise
        fun a b => rankBefore by_ direction a b := by
      apply List.pairwise_mergeSort
      . intro a b c hab hbc
        rw [hvalue] at hab hbc ⊢
        omega
      . intro a b
        rw [Bool.or_eq_true, hvalue, hvalue]
        omega
    rw [List.take_append_drop]
    unfold rank
    rw [List.pairwise_map]
    apply hsorted.imp
    intro a b hab
    exact (hvalue a b).mp hab
  . unfold rank
    rw [List.length_take, List.length_map, List.length_map, List.length_mergeSort]

theorem top_ranked (by_ : RankBy) (limit : ℕ) (rows : List Accumulated)
    : Ranked by_.value limit (rows.map toSoldRow) ((rank rows by_ .desc).take limit) := by
  apply rank_ranked
  intro a b
  unfold rankBefore
  dsimp only
  rw [decide_eq_true_eq]
  cases by_
  . rfl
  . rfl

theorem bottom_ranked (by_ : RankBy) (limit : ℕ) (rows : List Accumulated)
    : Ranked (fun row => -by_.value row) limit (rows.map toSoldRow)
        ((rank rows by_ .asc).take limit) := by
  apply rank_ranked
  intro a b
  unfold rankBefore
  dsimp only
  rw [decide_eq_true_eq, neg_le_neg_iff]
  cases by_
  . rfl
  . rfl

def lineFigures (line : Line) : ℤ × ℤ :=
  (line.1.qty.milli, line.1.netC)

theorem sum_lineFigures (lines : List Line)
    : (lines.map lineFigures).sum = (unitsOf lines, revenueOf lines) := by
  induction lines with
  | nil => rfl
  | cons line lines ih =>
    rw [List.map_cons, List.sum_cons, ih]
    rfl

theorem adds_addCategory
    : Entries.Adds (fun c : CategoryRow => (c.units, c.revenueC)) addCategory
        fun row => (row.units, row.revenueC) := by
  intro acc row
  cases acc <;> simp [addCategory]

theorem categoryEntries_key {e : Uuid × CategoryRow} (he : e ∈ categoryEntries db businesses)
    : e.2.categoryId = e.1 := by
  have hadd : ∀ (acc : Option CategoryRow) (row : CategorySalesRow),
      (∀ b, acc = some b → b.categoryId = row.categoryId) →
        (addCategory acc row).categoryId = row.categoryId := by
    intro acc row hacc
    cases acc with
    | none => rfl
    | some acc => exact hacc acc rfl
  exact Entries.forall_mergeAll (P := fun k c => c.categoryId = k) hadd (by simp) (categorySalesSql db)
    businesses e he

/-- Each category that has sold, with the figures of the lines of its products. -/
structure CategoriesBy (db : Database) (scope : ResolvedScope) (rows : List CategoryRow) : Prop where
  once : (rows.map (·.categoryId)).Nodup
  keys : ∀ k, k ∈ rows.map (·.categoryId) ↔ groupOf db scope.businesses (categoryKey db) k ≠ []
  units : ∀ row ∈ rows,
    row.units = unitsOf (groupOf db scope.businesses (categoryKey db) row.categoryId)
  revenueC : ∀ row ∈ rows,
    row.revenueC = revenueOf (groupOf db scope.businesses (categoryKey db) row.categoryId)
  ranked : rows.Pairwise fun a b => b.revenueC ≤ a.revenueC

theorem topOf_categories (hdb : db.Valid) (hlinked : db.Linked) (scope : ResolvedScope)
    (by_ : Option RankBy) (limit : Option ℕ)
    : CategoriesBy db scope (topOf db scope by_ limit).categories := by
  have hvalue : ∀ b ∈ scope.businesses, ∀ k,
      (((categorySalesSql db b).filter fun row => row.categoryId = k).map
          fun row => (row.units, row.revenueC)).sum
        = (((b.lines db).filter fun line => categoryKey db b line = some k).map lineFigures).sum := by
    intro b _ k
    apply categoryRows_value _ hdb hlinked
    intro row lines hunits hrevenue _
    rw [hunits, hrevenue, sum_lineFigures]
  obtain ⟨hnodup, hkeys, hat⟩ := merged_lines db scope.businesses adds_addCategory hvalue
    (fun b _ => categoryRows_keys hdb hlinked b)
  have hperm : (topOf db scope by_ limit).categories.Perm
      ((categoryEntries db scope.businesses).map Prod.snd) := List.mergeSort_perm _ _
  unfold categoryEntries at hperm
  obtain ⟨hrowKeys, hrowValue⟩ := Entries.values_of_keys
    (fun c : CategoryRow => (c.units, c.revenueC)) (·.categoryId) hnodup
    fun e he => categoryEntries_key he
  have hfigures : ∀ row ∈ (topOf db scope by_ limit).categories, (row.units, row.revenueC)
      = ((groupOf db scope.businesses (categoryKey db) row.categoryId).map lineFigures).sum := by
    intro row hrow
    rw [← hrowValue row (hperm.mem_iff.mp hrow)]
    exact hat _
  constructor
  . rw [(hperm.map _).nodup_iff, hrowKeys]
    exact hnodup
  . intro k
    rw [(hperm.map _).mem_iff, hrowKeys]
    exact hkeys k
  . intro row hrow
    have h := hfigures row hrow
    rw [sum_lineFigures] at h
    exact congrArg Prod.fst h
  . intro row hrow
    have h := hfigures row hrow
    rw [sum_lineFigures] at h
    exact congrArg Prod.snd h
  . have hsorted : (topOf db scope by_ limit).categories.Pairwise
        fun a b => decide (b.revenueC ≤ a.revenueC) := by
      apply List.pairwise_mergeSort
      . intro a b c hab hbc
        rw [decide_eq_true_eq] at hab hbc ⊢
        omega
      . intro a b
        rw [Bool.or_eq_true, decide_eq_true_eq, decide_eq_true_eq]
        omega
    apply hsorted.imp
    intro a b hab
    exact of_decide_eq_true hab

end Sold

section Trend

variable {db : Database}

def trendKey (productId : Uuid) (granularity : Granularity) (b : ScopedBusiness) (line : Line)
    : Option (List Char) :=
  if line.1.productId = some productId then bucketTextKey granularity b line else none

theorem trendKey_isSome (productId : Uuid) (granularity : Granularity) (b : ScopedBusiness)
    (line : Line)
    : (trendKey productId granularity b line).isSome = decide (line.1.productId = some productId) := by
  unfold trendKey bucketTextKey
  split <;> simp [*]

theorem trendRows_sum (productId : Uuid) (granularity : Granularity) (b : ScopedBusiness)
    (k : List Char)
    : (((keyed (productTrendSql db productId granularity b)).filter fun row => row.1 = k).map
          fun row => rowSold row.2.units row.2.revenueC row.2.toLineAggregateRow).sum
        =
      (((b.lines db).filter fun line => trendKey productId granularity b line = some k).map
        lineSold).sum := by
  have hgroups := sum_filter_groupBy (fun line : Line => bucketExpr b granularity line.2) lineSold
    ((b.lines db).filter fun line => line.1.productId = some productId) fun bucket =>
      bucketKey bucket = k
  unfold keyed productTrendSql
  dsimp only
  rw [List.map_map, List.filter_map, List.map_map]
  refine Eq.trans ?_ (hgroups.trans ?_)
  . congr 1
    apply List.map_congr_left
    intro g _
    exact rowSold_lines g.2
  . rw [List.filter_filter]
    congr 2
    apply List.filter_congr
    intro line _
    unfold trendKey bucketTextKey
    split <;> simp [*]

theorem trendRows_keys (productId : Uuid) (granularity : Granularity) (b : ScopedBusiness)
    (k : List Char)
    : k ∈ (keyed (productTrendSql db productId granularity b)).map Prod.fst
        ↔ ∃ line ∈ b.lines db, trendKey productId granularity b line = some k := by
  have hmem : k ∈ (keyed (productTrendSql db productId granularity b)).map Prod.fst
      ↔ ∃ bucket, bucket ∈ (groupBy (fun line : Line => bucketExpr b granularity line.2)
        ((b.lines db).filter fun line => line.1.productId = some productId)).map Prod.fst
          ∧ bucketKey bucket = k := by
    unfold keyed productTrendSql
    simp
  rw [hmem]
  simp only [keys_groupBy]
  simp only [List.mem_map, List.mem_filter, decide_eq_true_eq]
  unfold trendKey bucketTextKey
  constructor
  . rintro ⟨bucket, ⟨line, ⟨hline, hid⟩, hbucket⟩, hk⟩
    refine ⟨line, hline, ?_⟩
    rw [if_pos hid, hbucket, hk]
  . rintro ⟨line, hline, hkey⟩
    split at hkey
    . next hid => exact ⟨_, ⟨line, ⟨hline, hid⟩, rfl⟩, Option.some.inj hkey⟩
    . cases hkey

def linesOfProduct (db : Database) (businesses : List ScopedBusiness) (productId : Uuid)
    : List Line :=
  (linesIn db businesses).filter fun line => line.1.productId = some productId

/-- Buckets with the figures of the lines of a product, which add up to all its lines. -/
structure TrendBy (db : Database) (scope : ResolvedScope) (productId : Uuid)
    (granularity : Granularity) (buckets : List ProductTrendBucket) : Prop where
  once : (buckets.map (·.bucket)).Nodup
  figures : ∀ row ∈ buckets,
    OfLines (groupOf db scope.businesses (trendKey productId granularity) row.bucket) row.units
      row.revenueC row.grossProfitC row.marginPct
  units : (buckets.map (·.units)).sum = unitsOf (linesOfProduct db scope.businesses productId)
  revenueC : (buckets.map (·.revenueC)).sum
    = revenueOf (linesOfProduct db scope.businesses productId)

theorem trendOf_figures (scope : ResolvedScope) (productId : Uuid) (granularity : Granularity)
    {row : ProductTrendBucket} (hrow : row ∈ (trendOf db scope productId granularity).buckets)
    : OfLines (groupOf db scope.businesses (trendKey productId granularity) row.bucket) row.units
        row.revenueC row.grossProfitC row.marginPct := by
  obtain ⟨_, _, hat⟩ := merged_lines db scope.businesses adds_addBucket
    (fun b _ => trendRows_sum productId granularity b)
    (fun b _ => trendRows_keys productId granularity b)
  obtain ⟨bucket, _, heq⟩ := List.mem_map.mp hrow
  rw [← heq]
  apply ofLines_of_sold
  rw [← hat bucket]
  unfold Entries.at? bucketEntries
  cases Entries.get? _ bucket <;> rfl

theorem trendOf_buckets {ownerId : Uuid} {query : AnalyticsQueryDto} {scope : ResolvedScope}
    (hscope : resolve db ownerId query = .ok scope) (productId : Uuid) {granularity : Granularity}
    (hto : granularity = .day → RealDate query.toDate)
    : ((trendOf db scope productId granularity).buckets.map (·.bucket)).Nodup
        ∧ ∀ b ∈ scope.businesses, ∀ line ∈ b.lines db, ∀ k,
          trendKey productId granularity b line = some k →
            k ∈ (trendOf db scope productId granularity).buckets.map (·.bucket) := by
  obtain ⟨hnodup, hmem, _⟩ := Entries.mergeAll_spec Prod.fst (m := []) adds_addBucket List.nodup_nil
    (fun b => keyed (productTrendSql db productId granularity b)) scope.businesses
  have hkeys : (trendOf db scope productId granularity).buckets.map (·.bucket)
      = if granularity = .day then scope.days
        else ((bucketEntries db productId granularity scope.businesses).map Prod.fst).mergeSort
          fun a b => a ≤ b := by
    unfold trendOf
    dsimp only
    rw [List.map_map, Function.comp_def, List.map_id']
  rw [hkeys]
  split
  . next hday =>
    have hdays := days_of_lines hscope (hto hday).calendarDate
    refine ⟨hdays.1, ?_⟩
    intro b hb line hline k hk
    unfold trendKey bucketTextKey at hk
    split at hk
    . rw [← Option.some.inj hk, hday]
      exact hdays.2 b hb line hline
    . cases hk
  . refine ⟨(List.mergeSort_perm _ _).nodup_iff.mpr hnodup, ?_⟩
    intro b hb line hline k hk
    rw [List.mem_mergeSort]
    exact (hmem _).mpr (.inr ⟨b, hb, (trendRows_keys productId granularity b k).mpr ⟨line, hline, hk⟩⟩)

theorem trendOf_trendBy {ownerId : Uuid} {query : AnalyticsQueryDto} {scope : ResolvedScope}
    (hscope : resolve db ownerId query = .ok scope) (productId : Uuid) {granularity : Granularity}
    (hto : granularity = .day → RealDate query.toDate)
    : TrendBy db scope productId granularity (trendOf db scope productId granularity).buckets := by
  obtain ⟨hnodup, hcovered⟩ := trendOf_buckets hscope productId hto
  have hsum : ∀ (f : Line → ℤ) (figure : ProductTrendBucket → ℤ),
      (∀ row ∈ (trendOf db scope productId granularity).buckets, figure row
        = ((groupOf db scope.businesses (trendKey productId granularity) row.bucket).map f).sum) →
      ((trendOf db scope productId granularity).buckets.map figure).sum
        = ((linesOfProduct db scope.businesses productId).map f).sum := by
    intro f figure hfigure
    unfold linesOfProduct
    rw [← sum_keyedLines f fun b _ line _ => trendKey_isSome productId granularity b line,
      ← sum_groups f hnodup hcovered, List.map_map]
    congr 1
    apply List.map_congr_left
    intro row hrow
    exact hfigure row hrow
  constructor
  . exact hnodup
  . intro row hrow
    exact trendOf_figures scope productId granularity hrow
  . apply hsum
    intro row hrow
    exact (trendOf_figures scope productId granularity hrow).units
  . apply hsum
    intro row hrow
    exact (trendOf_figures scope productId granularity hrow).revenueC

theorem SoldRows.sum_product {scope : ResolvedScope} {rows : List SoldRow} (h : SoldRows db scope rows)
    (productId : Uuid) (f : Line → ℤ) {figure : SoldRow → ℤ}
    (hfigure : ∀ row ∈ rows, figure row
      = ((groupOf db scope.businesses productKey (row.productId, row.variantId)).map f).sum)
    : ((rows.filter (·.productId = productId)).map figure).sum
        =
      ((linesOfProduct db scope.businesses productId).map f).sum := by
  have hkeyed : ∀ b ∈ scope.businesses, ∀ line ∈ b.lines db,
      (productKey b line).isSome = line.1.productId.isSome := by
    intro b _ line _
    exact Option.isSome_map
  have hcovered : ∀ b ∈ scope.businesses, ∀ line ∈ b.lines db, ∀ k, productKey b line = some k →
      k ∈ rows.map fun row => (row.productId, row.variantId) := by
    intro b hb line hline k hk
    rw [h.keys]
    exact group_of_line hb hline hk
  have hrow : ∀ row ∈ rows, (if row.productId = productId then figure row else 0)
      = ((groupOf db scope.businesses productKey (row.productId, row.variantId)).map
          fun line => if line.1.productId = some productId then f line else 0).sum := by
    intro row hrow
    split
    . next hid =>
      rw [hfigure row hrow]
      congr 1
      apply List.map_congr_left
      intro line hline
      rw [(line_of_product hline).1, hid, if_pos rfl]
    . next hid =>
      rw [List.map_congr_left (g := fun _ => 0)]
      . simp
      . intro line hline
        rw [(line_of_product hline).1, if_neg]
        intro heq
        exact hid (Option.some.inj heq)
  have hlines : (((linesIn db scope.businesses).filter (·.1.productId.isSome)).filter
      fun line => line.1.productId = some productId) = linesOfProduct db scope.businesses productId := by
    unfold linesOfProduct
    rw [List.filter_filter]
    apply List.filter_congr
    intro line _
    cases line.1.productId <;> simp
  have hgroups := sum_groups (fun line => if line.1.productId = some productId then f line else 0)
    h.once hcovered
  rw [sum_keyedLines (fun line => if line.1.productId = some productId then f line else 0) hkeyed,
    List.map_map] at hgroups
  rw [sum_filter_eq, List.map_congr_left hrow, ← hlines, sum_filter_eq, ← hgroups]
  rfl

end Trend

section Unsold

variable {db : Database} (hdb : db.Valid) {ownerId : Uuid} {query : AnalyticsQueryDto}
  {scope : ResolvedScope} (hscope : resolve db ownerId query = .ok scope)

include hdb in
theorem mem_zeroSalesSql (hlinked : db.Linked) (b : ScopedBusiness) {p : Product}
    (hp : p ∈ db.products) : p.id ∈ (zeroSalesSql db b).map (·.productId) ↔ isUnsold db b p := by
  unfold zeroSalesSql
  rw [((List.mergeSort_perm _ _).map _).mem_iff, List.mem_map]
  constructor
  . rintro ⟨row, hrow, hid⟩
    obtain ⟨p', hp', hrow⟩ := List.mem_flatMap.mp hrow
    obtain ⟨c, _, heq⟩ := List.mem_map.mp hrow
    rw [List.mem_filter] at hp'
    have hsame : p'.id = p.id := by
      rw [← hid, ← heq]
    rw [← List.inj_on_of_nodup_map hdb.products hp'.1 hp hsame]
    exact hp'.2
  . intro hunsold
    obtain ⟨c, hc, hcid⟩ := List.mem_map.mp (hlinked.product_category p hp)
    refine ⟨{ productId := p.id, name := p.name, categoryName := c.name }, ?_, rfl⟩
    rw [List.mem_flatMap]
    refine ⟨p, List.mem_filter.mpr ⟨hp, hunsold⟩, List.mem_map.mpr ⟨c, ?_, rfl⟩⟩
    rw [List.mem_filter, decide_eq_true_eq]
    exact ⟨hc, hcid⟩

/-- What is sold in a branch is a product of its business: a product is never in two businesses. -/
def SoldAtHome (db : Database) : Prop :=
  ∀ line ∈ db.saleLines, ∀ s ∈ db.sales, s.id = line.saleId →
    ∀ p ∈ db.products, line.productId = some p.id →
      ∀ branch ∈ db.branches, branch.id = s.branchId → branch.businessId = p.businessId

include hdb hscope in
theorem business_of_line (hhome : SoldAtHome db) {b b' : ScopedBusiness} (hb : b ∈ scope.businesses)
    (hb' : b' ∈ scope.businesses) {line : Line} (hline : line ∈ b'.lines db) {p : Product}
    (hp : p ∈ db.products) (hid : line.1.productId = some p.id) (hbusiness : p.businessId = b.id)
    : b' = b := by
  unfold ScopedBusiness.lines completedLines at hline
  obtain ⟨si, hsi, hs⟩ := List.mem_flatMap.mp hline
  obtain ⟨s, hs, heq⟩ := List.mem_map.mp hs
  obtain ⟨hs, hjoin⟩ := List.mem_filter.mp hs
  have hsale := List.mem_filter.mp (List.mem_of_mem_filter hs)
  have hwindow := hsale.2
  unfold inWindow at hwindow
  simp only [Bool.and_eq_true, List.contains_iff_mem] at hwindow
  obtain ⟨branch, hbranch, hbranchId, hhomeId⟩ := branch_of_scope hscope hb' hwindow.1.1.1
  subst heq
  have hsame := hhome si (List.mem_of_mem_filter hsi) s hsale.1 (by simpa using hjoin) p hp hid branch
    hbranch hbranchId
  apply List.inj_on_of_nodup_map (nodup_scope hdb hscope) hb' hb
  rw [← hhomeId, hsame, hbusiness]

include hdb hscope in
theorem zeroSales_or_sold (hlinked : db.Linked) (hhome : SoldAtHome db) (by_ : Option RankBy)
    (limit : Option ℕ) {p : Product} (hp : p ∈ db.products)
    (hbusiness : p.businessId ∈ scope.businesses.map (·.id)) (hlive : p.deletedAt = none)
    (hactive : p.active)
    : p.id ∈ (slowOf db scope by_ limit).zeroSales.map (·.productId)
        ↔ p.id ∉ ((sold db scope.businesses).map toSoldRow).map (·.productId) := by
  have hsold : SoldRows db scope ((sold db scope.businesses).map toSoldRow) := sold_soldRows scope
  obtain ⟨b, hb, hbid⟩ := List.mem_map.mp hbusiness
  have hlisted : p.id ∈ ((sold db scope.businesses).map toSoldRow).map (·.productId)
      ↔ ∃ b' ∈ scope.businesses, ∃ line ∈ b'.lines db, line.1.productId = some p.id := by
    constructor
    . intro hmem
      obtain ⟨row, hrow, hid⟩ := List.mem_map.mp hmem
      have hgroup := (hsold.keys _).mp (List.mem_map_of_mem hrow)
      obtain ⟨line, hline⟩ := List.exists_mem_of_ne_nil _ hgroup
      obtain ⟨hlineId, b', hb', hline⟩ := line_of_product hline
      exact ⟨b', hb', line, hline, by rw [hlineId, hid]⟩
    . rintro ⟨b', hb', line, hline, hid⟩
      have hgroup : groupOf db scope.businesses productKey (p.id, line.1.variantId) ≠ [] := by
        apply group_of_line hb' hline
        unfold productKey
        rw [hid]
        rfl
      obtain ⟨row, hrow, hkey⟩ := List.mem_map.mp ((hsold.keys _).mpr hgroup)
      exact List.mem_map.mpr ⟨row, hrow, congrArg Prod.fst hkey⟩
  rw [hlisted]
  unfold slowOf
  dsimp only
  rw [List.map_flatMap, List.mem_flatMap]
  constructor
  . rintro ⟨b1, hb1, hmem⟩ ⟨b2, hb2, line, hline, hid⟩
    rw [mem_zeroSalesSql hdb hlinked b1 hp] at hmem
    unfold isUnsold at hmem
    simp only [Bool.and_eq_true, decide_eq_true_eq, Bool.not_eq_true', List.any_eq_false] at hmem
    -- The line is one of the business that lists the product.
    have heq := business_of_line hdb hscope hhome hb1 hb2 hline hp hid hmem.1.1.1
    rw [heq] at hline
    exact hmem.2 line hline hid
  -- No business of the scope has a line of the product, so its own has none.
  . intro hnone
    refine ⟨b, hb, ?_⟩
    rw [mem_zeroSalesSql hdb hlinked b hp]
    unfold isUnsold
    simp only [Bool.and_eq_true, decide_eq_true_eq, Bool.not_eq_true', List.any_eq_false]
    refine ⟨⟨⟨hbid.symm, by rw [hlive]; rfl⟩, hactive⟩, ?_⟩
    intro line hline hid
    exact hnone ⟨b, hb, line, hline, hid⟩

include hscope in
theorem trend_eq {p : Product} (hp : p ∈ db.products)
    (hbusiness : p.businessId ∈ scope.businesses.map (·.id)) (hlive : p.deletedAt = none)
    (granularity : Option Granularity)
    : ProductsReport.trend db ownerId p.id query granularity
        =
      .ok (ProductsReport.trendOf db scope p.id (granularity.getD .day)) := by
  obtain ⟨b, hb, hbid⟩ := List.mem_map.mp hbusiness
  obtain ⟨business, hbusiness, hid, _⟩ := mem_scope hscope hb
  have hown : p.businessId ∈ (db.ownBusinesses ownerId).map (·.id) :=
    List.mem_map.mpr ⟨business, List.mem_of_mem_filter hbusiness, by rw [hid, hbid]⟩
  have hfound : (findOwned db ownerId p.id).isSome := by
    unfold findOwned
    rw [List.find?_isSome]
    exact ⟨p, hp, by simp [hlive, hown]⟩
  unfold ProductsReport.trend
  rw [if_neg (by simp [Option.isSome_iff_ne_none.mp hfound]), hscope]
  rfl

end Unsold

end ProductsReport

namespace Cafe

theorem one_limit_ge (n : ℕ) (hn : some 1 = some n) : 1 ≤ n := by
  rw [← Option.some.inj hn]

theorem one_limit_le (n : ℕ) (hn : some 1 = some n) : n ≤ 100 := by
  rw [← Option.some.inj hn]
  omega

def mostSold : ProductReportQueryDto :=
  { inMarch with
    by_ := some .revenue
    limit := some 1
    limit_ge := one_limit_ge
    limit_le := one_limit_le }

theorem costing_soldAtHome : ProductsReport.SoldAtHome costing := by
  unfold ProductsReport.SoldAtHome
  decide

end Cafe

end SentryPos.Analytics
