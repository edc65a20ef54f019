import SentryPos.Analytics.Reconcile

/-!
This module contains what the rows of the profit report are: one for each group of the lines of a
scope, with the margins of these lines. A margin that is not known is no margin of zero.
-/

namespace SentryPos.Analytics

open Calendar JsDate Grouping

namespace Costed

instance : Add Costed where
  add a b := {
    revenueC := a.revenueC + b.revenueC
    costedLines := a.costedLines + b.costedLines
    costedRevenueC := a.costedRevenueC + b.costedRevenueC
    costedCostC := a.costedCostC + b.costedCostC }

instance : Zero Costed where
  zero := emptyCosted

theorem add_eq (a b : Costed)
    : a + b = {
        revenueC := a.revenueC + b.revenueC
        costedLines := a.costedLines + b.costedLines
        costedRevenueC := a.costedRevenueC + b.costedRevenueC
        costedCostC := a.costedCostC + b.costedCostC } := rfl

theorem zero_eq
    : (0 : Costed) = { revenueC := 0, costedLines := 0, costedRevenueC := 0, costedCostC := 0 } := rfl

instance : AddCommMonoid Costed where
  add_assoc a b c := by
    simp [add_eq, add_assoc]
  zero_add a := by
    simp [add_eq, zero_eq]
  add_zero a := by
    simp [add_eq, zero_eq]
  add_comm a b := by
    simp [add_eq, add_comm]
  nsmul := nsmulRec

end Costed

def lineCosted (line : Line) : Costed where
  revenueC := line.1.netC
  costedLines := if isCosted line then 1 else 0
  costedRevenueC := if isCosted line then line.1.netC else 0
  costedCostC := (costC line.1.toSaleItem).getD 0

def costedOf (lines : List Line) : Costed :=
  (lines.map lineCosted).sum

theorem costedOf_eq (lines : List Line)
    : costedOf lines = addInto emptyCosted (revenueOf lines) (aggregateLines lines) := by
  induction lines with
  | nil => rfl
  | cons line lines ih =>
    have hcons : costedOf (line :: lines) = lineCosted line + costedOf lines := rfl
    rw [hcons, ih, Costed.add_eq]
    unfold lineCosted addInto aggregateLines revenueOf emptyCosted
    by_cases hcosted : isCosted line
    . obtain ⟨cost, hcost⟩ := Option.isSome_iff_exists.mp hcosted
      simp [hcosted, costC, hcost]
      omega
    . have hnone : line.1.costSnapshot = none := by
        simpa [isCosted] using hcosted
      simp [hcosted, costC, hnone]

theorem marginsOf_unknown (lines : List Line)
    : (marginsOf (costedOf lines)).grossProfitC = none ↔ ∀ line ∈ lines, line.1.costSnapshot = none := by
  rw [costedOf_eq]
  unfold marginsOf grossProfitC addInto aggregateLines emptyCosted
  simp [isCosted]

def groupOf {κ : Type} [DecidableEq κ] (db : Database) (businesses : List ScopedBusiness)
    (key : ScopedBusiness → Line → Option κ) (k : κ) : List Line :=
  businesses.flatMap fun b => (b.lines db).filter fun line => key b line = some k

/-- Rows of a report, one for each group that has lines, with the margins of the lines. -/
structure MarginsBy {κ ρ : Type} [DecidableEq κ] (db : Database) (scope : ResolvedScope)
    (key : ScopedBusiness → Line → Option κ) (rowKey : ρ → κ) (figures : ρ → MarginFigures)
    (rows : List ρ) : Prop where
  once : (rows.map rowKey).Nodup
  keys : ∀ k, k ∈ rows.map rowKey ↔ groupOf db scope.businesses key k ≠ []
  margins : ∀ row ∈ rows,
    figures row = marginsOf (costedOf (groupOf db scope.businesses key (rowKey row)))
  unknown : ∀ row ∈ rows, (figures row).grossProfitC = none
    ↔ ∀ line ∈ groupOf db scope.businesses key (rowKey row), line.1.costSnapshot = none

section Merged

variable {κ ρ β M : Type} [DecidableEq κ] [AddCommMonoid M] (db : Database)
  (businesses : List ScopedBusiness) {rows : ScopedBusiness → List ρ} {rowKey : ρ → κ}
  {add : Option β → ρ → β} {measure : β → M} {f : ρ → M} {key : ScopedBusiness → Line → Option κ}
  {value : Line → M}

theorem merged_lines (hadd : Entries.Adds measure add f)
    (hrows : ∀ b ∈ businesses, ∀ k, (((rows b).filter fun row => rowKey row = k).map f).sum
      = (((b.lines db).filter fun line => key b line = some k).map value).sum)
    (hkeys : ∀ b ∈ businesses, ∀ k, k ∈ (rows b).map rowKey ↔ ∃ line ∈ b.lines db, key b line = some k)
    : let m := businesses.foldl (fun m b => Entries.merge rowKey add m (rows b)) []
      (m.map Prod.fst).Nodup
        ∧ (∀ k, k ∈ m.map Prod.fst ↔ groupOf db businesses key k ≠ [])
        ∧ (∀ k, m.at? measure k = ((groupOf db businesses key k).map value).sum) := by
  obtain ⟨hnodup, hmem, hat, _⟩ :=
    Entries.mergeAll_spec rowKey (m := []) hadd List.nodup_nil rows businesses
  refine ⟨hnodup, ?_, ?_⟩
  . intro k
    rw [hmem]
    unfold groupOf
    rw [ne_eq, List.flatMap_eq_nil_iff]
    simp only [List.map_nil, List.not_mem_nil, false_or, List.filter_eq_nil_iff, decide_eq_true_eq]
    push Not
    constructor
    . rintro ⟨b, hb, hk⟩
      exact ⟨b, hb, (hkeys b hb k).mp hk⟩
    . rintro ⟨b, hb, hline⟩
      exact ⟨b, hb, (hkeys b hb k).mpr hline⟩
  . intro k
    have hsum : ∀ bs : List ScopedBusiness, (∀ b ∈ bs, b ∈ businesses) →
        (bs.map fun b => (((rows b).filter fun row => rowKey row = k).map f).sum).sum
          = ((groupOf db bs key k).map value).sum := by
      intro bs hbs
      induction bs with
      | nil => rfl
      | cons b bs ih =>
        rw [List.map_cons, List.sum_cons, ih fun b' hb' => hbs b' (List.mem_cons_of_mem _ hb'),
          hrows b (hbs b List.mem_cons_self) k]
        unfold groupOf
        rw [List.flatMap_cons, List.map_append, List.sum_append]
    rw [hat, hsum businesses fun _ hb => hb]
    show Entries.at? measure [] k + _ = _
    unfold Entries.at? Entries.get?
    simp

end Merged

section Keys

/-- The product of a line, with its variant. -/
def productKey (_ : ScopedBusiness) (line : Line) : Option (Uuid × Option Uuid) :=
  line.1.productId.map fun id => (id, line.1.variantId)

/-- The category of the product of a line. -/
def categoryKey (db : Database) (_ : ScopedBusiness) (line : Line) : Option Uuid :=
  line.1.productId.bind fun id => (categoriesOf db id).head?.map (·.1)

def bucketTextKey (granularity : Granularity) (b : ScopedBusiness) (line : Line)
    : Option (List Char) :=
  some (bucketKey (bucketExpr b granularity line.2))

/-- The keys of the categories: every product has one. -/
structure Database.Linked (db : Database) : Prop where
  categories : (db.categories.map (·.id)).Nodup
  product_category : ∀ p ∈ db.products, p.categoryId ∈ db.categories.map (·.id)

variable {db : Database}

theorem mem_productLines {b : ScopedBusiness} {x : Uuid × Line}
    : x ∈ productLines db b ↔ x.2 ∈ b.lines db ∧ x.2.1.productId = some x.1 := by
  unfold productLines
  rw [List.mem_filterMap]
  constructor
  . rintro ⟨line, hline, h⟩
    rw [Option.map_eq_some_iff] at h
    obtain ⟨id, hid, heq⟩ := h
    rw [← heq]
    exact ⟨hline, hid⟩
  . rintro ⟨hline, hid⟩
    exact ⟨x.2, hline, by rw [hid]; rfl⟩

theorem map_filter_productLines {γ : Type} {value : Line → γ} {p : Uuid × Line → Bool}
    {q : Line → Bool} (b : ScopedBusiness)
    (h : ∀ line, q line = (line.1.productId.map fun id => p (id, line)).getD false)
    : ((productLines db b).filter p).map (fun x => value x.2)
        =
      ((b.lines db).filter q).map value := by
  unfold productLines
  generalize b.lines db = lines
  induction lines with
  | nil => rfl
  | cons line lines ih =>
    have hq := h line
    rw [List.filterMap_cons, List.filter_cons]
    cases hid : line.1.productId with
    | none =>
      rw [hid] at hq
      simpa [hq] using ih
    | some id =>
      rw [hid] at hq
      simp only [Option.map_some, Option.getD_some] at hq
      simp only [Option.map_some, List.filter_cons, hq]
      split
      . rw [List.map_cons, List.map_cons, ih]
      . exact ih

def rowCosted (revenueC : ℤ) (row : LineAggregateRow) : Costed :=
  addInto emptyCosted revenueC row

theorem addInto_eq (target : Costed) (revenueC : ℤ) (row : LineAggregateRow)
    : addInto target revenueC row = target + rowCosted revenueC row := by
  unfold rowCosted addInto emptyCosted
  simp [Costed.add_eq]

section Values

variable {M : Type} [AddCommMonoid M] {value : Line → M}

theorem productRows_value {f : ProductSalesRow → M}
    (hf : ∀ (row : ProductSalesRow) lines, row.units = unitsOf lines → row.revenueC = revenueOf lines →
      row.toLineAggregateRow = aggregateLines lines → f row = (lines.map value).sum)
    (b : ScopedBusiness) (k : Uuid × Option Uuid)
    : (((productSalesSql db b).filter fun row => (row.productId, row.variantId) = k).map f).sum
        =
      (((b.lines db).filter fun line => productKey b line = some k).map value).sum := by
  have hgroups := sum_filter_groupBy (fun x : Uuid × Line => (x.1, x.2.1.variantId))
    (fun x => value x.2) (productLines db b) (· = k)
  unfold productSalesSql
  rw [List.filter_map, List.map_map]
  refine Eq.trans ?_ (hgroups.trans ?_)
  . congr 1
    apply List.map_congr_left
    intro g _
    rw [Function.comp_apply, hf _ (g.2.map (·.2)) rfl rfl rfl, List.map_map]
    rfl
  . congr 1
    apply map_filter_productLines
    intro line
    unfold productKey
    cases line.1.productId <;> simp

end Values

theorem productRows_sum (b : ScopedBusiness) (k : Uuid × Option Uuid)
    : (((productSalesSql db b).filter fun row => (row.productId, row.variantId) = k).map
          fun row => rowCosted row.revenueC row.toLineAggregateRow).sum
        =
      costedOf ((b.lines db).filter fun line => productKey b line = some k) := by
  apply productRows_value
  intro row lines _ hrevenue haggregate
  rw [hrevenue, haggregate]
  exact (costedOf_eq lines).symm

theorem productRows_keys (b : ScopedBusiness) (k : Uuid × Option Uuid)
    : k ∈ (productSalesSql db b).map (fun row => (row.productId, row.variantId))
        ↔ ∃ line ∈ b.lines db, productKey b line = some k := by
  have hmem : k ∈ (productSalesSql db b).map (fun row => (row.productId, row.variantId))
      ↔ k ∈ (groupBy (fun x : Uuid × Line => (x.1, x.2.1.variantId)) (productLines db b)).map
        Prod.fst := by
    unfold productSalesSql
    rw [List.map_map]
    rfl
  rw [hmem, keys_groupBy, List.mem_map]
  unfold productKey
  constructor
  . rintro ⟨x, hx, heq⟩
    rw [mem_productLines] at hx
    refine ⟨x.2, hx.1, ?_⟩
    rw [hx.2, ← heq]
    rfl
  . rintro ⟨line, hline, hkey⟩
    rw [Option.map_eq_some_iff] at hkey
    obtain ⟨id, hid, heq⟩ := hkey
    exact ⟨(id, line), mem_productLines.mpr ⟨hline, hid⟩, heq⟩

theorem categoriesOf_eq (hdb : db.Valid) (hlinked : db.Linked) (id : Uuid)
    : categoriesOf db id = (categoriesOf db id).head?.toList := by
  unfold categoriesOf
  rw [Table.filter_key hdb.products]
  cases Table.get (·.id) db.products id with
  | none => rfl
  | some p =>
    rw [Option.toList_some, List.flatMap_singleton, Table.filter_key hlinked.categories]
    cases Table.get (·.id) db.categories p.categoryId <;> rfl

theorem categoriesOf_product (hdb : db.Valid) (hlinked : db.Linked) {id : Uuid}
    (hid : id ∈ db.products.map (·.id)) : ∃ c, categoriesOf db id = [c] := by
  obtain ⟨p, hp, hpid⟩ := List.mem_map.mp hid
  obtain ⟨c, hc, hcid⟩ := List.mem_map.mp (hlinked.product_category p hp)
  refine ⟨(c.id, c.name), ?_⟩
  unfold categoriesOf
  rw [Table.filter_key hdb.products, ← hpid, Table.get_of_mem hdb.products hp, Option.toList_some,
    List.flatMap_singleton, Table.filter_key hlinked.categories, ← hcid,
    Table.get_of_mem hlinked.categories hc]
  rfl

def categoryLines (db : Database) (b : ScopedBusiness) : List ((Uuid × String) × Line) :=
  (productLines db b).flatMap fun x => (categoriesOf db x.1).map fun c => (c, x.2)

theorem categoryRows_value {M : Type} [AddCommMonoid M] {value : Line → M} {f : CategorySalesRow → M}
    (hf : ∀ (row : CategorySalesRow) lines, row.units = unitsOf lines → row.revenueC = revenueOf lines →
      row.toLineAggregateRow = aggregateLines lines → f row = (lines.map value).sum)
    (hdb : db.Valid) (hlinked : db.Linked) (b : ScopedBusiness) (k : Uuid)
    : (((categorySalesSql db b).filter fun row => row.categoryId = k).map f).sum
        =
      (((b.lines db).filter fun line => categoryKey db b line = some k).map value).sum := by
  have hjoined : ∀ xs : List (Uuid × Line),
      ((xs.flatMap fun x => (categoriesOf db x.1).map fun c => (c, x.2)).filter
          fun x => x.1.1 = k).map (fun x => value x.2)
        = (xs.filter fun x => (categoriesOf db x.1).head?.map (·.1) = some k).map
          fun x => value x.2 := by
    intro xs
    induction xs with
    | nil => rfl
    | cons x xs ih =>
      rw [List.flatMap_cons, List.filter_append, List.map_append, ih, List.filter_cons,
        categoriesOf_eq hdb hlinked x.1]
      cases (categoriesOf db x.1).head? with
      | none => simp
      | some c =>
        by_cases hk : c.1 = k
        . simp [hk]
        . simp [hk]
  have hgroups := sum_filter_groupBy (fun x : (Uuid × String) × Line => x.1)
    (fun x => value x.2) (categoryLines db b) fun c => c.1 = k
  unfold categorySalesSql
  dsimp only
  rw [List.filter_map, List.map_map]
  refine Eq.trans ?_ (hgroups.trans ?_)
  . congr 1
    apply List.map_congr_left
    intro g _
    rw [Function.comp_apply, hf _ (g.2.map (·.2)) rfl rfl rfl, List.map_map]
    rfl
  . unfold categoryLines
    rw [hjoined]
    congr 1
    apply map_filter_productLines
    intro line
    unfold categoryKey
    cases line.1.productId <;> simp

theorem categoryRows_sum (hdb : db.Valid) (hlinked : db.Linked) (b : ScopedBusiness) (k : Uuid)
    : (((categorySalesSql db b).filter fun row => row.categoryId = k).map
          fun row => rowCosted row.revenueC row.toLineAggregateRow).sum
        =
      costedOf ((b.lines db).filter fun line => categoryKey db b line = some k) := by
  apply categoryRows_value _ hdb hlinked
  intro row lines _ hrevenue haggregate
  rw [hrevenue, haggregate]
  exact (costedOf_eq lines).symm

theorem categoryRows_keys (hdb : db.Valid) (hlinked : db.Linked) (b : ScopedBusiness) (k : Uuid)
    : k ∈ (categorySalesSql db b).map (·.categoryId)
        ↔ ∃ line ∈ b.lines db, categoryKey db b line = some k := by
  have hmem : k ∈ (categorySalesSql db b).map (·.categoryId)
      ↔ ∃ c, c ∈ (groupBy (fun x : (Uuid × String) × Line => x.1) (categoryLines db b)).map Prod.fst
        ∧ c.1 = k := by
    unfold categorySalesSql
    dsimp only
    rw [List.map_map, List.mem_map]
    simp only [List.mem_map, exists_exists_and_eq_and]
    rfl
  rw [hmem]
  simp only [keys_groupBy]
  simp only [List.mem_map]
  unfold categoryKey categoryLines
  constructor
  . rintro ⟨c, ⟨y, hy, hyc⟩, hk⟩
    obtain ⟨x, hx, hy⟩ := List.mem_flatMap.mp hy
    rw [mem_productLines] at hx
    obtain ⟨c', hc', hy⟩ := List.mem_map.mp hy
    rw [categoriesOf_eq hdb hlinked, Option.mem_toList] at hc'
    refine ⟨x.2, hx.1, ?_⟩
    rw [hx.2, Option.bind_some, Option.mem_def.mp hc', ← hk, ← hyc, ← hy]
    rfl
  . rintro ⟨line, hline, hkey⟩
    rw [Option.bind_eq_some_iff] at hkey
    obtain ⟨id, hid, hkey⟩ := hkey
    obtain ⟨c, hc, hkey⟩ := Option.map_eq_some_iff.mp hkey
    refine ⟨c, ⟨(c, line), ?_, rfl⟩, hkey⟩
    rw [List.mem_flatMap]
    exact ⟨(id, line), mem_productLines.mpr ⟨hline, hid⟩,
      List.mem_map_of_mem (List.mem_of_head? hc)⟩

/-- The costed part of a line, which the buckets of a report add up. -/
def lineProfit (line : Line) : Costed :=
  { lineCosted line with revenueC := 0 }

theorem sum_lineProfit (lines : List Line)
    : (lines.map lineProfit).sum = { costedOf lines with revenueC := 0 } := by
  induction lines with
  | nil => rfl
  | cons line lines ih =>
    rw [List.map_cons, List.sum_cons, ih]
    unfold costedOf
    rw [List.map_cons, List.sum_cons]
    rfl

theorem marginsOf_profit (c : Costed)
    : (marginsOf { c with revenueC := 0 }).grossProfitC = (marginsOf c).grossProfitC
        ∧ (marginsOf { c with revenueC := 0 }).marginPct = (marginsOf c).marginPct := ⟨rfl, rfl⟩

theorem bucketRows_sum (granularity : Granularity) (b : ScopedBusiness) (k : List Char)
    : (((keyed (trendLinesSql granularity db b)).filter fun row => row.1 = k).map
          fun row => rowCosted 0 row.2).sum
        =
      (((b.lines db).filter fun line => bucketTextKey granularity b line = some k).map lineProfit).sum
    := by
  have hgroups := sum_filter_groupBy (fun line : Line => bucketExpr b granularity line.2) lineProfit
    (b.lines db) fun bucket => bucketKey bucket = k
  unfold keyed trendLinesSql
  rw [List.map_map, List.filter_map, List.map_map]
  refine Eq.trans ?_ (hgroups.trans ?_)
  . congr 1
    apply List.map_congr_left
    intro g _
    rw [sum_lineProfit, costedOf_eq]
    rfl
  . unfold bucketTextKey
    simp

theorem bucketRows_keys (granularity : Granularity) (b : ScopedBusiness) (k : List Char)
    : k ∈ (keyed (trendLinesSql granularity db b)).map (fun row => row.1)
        ↔ ∃ line ∈ b.lines db, bucketTextKey granularity b line = some k := by
  have hmem : k ∈ (keyed (trendLinesSql granularity db b)).map (fun row => row.1)
      ↔ ∃ bucket, bucket ∈ (groupBy (fun line : Line => bucketExpr b granularity line.2)
        (b.lines db)).map Prod.fst ∧ bucketKey bucket = k := by
    unfold keyed trendLinesSql
    simp
  rw [hmem]
  simp only [keys_groupBy]
  simp only [List.mem_map]
  unfold bucketTextKey
  simp

end Keys

section Report

variable {db : Database} (scope : ResolvedScope)

theorem marginsBy_of_entries {κ ρ : Type} [DecidableEq κ] {key : ScopedBusiness → Line → Option κ}
    {m : Entries κ (Costed × String)} {row : κ × Costed × String → ρ} {rowKey : ρ → κ}
    {figures : ρ → MarginFigures} {rows : List ρ} (hperm : rows.Perm (m.map row))
    (hkey : ∀ e, rowKey (row e) = e.1) (hfigures : ∀ e, figures (row e) = marginsOf e.2.1)
    (hnodup : (m.map Prod.fst).Nodup)
    (hkeys : ∀ k, k ∈ m.map Prod.fst ↔ groupOf db scope.businesses key k ≠ [])
    (hat : ∀ k, m.at? Prod.fst k = ((groupOf db scope.businesses key k).map lineCosted).sum)
    : MarginsBy db scope key rowKey figures rows := by
  have hrowKeys : (m.map row).map rowKey = m.map Prod.fst := by
    rw [List.map_map]
    exact List.map_congr_left fun e _ => hkey e
  have hmargins : ∀ r ∈ rows,
      figures r = marginsOf (costedOf (groupOf db scope.businesses key (rowKey r))) := by
    intro r hr
    obtain ⟨e, he, heq⟩ := List.mem_map.mp (hperm.mem_iff.mp hr)
    unfold costedOf
    rw [← heq, hfigures, hkey, ← hat, Entries.at?_of_mem hnodup he]
  constructor
  . rw [(hperm.map _).nodup_iff, hrowKeys]
    exact hnodup
  . intro k
    rw [(hperm.map _).mem_iff, hrowKeys]
    exact hkeys k
  . exact hmargins
  . intro r hr
    rw [hmargins r hr]
    exact marginsOf_unknown _

theorem adds_named {ρ : Type} (name : ρ → String) (revenueC : ρ → ℤ) (row : ρ → LineAggregateRow)
    : Entries.Adds (Prod.fst : Costed × String → Costed) (fun current r =>
        (addInto (current.getD (emptyCosted, name r)).1 (revenueC r) (row r),
          (current.getD (emptyCosted, name r)).2)) fun r => rowCosted (revenueC r) (row r) := by
  intro acc r
  dsimp only
  rw [addInto_eq]
  cases acc <;> rfl

theorem byProduct_margins (granularity : Granularity)
    : MarginsBy db scope productKey (fun row => (row.productId, row.variantId)) (·.toMarginFigures)
        (profitOf db scope granularity).byProduct := by
  have hmerged := merged_lines db scope.businesses
    (adds_named ProductSalesRow.name (·.revenueC) (·.toLineAggregateRow))
    (fun b _ => productRows_sum b) (fun b _ => productRows_keys b)
  exact marginsBy_of_entries scope (List.mergeSort_perm _ _) (fun _ => rfl) (fun _ => rfl) hmerged.1
    hmerged.2.1 hmerged.2.2

theorem byCategory_margins (hdb : db.Valid) (hlinked : db.Linked) (granularity : Granularity)
    : MarginsBy db scope (categoryKey db) (·.categoryId) (·.toMarginFigures)
        (profitOf db scope granularity).byCategory := by
  have hmerged := merged_lines db scope.businesses
    (adds_named CategorySalesRow.name (·.revenueC) (·.toLineAggregateRow))
    (fun b _ => categoryRows_sum hdb hlinked b) (fun b _ => categoryRows_keys hdb hlinked b)
  exact marginsBy_of_entries scope (List.mergeSort_perm _ _) (fun _ => rfl) (fun _ => rfl) hmerged.1
    hmerged.2.1 hmerged.2.2

def BucketProfit.costed (p : BucketProfit) : Costed where
  revenueC := 0
  costedLines := p.costedLines
  costedRevenueC := p.revenueC
  costedCostC := p.costC

theorem adds_overTime
    : Entries.Adds id (fun (current : Option Costed) (row : List Char × LineAggregateRow) =>
        addInto (current.getD emptyCosted) 0 row.2) fun row => rowCosted 0 row.2 := by
  intro acc row
  dsimp only [id]
  rw [addInto_eq]
  cases acc <;> rfl

theorem adds_profits
    : Entries.Adds BucketProfit.costed
        (fun (acc : Option BucketProfit) (row : List Char × LineAggregateRow) =>
          (acc.getD .zero).add row.2) fun row => rowCosted 0 row.2 := by
  intro acc row
  unfold BucketProfit.costed BucketProfit.add rowCosted addInto emptyCosted BucketProfit.zero
  cases acc <;> simp [Costed.add_eq]

/-- The lines of a bucket, of all businesses. -/
def bucketLines (db : Database) (businesses : List ScopedBusiness) (granularity : Granularity)
    (bucket : List Char) : List Line :=
  groupOf db businesses (bucketTextKey granularity) bucket

theorem overTime_margins (granularity : Granularity) {row : ProfitBucket}
    (hrow : row ∈ (profitOf db scope granularity).overTime)
    : row.grossProfitC
          = (marginsOf (costedOf (bucketLines db scope.businesses granularity row.bucket))).grossProfitC
        ∧ row.marginPct
          = (marginsOf (costedOf (bucketLines db scope.businesses granularity row.bucket))).marginPct := by
  have hmerged := (merged_lines db scope.businesses adds_overTime
    (fun b _ => bucketRows_sum granularity b) (fun b _ => bucketRows_keys granularity b)).2.2
  obtain ⟨bucket, _, heq⟩ := List.mem_map.mp hrow
  have hat : ((scope.businesses.foldl
        (fun m b => addOverTime m (keyed (trendLinesSql granularity db b))) []).get? bucket).getD
          emptyCosted
      = { costedOf (bucketLines db scope.businesses granularity bucket) with revenueC := 0 } := by
    have hat := hmerged bucket
    unfold Entries.at? at hat
    rw [Option.map_id, sum_lineProfit] at hat
    exact hat
  rw [← heq]
  dsimp only
  rw [hat]
  exact marginsOf_profit _

theorem trend_margins (granularity : Granularity) {row : TrendBucket}
    (hrow : row ∈ trendOf db scope granularity)
    : row.grossProfitC
        =
      (marginsOf (costedOf (bucketLines db scope.businesses granularity row.bucket))).grossProfitC := by
  have hmerged := (merged_lines db scope.businesses adds_profits
    (fun b _ => bucketRows_sum granularity b) (fun b _ => bucketRows_keys granularity b)).2.2
  obtain ⟨e, _, heq⟩ := List.mem_map.mp hrow
  have hat := hmerged e.1
  rw [← heq, ← (marginsOf_profit _).1]
  unfold bucketLines
  rw [sum_lineProfit] at hat
  dsimp only
  rw [← hat]
  unfold Entries.at? addProfits
  cases Entries.get? _ e.1 with
  | none => rfl
  | some p =>
    unfold marginsOf grossProfitC BucketProfit.costed
    simp only [Option.bind_some, Option.map_some, Option.getD_some]
    by_cases hlines : p.costedLines = 0
    . simp [hlines]
    . simp [hlines, Nat.pos_of_ne_zero hlines]

end Report

namespace Cafe

def coffee : Product where
  id := 50
  businessId := 10
  categoryId := 60
  name := "Coffee"
  active := true
  deletedAt := none

def cups : SaleLine where
  saleId := 7
  productId := some 50
  variantId := none
  nameSnapshot := "Coffee"
  qty := ⟨2000⟩
  unitPrice := 100
  costSnapshot := some 40
  discount := 0
  discountId := none
  modifiers := []
  deletedAt := none

def costing : Database :=
  { selling with
    categories := [⟨60, 10, "Drinks", none⟩]
    products := [coffee]
    saleLines := [cups] }

theorem costing_valid : costing.Valid where
  businesses := by decide
  branches := by decide
  products := by decide
  variants := List.nodup_nil
  movements := List.nodup_nil
  movement_branch := by simp [costing, selling, database]
  movement_product := by simp [costing, selling, database]

theorem costing_linked : costing.Linked where
  categories := by decide
  product_category := by decide

end Cafe

end SentryPos.Analytics
