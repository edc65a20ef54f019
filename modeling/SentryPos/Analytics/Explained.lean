import SentryPos.Analytics.Leaks

/-!
This module contains that the reports on the profit and on the leaks explain the overview: the lines
of a scope have brought in its net sales and the discounts that were given on whole orders, and every
line is in one row.
-/

namespace SentryPos.Analytics

open Calendar JsDate Grouping ReadCommitted

/-- Rows that have the gross profit of an overview, which is unknown only if theirs all are. -/
def OverviewReport.ProfitOver (o : OverviewReport) (rows : List (Option ℤ)) : Prop :=
  (o.grossProfitC.value = none ↔ ∀ row ∈ rows, row = none)
    ∧ ∀ x, o.grossProfitC.value = some x → x = (((rows.map (·.getD 0)).sum : ℤ) : JsNumber)

/-- What the reports on the profit and on the leaks say about an overview. -/
structure OverviewReport.ExplainedBy (o : OverviewReport) (profit : ProfitReport)
    (trend : List TrendBucket) (leaks : LeaksReport) (tax : TaxReport) : Prop where
  costed : profit.costedRevenueC = o.costedRevenueC
  uncosted : profit.uncostedRevenueC = o.uncostedRevenueC
  revenue : profit.costedRevenueC + profit.uncostedRevenueC
    = o.netSalesC.value + leaks.orderLevelDiscountC
  products : (profit.byProduct.map (·.revenueC)).sum + leaks.miscLines.revenueC
    = profit.costedRevenueC + profit.uncostedRevenueC
  categories : (profit.byCategory.map (·.revenueC)).sum = (profit.byProduct.map (·.revenueC)).sum
  trended : o.ProfitOver (trend.map (·.grossProfitC))
  voids : (leaks.voids.count : ℤ) = o.voidCount.value
  refunds : (leaks.refunds.count : ℤ) = o.refundCount.value
  scPwd : leaks.scPwd.discountC = tax.totals.scPwdDiscountC
  vatExempt : leaks.scPwd.vatExemptSalesC = tax.totals.vatExemptSalesC

def linesIn (db : Database) (businesses : List ScopedBusiness) : List Line :=
  businesses.flatMap (·.lines db)

def keyedLines {κ : Type} (db : Database) (businesses : List ScopedBusiness)
    (key : ScopedBusiness → Line → Option κ) : List (Option κ × Line) :=
  businesses.flatMap fun b => (b.lines db).map fun line => (key b line, line)

section Groups

variable {κ M : Type} [DecidableEq κ] [AddCommMonoid M] {db : Database}
  {businesses : List ScopedBusiness} {key : ScopedBusiness → Line → Option κ}

theorem groupOf_eq (k : κ)
    : groupOf db businesses key k
        =
      ((keyedLines db businesses key).filter fun x => x.1 = some k).map (·.2) := by
  unfold groupOf keyedLines
  induction businesses with
  | nil => rfl
  | cons b businesses ih =>
    rw [List.flatMap_cons, List.flatMap_cons, List.filter_append, List.map_append, ← ih,
      List.filter_map, List.map_map]
    simp [Function.comp_def]

theorem sum_groups (f : Line → M) {keys : List κ} (hkeys : keys.Nodup)
    (h : ∀ b ∈ businesses, ∀ line ∈ b.lines db, ∀ k, key b line = some k → k ∈ keys)
    : (keys.map fun k => ((groupOf db businesses key k).map f).sum).sum
        =
      (((keyedLines db businesses key).filter (·.1.isSome)).map fun x => f x.2).sum := by
  have hrow : ∀ x ∈ (keyedLines db businesses key).filter (·.1.isSome), x.1 ∈ keys.map some := by
    intro x hx
    obtain ⟨hx, hsome⟩ := List.mem_filter.mp hx
    obtain ⟨k, hk⟩ := Option.isSome_iff_exists.mp hsome
    unfold keyedLines at hx
    obtain ⟨b, hb, hx⟩ := List.mem_flatMap.mp hx
    obtain ⟨line, hline, heq⟩ := List.mem_map.mp hx
    rw [hk]
    apply List.mem_map_of_mem
    apply h b hb line hline
    rw [← hk, ← heq]
  have hsum := sum_filter_keys (fun x : Option κ × Line => x.1) (fun x => f x.2)
    (hkeys.map (Option.some_injective κ)) hrow
  rw [← hsum, List.map_map]
  congr 1
  apply List.map_congr_left
  intro k _
  rw [groupOf_eq, List.map_map, Function.comp_apply, List.filter_filter]
  congr 2
  apply List.filter_congr
  intro x _
  cases x.1 <;> simp

omit [DecidableEq κ] in
theorem sum_keyedLines (f : Line → M) {p : Line → Bool}
    (h : ∀ b ∈ businesses, ∀ line ∈ b.lines db, (key b line).isSome = p line)
    : (((keyedLines db businesses key).filter (·.1.isSome)).map fun x => f x.2).sum
        =
      (((linesIn db businesses).filter p).map f).sum := by
  unfold keyedLines linesIn
  induction businesses with
  | nil => rfl
  | cons b businesses ih =>
    rw [List.flatMap_cons, List.flatMap_cons, List.filter_append, List.filter_append, List.map_append,
      List.map_append, List.sum_append, List.sum_append,
      ih fun b' hb' => h b' (List.mem_cons_of_mem _ hb'), List.filter_map, List.map_map]
    congr 3
    apply List.filter_congr
    intro line hline
    exact h b List.mem_cons_self line hline

end Groups

def lineGross (line : Line) : ℤ :=
  (lineCosted line).costedRevenueC - (lineCosted line).costedCostC

theorem costedOf_fields (lines : List Line)
    : (costedOf lines).revenueC = (lines.map (·.1.netC)).sum
        ∧ (costedOf lines).costedRevenueC - (costedOf lines).costedCostC = (lines.map lineGross).sum := by
  induction lines with
  | nil => exact ⟨rfl, rfl⟩
  | cons line lines ih =>
    have hcons : costedOf (line :: lines) = lineCosted line + costedOf lines := rfl
    rw [hcons, Costed.add_eq]
    simp only [List.map_cons, List.sum_cons, ← ih.1, ← ih.2]
    unfold lineGross lineCosted
    constructor
    . rfl
    . omega

theorem gross_getD (lines : List Line)
    : ((marginsOf (costedOf lines)).grossProfitC).getD 0 = (lines.map lineGross).sum := by
  by_cases hcosts : ∀ line ∈ lines, line.1.costSnapshot = none
  . rw [(marginsOf_unknown lines).mpr hcosts, Option.getD_none]
    have hzero : lines.map lineGross = lines.map fun _ => 0 := by
      apply List.map_congr_left
      intro line hline
      unfold lineGross lineCosted costC isCosted
      simp [hcosts line hline]
    rw [hzero]
    simp
  . rw [← (costedOf_fields lines).2]
    have hsome := mt (marginsOf_unknown lines).mp hcosts
    unfold marginsOf grossProfitC at hsome ⊢
    dsimp only at hsome ⊢
    split
    . next hnone => rw [if_pos hnone] at hsome; exact absurd rfl hsome
    . rfl

theorem MarginsBy.sum_revenue {κ ρ : Type} [DecidableEq κ] {db : Database} {scope : ResolvedScope}
    {key : ScopedBusiness → Line → Option κ} {rowKey : ρ → κ} {figures : ρ → MarginFigures}
    {rows : List ρ} (h : MarginsBy db scope key rowKey figures rows) {p : Line → Bool}
    (hkey : ∀ b ∈ scope.businesses, ∀ line ∈ b.lines db, (key b line).isSome = p line)
    : (rows.map fun row => (figures row).revenueC).sum
        =
      (((linesIn db scope.businesses).filter p).map (·.1.netC)).sum := by
  rw [← sum_keyedLines _ hkey, ← sum_groups (fun line : Line => line.1.netC) h.once, List.map_map]
  . congr 1
    apply List.map_congr_left
    intro row hrow
    rw [h.margins row hrow]
    exact (costedOf_fields _).1
  . intro b hb line hline k hk
    rw [h.keys]
    apply List.ne_nil_of_mem (a := line)
    unfold groupOf
    rw [List.mem_flatMap]
    exact ⟨b, hb, by simp [hline, hk]⟩

section Buckets

variable {db : Database} {scope : ResolvedScope}

theorem sale_of_completedLine {branchIds : List Uuid} {fromUtc toUtc : ℤ} {line : Line}
    (hline : line ∈ completedLines db branchIds fromUtc toUtc)
    : line.2 ∈ completedSales db branchIds fromUtc toUtc := by
  unfold completedLines at hline
  obtain ⟨si, _, hs⟩ := List.mem_flatMap.mp hline
  obtain ⟨s, hs, heq⟩ := List.mem_map.mp hs
  rw [← heq]
  exact List.mem_of_mem_filter hs

theorem sale_of_line {b : ScopedBusiness} {line : Line} (hline : line ∈ b.lines db)
    : line.2 ∈ b.sales db :=
  sale_of_completedLine hline

theorem sum_gross_buckets {ρ : Type} {rows : List ρ} (bucket : ρ → List Char) (gross : ρ → Option ℤ)
    (granularity : Granularity) (hnodup : (rows.map bucket).Nodup)
    (hrows : ∀ row ∈ rows, gross row
      = (marginsOf (costedOf (bucketLines db scope.businesses granularity (bucket row)))).grossProfitC)
    (hkeys : ∀ b ∈ scope.businesses, ∀ line ∈ b.lines db,
      bucketKey (bucketExpr b granularity line.2) ∈ rows.map bucket)
    : (rows.map fun row => (gross row).getD 0).sum
          = ((linesIn db scope.businesses).map lineGross).sum
        ∧ ((∀ row ∈ rows, gross row = none)
          ↔ ∀ line ∈ linesIn db scope.businesses, line.1.costSnapshot = none) := by
  constructor
  . have hkeyed : ∀ b ∈ scope.businesses, ∀ line ∈ b.lines db,
        (bucketTextKey granularity b line).isSome = true := fun _ _ _ _ => rfl
    have hall := sum_keyedLines lineGross (p := fun _ => true) hkeyed
    rw [List.filter_true] at hall
    rw [← hall, ← sum_groups lineGross hnodup, List.map_map]
    . congr 1
      apply List.map_congr_left
      intro row hrow
      rw [hrows row hrow, gross_getD]
      rfl
    . intro b hb line hline k hk
      rw [← Option.some.inj hk]
      exact hkeys b hb line hline
  . constructor
    . intro hnone line hline
      obtain ⟨b, hb, hline⟩ := List.mem_flatMap.mp hline
      obtain ⟨row, hrow, heq⟩ := List.mem_map.mp (hkeys b hb line hline)
      have hgross := hrows row hrow
      rw [hnone row hrow] at hgross
      apply (marginsOf_unknown _).mp hgross.symm
      unfold bucketLines groupOf bucketTextKey
      rw [List.mem_flatMap]
      exact ⟨b, hb, by simp [hline, heq]⟩
    . intro hnone row hrow
      rw [hrows row hrow, marginsOf_unknown]
      intro line hline
      unfold bucketLines groupOf at hline
      obtain ⟨b, hb, hline⟩ := List.mem_flatMap.mp hline
      exact hnone line (List.mem_flatMap.mpr ⟨b, hb, List.mem_of_mem_filter hline⟩)

theorem days_of_lines {ownerId : Uuid} {query : AnalyticsQueryDto}
    (hscope : resolve db ownerId query = .ok scope) (hto : CalendarDate query.toDate)
    : scope.days.Nodup
        ∧ ∀ b ∈ scope.businesses, ∀ line ∈ b.lines db,
          bucketKey (bucketExpr b .day line.2) ∈ scope.days := by
  obtain ⟨m, n, hm, hn, hle, hshort, rfl⟩ := resolve_ok hscope
  refine ⟨nodup_days hm hn hle hshort hto, ?_⟩
  intro b hb line hline
  have hbounds := dayBucketExpr_bounds hb (sale_of_line hline)
  rw [days_scopeOf hm hn hle, List.mem_map]
  refine ⟨(dayBucketExpr b line.2 - m).toNat, by rw [List.mem_range]; omega, ?_⟩
  rw [Int.toNat_of_nonneg (by omega), add_sub_cancel, ← bucketKey_eq]
  rfl

theorem overTime_buckets {ownerId : Uuid} {query : AnalyticsQueryDto}
    (hscope : resolve db ownerId query = .ok scope) {granularity : Granularity}
    (hto : granularity = .day → CalendarDate query.toDate)
    : ((profitOf db scope granularity).overTime.map (·.bucket)).Nodup
        ∧ ∀ b ∈ scope.businesses, ∀ line ∈ b.lines db,
          bucketKey (bucketExpr b granularity line.2)
            ∈ (profitOf db scope granularity).overTime.map (·.bucket) := by
  obtain ⟨hnodup, hmem, _⟩ := Entries.mergeAll_spec Prod.fst (m := []) adds_overTime List.nodup_nil
    (fun b => keyed (trendLinesSql granularity db b)) scope.businesses
  unfold profitOf
  dsimp only
  rw [List.map_map, Function.comp_def, List.map_id']
  split
  . next hday =>
    rw [hday]
    exact days_of_lines hscope (hto hday)
  . refine ⟨(List.mergeSort_perm _ _).nodup_iff.mpr hnodup, ?_⟩
    intro b hb line hline
    rw [List.mem_mergeSort]
    refine (hmem _).mpr (.inr ⟨b, hb, ?_⟩)
    exact (bucketRows_keys granularity b _).mpr ⟨line, hline, rfl⟩

theorem trend_buckets (db : Database) (scope : ResolvedScope) (granularity : Granularity)
    : ((trendOf db scope granularity).map (·.bucket)).Nodup
        ∧ ∀ b ∈ scope.businesses, ∀ line ∈ b.lines db,
          bucketKey (bucketExpr b granularity line.2)
            ∈ (trendOf db scope granularity).map (·.bucket) := by
  obtain ⟨hnodup, hmem, _⟩ := Entries.mergeAll_spec Prod.fst (m := []) adds_tallies List.nodup_nil
    (fun b => keyed (trendSalesSql granularity db b)) scope.businesses
  have hbuckets : ((trendOf db scope granularity).map (·.bucket)).Perm
      ((scope.businesses.foldl
        (fun m b => addTallies m (keyed (trendSalesSql granularity db b))) []).map Prod.fst) := by
    unfold trendOf
    dsimp only
    rw [List.map_map]
    exact (List.mergeSort_perm _ _).map _
  refine ⟨hbuckets.nodup_iff.mpr hnodup, ?_⟩
  intro b hb line hline
  rw [hbuckets.mem_iff]
  refine (hmem _).mpr (.inr ⟨b, hb, ?_⟩)
  unfold keyed trendSalesSql tallyBy
  rw [List.map_map, List.map_map]
  have hkey : bucketExpr b granularity line.2
      ∈ (groupBy (bucketExpr b granularity) (b.sales db)).map Prod.fst :=
    keys_groupBy.mpr (List.mem_map_of_mem (sale_of_line hline))
  obtain ⟨g, hg, heq⟩ := List.mem_map.mp hkey
  exact List.mem_map.mpr ⟨g, hg, congrArg bucketKey heq⟩

end Buckets

def salesSum (db : Database) (f : Sale → ℤ) (businesses : List ScopedBusiness) : ℤ :=
  (businesses.map fun b => ((b.sales db).map f).sum).sum

section Shown

variable {db : Database} {pos : SentryPos.Database} (h : db.Shows pos) (hitemized : pos.Itemized)

include h hitemized

theorem sum_lines_of_sale {s : Sale} (hs : s ∈ db.sales)
    : (((db.saleLines.filter (·.deletedAt.isNone)).filter fun line => s.id = line.saleId).map
          fun line => line.netC).sum
        =
      s.subtotal - lineDiscounts db s := by
  have hgross : ((db.saleLines.filter fun line => line.saleId = s.id).map fun line => line.grossC).sum
      = s.subtotal := by
    rw [← hitemized.subtotal s (h.sales.mem_iff.mp hs),
      ← ((h.lines.filter fun item => item.saleId = s.id).map (·.grossC)).sum_eq, List.filter_map,
      List.map_map]
    rfl
  have hlive : ((db.saleLines.filter (·.deletedAt.isNone)).filter fun line => s.id = line.saleId)
      = db.saleLines.filter fun line => line.saleId = s.id := by
    rw [List.filter_filter]
    apply List.filter_congr
    intro line hline
    simp [h.live line hline, eq_comm]
  have hdiscounts : (db.saleLines.filter fun line => line.saleId = s.id && line.deletedAt.isNone)
      = db.saleLines.filter fun line => line.saleId = s.id := by
    apply List.filter_congr
    intro line hline
    simp [h.live line hline]
  unfold lineDiscounts
  rw [hlive, hdiscounts, ← hgross]
  generalize (db.saleLines.filter fun line => line.saleId = s.id) = lines
  induction lines with
  | nil => rfl
  | cons line lines ih =>
    simp only [List.map_cons, List.sum_cons, SaleItem.netC_eq] at ih ⊢
    omega

theorem sum_lines (b : ScopedBusiness)
    : ((b.lines db).map (·.1.netC)).sum
        =
      ((b.sales db).map fun s => s.subtotal - lineDiscounts db s).sum := by
  have hmem : ∀ s ∈ b.sales db, s ∈ db.sales := by
    intro s hs
    exact List.mem_of_mem_filter (List.mem_of_mem_filter hs)
  have hperm := join_perm (fun (line : SaleLine) (s : Sale) => decide (s.id = line.saleId))
    (db.saleLines.filter (·.deletedAt.isNone)) (b.sales db)
  refine (hperm.map fun x => x.1.netC).sum_eq.trans ?_
  generalize b.sales db = sales at hmem
  induction sales with
  | nil => rfl
  | cons s sales ih =>
    rw [List.flatMap_cons, List.map_append, List.sum_append,
      ih fun s' hs' => hmem s' (List.mem_cons_of_mem _ hs'), List.map_cons, List.sum_cons,
      ← sum_lines_of_sale h hitemized (hmem s List.mem_cons_self), List.map_map]
    rfl

theorem sum_linesIn (businesses : List ScopedBusiness)
    : ((linesIn db businesses).map (·.1.netC)).sum
        =
      salesSum db netSales businesses
        + salesSum db (fun s => s.discount - (lineDiscounts db s - s.scPwdDiscount)) businesses := by
  have hsale : ∀ sales : List Sale, (sales.map fun s => s.subtotal - lineDiscounts db s).sum
      = (sales.map netSales).sum
        + (sales.map fun s => s.discount - (lineDiscounts db s - s.scPwdDiscount)).sum := by
    intro sales
    rw [← List.sum_map_add]
    congr 1
    apply List.map_congr_left
    intro s _
    unfold netSales
    ring
  unfold linesIn salesSum
  induction businesses with
  | nil => rfl
  | cons b businesses ih =>
    rw [List.flatMap_cons, List.map_append, List.sum_append, ih, sum_lines h hitemized, hsale]
    simp only [List.map_cons, List.sum_cons]
    ring

end Shown

section Totals

variable (db : LeaksDatabase) (scope : ResolvedScope)

theorem orderLevelDiscountC_leaksOf
    : (leaksOf db scope).orderLevelDiscountC
        =
      salesSum db.toDatabase (fun s => s.discount - (lineDiscounts db.toDatabase s - s.scPwdDiscount))
        scope.businesses := by
  have hsub : ∀ sales : List Sale,
      (sales.map fun s => s.discount - (lineDiscounts db.toDatabase s - s.scPwdDiscount)).sum
        = (sales.map (·.discount)).sum
          - ((sales.map (lineDiscounts db.toDatabase)).sum - (sales.map (·.scPwdDiscount)).sum) := by
    intro sales
    induction sales with
    | nil => rfl
    | cons s sales ih =>
      simp only [List.map_cons, List.sum_cons, ih]
      omega
  have hsum := sum_foldl (addLeaks db.toDatabase) (·.orderLevelDiscountC)
    (fun b => ((b.sales db.toDatabase).map fun s =>
      s.discount - (lineDiscounts db.toDatabase s - s.scPwdDiscount)).sum) (by
        intro into b
        rw [hsub]
        rfl) scope.businesses .zero
  exact hsum.trans (zero_add _)

theorem miscLines_leaksOf
    : (leaksOf db scope).miscLines.revenueC
        =
      (((linesIn db.toDatabase scope.businesses).filter (·.1.productId.isNone)).map (·.1.netC)).sum
    := by
  have hsum := sum_foldl (addLeaks db.toDatabase) (·.miscRevenueC) (miscLinesSql db.toDatabase)
    (fun _ _ => rfl) scope.businesses .zero
  refine (hsum.trans (zero_add _)).trans ?_
  unfold linesIn
  rw [List.filter_flatMap, List.map_flatMap, List.flatMap_def, List.sum_flatten, List.map_map]
  rfl

theorem count_reasons {target : SaleStatus → Bool} {status : SaleStatus}
    (htarget : ∀ s : Sale, ((isStatus .voided s || isStatus .refunded s) && target s.status)
      = isStatus status s) (businesses : List ScopedBusiness)
    : (toBucket (reasonsOf db.toDatabase target businesses)).count
        =
      (businesses.map fun b => ((salesInWindow db.toDatabase b.branchIds b.fromUtc b.toUtc).filter
        (isStatus status)).length).sum := by
  have hrows : ∀ b : ScopedBusiness,
      (((statusValueSql db.toDatabase b).filter (target ·.status)).map (·.count)).sum
        = ((salesInWindow db.toDatabase b.branchIds b.fromUtc b.toUtc).filter
          (isStatus status)).length := by
    intro b
    have hgroups := sum_filter_groupBy (fun s : Sale => (s.status, reasonOf s)) (fun _ => 1)
      ((salesInWindow db.toDatabase b.branchIds b.fromUtc b.toUtc).filter fun s =>
        isStatus .voided s || isStatus .refunded s) fun k => target k.1
    have hstatus : (fun s : Sale => target s.status && (isStatus .voided s || isStatus .refunded s))
        = isStatus status := by
      funext s
      rw [← htarget s, Bool.and_comm]
    simp only [List.filter_filter, Bool.decide_eq_true, hstatus, List.map_const',
      List.sum_replicate_nat, mul_one] at hgroups
    rw [← hgroups]
    unfold statusValueSql
    dsimp only
    rw [List.filter_map, List.map_map]
    congr 2
  have hadds : Entries.Adds (Prod.fst : ℕ × ℤ → ℕ) (fun current (row : StatusValueRow) =>
      ((current.getD (0, 0)).1 + row.count, (current.getD (0, 0)).2 + row.valueC)) (·.count) := by
    intro acc row
    cases acc <;> rfl
  obtain ⟨_, _, _, hsum⟩ := Entries.mergeAll_spec (·.reason) (m := []) hadds List.nodup_nil
    (fun b => (statusValueSql db.toDatabase b).filter (target ·.status)) businesses
  rw [List.map_congr_left (g := fun b : ScopedBusiness =>
    (((statusValueSql db.toDatabase b).filter (target ·.status)).map (·.count)).sum)
      fun b _ => (hrows b).symm]
  refine Eq.trans ?_ (hsum.trans (zero_add _))
  unfold toBucket Entries.sum
  dsimp only
  rw [((List.mergeSort_perm _ _).map _).sum_eq, List.map_map]
  rfl

end Totals

section Overview

variable (db : Database) (scope : ResolvedScope)

theorem totalsOf_sum {M : Type} [AddCommMonoid M] (f : Totals → M) (g : ScopedBusiness → M)
    (h : ∀ into b, f (addRows into (salesAggregateSql db b b.fromUtc b.toUtc)
      (lineAggregateSql db b b.fromUtc b.toUtc)) = f into + g b) (businesses : List ScopedBusiness)
    : f (totalsOf db ScopedBusiness.window businesses) = f emptyTotals + (businesses.map g).sum :=
  sum_foldl _ f g h businesses emptyTotals

def Totals.costed (t : Totals) : Costed where
  revenueC := t.costedRevenueC + t.uncostedRevenueC
  costedLines := t.costedLines
  costedRevenueC := t.costedRevenueC
  costedCostC := t.costedCostC

theorem revenueOf_eq (lines : List Line)
    : revenueOf lines = (aggregateLines lines).costedRevenueC + (aggregateLines lines).uncostedRevenueC
    := by
  unfold revenueOf aggregateLines
  dsimp only
  induction lines with
  | nil => rfl
  | cons line lines ih =>
    by_cases hcosted : isCosted line
    . simp [hcosted, ih]
      omega
    . simp [hcosted, ih]
      omega

theorem totalsOf_costed (businesses : List ScopedBusiness)
    : (totalsOf db ScopedBusiness.window businesses).costed = costedOf (linesIn db businesses) := by
  have hlines : costedOf (linesIn db businesses)
      = (businesses.map fun b => costedOf (b.lines db)).sum := by
    unfold costedOf linesIn
    rw [List.map_flatMap, List.flatMap_def, List.sum_flatten, List.map_map]
    rfl
  rw [hlines]
  refine (totalsOf_sum db Totals.costed (fun b => costedOf (b.lines db)) ?_ businesses).trans
    (zero_add _)
  intro into b
  rw [costedOf_eq, revenueOf_eq, Costed.add_eq]
  unfold Totals.costed addRows addInto emptyCosted lineAggregateSql ScopedBusiness.lines
  simp only [zero_add, Costed.mk.injEq, and_true]
  omega

theorem netSalesC_overviewOf
    : (overviewOf db scope).netSalesC.value = salesSum db netSales scope.businesses := by
  have hnet : (overviewOf db scope).DividedOver [soldIn db scope.businesses] :=
    divided_of_sum db (by simp)
  rw [← hnet.1, List.map_singleton, List.sum_singleton]
  unfold soldIn salesSum
  rw [Tally.sum_salesC, List.map_map]
  rfl

theorem statusCounts_overviewOf
    : (overviewOf db scope).voidCount.value
          = (((scope.businesses.map fun b => ((salesInWindow db b.branchIds b.fromUtc b.toUtc).filter
            (isStatus .voided)).length).sum : ℕ) : ℤ)
        ∧ (overviewOf db scope).refundCount.value
          = (((scope.businesses.map fun b => ((salesInWindow db b.branchIds b.fromUtc b.toUtc).filter
            (isStatus .refunded)).length).sum : ℕ) : ℤ) := by
  have hvoids := totalsOf_sum db (·.voidCount) _ (fun _ _ => rfl) scope.businesses
  have hrefunds := totalsOf_sum db (·.refundCount) _ (fun _ _ => rfl) scope.businesses
  exact ⟨congrArg _ (hvoids.trans (zero_add _)), congrArg _ (hrefunds.trans (zero_add _))⟩

theorem grossProfitC_overviewOf
    : (overviewOf db scope).grossProfitC.value
        =
      (marginsOf (costedOf (linesIn db scope.businesses))).grossProfitC.map fun gross : ℤ =>
        (gross : JsNumber) := by
  rw [← totalsOf_costed]
  rfl

theorem profitOver_of_lines {rows : List (Option ℤ)}
    (hsum : (rows.map (·.getD 0)).sum = ((linesIn db scope.businesses).map lineGross).sum)
    (hnone : (∀ row ∈ rows, row = none)
      ↔ ∀ line ∈ linesIn db scope.businesses, line.1.costSnapshot = none)
    : (overviewOf db scope).ProfitOver rows := by
  unfold OverviewReport.ProfitOver
  rw [grossProfitC_overviewOf, Option.map_eq_none_iff, hnone, marginsOf_unknown, hsum, ← gross_getD]
  refine ⟨Iff.rfl, ?_⟩
  intro x hx
  obtain ⟨gross, hgross, heq⟩ := Option.map_eq_some_iff.mp hx
  rw [hgross, ← heq]
  rfl

theorem trend_profitOver (granularity : Granularity)
    : (overviewOf db scope).ProfitOver ((trendOf db scope granularity).map (·.grossProfitC)) := by
  obtain ⟨hnodup, hkeys⟩ := trend_buckets db scope granularity
  obtain ⟨hsum, hnone⟩ := sum_gross_buckets (·.bucket) (·.grossProfitC) granularity hnodup
    (fun row hrow => trend_margins scope granularity hrow) hkeys
  apply profitOver_of_lines
  . rw [List.map_map]
    exact hsum
  . rw [List.forall_mem_map]
    exact hnone

theorem overTime_profitOver {db : Database} {scope : ResolvedScope} {ownerId : Uuid}
    {query : AnalyticsQueryDto} (hscope : resolve db ownerId query = .ok scope)
    {granularity : Granularity} (hto : granularity = .day → CalendarDate query.toDate)
    : (overviewOf db scope).ProfitOver
        ((profitOf db scope granularity).overTime.map (·.grossProfitC)) := by
  obtain ⟨hnodup, hkeys⟩ := overTime_buckets hscope hto
  obtain ⟨hsum, hnone⟩ := sum_gross_buckets (·.bucket) (·.grossProfitC) granularity hnodup
    (fun row hrow => (overTime_margins scope granularity hrow).1) hkeys
  apply profitOver_of_lines
  . rw [List.map_map]
    exact hsum
  . rw [List.forall_mem_map]
    exact hnone

end Overview

theorem product_of_line {db : Database} {pos : SentryPos.Database} (h : db.Shows pos)
    (hitemized : pos.Itemized) (hcatalog : pos.products.map (·.id) ⊆ db.products.map (·.id))
    {b : ScopedBusiness} {line : Line} (hline : line ∈ b.lines db) {id : Uuid}
    (hid : line.1.productId = some id) : id ∈ db.products.map (·.id) := by
  have hmem : line.1 ∈ db.saleLines := by
    unfold ScopedBusiness.lines completedLines at hline
    obtain ⟨si, hsi, hs⟩ := List.mem_flatMap.mp hline
    obtain ⟨s, _, heq⟩ := List.mem_map.mp hs
    rw [← heq]
    exact List.mem_of_mem_filter hsi
  exact hcatalog (hitemized.product _ (h.lines.mem_iff.mp (List.mem_map_of_mem hmem)) id hid)

theorem explainedBy_of_shows {db : LeaksDatabase} {pos : SentryPos.Database}
    (h : db.Shows pos) (hitemized : pos.Itemized) (hdb : db.Valid) (hlinked : db.Linked)
    (hcatalog : pos.products.map (·.id) ⊆ db.products.map (·.id)) (scope : ResolvedScope) (granularity : Granularity)
    : (overviewOf db.toDatabase scope).ExplainedBy (profitOf db.toDatabase scope granularity)
        (trendOf db.toDatabase scope granularity) (leaksOf db scope) (taxOf db.toDatabase scope) := by
  have hlines := sum_linesIn h hitemized scope.businesses
  have htotals := totalsOf_costed db.toDatabase scope.businesses
  have hrevenue : (profitOf db.toDatabase scope granularity).costedRevenueC
      = (overviewOf db.toDatabase scope).costedRevenueC
        ∧ (profitOf db.toDatabase scope granularity).uncostedRevenueC
          = (overviewOf db.toDatabase scope).uncostedRevenueC := by
    constructor
    . refine (sum_foldl _ Prod.fst (fun b => (lineAggregateSql db.toDatabase b b.fromUtc
        b.toUtc).costedRevenueC) (fun _ _ => rfl) scope.businesses (0, 0)).trans ?_
      exact (totalsOf_sum db.toDatabase (·.costedRevenueC) _ (fun _ _ => rfl) _).symm
    . refine (sum_foldl _ Prod.snd (fun b => (lineAggregateSql db.toDatabase b b.fromUtc
        b.toUtc).uncostedRevenueC) (fun _ _ => rfl) scope.businesses (0, 0)).trans ?_
      exact (totalsOf_sum db.toDatabase (·.uncostedRevenueC) _ (fun _ _ => rfl) _).symm
  have hall : (overviewOf db.toDatabase scope).costedRevenueC
      + (overviewOf db.toDatabase scope).uncostedRevenueC
        = ((linesIn db.toDatabase scope.businesses).map (·.1.netC)).sum := by
    rw [← (costedOf_fields _).1, ← htotals]
    rfl
  have hkey : ∀ b ∈ scope.businesses, ∀ line ∈ b.lines db.toDatabase,
      (productKey b line).isSome = line.1.productId.isSome := by
    intro b _ line _
    unfold productKey
    simp
  have hproducts := (byProduct_margins scope granularity).sum_revenue hkey
  have hcategories := (byCategory_margins scope hdb hlinked granularity).sum_revenue
    (p := (·.1.productId.isSome)) (by
      intro b _ line hline
      unfold categoryKey
      cases hid : line.1.productId with
      | none => rfl
      | some id =>
        obtain ⟨c, hc⟩ := categoriesOf_product hdb hlinked
          (product_of_line h hitemized hcatalog hline hid)
        rw [Option.bind_some, hc]
        rfl)
  have hsplit : ∀ lines : List Line,
      ((lines.filter (·.1.productId.isSome)).map (·.1.netC)).sum
        + ((lines.filter (·.1.productId.isNone)).map (·.1.netC)).sum
          = (lines.map (·.1.netC)).sum := by
    intro lines
    have hperm := (List.filter_append_perm (fun line : Line => line.1.productId.isSome) lines).map
      (·.1.netC)
    rw [← hperm.sum_eq, List.map_append, List.sum_append]
    simp
  constructor
  . exact hrevenue.1
  . exact hrevenue.2
  . rw [hrevenue.1, hrevenue.2, hall, hlines, netSalesC_overviewOf, orderLevelDiscountC_leaksOf]
  . rw [hrevenue.1, hrevenue.2, hall, hproducts, miscLines_leaksOf, hsplit]
  . rw [hcategories, hproducts]
  . exact trend_profitOver _ scope granularity
  . rw [(statusCounts_overviewOf _ scope).1]
    apply congrArg
    apply count_reasons db
    intro s
    unfold isStatus
    cases s.status <;> rfl
  . rw [(statusCounts_overviewOf _ scope).2]
    apply congrArg
    apply count_reasons db
    intro s
    unfold isStatus
    cases s.status <;> rfl
  . refine ((sum_foldl (addLeaks db.toDatabase) (·.scPwdDiscountC) _ (fun _ _ => rfl)
      scope.businesses .zero).trans (zero_add _)).trans ?_
    exact (totals_taxOf db.toDatabase scope (·.scPwdDiscountC) rfl fun _ _ => rfl).symm
  . refine ((sum_foldl (addLeaks db.toDatabase) (·.vatExemptSalesC) _ (fun _ _ => rfl)
      scope.businesses .zero).trans (zero_add _)).trans ?_
    exact (totals_taxOf db.toDatabase scope (·.vatExemptSalesC) rfl fun _ _ => rfl).symm

section Exact

-- The engine rounds a large line otherwise than SQL.
attribute [local instance] JsNumber.exact

/--
Whatever requests the terminals have made, interleaved in any way: the revenue of the profit report is
the net sales of the overview and the discounts on whole orders that the leaks report finds. The
products and the open lines share it, the buckets share the gross profit. The engine computes in exact
arithmetic.
-/
theorem profit_and_leaks_explain {ι : Type} [DecidableEq ι] {reqs : ι → Request}
    {pos : SentryPos.Database} {c : System ι} (hpos : pos.Valid) (haccounted : pos.Accounted)
    (hitemized : pos.Itemized) (hrun : Run (.error .aborted) (System.start pos reqs) c)
    {db : LeaksDatabase} (hshows : db.Shows c.db)
    (hcatalog : c.db.products.map (·.id) ⊆ db.products.map (·.id)) (hdb : db.Valid)
    (hlinked : db.Linked) {ownerId : Uuid} {query : AnalyticsQueryDto} {o : OverviewReport}
    (ho : overview db.toDatabase ownerId query = .ok o) (granularity : Option Granularity)
    : ∃ report buckets leaksReport taxReport,
        profit db.toDatabase ownerId query granularity = .ok report
          ∧ trend db.toDatabase ownerId query granularity = .ok buckets
          ∧ leaks db ownerId query = .ok leaksReport ∧ tax db.toDatabase ownerId query = .ok taxReport
          ∧ o.ExplainedBy report buckets leaksReport taxReport
          ∧ ((granularity.getD .day = .day → RealDate query.toDate)
            → o.ProfitOver (report.overTime.map (·.grossProfitC))) := by
  unfold overview at ho
  rw [Checks.bind_eq_ok] at ho
  obtain ⟨scope, hscope, ho⟩ := ho
  cases ho
  refine ⟨profitOf db.toDatabase scope (granularity.getD .day),
    trendOf db.toDatabase scope (granularity.getD .day), leaksOf db scope, taxOf db.toDatabase scope,
    ?_, ?_, ?_, ?_, ?_, fun hto => overTime_profitOver hscope fun hday => (hto hday).calendarDate⟩
  . unfold profit
    rw [hscope]
    rfl
  . unfold trend
    rw [hscope]
    rfl
  . unfold leaks
    rw [hscope]
    rfl
  . unfold tax
    rw [hscope]
    rfl
  . exact explainedBy_of_shows hshows (run_itemized hpos haccounted hitemized
      (fun _ _ dto _ _ => dto.addsUp_exact) hrun) hdb hlinked hcatalog scope _

namespace Cafe

/-- What the reports read, with the products that are sold. -/
def explaining (pos : SentryPos.Database) : LeaksDatabase :=
  { showing pos with
    categories := [⟨60, 10, "Drinks", none⟩]
    products := [coffee]
    discountKind := fun _ => .percent
    shifts := pos.shifts }

theorem explaining_valid (pos : SentryPos.Database) : (explaining pos).Valid where
  businesses := List.nodup_singleton _
  branches := List.nodup_singleton _
  products := List.nodup_singleton _
  variants := List.nodup_nil
  movements := List.nodup_nil
  movement_branch := by simp [explaining, showing, database]
  movement_product := by simp [explaining, showing, database]

theorem explaining_linked (pos : SentryPos.Database) : (explaining pos).Linked where
  categories := List.nodup_singleton _
  product_category := by simp [explaining, coffee]

theorem database_itemized : SentryPos.Cafe.database.Itemized where
  subtotal := by simp [SentryPos.Cafe.database]
  product := by simp [SentryPos.Cafe.database]

theorem shows_explaining (pos : SentryPos.Database) : (explaining pos).Shows pos where
  sales := (shows_showing pos).sales
  lines := (shows_showing pos).lines
  live := (shows_showing pos).live
  payments := (shows_showing pos).payments

theorem race_explained
    : (SentryPos.Cafe.race.turns SentryPos.Cafe.schedule).map (fun c =>
          (c.db.products.map (·.id),
            (overview (explaining c.db).toDatabase 1 epochDay).map (·.netSalesC.value)))
        = some ([50], .ok 200) := by
  decide +kernel

end Cafe

theorem profit_and_leaks_explain_cafe
    : ∃ c o report buckets leaksReport taxReport,
        SentryPos.Cafe.race.turns SentryPos.Cafe.schedule = some c
          ∧ overview (Cafe.explaining c.db).toDatabase 1 Cafe.epochDay = .ok o
          ∧ o.netSalesC.value = 200
          ∧ leaks (Cafe.explaining c.db) 1 Cafe.epochDay = .ok leaksReport
          ∧ o.ExplainedBy report buckets leaksReport taxReport := by
  have hrace := Cafe.race_explained
  rw [Option.map_eq_some_iff] at hrace
  obtain ⟨c, hturns, hfigures⟩ := hrace
  rw [Prod.mk.injEq] at hfigures
  have hrun : Run (.error .aborted) SentryPos.Cafe.race c := Config.run_of_turns _ _ hturns
  cases ho : overview (Cafe.explaining c.db).toDatabase 1 Cafe.epochDay with
  | error e =>
    rw [ho] at hfigures
    cases hfigures.2
  | ok o =>
    rw [ho] at hfigures
    obtain ⟨report, buckets, leaksReport, taxReport, _, _, hleaks, _, hexplained, _⟩ :=
      profit_and_leaks_explain SentryPos.Cafe.database_valid Cafe.database_accounted
        Cafe.database_itemized hrun (Cafe.shows_explaining c.db) (hfigures.1 ▸ List.Subset.refl _)
        (Cafe.explaining_valid c.db) (Cafe.explaining_linked c.db) ho none
    exact ⟨c, o, report, buckets, leaksReport, taxReport, hturns, ho, Except.ok.inj hfigures.2, hleaks,
      hexplained⟩

end Exact

end SentryPos.Analytics
