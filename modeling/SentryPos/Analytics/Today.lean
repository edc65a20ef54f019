import Mathlib.Data.List.ReduceOption
import SentryPos.Analytics.Dashboard
import SentryPos.Analytics.Explained

/-!
This module contains that the figures of the dashboard are those of the overview of the day that a
business has, and of the days before.
-/

namespace SentryPos.Analytics

open Calendar JsDate Grouping

/-- A time of the years that have four digits, with a year to spare. -/
def OnClock (now : ℤ) : Prop :=
  101 ≤ (CivilDate.ofDay (now / DAY_MS)).year ∧ (CivilDate.ofDay (now / DAY_MS)).year ≤ 9998

section Days

theorem year_ofDay_le {m n : ℤ} (h : n ≤ m + 365)
    : (CivilDate.ofDay n).year ≤ (CivilDate.ofDay m).year + 1 := by
  have hm := (CivilDate.ofDay m).toDay_bounds
  have hn := (CivilDate.ofDay n).toDay_bounds
  rw [CivilDate.toDay_ofDay] at hm hn
  by_contra hlt
  have hmono := dayFromYear_mono
    (show (CivilDate.ofDay m).year + 1 + 1 ≤ (CivilDate.ofDay n).year by omega)
  have hsucc := dayFromYear_succ ((CivilDate.ofDay m).year + 1)
  have hleap := leapDay_cases ((CivilDate.ofDay m).year + 1)
  omega

theorem dayStartMinutes_bounds (b : Business)
    : 0 ≤ b.dayStartMinutes ∧ b.dayStartMinutes < 10000 := by
  have hparse := parseDayStart_dayStartTime b
  unfold parseDayStart at hparse
  split at hparse
  . next h₁ h₂ m₁ m₂ _ =>
    split at hparse
    . next hvalid =>
      have hhour : isDigit h₁ ∧ isDigit h₂ := by
        rcases hvalid.1 with ⟨rfl | rfl, hdigit⟩ | ⟨rfl, hmem⟩
        . exact ⟨rfl, hdigit⟩
        . exact ⟨rfl, hdigit⟩
        . simp only [List.mem_cons, List.not_mem_nil, or_false] at hmem
          rcases hmem with rfl | rfl | rfl | rfl <;> exact ⟨rfl, rfl⟩
      have hminute : isDigit m₁ := by
        have hmem := hvalid.2.1
        simp only [List.mem_cons, List.not_mem_nil, or_false] at hmem
        rcases hmem with rfl | rfl | rfl | rfl | rfl | rfl <;> rfl
      have hhours := (pad2_parse hhour.1 hhour.2).2
      have hminutes := (pad2_parse hminute hvalid.2.2).2
      rw [Except.ok.injEq] at hparse
      omega
    . cases hparse
  . cases hparse

theorem dayOf_near {now : ℤ} (hnow : OnClock now) {b : Business} {n : ℤ}
    (hge : dayBucket now b.dayStartMinutes - 100 ≤ n) (hle : n ≤ dayBucket now b.dayStartMinutes + 100)
    : (100 ≤ (CivilDate.ofDay n).year ∧ (CivilDate.ofDay n).year ≤ 9999) ∧ dayOf (dayText n) = some n
    := by
  have hstart := dayStartMinutes_bounds b
  have hnear : now / DAY_MS - 110 ≤ n ∧ n ≤ now / DAY_MS + 110 := by
    unfold dayBucket MANILA_OFFSET_MINUTES DAY_MS at hge hle
    unfold DAY_MS
    omega
  have hlow := year_ofDay_le (show now / DAY_MS ≤ n + 365 by omega)
  have hhigh := year_ofDay_le (show n ≤ now / DAY_MS + 365 by omega)
  unfold OnClock at hnow
  have hyear : 100 ≤ (CivilDate.ofDay n).year ∧ (CivilDate.ofDay n).year ≤ 9999 := by
    omega
  have htext : dayText n = isoDate (.ofDay n) := by
    rw [dayText_iff (by omega) hyear.2, CivilDate.toDay_ofDay]
  refine ⟨hyear, ?_⟩
  rw [htext, dayOf_isoDate hyear.1 hyear.2, CivilDate.toDay_ofDay]

end Days

section Scope

variable {now : ℤ} (hnow : OnClock now)

/-- The day of a business at a time. -/
def todayOf (now : ℤ) (business : Business) : ℤ :=
  dayBucket now business.dayStartMinutes

def dayStart (business : Business) (n : ℤ) : ℤ :=
  n * DAY_MS + (business.dayStartMinutes - MANILA_OFFSET_MINUTES) * 60000

def todayWindows (now : ℤ) (business : Business) (branchIds : List Uuid) : ScopedBusiness :=
  { windowsOf (todayOf now business) (todayOf now business) business branchIds with
    previousFromUtc := dayStart business (todayOf now business - 7)
    previousToUtc := dayStart business (todayOf now business - 7 + 1) }

include hnow

theorem addDays_near {b : Business} {n : ℤ} (hge : todayOf now b - 100 ≤ n)
    (hle : n ≤ todayOf now b + 100) (days : ℤ) : addDays (dayText n) days = .ok (dayText (n + days)) :=
  addDays_of_dayOf (dayOf_near hnow hge hle).2 days

theorem start_near {b : Business} {n : ℤ} (hge : todayOf now b - 100 ≤ n)
    (hle : n ≤ todayOf now b + 100)
    : businessDayStartUtc (dayText n) b.dayStartMinutes = .ok (dayStart b n) :=
  businessDayStartUtc_of_dayOf (dayOf_near hnow hge hle).2 _

theorem todayBusiness_eq (business : Business) (branchIds : List Uuid)
    : todayBusiness now business branchIds = .ok (todayWindows now business branchIds) := by
  have htoday : businessDayOf now business.dayStartMinutes = dayText (todayOf now business) :=
    businessDayOf_eq _ _
  have hdays := fun n hge hle => addDays_near hnow (b := business) (n := n) hge hle
  have hstarts := fun n hge hle => start_near hnow (b := business) (n := n) hge hle
  unfold todayBusiness
  rw [parseDayStart_dayStartTime]
  simp only [internal, bind, Except.bind, htoday]
  rw [hdays _ (by omega) (by omega), hstarts _ (by omega) (by omega)]
  dsimp only
  rw [hdays _ (by omega) (by omega)]
  dsimp only
  rw [hstarts _ (by omega) (by omega)]
  dsimp only
  rw [hstarts _ (by omega) (by omega)]
  dsimp only
  rw [hdays _ (by omega) (by omega)]
  dsimp only
  rw [hstarts _ (by omega) (by omega)]
  rfl

/-- The businesses of the dashboard, with the ids of their branches. -/
def todayBusinesses (db : Database) (ownerId : Uuid) : List (Business × List Uuid) :=
  let businesses := (db.ownBusinesses ownerId).filter (!·.isDemo)
  withBranches businesses ((db.ownBranches ownerId).filter fun b =>
    (businesses.map (·.id)).contains b.businessId)

theorem resolveToday_eq (db : Database) (ownerId : Uuid)
    : ∃ scope, resolveToday db ownerId now = .ok scope
        ∧ scope.businesses = (todayBusinesses db ownerId).map fun x => todayWindows now x.1 x.2 := by
  have hall : (todayBusinesses db ownerId).mapM (fun x => todayBusiness now x.1 x.2)
      = .ok ((todayBusinesses db ownerId).map fun x => todayWindows now x.1 x.2) :=
    Checks.mapM_ok fun x _ => todayBusiness_eq hnow x.1 x.2
  unfold todayBusinesses at hall
  dsimp only at hall
  unfold resolveToday
  dsimp only
  rw [hall]
  exact ⟨_, rfl, rfl⟩

end Scope

section Branches

variable (db : Database) (b : ScopedBusiness) (fromUtc toUtc : ℤ)

def dayFigures (sales : List Sale) (lines : List Line) : DayFigures where
  salesC := (tally sales).salesC
  grossProfitC := (marginsOf (costedOf lines)).grossProfitC
  transactions := (tally sales).transactions

def liveBranches : List Branch :=
  db.branches.filter fun branch => b.branchIds.contains branch.id && branch.deletedAt.isNone

def branchSales (branch : Branch) : List Sale :=
  (completedSales db b.branchIds fromUtc toUtc).filter (·.branchId = branch.id)

def branchLines (branch : Branch) : List Line :=
  (completedLines db b.branchIds fromUtc toUtc).filter (·.2.branchId = branch.id)

def branchRow (branch : Branch) : DashboardBranchRow where
  branchId := branch.id
  name := branch.name
  salesC := ((branchSales db b fromUtc toUtc branch).map netSales).sum
  transactions := (branchSales db b fromUtc toUtc branch).length
  costedLines := (aggregateLines (branchLines db b fromUtc toUtc branch)).costedLines
  costedRevenueC := (aggregateLines (branchLines db b fromUtc toUtc branch)).costedRevenueC
  costedCostC := (aggregateLines (branchLines db b fromUtc toUtc branch)).costedCostC

theorem leftJoin_lines (branch : Branch)
    : ∃ l : Option (Uuid × LineAggregateRow),
        leftJoin (((groupBy (fun line => line.2.branchId)
            (completedLines db b.branchIds fromUtc toUtc)).map fun g =>
              (g.1, aggregateLines g.2)).filter (·.1 = branch.id)) = [l]
        ∧ ∀ {β : Type} (f : LineAggregateRow → β) (zero : β), f (aggregateLines []) = zero →
          (l.map fun l => f l.2).getD zero
            = f (aggregateLines (branchLines db b fromUtc toUtc branch)) := by
  have hgroup := Table.filter_key
    (nodup_groupBy (fun line => line.2.branchId) (completedLines db b.branchIds fromUtc toUtc))
    branch.id
  unfold leftJoin
  rw [List.filter_map]
  unfold Function.comp
  dsimp only
  rw [hgroup]
  cases hget : Table.get Prod.fst (groupBy (fun line => line.2.branchId)
    (completedLines db b.branchIds fromUtc toUtc)) branch.id with
  | none =>
    refine ⟨none, rfl, ?_⟩
    intro β f zero hzero
    have hnone : branchLines db b fromUtc toUtc branch = [] := by
      unfold branchLines
      rw [List.filter_eq_nil_iff]
      intro line hline heq
      have hkey : branch.id ∈ (groupBy (fun line : Line => line.2.branchId)
          (completedLines db b.branchIds fromUtc toUtc)).map Prod.fst := by
        rw [keys_groupBy, ← decide_eq_true_eq.mp heq]
        exact List.mem_map_of_mem hline
      obtain ⟨g, hg, heq⟩ := List.mem_map.mp hkey
      exact Table.get_eq_none.mp hget g hg heq
    rw [hnone, hzero]
    rfl
  | some g =>
    have hkey := Table.key_of_get hget
    have hlines := (mem_groupBy.mp (Table.mem_of_get hget)).2
    refine ⟨some (g.1, aggregateLines g.2), rfl, ?_⟩
    intro β f zero _
    unfold branchLines
    rw [← hkey, ← hlines]
    rfl

theorem reduceOption_replicate {α : Type} (n : ℕ) (a : α)
    : (List.replicate n (some a)).reduceOption = List.replicate n a := by
  induction n with
  | zero => rfl
  | succ n ih =>
    rw [List.replicate_succ, List.replicate_succ, List.reduceOption_cons_of_some, ih]

theorem maxOf_replicate {α : Type} [LinearOrder α] [Zero α] {n : ℕ} (hn : n ≠ 0) (x : Option α)
    : maxOf (List.replicate n x) = x.getD 0 := by
  unfold maxOf
  cases x with
  | none => simp [List.reduceOption_replicate_none]
  | some a => simp [reduceOption_replicate, List.max?_replicate, hn]

theorem sum_leftJoin {α : Type} (rows : List α) (f : α → ℤ)
    : ((leftJoin rows).map fun x => (x.map f).getD 0).sum = (rows.map f).sum
        ∧ ((leftJoin rows).filter (·.isSome)).length = rows.length ∧ leftJoin rows ≠ [] := by
  unfold leftJoin
  split
  . next hempty =>
    rw [List.isEmpty_iff.mp hempty]
    simp
  . next hne =>
    simp [Function.comp_def, List.filter_map]
    simpa using hne

theorem dashboardBranchSql_perm (hdb : db.Valid)
    : (dashboardBranchSql db b fromUtc toUtc).Perm
        ((liveBranches db b).map (branchRow db b fromUtc toUtc)) := by
  choose lines hlines using leftJoin_lines db b fromUtc toUtc
  let sales (branch : Branch) : List (Option Sale) :=
    leftJoin (branchSales db b fromUtc toUtc branch)
  let segment (branch : Branch) : List BranchJoin :=
    (sales branch).map fun s => (branch, s, lines branch)
  have hjoins : branchJoins db b fromUtc toUtc = (liveBranches db b).flatMap segment := by
    unfold branchJoins
    dsimp only
    apply List.flatMap_congr
    intro branch _
    rw [(hlines branch).1]
    exact List.map_eq_flatMap.symm
  have hids : ((liveBranches db b).map fun branch => (branch.id, branch.name)).Nodup := by
    apply List.Nodup.of_map Prod.fst
    rw [List.map_map]
    exact hdb.branches.sublist (List.filter_sublist.map _)
  have hsegment : ∀ branch ∈ liveBranches db b, ∀ x ∈ segment branch,
      (x.1.id, x.1.name) = (branch.id, branch.name) := by
    intro branch _ x hx
    obtain ⟨s, _, heq⟩ := List.mem_map.mp hx
    rw [← heq]
  have hne : ∀ branch ∈ liveBranches db b, segment branch ≠ [] := by
    intro branch _
    rw [ne_eq, List.map_eq_nil_iff]
    exact (sum_leftJoin _ netSales).2.2
  have hgroups := groupBy_segments hids hsegment hne
  unfold dashboardBranchSql
  dsimp only
  rw [hjoins]
  refine (List.mergeSort_perm _ _).trans ((hgroups.map _).trans ?_)
  rw [List.map_map]
  apply List.Perm.of_eq
  apply List.map_congr_left
  intro branch _
  have hsales := sum_leftJoin (branchSales db b fromUtc toUtc branch) netSales
  have hmax : ∀ {β : Type} [LinearOrder β] [Zero β] (f : LineAggregateRow → β),
      f (aggregateLines []) = 0 → maxOf ((segment branch).map fun x => x.2.2.map fun l => f l.2)
        = f (aggregateLines (branchLines db b fromUtc toUtc branch)) := by
    intro β _ _ f hzero
    rw [List.map_map]
    have hconst : ((fun x : BranchJoin => x.2.2.map fun l => f l.2) ∘
        fun s => (branch, s, lines branch)) = fun _ => (lines branch).map fun l => f l.2 := rfl
    rw [hconst, List.map_const', maxOf_replicate (by simpa using hsales.2.2)]
    exact (hlines branch).2 f 0 hzero
  unfold branchRow
  rw [Function.comp_apply]
  dsimp only
  rw [hmax (·.costedLines) rfl, hmax (·.costedRevenueC) rfl, hmax (·.costedCostC) rfl]
  congr 1
  . rw [List.map_map]
    exact hsales.1
  . rw [List.filter_map, List.length_map]
    exact hsales.2.1

theorem sum_costedOf {M : Type} [AddCommMonoid M] (f : Costed → M) (hzero : f emptyCosted = 0)
    (hadd : ∀ a b, f (a + b) = f a + f b) (lines : List Line)
    : f (costedOf lines) = (lines.map fun line => f (lineCosted line)).sum := by
  induction lines with
  | nil => exact hzero
  | cons line lines ih =>
    have hcons : costedOf (line :: lines) = lineCosted line + costedOf lines := rfl
    rw [hcons, hadd, ih, List.map_cons, List.sum_cons]

variable {db b fromUtc toUtc} in
theorem sum_liveBranches (hdb : db.Valid)
    (hlive : ∀ id ∈ b.branchIds, ∃ branch ∈ db.branches, branch.id = id ∧ branch.deletedAt = none)
    {α M : Type} [AddCommMonoid M] {rows : List α} (sale : α → Sale)
    (hrows : ∀ r ∈ rows, sale r ∈ completedSales db b.branchIds fromUtc toUtc) (f : α → M)
    : ((liveBranches db b).map fun branch =>
          ((rows.filter fun r => (sale r).branchId = branch.id).map f).sum).sum
        =
      (rows.map f).sum := by
  have hids : ((liveBranches db b).map (·.id)).Nodup :=
    hdb.branches.sublist (List.filter_sublist.map _)
  have hmem : ∀ r ∈ rows, (sale r).branchId ∈ (liveBranches db b).map (·.id) := by
    intro r hr
    have hwindow := (List.mem_filter.mp (List.mem_of_mem_filter (hrows r hr))).2
    unfold inWindow at hwindow
    simp only [Bool.and_eq_true, List.contains_iff_mem] at hwindow
    obtain ⟨branch, hbranch, hid, hdeleted⟩ := hlive _ hwindow.1.1.1
    rw [← hid]
    apply List.mem_map_of_mem
    unfold liveBranches
    rw [List.mem_filter]
    refine ⟨hbranch, ?_⟩
    rw [hid, hdeleted]
    simpa using hwindow.1.1.1
  rw [← sum_filter_keys (fun r => (sale r).branchId) f hids hmem, List.map_map]
  rfl

theorem figuresOf_rows (hdb : db.Valid)
    (hlive : ∀ id ∈ b.branchIds, ∃ branch ∈ db.branches, branch.id = id ∧ branch.deletedAt = none)
    : figuresOf (dashboardBranchSql db b fromUtc toUtc)
        =
      dayFigures (completedSales db b.branchIds fromUtc toUtc)
        (completedLines db b.branchIds fromUtc toUtc) := by
  have hperm := dashboardBranchSql_perm db b fromUtc toUtc hdb
  have hlines : ∀ {M : Type} [AddCommMonoid M] (f : Costed → M) (g : LineAggregateRow → M),
      f emptyCosted = 0 → (∀ a b, f (a + b) = f a + f b) →
        (∀ revenueC row, f (rowCosted revenueC row) = g row) →
          ((liveBranches db b).map fun branch =>
            g (aggregateLines (branchLines db b fromUtc toUtc branch))).sum
              = f (costedOf (completedLines db b.branchIds fromUtc toUtc)) := by
    intro M _ f g hzero hadd hrow
    rw [sum_costedOf f hzero hadd,
      ← sum_liveBranches hdb hlive (fun line : Line => line.2) fun _ => sale_of_completedLine]
    congr 1
    apply List.map_congr_left
    intro branch _
    rw [← sum_costedOf f hzero hadd, costedOf_eq]
    exact (hrow _ _).symm
  have hself : ∀ s ∈ completedSales db b.branchIds fromUtc toUtc,
      id s ∈ completedSales db b.branchIds fromUtc toUtc := fun _ hs => hs
  have hsales := sum_liveBranches hdb hlive id hself netSales
  have hcount := sum_liveBranches hdb hlive id hself fun _ => 1
  have hrow : ∀ {M : Type} [AddCommMonoid M] (f : DashboardBranchRow → M),
      ((dashboardBranchSql db b fromUtc toUtc).map f).sum
        = ((liveBranches db b).map fun branch => f (branchRow db b fromUtc toUtc branch)).sum := by
    intro M _ f
    rw [(hperm.map f).sum_eq, List.map_map]
    rfl
  unfold figuresOf dayFigures
  rw [hrow (·.costedLines), hrow (·.costedRevenueC), hrow (·.costedCostC), hrow (·.salesC),
    hrow (·.transactions)]
  unfold branchRow
  dsimp only
  rw [hlines (·.costedLines) (·.costedLines) rfl (fun _ _ => rfl) fun _ _ => zero_add _,
    hlines (·.costedRevenueC) (·.costedRevenueC) rfl (fun _ _ => rfl) fun _ _ => zero_add _,
    hlines (·.costedCostC) (·.costedCostC) rfl (fun _ _ => rfl) fun _ _ => zero_add _]
  have hsold : ((liveBranches db b).map fun branch =>
      ((branchSales db b fromUtc toUtc branch).map netSales).sum).sum
        = (tally (completedSales db b.branchIds fromUtc toUtc)).salesC := hsales
  have hsales : ((liveBranches db b).map fun branch =>
      (branchSales db b fromUtc toUtc branch).length).sum
        = (tally (completedSales db b.branchIds fromUtc toUtc)).transactions := by
    simpa [branchSales, tally] using hcount
  rw [hsold, hsales]
  rfl

end Branches

section Sparkline

variable (db : Database) {now : ℤ} (hnow : OnClock now) (business : Business) (branchIds : List Uuid)

def salesOfDay (n : ℤ) : List Sale :=
  completedSales db branchIds (dayStart business n) (dayStart business (n + 1))

def linesOfDay (n : ℤ) : List Line :=
  completedLines db branchIds (dayStart business n) (dayStart business (n + 1))

theorem filter_day {m n k : ℤ} (hge : m ≤ k) (hle : k ≤ n)
    : (completedSales db branchIds (dayStart business m) (dayStart business (n + 1))).filter
          (fun s => dayBucket s.createdAt business.dayStartMinutes = k)
        =
      salesOfDay db business branchIds k := by
  unfold salesOfDay completedSales salesInWindow
  rw [List.filter_filter, List.filter_filter, List.filter_filter]
  apply List.filter_congr
  intro s _
  have hrange := dayBucket_range m n business.dayStartMinutes s.createdAt
  have hday := dayBucket_range k k business.dayStartMinutes s.createdAt
  unfold inWindow dayStart
  rw [Bool.eq_iff_iff]
  simp only [Bool.and_eq_true, decide_eq_true_eq, and_assoc]
  constructor
  . rintro ⟨hbucket, hstatus, hbranch, hlive, _, _⟩
    have hwindow := hday.mp (by omega)
    exact ⟨hstatus, hbranch, hlive, hwindow.1, hwindow.2⟩
  . rintro ⟨hstatus, hbranch, hlive, hfrom, hto⟩
    have hbucket := hday.mpr ⟨hfrom, hto⟩
    have hwindow := hrange.mp (by omega)
    exact ⟨by omega, hstatus, hbranch, hlive, hwindow.1, hwindow.2⟩

include hnow

theorem dayText_near {k k' : ℤ} (hge : todayOf now business - 100 ≤ k)
    (hle : k ≤ todayOf now business + 100) (hge' : todayOf now business - 100 ≤ k')
    (hle' : k' ≤ todayOf now business + 100) (h : dayText k = dayText k') : k = k' := by
  have hk := (dayOf_near hnow hge hle).2
  rw [h, (dayOf_near hnow hge' hle').2, Option.some.injEq] at hk
  exact hk.symm

theorem get?_byDate {b : ScopedBusiness} (hids : b.branchIds = branchIds)
    (hminutes : b.dayStartMinutes = business.dayStartMinutes) {k : ℤ}
    (hge : todayOf now business - 6 ≤ k) (hle : k ≤ todayOf now business)
    : ((byDate (dashboardSparklineSql db b (dayStart business (todayOf now business - 6))
          (dayStart business (todayOf now business + 1)))).get? (dayText k)).getD 0
        =
      (tally (salesOfDay db business branchIds k)).salesC := by
  have hday := filter_day db business branchIds hge hle
  have hbuckets : ∀ s ∈ completedSales db branchIds (dayStart business (todayOf now business - 6))
        (dayStart business (todayOf now business + 1)),
      todayOf now business - 6 ≤ dayBucketExpr b s ∧ dayBucketExpr b s ≤ todayOf now business := by
    intro s hs
    have hwindow := (List.mem_filter.mp (List.mem_of_mem_filter hs)).2
    unfold inWindow at hwindow
    simp only [Bool.and_eq_true, decide_eq_true_eq] at hwindow
    unfold dayBucketExpr
    rw [hminutes]
    exact (dayBucket_range _ _ _ _).mpr ⟨hwindow.1.2, hwindow.2⟩
  have hsame : dayBucketExpr b = fun s => dayBucket s.createdAt business.dayStartMinutes := by
    funext s
    unfold dayBucketExpr
    rw [hminutes]
  unfold byDate dashboardSparklineSql
  rw [hids]
  revert hday hbuckets
  generalize completedSales db branchIds (dayStart business (todayOf now business - 6))
    (dayStart business (todayOf now business + 1)) = sales
  intro hday hbuckets
  have hrange : ∀ g ∈ groupBy (dayBucketExpr b) sales,
      todayOf now business - 6 ≤ g.1 ∧ g.1 ≤ todayOf now business := by
    intro g hg
    obtain ⟨s, hs, heq⟩ := List.mem_map.mp (mem_groupBy.mp hg).1
    rw [← heq]
    exact hbuckets s hs
  have hkeys : (((groupBy (dayBucketExpr b) sales).map fun g => (g.1, (g.2.map netSales).sum)).map
      fun row => bucketKey row.1).Nodup := by
    have hnodup := (nodup_groupBy (dayBucketExpr b) sales).map_on (f := bucketKey) (by
      intro n hn n' hn' heq
      obtain ⟨g, hg, rfl⟩ := List.mem_map.mp hn
      obtain ⟨g', hg', rfl⟩ := List.mem_map.mp hn'
      have := hrange g hg
      have := hrange g' hg'
      rw [bucketKey_eq, bucketKey_eq] at heq
      exact dayText_near hnow business (by omega) (by omega) (by omega) (by omega) heq)
    rw [List.map_map] at hnodup ⊢
    exact hnodup
  have hfind : (((groupBy (dayBucketExpr b) sales).map fun g => (g.1, (g.2.map netSales).sum)).foldl
        (fun (m : Entries (List Char) ℤ) row => m.set (bucketKey row.1) row.2) []).get? (dayText k)
      = ((Table.get (fun row => bucketKey row.1) ((groupBy (dayBucketExpr b) sales).map fun g =>
        (g.1, (g.2.map netSales).sum)) (dayText k)).map fun row => row.2).or none :=
    Entries.get?_foldl_set hkeys [] (dayText k)
  rw [hfind, Option.or_none]
  by_cases hk : k ∈ (groupBy (dayBucketExpr b) sales).map Prod.fst
  . obtain ⟨g, hg, heq⟩ := List.mem_map.mp hk
    have hrow := Table.get_of_mem hkeys (List.mem_map_of_mem
      (f := fun g : ℤ × List Sale => (g.1, (g.2.map netSales).sum)) hg)
    dsimp only at hrow
    rw [← bucketKey_eq, ← heq, hrow, Option.map_some, Option.getD_some, (mem_groupBy.mp hg).2, heq,
      hsame, hday]
    rfl
  . have hnone : sales.filter (fun s => dayBucketExpr b s = k) = [] := by
      rw [List.filter_eq_nil_iff]
      intro s hs heq
      apply hk
      rw [keys_groupBy, ← decide_eq_true_eq.mp heq]
      exact List.mem_map_of_mem hs
    have hget : Table.get (fun row => bucketKey row.1) ((groupBy (dayBucketExpr b) sales).map fun g =>
        (g.1, (g.2.map netSales).sum)) (dayText k) = none := by
      rw [Table.get_eq_none]
      intro row hrow heq
      obtain ⟨g, hg, heq'⟩ := List.mem_map.mp hrow
      have := hrange g hg
      rw [← heq', bucketKey_eq] at heq
      apply hk
      rw [← dayText_near hnow business (by omega) (by omega) (by omega) (by omega) heq]
      exact List.mem_map_of_mem hg
    rw [hsame, hday] at hnone
    rw [hget, hnone]
    rfl

theorem sparkline_eq
    : sparkline db (todayWindows now business branchIds) now
        =
      .ok ((List.range 7).map fun (i : ℕ) => {
        date := dayText (todayOf now business - 6 + i)
        salesC := (tally (salesOfDay db business branchIds (todayOf now business - 6 + i))).salesC }) := by
  have htoday : businessDayOf now business.dayStartMinutes = dayText (todayOf now business) :=
    businessDayOf_eq _ _
  have hfirst : addDays (dayText (todayOf now business)) (-((SPARKLINE_DAYS : ℤ) - 1))
      = .ok (dayText (todayOf now business - 6)) :=
    addDays_near hnow (b := business) (by omega) (by omega) (-6)
  have hstart : businessDayStartUtc (dayText (todayOf now business - 6)) business.dayStartMinutes
      = .ok (dayStart business (todayOf now business - 6)) :=
    start_near hnow (by omega) (by omega)
  have hend : (todayWindows now business branchIds).toUtc
      = dayStart business (todayOf now business + 1) := rfl
  have hminutes : (todayWindows now business branchIds).dayStartMinutes = business.dayStartMinutes := rfl
  unfold sparkline
  dsimp only
  rw [hminutes, htoday, hend, hfirst]
  simp only [internal, bind, Except.bind, hstart]
  apply Checks.mapM_ok
  intro i hi
  rw [SPARKLINE_DAYS, List.mem_range] at hi
  rw [addDays_near hnow (b := business) (by omega) (by omega)]
  dsimp only [pure, Except.pure]
  rw [get?_byDate db hnow business branchIds rfl hminutes (by omega) (by omega)]

end Sparkline

def DayFigures.OfDay (db : Database) (ownerId businessId : Uuid) (date : List Char)
    (figures : DayFigures) : Prop :=
  ∃ query o, query.businessId = some businessId ∧ query.branchId = none ∧ query.fromDate = date
    ∧ query.toDate = date ∧ overview db ownerId query = .ok o ∧ o.netSalesC.value = figures.salesC
    ∧ o.transactions.value = figures.transactions
    ∧ o.grossProfitC.value = figures.grossProfitC.map fun gross : ℤ => (gross : JsNumber)

section Overview

variable {db : Database} (hdb : db.Valid) {ownerId : Uuid} {now : ℤ} (hnow : OnClock now)
  {x : Business × List Uuid} (hx : x ∈ todayBusinesses db ownerId)

include hx

theorem branchIds_of_today
    : x.1 ∈ db.ownBusinesses ownerId ∧ x.2 ≠ []
        ∧ x.2 = ((db.ownBranches ownerId).filter (·.businessId = x.1.id)).map (·.id) := by
  unfold todayBusinesses at hx
  dsimp only at hx
  obtain ⟨hmem, hne, hids⟩ := mem_withBranches.mp hx
  refine ⟨List.mem_of_mem_filter hmem, hne, ?_⟩
  rw [hids, List.filter_filter]
  congr 1
  apply List.filter_congr
  intro branch _
  by_cases hid : branch.businessId = x.1.id
  . have hcontains : x.1.id ∈ ((db.ownBusinesses ownerId).filter (!·.isDemo)).map (·.id) :=
      List.mem_map_of_mem hmem
    simp [hid, hcontains]
  . simp [hid]

theorem live_of_today {id : Uuid} (hid : id ∈ x.2)
    : ∃ branch ∈ db.branches, branch.id = id ∧ branch.deletedAt = none := by
  rw [(branchIds_of_today hx).2.2] at hid
  obtain ⟨branch, hbranch, heq⟩ := List.mem_map.mp hid
  have hown := List.mem_filter.mp (List.mem_of_mem_filter hbranch)
  rw [Bool.and_eq_true, Option.isNone_iff_eq_none] at hown
  exact ⟨branch, hown.1, heq, hown.2.2⟩

include hdb

theorem resolve_day {query : AnalyticsQueryDto} {k : ℤ} (hbusiness : query.businessId = some x.1.id)
    (hbranch : query.branchId = none) (hfrom : dayOf query.fromDate = some k)
    (hto : dayOf query.toDate = some k)
    : ∃ scope, resolve db ownerId query = .ok scope ∧ scope.businesses = [windowsOf k k x.1 x.2] := by
  obtain ⟨hown, hne, hids⟩ := branchIds_of_today hx
  have hbusinesses : db.scopeBusinesses ownerId query = [x.1] := by
    have hkeys : ((db.ownBusinesses ownerId).map (·.id)).Nodup :=
      hdb.businesses.sublist (List.filter_sublist.map _)
    unfold Database.scopeBusinesses
    rw [hbusiness]
    dsimp only
    rw [Table.filter_key hkeys, Table.get_of_mem hkeys hown]
    rfl
  have hscope : withBranches (db.scopeBusinesses ownerId query) (db.scopeBranches ownerId query)
      = [x] := by
    have hbranches : (db.scopeBranches ownerId query).filter (·.businessId = x.1.id)
        = (db.ownBranches ownerId).filter (·.businessId = x.1.id) := by
      unfold Database.scopeBranches
      rw [hbusinesses, hbranch, List.filter_filter]
      apply List.filter_congr
      intro branch _
      by_cases hid : branch.businessId = x.1.id <;> simp [hid]
    unfold withBranches
    rw [hbusinesses, List.filterMap_cons, hbranches, ← hids, if_neg (by simpa using hne)]
    rfl
  refine ⟨scopeOf db ownerId query k k, ?_, ?_⟩
  . rw [resolve_eq db ownerId hfrom hto, hbusinesses, hbranch]
    simp
  . unfold scopeOf
    dsimp only
    rw [hscope]
    rfl

theorem ofDay_dayFigures {k : ℤ} (hday : dayOf (dayText k) = some k)
    : (dayFigures (salesOfDay db x.1 x.2 k) (linesOfDay db x.1 x.2 k)).OfDay db ownerId x.1.id
        (dayText k) := by
  have hmatches : (parseDigits (dayText k)).isSome := by
    unfold dayOf at hday
    obtain ⟨parts, hparts, _⟩ := Option.map_eq_some_iff.mp hday
    exact Option.isSome_iff_exists.mpr ⟨parts, hparts⟩
  let query : AnalyticsQueryDto := {
    businessId := some x.1.id
    branchId := none
    fromDate := dayText k
    toDate := dayText k
    from_matches := hmatches
    to_matches := hmatches }
  have hresolved : ∃ scope, resolve db ownerId query = .ok scope
      ∧ scope.businesses = [windowsOf k k x.1 x.2] :=
    resolve_day hdb hx rfl rfl hday hday
  obtain ⟨scope, hscope, hbusinesses⟩ := hresolved
  refine ⟨query, overviewOf db scope, rfl, rfl, rfl, rfl, ?_, ?_, ?_, ?_⟩
  . unfold overview
    rw [hscope]
    rfl
  . rw [netSalesC_overviewOf, hbusinesses]
    exact add_zero _
  . have hsold : (overviewOf db scope).DividedOver [soldIn db scope.businesses] :=
      divided_of_sum db (by simp)
    rw [← hsold.2, hbusinesses, List.map_singleton, List.sum_singleton]
    unfold soldIn
    rw [List.map_singleton, List.sum_singleton]
    rfl
  . rw [grossProfitC_overviewOf, hbusinesses]
    unfold linesIn
    rw [List.flatMap_singleton]
    rfl

end Overview

/-- A row of the dashboard with the figures of the day `n` of its business and of the days before. -/
structure DashboardBusiness.OfDays (db : Database) (ownerId : Uuid) (row : DashboardBusiness) (n : ℤ)
    : Prop where
  today : row.today.OfDay db ownerId row.businessId (dayText n)
  lastWeek : row.sameDayLastWeek.OfDay db ownerId row.businessId (dayText (n - 7))
  dates : row.sparkline.map (·.date) = (List.range 7).map fun (i : ℕ) => dayText (n - 6 + i)
  entries : ∀ entry ∈ row.sparkline, ∃ figures : DayFigures, figures.salesC = entry.salesC
    ∧ figures.OfDay db ownerId row.businessId entry.date
  last : row.sparkline.getLast? = some ⟨dayText n, row.today.salesC⟩
  branches : (row.branches.map (·.branchId)).Perm
    (((db.ownBranches ownerId).filter (·.businessId = row.businessId)).map (·.id))
  salesC : (row.branches.map (·.salesC)).sum = row.today.salesC
  transactions : (row.branches.map (·.transactions)).sum = row.today.transactions

section Report

variable {db : Database} (hdb : db.Valid) {ownerId : Uuid} {now : ℤ} (hnow : OnClock now)
  {x : Business × List Uuid} (hx : x ∈ todayBusinesses db ownerId)

include hdb hx

theorem liveBranches_perm {b : ScopedBusiness} (hids : b.branchIds = x.2)
    : ((liveBranches db b).map (·.id)).Perm
        (((db.ownBranches ownerId).filter (·.businessId = x.1.id)).map (·.id)) := by
  have hbranches := (branchIds_of_today hx).2.2
  have hlive : ((liveBranches db b).map (·.id)).Nodup :=
    hdb.branches.sublist (List.filter_sublist.map _)
  rw [← hbranches, List.perm_ext_iff_of_nodup hlive]
  . intro id
    unfold liveBranches
    rw [List.mem_map, hids]
    constructor
    . rintro ⟨branch, hbranch, heq⟩
      have hmem := (List.mem_filter.mp hbranch).2
      rw [Bool.and_eq_true, List.contains_iff_mem] at hmem
      rw [← heq]
      exact hmem.1
    . intro hid
      obtain ⟨branch, hbranch, heq, hdeleted⟩ := live_of_today hx hid
      refine ⟨branch, List.mem_filter.mpr ⟨hbranch, ?_⟩, heq⟩
      rw [heq, hdeleted]
      simpa using hid
  . rw [hbranches]
    exact hdb.branches.sublist ((List.filter_sublist.trans List.filter_sublist).map _)

include hnow

theorem dashboardBusiness_ofDays
    : ∃ row, dashboardBusiness db now (todayWindows now x.1 x.2) = .ok row ∧ row.businessId = x.1.id
        ∧ row.OfDays db ownerId (todayOf now x.1) := by
  have hfigures := fun fromUtc toUtc => figuresOf_rows db (todayWindows now x.1 x.2) fromUtc toUtc hdb
    fun id hid => live_of_today hx hid
  have hsparkline := sparkline_eq db hnow x.1 x.2
  have hday : ∀ k, todayOf now x.1 - 100 ≤ k → k ≤ todayOf now x.1 + 100 →
      dayOf (dayText k) = some k := fun k hge hle => (dayOf_near hnow hge hle).2
  unfold dashboardBusiness
  rw [hsparkline]
  refine ⟨_, rfl, rfl, ?_⟩
  have htoday := hfigures (dayStart x.1 (todayOf now x.1)) (dayStart x.1 (todayOf now x.1 + 1))
  have hlastWeek := hfigures (dayStart x.1 (todayOf now x.1 - 7))
    (dayStart x.1 (todayOf now x.1 - 7 + 1))
  have hperm := dashboardBranchSql_perm db (todayWindows now x.1 x.2)
    (dayStart x.1 (todayOf now x.1)) (dayStart x.1 (todayOf now x.1 + 1)) hdb
  constructor
  . exact htoday ▸ ofDay_dayFigures hdb hx (hday _ (by omega) (by omega))
  . exact hlastWeek ▸ ofDay_dayFigures hdb hx (hday _ (by omega) (by omega))
  . dsimp only
    rw [List.map_map]
    rfl
  . intro entry hentry
    obtain ⟨i, hi, heq⟩ := List.mem_map.mp hentry
    rw [List.mem_range] at hi
    rw [← heq]
    exact ⟨_, rfl, ofDay_dayFigures hdb hx (hday _ (by omega) (by omega))⟩
  . have hsales : (figuresOf (dashboardBranchSql db (todayWindows now x.1 x.2)
        (dayStart x.1 (todayOf now x.1)) (dayStart x.1 (todayOf now x.1 + 1)))).salesC
          = (tally (salesOfDay db x.1 x.2 (todayOf now x.1))).salesC := by
      rw [htoday]
      rfl
    have hlast : todayOf now x.1 - 6 + ((6 : ℕ) : ℤ) = todayOf now x.1 := by
      omega
    have hrange : List.range 7 = List.range 6 ++ [6] := rfl
    dsimp only
    rw [hrange, List.map_append, List.map_singleton, List.getLast?_concat, hlast, ← hsales]
    rfl
  . dsimp only
    rw [List.map_map]
    refine (hperm.map _).trans ?_
    rw [List.map_map]
    exact liveBranches_perm hdb hx rfl
  . unfold figuresOf
    simp [Function.comp_def]
  . unfold figuresOf
    simp [Function.comp_def]

end Report

section Shifts

variable {db : Database} (hdb : db.Valid) {ownerId : Uuid} {now : ℤ}

/-- The branches of the businesses, each with the business that it is of. -/
def branchPairs (db : Database) (ownerId : Uuid) : Entries Uuid Uuid :=
  (todayBusinesses db ownerId).flatMap fun x => x.2.map fun id => (id, x.1.id)

theorem mem_branchPairs {p : Uuid × Uuid}
    : p ∈ branchPairs db ownerId ↔ ∃ x ∈ todayBusinesses db ownerId, p.1 ∈ x.2 ∧ x.1.id = p.2 := by
  unfold branchPairs
  rw [List.mem_flatMap]
  constructor
  . rintro ⟨x, hx, hp⟩
    obtain ⟨id, hid, heq⟩ := List.mem_map.mp hp
    rw [← heq]
    exact ⟨x, hx, hid, rfl⟩
  . rintro ⟨x, hx, hid, heq⟩
    exact ⟨x, hx, List.mem_map.mpr ⟨p.1, hid, by rw [heq]⟩⟩

include hdb

theorem nodup_todayBusinesses : ((todayBusinesses db ownerId).map (·.1.id)).Nodup := by
  apply List.Nodup.sublist (sublist_withBranches _ _)
  exact hdb.businesses.sublist ((List.filter_sublist.trans List.filter_sublist).map _)

theorem today_of_branch {x x' : Business × List Uuid} (hx : x ∈ todayBusinesses db ownerId)
    (hx' : x' ∈ todayBusinesses db ownerId) {id : Uuid} (hid : id ∈ x.2) (hid' : id ∈ x'.2) : x = x' := by
  have hbranch : ∀ x ∈ todayBusinesses db ownerId, id ∈ x.2 →
      ∃ branch ∈ db.branches, branch.id = id ∧ branch.businessId = x.1.id := by
    intro x hx hid
    rw [(branchIds_of_today hx).2.2] at hid
    obtain ⟨branch, hmem, heq⟩ := List.mem_map.mp hid
    have hown := List.mem_filter.mp hmem
    exact ⟨branch, List.mem_of_mem_filter hown.1, heq, by simpa using hown.2⟩
  obtain ⟨branch, hmem, heq, hbusiness⟩ := hbranch x hx hid
  obtain ⟨branch', hmem', heq', hbusiness'⟩ := hbranch x' hx' hid'
  have hget := Table.get_of_mem hdb.branches hmem
  rw [heq, ← heq', Table.get_of_mem hdb.branches hmem', Option.some.injEq] at hget
  apply List.inj_on_of_nodup_map (nodup_todayBusinesses hdb) hx hx'
  rw [← hbusiness, ← hbusiness', hget]

theorem nodup_branchPairs : ((branchPairs db ownerId).map Prod.fst).Nodup := by
  have hids : ∀ x : Business × List Uuid, (x.2.map fun id => (id, x.1.id)).map Prod.fst = x.2 := by
    intro x
    rw [List.map_map]
    exact List.map_id _
  unfold branchPairs
  rw [List.map_flatMap, List.nodup_flatMap]
  simp only [hids]
  constructor
  . intro x hx
    rw [(branchIds_of_today hx).2.2]
    exact hdb.branches.sublist ((List.filter_sublist.trans List.filter_sublist).map _)
  . have hbusinesses : ((todayBusinesses db ownerId).map (·.1.id)).Nodup :=
      nodup_todayBusinesses hdb
    unfold List.Nodup at hbusinesses
    rw [List.pairwise_map] at hbusinesses
    apply hbusinesses.imp_of_mem
    intro x x' hx hx' hne id hid hid'
    exact hne (by rw [today_of_branch hdb hx hx' hid hid'])

theorem branchIndex_eq
    : branchIndex ((todayBusinesses db ownerId).map fun x => todayWindows now x.1 x.2)
        =
      branchPairs db ownerId := by
  have hset : (branchPairs db ownerId).foldl (fun (m : Entries Uuid Uuid) p => m.set p.1 p.2) []
      = [] ++ (branchPairs db ownerId).map fun p => (p.1, p.2) :=
    Entries.foldl_set_new (nodup_branchPairs hdb) fun _ _ => List.not_mem_nil
  rw [List.nil_append, List.map_id'' fun _ => rfl] at hset
  rw [← hset]
  unfold branchIndex branchPairs
  rw [List.foldl_map, List.foldl_flatMap]
  simp only [List.foldl_map]
  rfl

theorem get?_branchPairs {id : Uuid} {x : Business × List Uuid} (hx : x ∈ todayBusinesses db ownerId)
    : (branchPairs db ownerId).get? id = some x.1.id ↔ id ∈ x.2 := by
  constructor
  . intro h
    obtain ⟨x', hx', hid, heq⟩ := mem_branchPairs.mp (Entries.mem_of_get? h)
    rw [← List.inj_on_of_nodup_map (nodup_todayBusinesses hdb) hx' hx heq]
    exact hid
  . intro hid
    have hmem : (id, x.1.id) ∈ branchPairs db ownerId := mem_branchPairs.mpr ⟨x, hx, hid, rfl⟩
    exact Entries.get?_of_mem (nodup_branchPairs hdb) hmem

/-- The shifts of some branches that are open for more than a day. -/
def openTooLong (db : DashboardDatabase) (now : ℤ) (branchIds : List Uuid) : List Shift :=
  db.shifts.filter fun sh => branchIds.contains sh.branchId && sh.deletedAt.isNone
    && sh.closedAt.isNone && sh.openedAt < now - 24 * 3600000

end Shifts

theorem length_filterMap_key {α κ : Type} [DecidableEq κ] (f : α → Option κ) (xs : List α) (k : κ)
    : ((xs.filterMap f).filter (· = k)).length = (xs.filter (f · = some k)).length := by
  induction xs with
  | nil => rfl
  | cons x xs ih =>
    rw [List.filterMap_cons, List.filter_cons]
    cases hx : f x with
    | none => simpa using ih
    | some k' =>
      dsimp only
      rw [List.filter_cons]
      by_cases hk : k' = k
      . simpa [hk] using ih
      . simpa [hk] using ih

theorem filter_ownOpenShifts {db : DashboardDatabase} (hdb : db.Valid) {ownerId : Uuid} {now : ℤ}
    {x : Business × List Uuid} (hx : x ∈ todayBusinesses db.toDatabase ownerId)
    : ((ownOpenShifts db ownerId ((todayBusinesses db.toDatabase ownerId).map fun x =>
          todayWindows now x.1 x.2)).filter (·.openedAt < now - UNCLOSED_SHIFT_HOURS * 3600000)).filter
          (fun sh => (branchPairs db.toDatabase ownerId).get? sh.branchId = some x.1.id)
        =
      openTooLong db now x.2 := by
  unfold ownOpenShifts openTooLong
  rw [branchIndex_eq hdb, List.filter_filter, List.filter_filter]
  apply List.filter_congr
  intro sh _
  by_cases hid : sh.branchId ∈ x.2
  . have hown : sh.branchId ∈ (db.ownBranches ownerId).map (·.id) := by
      have hmem := hid
      rw [(branchIds_of_today hx).2.2] at hmem
      exact ((List.filter_sublist.map _).subset hmem)
    have hkey : sh.branchId ∈ (branchPairs db.toDatabase ownerId).map Prod.fst :=
      List.mem_map_of_mem (mem_branchPairs.mpr ⟨x, hx, hid, rfl⟩ : (sh.branchId, x.1.id) ∈ _)
    have hget := (get?_branchPairs hdb hx).mpr hid
    rw [hget, List.contains_iff_mem.mpr hown, List.contains_iff_mem.mpr hkey,
      List.contains_iff_mem.mpr hid, UNCLOSED_SHIFT_HOURS]
    simp only [Bool.true_and, Bool.and_true, decide_true]
    exact Bool.and_comm _ _
  . have hget := mt (get?_branchPairs hdb hx).mp hid
    simp [hget, hid]

theorem unclosedShifts_eq {db : DashboardDatabase} (hdb : db.Valid) (ownerId : Uuid) (now : ℤ)
    : unclosedShifts db ownerId
          ((todayBusinesses db.toDatabase ownerId).map fun x => todayWindows now x.1 x.2) now
        =
      (todayBusinesses db.toDatabase ownerId).map fun x =>
        (x.1.id, (openTooLong db now x.2).length) := by
  have hnodup : ((todayBusinesses db.toDatabase ownerId).map (·.1.id)).Nodup :=
    nodup_todayBusinesses hdb
  have hcounts : ((todayBusinesses db.toDatabase ownerId).map fun x => todayWindows now x.1 x.2).foldl
        (fun (m : Entries Uuid ℕ) business => m.set business.id 0) []
      = (todayBusinesses db.toDatabase ownerId).map fun x => (x.1.id, 0) := by
    have hset : (todayBusinesses db.toDatabase ownerId).foldl
          (fun (m : Entries Uuid ℕ) x => m.set x.1.id 0) []
        = [] ++ (todayBusinesses db.toDatabase ownerId).map fun x => (x.1.id, 0) :=
      Entries.foldl_set_new hnodup fun _ _ => List.not_mem_nil
    rw [List.foldl_map]
    exact hset
  have hmerge : ∀ (rows : List Shift) (counts : Entries Uuid ℕ),
      rows.foldl (fun (counts : Entries Uuid ℕ) row =>
          ((branchPairs db.toDatabase ownerId).get? row.branchId).elim counts fun businessId =>
            counts.set businessId ((counts.get? businessId).getD 0 + 1)) counts
        = counts.merge id (fun acc _ => acc.getD 0 + 1)
          (rows.filterMap fun row => (branchPairs db.toDatabase ownerId).get? row.branchId) := by
    intro rows counts
    unfold Entries.merge
    rw [List.foldl_filterMap]
    congr 1
    funext counts row
    cases (branchPairs db.toDatabase ownerId).get? row.branchId <;> rfl
  have hadds : Entries.Adds id (fun (acc : Option ℕ) (_ : Uuid) => acc.getD 0 + 1) fun _ => 1 := by
    intro acc _
    cases acc <;> rfl
  unfold unclosedShifts
  dsimp only
  rw [hcounts, branchIndex_eq hdb, hmerge]
  generalize hrows : (ownOpenShifts db ownerId ((todayBusinesses db.toDatabase ownerId).map fun x =>
    todayWindows now x.1 x.2)).filter (·.openedAt < now - UNCLOSED_SHIFT_HOURS * 3600000) = rows
  let counts : Entries Uuid ℕ := (todayBusinesses db.toDatabase ownerId).map fun x => (x.1.id, 0)
  let keys := rows.filterMap fun row => (branchPairs db.toDatabase ownerId).get? row.branchId
  have hcountKeys : counts.map Prod.fst = (todayBusinesses db.toDatabase ownerId).map (·.1.id) := by
    rw [List.map_map]
    rfl
  have hsubset : ∀ k ∈ keys, id k ∈ counts.map Prod.fst := by
    intro k hk
    obtain ⟨row, _, hget⟩ := List.mem_filterMap.mp hk
    obtain ⟨x, hx, _, heq⟩ := mem_branchPairs.mp (Entries.mem_of_get? hget)
    rw [hcountKeys]
    exact List.mem_map.mpr ⟨x, hx, heq⟩
  have hkeys : (counts.merge id (fun acc _ => acc.getD 0 + 1) keys).map Prod.fst
      = (todayBusinesses db.toDatabase ownerId).map (·.1.id) := by
    rw [Entries.keys_merge_of_subset hsubset, hcountKeys]
  have hentries := Entries.eq_map_at? (m := counts.merge id (fun acc _ => acc.getD 0 + 1) keys)
    (by rw [hkeys]; exact hnodup)
  rw [hkeys, List.map_map] at hentries
  refine hentries.trans ?_
  apply List.map_congr_left
  intro x hx
  have hzero : counts.at? id x.1.id = 0 :=
    Entries.at?_of_mem (by rw [hcountKeys]; exact hnodup)
      (List.mem_map_of_mem (f := fun x : Business × List Uuid => (x.1.id, 0)) hx)
  rw [Function.comp_apply, Entries.at?_merge hadds, hzero, zero_add, List.map_const',
    List.sum_replicate_nat, mul_one, ← filter_ownOpenShifts hdb hx, hrows]
  exact congrArg _ (length_filterMap_key _ _ _)

theorem dashboard_ofDays {db : DashboardDatabase} (hdb : db.Valid) {now : ℤ} (hnow : OnClock now)
    (ownerId : Uuid)
    : ∃ report, dashboard db ownerId now = .ok report
        ∧ List.Forall₂ (fun (x : Business × List Uuid) row => row.businessId = x.1.id
            ∧ row.OfDays db.toDatabase ownerId (todayOf now x.1))
          (todayBusinesses db.toDatabase ownerId) report.businesses
        ∧ report.unclosedShifts = unclosedShifts db ownerId
          ((todayBusinesses db.toDatabase ownerId).map fun x => todayWindows now x.1 x.2) now := by
  obtain ⟨scope, hscope, hbusinesses⟩ := resolveToday_eq hnow db.toDatabase ownerId
  obtain ⟨rows, hrows, hofDays⟩ := Checks.exists_mapM fun x hx => dashboardBusiness_ofDays hdb hnow hx
  rw [← hbusinesses] at hrows ⊢
  unfold dashboard
  rw [hscope]
  simp only [bind, Except.bind, hrows]
  exact ⟨_, rfl, hofDays, rfl⟩

namespace Cafe

def leftOpen : Shift where
  id := 90
  branchId := 20
  terminalId := 30
  openedAt := 1772424000000
  closedAt := none
  openingCash := 0
  closingCash := none
  expectedCash := none
  deletedAt := none

def dashed : DashboardDatabase where
  toDatabase := costing
  discountKind := fun _ => .percent
  shifts := [leftOpen]
  terminals := []
  notifications := []
  branchStock := []
  lowStockThreshold := fun _ => none

/-- What the dashboard reads of the database of the terminals. -/
def sharing (pos : SentryPos.Database) : DashboardDatabase where
  toLeaksDatabase := explaining pos
  terminals := []
  notifications := []
  branchStock := []
  lowStockThreshold := fun _ => none

theorem calendarDate_epoch : CalendarDate epochDay.toDate :=
  ⟨⟨1970, 1, 1, by decide, by decide, by decide, by decide⟩, rfl⟩

theorem onClock_epoch : OnClock 0 := by
  unfold OnClock
  decide +kernel

theorem onClock_march : OnClock 1772600000000 := by
  unfold OnClock
  decide +kernel

end Cafe

end SentryPos.Analytics
