import SentryPos.Analytics.Archive
import SentryPos.Analytics.RangeAdmission
import SentryPos.GroupSums

/-!
This module contains that the sales reports reconcile: whatever a report groups the sales of a scope
by, its rows add up to the net sales and the transactions of the overview.
-/

namespace SentryPos.Analytics

open Calendar JsDate Grouping

namespace Tally

instance : Add Tally where
  add := Tally.add

instance : Zero Tally where
  zero := Tally.zero

@[simp]
theorem add_salesC (a b : Tally) : (a + b).salesC = a.salesC + b.salesC := rfl

@[simp]
theorem add_transactions (a b : Tally) : (a + b).transactions = a.transactions + b.transactions := rfl

@[simp]
theorem zero_salesC : (0 : Tally).salesC = 0 := rfl

@[simp]
theorem zero_transactions : (0 : Tally).transactions = 0 := rfl

theorem ext {a b : Tally} (hsales : a.salesC = b.salesC)
    (htransactions : a.transactions = b.transactions) : a = b := by
  cases a
  cases b
  simp_all

instance : AddCommMonoid Tally where
  add_assoc a b c := by
    apply ext <;> simp [add_assoc]
  zero_add a := by
    apply ext <;> simp
  add_zero a := by
    apply ext <;> simp
  add_comm a b := by
    apply ext <;> simp [add_comm]
  nsmul := nsmulRec

theorem sum_salesC (rows : List Tally) : rows.sum.salesC = (rows.map (·.salesC)).sum := by
  induction rows with
  | nil => rfl
  | cons row rows ih => simp [ih]

theorem sum_transactions (rows : List Tally)
    : rows.sum.transactions = (rows.map (·.transactions)).sum := by
  induction rows with
  | nil => rfl
  | cons row rows ih => simp [ih]

end Tally

/-- A report has the net sales and the transactions of an overview, divided over its rows. -/
def OverviewReport.DividedOver (o : OverviewReport) (rows : List Tally) : Prop :=
  (rows.map (·.salesC)).sum = o.netSalesC.value
    ∧ (((rows.map (·.transactions)).sum : ℕ) : ℤ) = o.transactions.value

def saleTally (s : Sale) : Tally where
  salesC := netSales s
  transactions := 1

theorem tally_eq_sum (sales : List Sale) : tally sales = (sales.map saleTally).sum := by
  induction sales with
  | nil => rfl
  | cons s sales ih =>
    rw [List.map_cons, List.sum_cons, ← ih]
    apply Tally.ext
    . simp [tally, saleTally]
    . simp [tally, saleTally]
      omega

def soldIn (db : Database) (businesses : List ScopedBusiness) : Tally :=
  (businesses.map fun b => tally (b.sales db)).sum

section Overview

variable (db : Database)

theorem sub_completed (b : ScopedBusiness)
    : (tally (b.sales db)).salesC
          = (salesAggregateSql db b b.fromUtc b.toUtc).grossSalesC
            - (salesAggregateSql db b b.fromUtc b.toUtc).discountsC
        ∧ (tally (b.sales db)).transactions
          = (salesAggregateSql db b b.fromUtc b.toUtc).transactions := by
  unfold ScopedBusiness.sales completedSales salesAggregateSql tally
  dsimp only
  refine ⟨?_, rfl⟩
  generalize (salesInWindow db b.branchIds b.fromUtc b.toUtc).filter (isStatus .completed) = sales
  induction sales with
  | nil => rfl
  | cons s sales ih =>
    simp only [List.map_cons, List.sum_cons]
    unfold netSales at ih ⊢
    omega

theorem totalsOf_sold (businesses : List ScopedBusiness) (into : Totals)
    : let totals := businesses.foldl (fun into b =>
          addRows into (salesAggregateSql db b b.fromUtc b.toUtc)
            (lineAggregateSql db b b.fromUtc b.toUtc)) into
      netSalesC totals = netSalesC into + (soldIn db businesses).salesC
        ∧ totals.transactions = into.transactions + (soldIn db businesses).transactions := by
  -- The totals of the businesses before are already added up in `into`.
  induction businesses generalizing into with
  | nil => simp [soldIn]
  | cons b businesses ih =>
    have hrest := ih (addRows into (salesAggregateSql db b b.fromUtc b.toUtc)
      (lineAggregateSql db b b.fromUtc b.toUtc))
    have hb := sub_completed db b
    dsimp only at hrest ⊢
    rw [List.foldl_cons, hrest.1, hrest.2]
    unfold netSalesC addRows soldIn
    simp only [List.map_cons, List.sum_cons, Tally.add_salesC, Tally.add_transactions, hb.1, hb.2]
    constructor
    . omega
    . omega

theorem divided_of_sum {scope : ResolvedScope} {rows : List Tally}
    (h : rows.sum = soldIn db scope.businesses) : (overviewOf db scope).DividedOver rows := by
  have htotals := totalsOf_sold db scope.businesses emptyTotals
  dsimp only at htotals
  constructor
  . rw [← Tally.sum_salesC, h]
    show _ = netSalesC (totalsOf db ScopedBusiness.window scope.businesses)
    unfold totalsOf ScopedBusiness.window
    rw [htotals.1]
    simp [netSalesC, emptyTotals]
  . rw [← Tally.sum_transactions, h]
    show _ = ((totalsOf db ScopedBusiness.window scope.businesses).transactions : ℤ)
    unfold totalsOf ScopedBusiness.window
    rw [htotals.2]
    simp [emptyTotals]

end Overview

section Merged

variable {κ : Type} [DecidableEq κ] (db : Database)

theorem sum_tallyBy (key : Sale → κ) (b : ScopedBusiness)
    : ((tallyBy key db b).map (·.2)).sum = tally (b.sales db) := by
  unfold tallyBy
  rw [List.map_map, tally_eq_sum, ← sum_groupBy key saleTally]
  congr 1
  apply List.map_congr_left
  intro g _
  exact tally_eq_sum g.2

theorem mem_tallyBy {key : Sale → κ} {b : ScopedBusiness} {row : κ × Tally}
    (h : row ∈ tallyBy key db b) : ∃ s ∈ b.sales db, key s = row.1 := by
  unfold tallyBy at h
  obtain ⟨g, hg, heq⟩ := List.mem_map.mp h
  have hkey := (mem_groupBy.mp hg).1
  rw [← heq]
  exact List.mem_map.mp hkey

omit [DecidableEq κ] in
theorem adds_tallies
    : Entries.Adds (α := κ × Tally) id (fun acc row => (acc.getD .zero).add row.2) Prod.snd := by
  intro acc row
  cases acc <;> rfl

omit db in
theorem merged_tallies (rows : ScopedBusiness → List (κ × Tally)) {total : ScopedBusiness → Tally}
    (hrows : ∀ b, ((rows b).map (·.2)).sum = total b) (businesses : List ScopedBusiness)
    : let m := businesses.foldl (fun m b => addTallies m (rows b)) []
      (m.map Prod.fst).Nodup
        ∧ (∀ k, k ∈ m.map Prod.fst → ∃ b ∈ businesses, k ∈ (rows b).map Prod.fst)
        ∧ Entries.sum id m = (businesses.map total).sum := by
  obtain ⟨hnodup, hmem, _, hsum⟩ :=
    Entries.mergeAll_spec Prod.fst (m := []) (adds_tallies (κ := κ)) List.nodup_nil rows businesses
  refine ⟨hnodup, ?_, ?_⟩
  . intro k hk
    simpa using (hmem k).mp hk
  . refine hsum.trans ?_
    simp [Entries.sum, hrows]

theorem map_snd_keyed {β : Type} (rows : List (ℤ × β)) : (keyed rows).map (·.2) = rows.map (·.2) := by
  unfold keyed
  rw [List.map_map]
  rfl

theorem sum_modify (t : Tally) {slots : List Tally} {i : ℕ} (hi : i < slots.length)
    : (slots.modify i (·.add t)).sum = slots.sum + t := by
  induction slots generalizing i with
  | nil => simp at hi
  | cons slot slots ih =>
    cases i with
    | zero =>
      rw [List.modify_zero_cons, List.sum_cons, List.sum_cons]
      show slot + t + slots.sum = _
      rw [add_right_comm]
    | succ i =>
      rw [List.modify_succ_cons, List.sum_cons, List.sum_cons, ih (by simpa using hi), add_assoc]

theorem sum_addAt (slots : List Tally) {rows : List (ℕ × Tally)}
    (h : ∀ row ∈ rows, row.1 < slots.length)
    : (addAt slots rows).length = slots.length
        ∧ (addAt slots rows).sum = slots.sum + (rows.map (·.2)).sum := by
  unfold addAt
  induction rows generalizing slots with
  | nil => simp
  | cons row rows ih =>
    have hrow := h row List.mem_cons_self
    have hmodify := sum_modify row.2 hrow
    obtain ⟨hlength, hsum⟩ := ih (slots.modify row.1 (·.add row.2)) (by
      intro row' hrow'
      rw [List.length_modify]
      exact h row' (List.mem_cons_of_mem _ hrow'))
    rw [List.foldl_cons, hlength, hsum, hmodify, List.length_modify, List.map_cons, List.sum_cons,
      add_assoc]
    exact ⟨rfl, rfl⟩

theorem sum_slots (key : ScopedBusiness → Sale → ℕ) (slots : List Tally)
    (businesses : List ScopedBusiness) (hkey : ∀ b s, key b s < slots.length)
    : (businesses.foldl (fun slots b => addAt slots (tallyBy (key b) db b)) slots).sum
        = slots.sum + soldIn db businesses := by
  -- Every row of a business is added to one slot.
  induction businesses generalizing slots with
  | nil => simp [soldIn]
  | cons b businesses ih =>
    have hrows : ∀ row ∈ tallyBy (key b) db b, row.1 < slots.length := by
      intro row hrow
      obtain ⟨s, _, heq⟩ := mem_tallyBy db hrow
      rw [← heq]
      exact hkey b s
    have hadd := sum_addAt slots hrows
    rw [List.foldl_cons, ih _ (by rw [hadd.1]; exact hkey), hadd.2, sum_tallyBy, add_assoc]
    rfl

end Merged

section Days

variable {db : Database} {ownerId : Uuid} {query : AnalyticsQueryDto} {m n : ℤ}

theorem dayBucketExpr_bounds {b : ScopedBusiness} (hb : b ∈ (scopeOf db ownerId query m n).businesses)
    {s : Sale} (hs : s ∈ b.sales db) : m ≤ dayBucketExpr b s ∧ dayBucketExpr b s ≤ n := by
  obtain ⟨x, _, heq⟩ := List.mem_map.mp hb
  subst heq
  have hwindow := List.mem_filter.mp (List.mem_of_mem_filter hs)
  unfold inWindow at hwindow
  simp only [Bool.and_eq_true, decide_eq_true_eq] at hwindow
  exact (mem_windowsOf m n x.1 x.2 s.createdAt).mp ⟨hwindow.2.1.2, hwindow.2.2⟩

theorem days_scopeOf (hm : dayOf query.fromDate = some m) (hn : dayOf query.toDate = some n)
    (hle : m ≤ n)
    : (scopeOf db ownerId query m n).days
        =
      (List.range (n + 1 - m).toNat).map fun (i : ℕ) => dayText (m + i) := by
  have hseries := businessDaySeries_of_dayOf hm hn
  rw [if_neg (by omega)] at hseries
  unfold ResolvedScope.days scopeOf
  dsimp only
  rw [hseries]

theorem year_of_near {d : CivilDate} (hge : 100 ≤ d.year) (hle : d.year ≤ 9999) {k : ℤ}
    (hfirst : d.toDay - 366 ≤ k) (hlast : k ≤ d.toDay)
    : 0 ≤ (CivilDate.ofDay k).year ∧ (CivilDate.ofDay k).year ≤ 9999 := by
  have hk := (CivilDate.ofDay k).toDay_bounds
  have hd := d.toDay_bounds
  have hyear := CivilDate.year_le_of_toDay (a := .ofDay k) (b := d) (by simpa using hlast)
  rw [CivilDate.toDay_ofDay] at hk
  refine ⟨?_, by omega⟩
  by_contra hneg
  have hmono := dayFromYear_mono (show (CivilDate.ofDay k).year + 1 ≤ 0 by omega)
  have hmono' := dayFromYear_mono hge
  unfold dayFromYear at hmono hmono' hd hk
  omega

theorem dayText_inj {d : CivilDate} (hge : 100 ≤ d.year) (hle : d.year ≤ 9999) {k k' : ℤ}
    (hfirst : d.toDay - 366 ≤ k) (hlast : k ≤ d.toDay) (h : dayText k' = dayText k) : k' = k := by
  have hyear := year_of_near hge hle hfirst hlast
  have hself : dayText k = isoDate (.ofDay k) := by
    rw [dayText_iff hyear.1 hyear.2, CivilDate.toDay_ofDay]
  rw [hself, dayText_iff hyear.1 hyear.2, CivilDate.toDay_ofDay] at h
  exact h

theorem nodup_days (hm : dayOf query.fromDate = some m) (hn : dayOf query.toDate = some n)
    (hle : m ≤ n) (hshort : n < m + 366) (hto : CalendarDate query.toDate)
    : (scopeOf db ownerId query m n).days.Nodup := by
  obtain ⟨hge, hle'⟩ := hto.year_dayOf hn
  have hlast := CivilDate.toDay_ofDay n
  rw [days_scopeOf hm hn hle]
  apply List.Nodup.map_on
  . intro i hi j hj heq
    rw [List.mem_range] at hi hj
    have := dayText_inj hge hle' (by omega) (by omega) heq
    omega
  . exact List.nodup_range

end Days

section Reports

variable {db : Database} {ownerId : Uuid} {query : AnalyticsQueryDto} {scope : ResolvedScope}
  (hscope : resolve db ownerId query = .ok scope)

include hscope

theorem heatmap_divided (hto : CalendarDate query.toDate)
    : (overviewOf db scope).DividedOver ((heatmapOf db scope).map (·.toTally)) := by
  obtain ⟨m, n, hm, hn, hle, hshort, rfl⟩ := resolve_ok hscope
  have hrows : ∀ b, ((keyed (heatmapSql db b)).map (·.2)).sum = tally (b.sales db) := by
    intro b
    rw [map_snd_keyed]
    exact sum_tallyBy db (dayBucketExpr b) b
  obtain ⟨hnodup, hmem, hsum⟩ :=
    merged_tallies _ hrows (scopeOf db ownerId query m n).businesses
  apply divided_of_sum
  unfold soldIn
  rw [← hsum, ← Entries.sum_at? hnodup (nodup_days hm hn hle hshort hto)]
  . unfold heatmapOf
    rw [List.map_map]
    congr 1
    apply List.map_congr_left
    intro date _
    unfold Entries.at?
    rw [Option.map_id]
    rfl
  . intro k hk
    obtain ⟨b, hb, hk⟩ := hmem k hk
    unfold keyed at hk
    rw [List.map_map, List.mem_map] at hk
    obtain ⟨row, hrow, heq⟩ := hk
    obtain ⟨s, hs, hbucket⟩ := mem_tallyBy db hrow
    have hbounds := dayBucketExpr_bounds hb hs
    rw [hbucket] at hbounds
    rw [days_scopeOf hm hn hle, List.mem_map]
    refine ⟨(row.1 - m).toNat, by rw [List.mem_range]; omega, ?_⟩
    rw [Int.toNat_of_nonneg (by omega), add_sub_cancel, ← bucketKey_eq]
    exact heq

omit hscope in
theorem trend_divided (scope : ResolvedScope) (granularity : Granularity)
    : (overviewOf db scope).DividedOver ((trendOf db scope granularity).map (·.toTally)) := by
  have hrows : ∀ b, ((keyed (trendSalesSql granularity db b)).map (·.2)).sum = tally (b.sales db) := by
    intro b
    rw [map_snd_keyed]
    exact sum_tallyBy db (bucketExpr b granularity) b
  obtain ⟨_, _, hsum⟩ := merged_tallies _ hrows scope.businesses
  apply divided_of_sum
  unfold soldIn
  rw [← hsum]
  unfold trendOf Entries.sum
  dsimp only
  rw [List.map_map]
  apply List.Perm.sum_eq
  apply List.Perm.map
  exact List.mergeSort_perm _ _

omit hscope in
theorem patterns_divided (scope : ResolvedScope)
    : (overviewOf db scope).DividedOver (patternsOf db scope).hourOfDay
        ∧ (overviewOf db scope).DividedOver (patternsOf db scope).dayOfWeek := by
  have hzero : ∀ k, (List.replicate k Tally.zero).sum = 0 := by
    intro k
    induction k with
    | zero => rfl
    | succ k ih =>
      rw [List.replicate_succ, List.sum_cons, ih]
      rfl
  constructor
  . apply divided_of_sum
    refine (sum_slots db (fun _ => hourOf) _ scope.businesses ?_).trans ?_
    . intro _ s
      unfold hourOf DAY_MS
      rw [List.length_replicate]
      omega
    . rw [hzero, zero_add]
  . apply divided_of_sum
    refine (sum_slots db dayOfWeek _ scope.businesses ?_).trans ?_
    . intro b s
      unfold dayOfWeek
      rw [List.length_replicate]
      omega
    . rw [hzero, zero_add]

omit hscope in
theorem byOrderType_divided (scope : ResolvedScope)
    : (overviewOf db scope).DividedOver ((breakdownsOf db scope).byOrderType.map (·.2)) := by
  obtain ⟨_, _, hsum⟩ := merged_tallies (orderTypeBreakdownSql db)
    (fun b => sum_tallyBy db _ b) scope.businesses
  apply divided_of_sum
  unfold soldIn
  rw [← hsum]
  rfl

theorem branchNames_of_sale (hdb : db.Valid) {b : ScopedBusiness} (hb : b ∈ scope.businesses)
    {s : Sale} (hs : s ∈ b.sales db)
    : s.branchId ∈ b.branchIds ∧ ∃ name, branchNames db s.branchId = [name] := by
  have hwindow := List.mem_filter.mp (List.mem_of_mem_filter hs)
  unfold inWindow at hwindow
  simp only [Bool.and_eq_true, List.contains_iff_mem] at hwindow
  have hbranch := hwindow.2.1.1.1
  obtain ⟨branch, hmem, hid, _⟩ := branch_of_scope hscope hb hbranch
  refine ⟨hbranch, branch.name, ?_⟩
  unfold branchNames
  rw [Table.filter_key hdb.branches, ← hid, Table.get_of_mem hdb.branches hmem]
  rfl

def namedSales (db : Database) (b : ScopedBusiness) : List (Sale × String) :=
  (b.sales db).flatMap fun s => (branchNames db s.branchId).map fun name => (s, name)

omit hscope in
theorem branchBreakdownSql_perm (b : ScopedBusiness)
    : (branchBreakdownSql db b).Perm ((groupBy (fun x => (x.1.branchId, x.2)) (namedSales db b)).map
        fun g => { tally (g.2.map (·.1)) with branchId := g.1.1, name := g.1.2 : BranchSalesRow }) :=
  List.mergeSort_perm _ _

theorem sum_branchBreakdownSql (hdb : db.Valid) {b : ScopedBusiness} (hb : b ∈ scope.businesses)
    : ((branchBreakdownSql db b).map (·.toTally)).sum = tally (b.sales db) := by
  have hnamed : ∀ sales : List Sale, (∀ s ∈ sales, s ∈ b.sales db) →
      (sales.flatMap fun s => (branchNames db s.branchId).map fun name => (s, name)).map
        (fun x => saleTally x.1) = sales.map saleTally := by
    intro sales hsales
    induction sales with
    | nil => rfl
    | cons s sales ih =>
      obtain ⟨_, name, hname⟩ := branchNames_of_sale hscope hdb hb (hsales s List.mem_cons_self)
      rw [List.flatMap_cons, hname, List.map_append,
        ih fun s' hs' => hsales s' (List.mem_cons_of_mem _ hs')]
      rfl
  rw [((branchBreakdownSql_perm b).map _).sum_eq, List.map_map, tally_eq_sum,
    ← hnamed _ fun _ hs => hs]
  refine Eq.trans ?_ (sum_groupBy (fun x : Sale × String => (x.1.branchId, x.2))
    (fun x => saleTally x.1) _)
  congr 1
  apply List.map_congr_left
  intro g _
  show tally (g.2.map (·.1)) = _
  rw [tally_eq_sum, List.map_map]
  rfl

omit hscope in
theorem foldl_append_eq {α β : Type} (f : α → List β) (xs : List α) (ys : List β)
    : xs.foldl (fun rows x => rows ++ f x) ys = ys ++ xs.flatMap f := by
  induction xs generalizing ys with
  | nil => simp
  | cons x xs ih => rw [List.foldl_cons, ih, List.flatMap_cons, List.append_assoc]

omit hscope in
theorem byBranch_perm (db : Database) (scope : ResolvedScope)
    : (breakdownsOf db scope).byBranch.Perm (scope.businesses.flatMap (branchBreakdownSql db)) := by
  unfold breakdownsOf
  dsimp only
  rw [foldl_append_eq, List.nil_append]
  exact List.mergeSort_perm _ _

theorem byBranch_divided (hdb : db.Valid)
    : (overviewOf db scope).DividedOver ((breakdownsOf db scope).byBranch.map (·.toTally)) := by
  have hsum : ∀ businesses : List ScopedBusiness, (∀ b ∈ businesses, b ∈ scope.businesses) →
      ((businesses.flatMap (branchBreakdownSql db)).map (·.toTally)).sum = soldIn db businesses := by
    intro businesses h
    induction businesses with
    | nil => rfl
    | cons b businesses ih =>
      rw [List.flatMap_cons, List.map_append, List.sum_append,
        ih fun b' hb' => h b' (List.mem_cons_of_mem _ hb'),
        sum_branchBreakdownSql hscope hdb (h b List.mem_cons_self)]
      rfl
  apply divided_of_sum
  rw [((byBranch_perm db scope).map _).sum_eq]
  exact hsum _ fun _ hb => hb

theorem byBranch_nodup (hdb : db.Valid)
    : ((breakdownsOf db scope).byBranch.map (·.branchId)).Nodup := by
  rw [((byBranch_perm db scope).map _).nodup_iff, List.map_flatMap, List.nodup_flatMap]
  have hrows : ∀ b ∈ scope.businesses, ∀ row ∈ branchBreakdownSql db b, row.branchId ∈ b.branchIds
      ∧ branchNames db row.branchId = [row.name] := by
    intro b hb row hrow
    rw [(branchBreakdownSql_perm b).mem_iff, List.mem_map] at hrow
    obtain ⟨g, hg, heq⟩ := hrow
    obtain ⟨x, hx, hkey⟩ := List.mem_map.mp (mem_groupBy.mp hg).1
    unfold namedSales at hx
    obtain ⟨s, hs, hx⟩ := List.mem_flatMap.mp hx
    obtain ⟨hbranch, name, hname⟩ := branchNames_of_sale hscope hdb hb hs
    rw [hname, List.map_singleton, List.mem_singleton] at hx
    rw [← heq]
    show g.1.1 ∈ _ ∧ branchNames db g.1.1 = [g.1.2]
    rw [← hkey, hx]
    exact ⟨hbranch, hname⟩
  constructor
  . intro b hb
    have hkeys := nodup_groupBy (fun x : Sale × String => (x.1.branchId, x.2)) (namedSales db b)
    -- A branch id has one name, so the rows are told apart by it.
    have hinj : ∀ k ∈ (groupBy (fun x : Sale × String => (x.1.branchId, x.2)) (namedSales db b)).map
        Prod.fst, branchNames db k.1 = [k.2] := by
      intro k hk
      obtain ⟨g, hg, heq⟩ := List.mem_map.mp hk
      have hmem : { tally (g.2.map (·.1)) with branchId := g.1.1, name := g.1.2 : BranchSalesRow }
          ∈ branchBreakdownSql db b := by
        rw [(branchBreakdownSql_perm b).mem_iff]
        exact List.mem_map_of_mem hg
      rw [← heq]
      exact (hrows b hb _ hmem).2
    rw [((branchBreakdownSql_perm b).map _).nodup_iff, List.map_map]
    have hpairs := hkeys.map_on (f := Prod.fst) (by
      intro k hk k' hk' heq
      have hname := hinj k hk
      rw [heq, hinj k' hk', List.singleton_inj] at hname
      exact Prod.ext heq hname.symm)
    rw [List.map_map] at hpairs
    exact hpairs
  . have hids := nodup_scope hdb hscope
    unfold List.Nodup at hids
    rw [List.pairwise_map] at hids
    apply hids.imp_of_mem
    intro b b' hb hb' hne id hid hid'
    obtain ⟨row, hrow, heq⟩ := List.mem_map.mp hid
    obtain ⟨row', hrow', heq'⟩ := List.mem_map.mp hid'
    apply hne
    have hbranch : id ∈ b.branchIds := by
      rw [← heq]
      exact (hrows b hb row hrow).1
    have hbranch' : id ∈ b'.branchIds := by
      rw [← heq']
      exact (hrows b' hb' row' hrow').1
    exact scope_of_branch hdb hscope hb hb' hbranch hbranch'

end Reports

/--
The sales reports of an overview's scope divide the net sales and the transactions of the overview
over their rows. The heatmap tells its days apart by their texts, and so needs a last date that is
one of the calendar.
-/
theorem sales_reports_reconcile {db : Database} (hdb : db.Valid) {ownerId : Uuid}
    {query : AnalyticsQueryDto} {o : OverviewReport} (ho : overview db ownerId query = .ok o)
    : (∃ days, heatmap db ownerId query = .ok days
          ∧ (RealDate query.toDate → o.DividedOver (days.map (·.toTally))))
        ∧ (∀ granularity, ∃ buckets, trend db ownerId query granularity = .ok buckets
          ∧ o.DividedOver (buckets.map (·.toTally)))
        ∧ (∃ report, patterns db ownerId query = .ok report ∧ o.DividedOver report.hourOfDay
          ∧ o.DividedOver report.dayOfWeek)
        ∧ ∃ report, breakdowns db ownerId query = .ok report
          ∧ o.DividedOver (report.byOrderType.map (·.2))
          ∧ o.DividedOver (report.byBranch.map (·.toTally))
          ∧ (report.byBranch.map (·.branchId)).Nodup := by
  unfold overview at ho
  rw [Checks.bind_eq_ok] at ho
  obtain ⟨scope, hscope, ho⟩ := ho
  cases ho
  unfold heatmap trend patterns breakdowns
  rw [hscope]
  refine ⟨⟨_, rfl, fun hto => heatmap_divided hscope hto.calendarDate⟩, ?_, ⟨_, rfl, patterns_divided scope⟩, _, rfl,
    byOrderType_divided scope, byBranch_divided hscope hdb, byBranch_nodup hscope hdb⟩
  intro granularity
  exact ⟨_, rfl, trend_divided scope _⟩

theorem Cafe.selling_valid : selling.Valid where
  businesses := by decide
  branches := by decide
  products := List.nodup_nil
  variants := List.nodup_nil
  movements := List.nodup_nil
  movement_branch := by simp [selling, database]
  movement_product := by simp [selling, database]

theorem sales_reports_reconcile_cafe
    : ∃ o days, overview Cafe.selling 1 Cafe.inMarch = .ok o ∧ o.netSalesC.value = 200
        ∧ heatmap Cafe.selling 1 Cafe.inMarch = .ok days ∧ o.DividedOver (days.map (·.toTally)) := by
  have hnet : (overview Cafe.selling 1 Cafe.inMarch).map (·.netSalesC.value) = .ok 200 := by
    decide +kernel
  cases ho : overview Cafe.selling 1 Cafe.inMarch with
  | error e =>
    rw [ho] at hnet
    cases hnet
  | ok o =>
    rw [ho] at hnet
    obtain ⟨⟨days, hdays, hdivided⟩, -⟩ := sales_reports_reconcile Cafe.selling_valid ho
    refine ⟨o, days, rfl, Except.ok.inj hnet, hdays, hdivided ?_⟩
    exact ⟨⟨2026, 3, 6, by decide, by decide, by decide, by decide⟩, by decide, by decide, rfl⟩

end SentryPos.Analytics
