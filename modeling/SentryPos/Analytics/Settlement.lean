import SentryPos.Analytics.Reconcile
import SentryPos.Pos.Accounts

/-!
This module contains that the payments and the tax of the reports are the net sales and the service
charge of the overview, whatever the terminals have done.
-/

namespace SentryPos.Analytics

open Calendar JsDate Grouping ReadCommitted

/-- The reports read the sales, the lines and the payments that the terminals have stored. -/
structure Database.Shows (db : Database) (pos : SentryPos.Database) : Prop where
  sales : db.sales.Perm pos.sales
  lines : (db.saleLines.map (·.toSaleItem)).Perm pos.saleItems
  live : ∀ line ∈ db.saleLines, line.deletedAt = none
  payments : db.salePayments.Perm pos.salePayments

/-- Payments and tax of a report that are the net sales and the service charge of an overview. -/
structure OverviewReport.SettledBy (o : OverviewReport) (breakdowns : BreakdownsReport)
    (tax : TaxReport) : Prop where
  amounts : (breakdowns.byPaymentMethod.map (·.2.salesC)).sum
    = o.netSalesC.value + o.serviceChargeC.value
  transactions : (((breakdowns.byPaymentMethod.map (·.2.transactions)).sum : ℕ) : ℤ)
    = o.transactions.value
  taxed : tax.totals.vatableSalesC + tax.totals.vatC + tax.totals.vatExemptSalesC
    = o.netSalesC.value + o.serviceChargeC.value
  serviceCharge : tax.totals.serviceChargeC = o.serviceChargeC.value
  perBusiness : (tax.businesses.map fun b => b.vatableSalesC + b.vatC + b.vatExemptSalesC).sum
    = o.netSalesC.value + o.serviceChargeC.value

def paidTally (s : Sale) : Tally where
  salesC := s.total
  transactions := 1

def paidIn (db : Database) (businesses : List ScopedBusiness) : Tally :=
  (businesses.map fun b => ((b.sales db).map paidTally).sum).sum

section Shown

variable {db : Database} {pos : SentryPos.Database} (h : db.Shows pos) (hpos : pos.Valid)
  (haccounted : pos.Accounted)

include h haccounted

theorem total_of_shows {s : Sale} (hs : s ∈ db.sales) : s.total = netSales s + s.serviceCharge := by
  have htotal := haccounted.total s (h.sales.mem_iff.mp hs)
  unfold netSales
  omega

theorem payment_of_shows {s : Sale} (hs : s ∈ db.sales)
    : ∃ p, (db.salePayments.filter fun p => p.saleId = s.id && p.deletedAt.isNone) = [p]
        ∧ p.amount = s.total := by
  obtain ⟨p, hp, hamount⟩ := haccounted.paid s (h.sales.mem_iff.mp hs)
  unfold withPayments at hp
  dsimp only at hp
  refine ⟨p, ?_, hamount⟩
  have hperm := h.payments.filter fun p => p.saleId = s.id && p.deletedAt.isNone
  rw [hp] at hperm
  exact List.perm_singleton.mp hperm

omit haccounted in
include hpos in
theorem nodup_sales (b : ScopedBusiness) : ((b.sales db).map (·.id)).Nodup := by
  have hids := (h.sales.map (·.id)).nodup_iff.mpr hpos.sale_ids_nodup
  exact hids.sublist ((List.filter_sublist.trans List.filter_sublist).map _)

theorem salePayments_perm (b : ScopedBusiness)
    : ∃ payment : Sale → SalePayment,
        (salePayments db b).Perm ((b.sales db).map fun s => (payment s, s))
          ∧ ∀ s ∈ b.sales db, (payment s).amount = s.total := by
  have hmem : ∀ s ∈ b.sales db, s ∈ db.sales := by
    intro s hs
    exact List.mem_of_mem_filter (List.mem_of_mem_filter hs)
  have hpayment : ∀ s, ∃ p : SalePayment, s ∈ b.sales db →
      ((db.salePayments.filter (·.deletedAt.isNone)).filter fun p : SalePayment => s.id = p.saleId) = [p]
        ∧ p.amount = s.total := by
    intro s
    by_cases hs : s ∈ b.sales db
    . obtain ⟨p, hp, hamount⟩ := payment_of_shows h haccounted (hmem s hs)
      refine ⟨p, fun _ => ⟨?_, hamount⟩⟩
      rw [← hp, List.filter_filter]
      apply List.filter_congr
      intro p _
      simp [eq_comm]
    . exact ⟨⟨0, 0, .cash, none, 0, 0, 0, none⟩, fun h => absurd h hs⟩
  choose payment hpayment using hpayment
  refine ⟨payment, ?_, fun s hs => (hpayment s hs).2⟩
  unfold salePayments
  refine (join_perm (fun (p : SalePayment) (s : Sale) => decide (s.id = p.saleId)) _ (b.sales db)).trans ?_
  apply List.Perm.of_eq
  rw [List.map_eq_flatMap]
  apply List.flatMap_congr
  intro s hs
  rw [(hpayment s hs).1]
  rfl

include hpos

theorem sum_paymentBreakdownSql (b : ScopedBusiness)
    : ((paymentBreakdownSql db b).map (·.2)).sum = ((b.sales db).map paidTally).sum := by
  obtain ⟨payment, hperm, hamount⟩ := salePayments_perm h haccounted b
  have hids : ((salePayments db b).map (·.2.id)).Nodup := by
    rw [(hperm.map _).nodup_iff, List.map_map]
    exact nodup_sales h hpos b
  have hrow : ∀ g ∈ groupBy (fun x : SalePayment × Sale => x.1.method) (salePayments db b),
      ({ salesC := (g.2.map (·.1.amount)).sum
         transactions := (g.2.map (·.2.id)).dedup.length } : Tally)
        = (g.2.map fun x => ({ salesC := x.1.amount, transactions := 1 } : Tally)).sum := by
    intro g hg
    have hsub : g.2.Sublist (salePayments db b) := by
      rw [(mem_groupBy.mp hg).2]
      exact List.filter_sublist
    rw [List.Nodup.dedup (hids.sublist (hsub.map _))]
    clear hg hsub
    generalize g.2 = pairs
    apply Tally.ext
    . rw [Tally.sum_salesC, List.map_map]
      rfl
    . rw [Tally.sum_transactions, List.map_map]
      simp [Function.comp_def]
  unfold paymentBreakdownSql
  rw [List.map_map, List.map_congr_left (g := fun g => (g.2.map fun x =>
    ({ salesC := x.1.amount, transactions := 1 } : Tally)).sum) hrow, sum_groupBy,
    (hperm.map _).sum_eq, List.map_map]
  congr 1
  apply List.map_congr_left
  intro s hs
  show Tally.mk (payment s).amount 1 = _
  rw [hamount s hs]
  rfl

theorem byPaymentMethod_sum (scope : ResolvedScope)
    : ((breakdownsOf db scope).byPaymentMethod.map (·.2)).sum = paidIn db scope.businesses :=
  (merged_tallies (paymentBreakdownSql db) (sum_paymentBreakdownSql h hpos haccounted)
    scope.businesses).2.2

omit hpos in
theorem paidIn_eq (businesses : List ScopedBusiness)
    : (paidIn db businesses).salesC
          = (soldIn db businesses).salesC
            + (businesses.map fun b => ((b.sales db).map (·.serviceCharge)).sum).sum
        ∧ (paidIn db businesses).transactions = (soldIn db businesses).transactions := by
  have hb : ∀ b : ScopedBusiness, ((b.sales db).map paidTally).sum.salesC
        = (tally (b.sales db)).salesC + ((b.sales db).map (·.serviceCharge)).sum
      ∧ ((b.sales db).map paidTally).sum.transactions = (tally (b.sales db)).transactions := by
    intro b
    have hmem : ∀ s ∈ b.sales db, s ∈ db.sales := by
      intro s hs
      exact List.mem_of_mem_filter (List.mem_of_mem_filter hs)
    rw [tally_eq_sum]
    generalize b.sales db = sales at hmem
    induction sales with
    | nil => exact ⟨rfl, rfl⟩
    | cons s sales ih =>
      have hrest := ih fun s' hs' => hmem s' (List.mem_cons_of_mem _ hs')
      have htotal := total_of_shows h haccounted (hmem s List.mem_cons_self)
      simp only [List.map_cons, List.sum_cons, Tally.add_salesC, Tally.add_transactions, hrest.1,
        hrest.2]
      unfold paidTally saleTally
      dsimp only
      rw [htotal]
      exact ⟨by ring, rfl⟩
  induction businesses with
  | nil => exact ⟨rfl, rfl⟩
  | cons b businesses ih =>
    have hcons : paidIn db (b :: businesses)
        = ((b.sales db).map paidTally).sum + paidIn db businesses := rfl
    have hcons' : soldIn db (b :: businesses) = tally (b.sales db) + soldIn db businesses := rfl
    rw [hcons, hcons', Tally.add_salesC, Tally.add_salesC, Tally.add_transactions,
      Tally.add_transactions, ih.1, ih.2, (hb b).1, (hb b).2, List.map_cons, List.sum_cons]
    exact ⟨by ring, rfl⟩

omit h hpos haccounted in
theorem taxSummarySql_sum (b : ScopedBusiness)
    : (taxSummarySql db b).vatableSalesC + (taxSummarySql db b).vatC
          + (taxSummarySql db b).vatExemptSalesC
        =
      ((b.sales db).map paidTally).sum.salesC := by
  unfold taxSummarySql
  dsimp only
  generalize b.sales db = sales
  induction sales with
  | nil => rfl
  | cons s sales ih =>
    simp only [List.map_cons, List.sum_cons, Tally.add_salesC] at ih ⊢
    rw [← ih]
    unfold paidTally
    ring

end Shown

theorem serviceChargeC_overviewOf (db : Database) (scope : ResolvedScope)
    : (overviewOf db scope).serviceChargeC.value
        =
      (scope.businesses.map fun b => ((b.sales db).map (·.serviceCharge)).sum).sum := by
  have hfold : ∀ (businesses : List ScopedBusiness) (into : Totals),
      (businesses.foldl (fun into b => addRows into (salesAggregateSql db b b.fromUtc b.toUtc)
          (lineAggregateSql db b b.fromUtc b.toUtc)) into).serviceChargeC
        = into.serviceChargeC
          + (businesses.map fun b => ((b.sales db).map (·.serviceCharge)).sum).sum := by
    intro businesses
    induction businesses with
    | nil => simp
    | cons b businesses ih =>
      intro into
      rw [List.foldl_cons, ih, List.map_cons, List.sum_cons, ← add_assoc]
      rfl
  show (totalsOf db ScopedBusiness.window scope.businesses).serviceChargeC = _
  unfold totalsOf
  refine (hfold scope.businesses emptyTotals).trans ?_
  simp [emptyTotals]

theorem totals_taxOf (db : Database) (scope : ResolvedScope) (f : TaxRow → ℤ) (hzero : f .zero = 0)
    (hadd : ∀ a b, f (a.add b) = f a + f b)
    : f (taxOf db scope).totals = (scope.businesses.map fun b => f (taxSummarySql db b)).sum := by
  have hfold : ∀ (businesses : List ScopedBusiness) (totals : TaxRow),
      f (businesses.foldl (fun totals b => totals.add (taxSummarySql db b)) totals)
        = f totals + (businesses.map fun b => f (taxSummarySql db b)).sum := by
    intro businesses
    induction businesses with
    | nil => simp
    | cons b businesses ih =>
      intro totals
      rw [List.foldl_cons, ih, hadd, List.map_cons, List.sum_cons, add_assoc]
  unfold taxOf
  rw [hfold, hzero, zero_add]

theorem settledBy_of_shows {db : Database} {pos : SentryPos.Database} (h : db.Shows pos)
    (hpos : pos.Valid) (haccounted : pos.Accounted) (scope : ResolvedScope)
    : (overviewOf db scope).SettledBy (breakdownsOf db scope) (taxOf db scope) := by
  have hpaid := paidIn_eq h haccounted scope.businesses
  have hmethods := byPaymentMethod_sum h hpos haccounted scope
  have hnet : (overviewOf db scope).DividedOver [soldIn db scope.businesses] :=
    divided_of_sum db (by simp)
  have htotal : (paidIn db scope.businesses).salesC
      = (overviewOf db scope).netSalesC.value + (overviewOf db scope).serviceChargeC.value := by
    rw [hpaid.1, serviceChargeC_overviewOf, ← hnet.1]
    simp
  have hsummaries : (scope.businesses.map fun b => (taxSummarySql db b).vatableSalesC
      + (taxSummarySql db b).vatC + (taxSummarySql db b).vatExemptSalesC).sum
        = (paidIn db scope.businesses).salesC := by
    unfold paidIn
    rw [Tally.sum_salesC, List.map_map]
    congr 1
    apply List.map_congr_left
    intro b _
    exact taxSummarySql_sum b
  constructor
  . rw [← htotal, ← hmethods, Tally.sum_salesC, List.map_map]
    rfl
  . have hcount := congrArg Tally.transactions hmethods
    rw [Tally.sum_transactions, List.map_map, hpaid.2] at hcount
    rw [← hnet.2, List.map_singleton, List.sum_singleton, ← hcount]
    rfl
  . rw [← htotal, ← hsummaries]
    apply totals_taxOf db scope (fun t => t.vatableSalesC + t.vatC + t.vatExemptSalesC)
    . rfl
    . intro a b
      unfold TaxRow.add
      ring
  . rw [serviceChargeC_overviewOf]
    exact totals_taxOf db scope (·.serviceChargeC) rfl fun _ _ => rfl
  . rw [← htotal, ← hsummaries]
    unfold taxOf
    rw [List.map_map]
    rfl

/--
Whatever requests the terminals have made, interleaved in any way: the payments by method and the
tax of a report are the net sales and the service charge of its overview.
-/
theorem payments_and_tax_reconcile {ι : Type} [DecidableEq ι] {reqs : ι → Request}
    {pos : SentryPos.Database} {c : System ι} (hpos : pos.Valid) (haccounted : pos.Accounted)
    (hrun : Run (.error .aborted) (System.start pos reqs) c) {db : Database} (hshows : db.Shows c.db)
    {ownerId : Uuid} {query : AnalyticsQueryDto} {o : OverviewReport}
    (ho : overview db ownerId query = .ok o)
    : ∃ report taxReport, breakdowns db ownerId query = .ok report
        ∧ tax db ownerId query = .ok taxReport ∧ o.SettledBy report taxReport := by
  unfold overview at ho
  rw [Checks.bind_eq_ok] at ho
  obtain ⟨scope, hscope, ho⟩ := ho
  cases ho
  refine ⟨breakdownsOf db scope, taxOf db scope, ?_, ?_, ?_⟩
  . unfold breakdowns
    rw [hscope]
    rfl
  . unfold tax
    rw [hscope]
    rfl
  . exact settledBy_of_shows hshows (run_valid hpos hrun) (run_accounted hpos haccounted hrun) scope

namespace Cafe

/-- What the reports read of the database of the terminals. -/
def showing (pos : SentryPos.Database) : Database :=
  { database with
    sales := pos.sales
    saleLines := pos.saleItems.map fun item => { item with deletedAt := none }
    salePayments := pos.salePayments }

theorem shows_showing (pos : SentryPos.Database) : (showing pos).Shows pos where
  sales := List.Perm.refl _
  lines := by
    unfold showing
    dsimp only
    rw [List.map_map]
    exact List.Perm.of_eq (List.map_id _)
  live := by simp [showing]
  payments := List.Perm.refl _

theorem database_accounted : SentryPos.Cafe.database.Accounted where
  total := by simp [SentryPos.Cafe.database]
  paid := by simp [SentryPos.Cafe.database]
  items := by simp [SentryPos.Cafe.database]
  payments := by simp [SentryPos.Cafe.database]

theorem parseDigits_epoch : (parseDigits ['1', '9', '7', '0', '-', '0', '1', '-', '0', '1']).isSome := by
  decide

def epochDay : AnalyticsQueryDto where
  businessId := none
  branchId := none
  fromDate := ['1', '9', '7', '0', '-', '0', '1', '-', '0', '1']
  toDate := ['1', '9', '7', '0', '-', '0', '1', '-', '0', '1']
  from_matches := parseDigits_epoch
  to_matches := parseDigits_epoch

theorem race_overview
    : (SentryPos.Cafe.race.turns SentryPos.Cafe.schedule).map (fun c =>
          (overview (showing c.db) 1 epochDay).map (·.netSalesC.value)) = some (.ok 200) := by
  decide +kernel

end Cafe

theorem payments_and_tax_reconcile_cafe
    : ∃ c o report taxReport, SentryPos.Cafe.race.turns SentryPos.Cafe.schedule = some c
        ∧ overview (Cafe.showing c.db) 1 Cafe.epochDay = .ok o ∧ o.netSalesC.value = 200
        ∧ breakdowns (Cafe.showing c.db) 1 Cafe.epochDay = .ok report
        ∧ tax (Cafe.showing c.db) 1 Cafe.epochDay = .ok taxReport ∧ o.SettledBy report taxReport := by
  have hrace := Cafe.race_overview
  rw [Option.map_eq_some_iff] at hrace
  obtain ⟨c, hturns, hnet⟩ := hrace
  have hrun : Run (.error .aborted) SentryPos.Cafe.race c := Config.run_of_turns _ _ hturns
  cases ho : overview (Cafe.showing c.db) 1 Cafe.epochDay with
  | error e =>
    rw [ho] at hnet
    cases hnet
  | ok o =>
    rw [ho] at hnet
    obtain ⟨report, taxReport, hreport, htax, hsettled⟩ := payments_and_tax_reconcile
      SentryPos.Cafe.database_valid Cafe.database_accounted hrun (Cafe.shows_showing c.db) ho
    exact ⟨c, o, report, taxReport, hturns, ho, Except.ok.inj hnet, hreport, htax, hsettled⟩

end SentryPos.Analytics
