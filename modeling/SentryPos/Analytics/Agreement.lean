import SentryPos.Analytics.Settlement
import SentryPos.Analytics.Today

/-!
This module contains that the reports on sales agree with the overview and with the dashboard, whatever
the terminals have done.
-/

namespace SentryPos.Analytics

open Calendar JsDate ReadCommitted

/-- Every report has the sales of the overview, and the money taken is these and the service charge. -/
structure Reports.Agree (r : Reports) : Prop where
  heatmap : r.overview.DividedOver (r.heatmap.map (·.toTally))
  trend : r.overview.DividedOver (r.trend.map (·.toTally))
  hourOfDay : r.overview.DividedOver r.patterns.hourOfDay
  dayOfWeek : r.overview.DividedOver r.patterns.dayOfWeek
  byOrderType : r.overview.DividedOver (r.breakdowns.byOrderType.map (·.2))
  byBranch : r.overview.DividedOver (r.breakdowns.byBranch.map (·.toTally))
  settled : r.overview.SettledBy r.breakdowns r.tax

/-- The query for all of a business on a single day. -/
def AnalyticsQueryDto.OnDay (query : AnalyticsQueryDto) (businessId : Uuid) (n : ℤ) : Prop :=
  query.businessId = some businessId ∧ query.branchId = none ∧ query.fromDate = dayText n
    ∧ query.toDate = dayText n

/-- The sales of today are those of the overview of the day, and those of the last of the seven days. -/
structure DashboardBusiness.AgreesOn (db : Database) (ownerId : Uuid) (row : DashboardBusiness) (n : ℤ)
    : Prop where
  asked : ∃ query : AnalyticsQueryDto, query.OnDay row.businessId n
  salesC : ∀ query : AnalyticsQueryDto, query.OnDay row.businessId n →
    ∃ o, overview db ownerId query = .ok o ∧ o.netSalesC.value = row.today.salesC
  last : row.sparkline.getLast? = some ⟨dayText n, row.today.salesC⟩

theorem AnalyticsQueryDto.OnDay.unique {query query' : AnalyticsQueryDto} {businessId : Uuid} {n : ℤ}
    (h : query.OnDay businessId n) (h' : query'.OnDay businessId n) : query = query' := by
  cases query
  cases query'
  obtain ⟨hbusiness, hbranch, hfrom, hto⟩ := h
  obtain ⟨hbusiness', hbranch', hfrom', hto'⟩ := h'
  dsimp only at *
  subst hbusiness hbusiness' hbranch hbranch' hfrom hfrom' hto hto'
  rfl

theorem DashboardBusiness.OfDays.agreesOn {db : Database} {ownerId : Uuid} {row : DashboardBusiness}
    {n : ℤ} (h : row.OfDays db ownerId n) : row.AgreesOn db ownerId n := by
  obtain ⟨query, o, hbusiness, hbranch, hfrom, hto, ho, hsales, _⟩ := h.today
  have hday : query.OnDay row.businessId n := ⟨hbusiness, hbranch, hfrom, hto⟩
  constructor
  . exact ⟨query, hday⟩
  . intro query' hday'
    rw [hday'.unique hday]
    exact ⟨o, ho, hsales⟩
  . exact h.last

theorem reportsOf_agree {db : Database} {ownerId : Uuid} {query : AnalyticsQueryDto}
    {scope : ResolvedScope} (hscope : resolve db ownerId query = .ok scope)
    {pos : SentryPos.Database} (hpos : pos.Valid) (haccounted : pos.Accounted) (hshows : db.Shows pos)
    (hdb : db.Valid) (hto : CalendarDate query.toDate) (granularity : Granularity)
    : (reportsOf db scope granularity).Agree where
  heatmap := heatmap_divided hscope hto
  trend := trend_divided scope granularity
  hourOfDay := (patterns_divided scope).1
  dayOfWeek := (patterns_divided scope).2
  byOrderType := byOrderType_divided scope
  byBranch := byBranch_divided hscope hdb
  settled := settledBy_of_shows hshows hpos haccounted scope

theorem dashboard_agreesOn {db : DashboardDatabase} (hdb : db.Valid) {now : ℤ} (hnow : OnClock now)
    (ownerId : Uuid)
    : ∃ report, dashboard db ownerId now = .ok report
        ∧ List.Forall₂ (fun (x : Business × List Uuid) row => row.businessId = x.1.id
            ∧ row.AgreesOn db.toDatabase ownerId (todayOf now x.1))
          (todayBusinesses db.toDatabase ownerId) report.businesses := by
  obtain ⟨report, hreport, hrows, _⟩ := dashboard_ofDays hdb hnow ownerId
  exact ⟨report, hreport, hrows.imp fun x row h => ⟨h.1, h.2.agreesOn⟩⟩

/--
Whatever requests the terminals have made, interleaved in any way: each report on the sales of a range
of dates has the net sales and the transactions of the overview, in the day, week or month, the hour,
the day of the week, the order type or the branch that a sale is of. The payments and the tax have these
and the service charge. The dashboard shows today's sales of each business as its overview of the day
does.
-/
theorem sales_reports_agree {ι : Type} [DecidableEq ι] {reqs : ι → Request}
    {pos : SentryPos.Database} {c : System ι} (hpos : pos.Valid) (haccounted : pos.Accounted)
    (hrun : Run (.error .aborted) (System.start pos reqs) c) {db : DashboardDatabase}
    (hshows : db.Shows c.db) (hdb : db.Valid) (ownerId : Uuid)
    : (∀ query granularity r, CalendarDate query.toDate →
          reports db.toDatabase ownerId query granularity = .ok r → r.Agree)
        ∧ ∀ now, OnClock now → ∃ report, dashboard db ownerId now = .ok report
          ∧ List.Forall₂ (fun (x : Business × List Uuid) row => row.businessId = x.1.id
              ∧ row.AgreesOn db.toDatabase ownerId (todayOf now x.1))
            (todayBusinesses db.toDatabase ownerId) report.businesses := by
  refine ⟨?_, fun now hnow => dashboard_agreesOn hdb hnow ownerId⟩
  intro query granularity r hto hr
  unfold reports at hr
  rw [Checks.bind_eq_ok] at hr
  obtain ⟨scope, hscope, hr⟩ := hr
  cases hr
  exact reportsOf_agree hscope (run_valid hpos hrun) (run_accounted hpos haccounted hrun) hshows hdb hto
    (granularity.getD .day)

namespace Cafe

theorem race_today
    : (SentryPos.Cafe.race.turns SentryPos.Cafe.schedule).map (fun c =>
          ((reports (sharing c.db).toDatabase 1 epochDay none).map (·.overview.netSalesC.value),
            (dashboard (sharing c.db) 1 0).map (·.businesses.map (·.today.salesC))))
        = some (.ok 200, .ok [200]) := by
  decide +kernel

end Cafe

theorem sales_reports_agree_cafe
    : ∃ c r today, SentryPos.Cafe.race.turns SentryPos.Cafe.schedule = some c
        ∧ reports (Cafe.sharing c.db).toDatabase 1 Cafe.epochDay none = .ok r
        ∧ r.overview.netSalesC.value = 200 ∧ r.Agree ∧ dashboard (Cafe.sharing c.db) 1 0 = .ok today
        ∧ today.businesses.map (·.today.salesC) = [200]
        ∧ List.Forall₂ (fun (x : Business × List Uuid) row => row.businessId = x.1.id
            ∧ row.AgreesOn (Cafe.sharing c.db).toDatabase 1 (todayOf 0 x.1))
          (todayBusinesses (Cafe.sharing c.db).toDatabase 1) today.businesses := by
  have hrace := Cafe.race_today
  rw [Option.map_eq_some_iff] at hrace
  obtain ⟨c, hturns, hfigures⟩ := hrace
  rw [Prod.mk.injEq] at hfigures
  have hrun : Run (.error .aborted) SentryPos.Cafe.race c := Config.run_of_turns _ _ hturns
  obtain ⟨hreports, hdashboard⟩ := sales_reports_agree SentryPos.Cafe.database_valid
    Cafe.database_accounted hrun (show (Cafe.sharing c.db).Shows c.db from Cafe.shows_explaining c.db)
    (Cafe.explaining_valid c.db) 1
  cases hr : reports (Cafe.sharing c.db).toDatabase 1 Cafe.epochDay none with
  | error e =>
    rw [hr] at hfigures
    cases hfigures.1
  | ok r =>
    obtain ⟨today, htoday, hrows⟩ := hdashboard 0 Cafe.onClock_epoch
    rw [hr, htoday] at hfigures
    exact ⟨c, r, today, hturns, hr, Except.ok.inj hfigures.1, hreports _ _ r Cafe.calendarDate_epoch hr, htoday,
      Except.ok.inj hfigures.2, hrows⟩

end SentryPos.Analytics
