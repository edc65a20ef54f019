import SentryPos.Analytics.Schema
import SentryPos.Checks

/-!
This module contains `AnalyticsScopeService.resolve`, which turns the query of a report into the
branches and the windows of its businesses, and when it admits a range of dates.
-/

namespace SentryPos.Analytics

open Calendar JsDate

def MAX_RANGE_DAYS : ℕ := 366

inductive ApiError where
  | validationFailed (message : String)
  | notFound (message : String)
  | internal (e : DayError)
  deriving DecidableEq

structure AnalyticsQueryDto where
  businessId : Option Uuid
  branchId : Option Uuid
  fromDate : List Char
  toDate : List Char
  from_matches : (parseDigits fromDate).isSome
  to_matches : (parseDigits toDate).isSome

structure ScopedBusiness where
  id : Uuid
  name : String
  dayStartTime : List Char
  dayStartMinutes : ℤ
  taxRate : ℚ
  branchIds : List Uuid
  fromUtc : ℤ
  toUtc : ℤ
  previousFromUtc : ℤ
  previousToUtc : ℤ

structure ResolvedScope where
  businesses : List ScopedBusiness
  branchIds : List Uuid
  fromDate : List Char
  toDate : List Char
  dayCount : ℕ

def Database.ownBusinesses (db : Database) (ownerId : Uuid) : List Business :=
  db.businesses.filter fun b => b.ownerId = ownerId && b.deletedAt.isNone

def Database.ownBranches (db : Database) (ownerId : Uuid) : List Branch :=
  db.branches.filter fun b =>
    ((db.ownBusinesses ownerId).map (·.id)).contains b.businessId && b.deletedAt.isNone

def Database.scopeBusinesses (db : Database) (ownerId : Uuid) (query : AnalyticsQueryDto)
    : List Business :=
  (db.ownBusinesses ownerId).filter fun b =>
    match query.businessId with
    | some id => b.id = id
    | none => !b.isDemo

def Database.scopeBranches (db : Database) (ownerId : Uuid) (query : AnalyticsQueryDto)
    : List Branch :=
  (db.ownBranches ownerId).filter fun b =>
    ((db.scopeBusinesses ownerId query).map (·.id)).contains b.businessId
      && query.branchId.all (b.id = ·)

def internal {α : Type} : Except DayError α → Except ApiError α
  | .ok a => .ok a
  | .error e => .error (.internal e)

def scopeBusiness (query : AnalyticsQueryDto) (business : Business) (branchIds : List Uuid)
    : Except ApiError ScopedBusiness := do
  let dayStartMinutes ← internal (parseDayStart business.dayStartTime)
  let period ← internal (businessDayRangeUtc query.fromDate query.toDate dayStartMinutes)
  let previous := previousPeriod period
  return {
    id := business.id
    name := business.name
    dayStartTime := business.dayStartTime
    dayStartMinutes
    taxRate := business.taxRate
    branchIds
    fromUtc := period.fromUtc
    toUtc := period.toUtc
    previousFromUtc := previous.fromUtc
    previousToUtc := previous.toUtc
  }

def withBranches (businesses : List Business) (branches : List Branch)
    : List (Business × List Uuid) :=
  businesses.filterMap fun business =>
    let branchIds := (branches.filter (·.businessId = business.id)).map (·.id)
    if branchIds.isEmpty then none else some (business, branchIds)

def resolve (db : Database) (ownerId : Uuid) (query : AnalyticsQueryDto)
    : Except ApiError ResolvedScope := do
  if query.branchId.isSome && query.businessId.isNone then
    throw (.validationFailed
      "branchId requires businessId — a branch is only meaningful within its business.")
  let days ← match businessDaySeries query.fromDate query.toDate with
    | .ok days => .ok days
    | .error _ => .error (.validationFailed "to must be on or after from.")
  if days.length > MAX_RANGE_DAYS then
    throw (.validationFailed "The date range must not exceed 366 days.")
  let businesses := db.scopeBusinesses ownerId query
  if businesses.isEmpty then
    throw (.notFound "Business not found.")
  let branches := db.scopeBranches ownerId query
  if query.branchId.isSome && branches.isEmpty then
    throw (.notFound "Branch not found.")
  let scopedBusinesses ← (withBranches businesses branches).mapM fun (business, branchIds) =>
    scopeBusiness query business branchIds
  return {
    businesses := scopedBusinesses
    branchIds := scopedBusinesses.flatMap (·.branchIds)
    fromDate := query.fromDate
    toDate := query.toDate
    dayCount := days.length
  }

def Business.dayStartMinutes (b : Business) : ℤ :=
  match parseDayStart b.dayStartTime with
  | .ok minutes => minutes
  | .error _ => 0

theorem parseDayStart_dayStartTime (b : Business)
    : parseDayStart b.dayStartTime = .ok b.dayStartMinutes := by
  have hok := b.dayStart_ok
  unfold Business.dayStartMinutes
  cases h : parseDayStart b.dayStartTime with
  | ok minutes => rfl
  | error e =>
    rw [h] at hok
    cases hok

/-- The windows of a business for the days from `m` to `n`. -/
def windowsOf (m n : ℤ) (business : Business) (branchIds : List Uuid) : ScopedBusiness :=
  let offset := (business.dayStartMinutes - MANILA_OFFSET_MINUTES) * 60000
  let period : Period := { fromUtc := m * DAY_MS + offset, toUtc := (n + 1) * DAY_MS + offset }
  {
    id := business.id
    name := business.name
    dayStartTime := business.dayStartTime
    dayStartMinutes := business.dayStartMinutes
    taxRate := business.taxRate
    branchIds
    fromUtc := period.fromUtc
    toUtc := period.toUtc
    previousFromUtc := (previousPeriod period).fromUtc
    previousToUtc := (previousPeriod period).toUtc
  }

def scopeOf (db : Database) (ownerId : Uuid) (query : AnalyticsQueryDto) (m n : ℤ)
    : ResolvedScope :=
  let businesses :=
    (withBranches (db.scopeBusinesses ownerId query) (db.scopeBranches ownerId query)).map
      fun x => windowsOf m n x.1 x.2
  {
    businesses
    branchIds := businesses.flatMap (·.branchIds)
    fromDate := query.fromDate
    toDate := query.toDate
    dayCount := (n + 1 - m).toNat
  }

theorem mem_windowsOf (m n : ℤ) (business : Business) (branchIds : List Uuid) (t : ℤ)
    : (windowsOf m n business branchIds).fromUtc ≤ t ∧ t < (windowsOf m n business branchIds).toUtc ↔
        m ≤ dayBucket t business.dayStartMinutes ∧ dayBucket t business.dayStartMinutes ≤ n :=
  (dayBucket_range m n business.dayStartMinutes t).symm

section Resolve

variable {query : AnalyticsQueryDto} {m n : ℤ}

theorem scopeBusiness_eq (hfrom : dayOf query.fromDate = some m) (hto : dayOf query.toDate = some n)
    (hle : m ≤ n) (business : Business) (branchIds : List Uuid)
    : scopeBusiness query business branchIds = .ok (windowsOf m n business branchIds) := by
  unfold scopeBusiness
  rw [parseDayStart_dayStartTime]
  simp only [internal, bind, Except.bind]
  rw [businessDayRangeUtc_of_dayOf hfrom hto hle]
  rfl

theorem resolve_eq (db : Database) (ownerId : Uuid) (hfrom : dayOf query.fromDate = some m)
    (hto : dayOf query.toDate = some n)
    : resolve db ownerId query =
        if query.branchId.isSome && query.businessId.isNone then
          .error (.validationFailed
            "branchId requires businessId — a branch is only meaningful within its business.")
        else if n < m then
          .error (.validationFailed "to must be on or after from.")
        else if 366 < n + 1 - m then
          .error (.validationFailed "The date range must not exceed 366 days.")
        else if (db.scopeBusinesses ownerId query).isEmpty then
          .error (.notFound "Business not found.")
        else if query.branchId.isSome && (db.scopeBranches ownerId query).isEmpty then
          .error (.notFound "Branch not found.")
        else
          .ok (scopeOf db ownerId query m n) := by
  unfold resolve
  rw [businessDaySeries_of_dayOf hfrom hto]
  by_cases hbranch : query.branchId.isSome && query.businessId.isNone
  . rw [if_pos hbranch, if_pos hbranch]
    rfl
  . rw [if_neg hbranch, if_neg hbranch]
    by_cases hlt : n < m
    . rw [if_pos hlt, if_pos hlt]
      rfl
    . rw [if_neg hlt, if_neg hlt]
      simp only [bind, Except.bind, pure, Except.pure, List.length_map, List.length_range]
      by_cases hlong : 366 < n + 1 - m
      . rw [if_pos (by unfold MAX_RANGE_DAYS; omega), if_pos hlong]
        rfl
      . rw [if_neg (by unfold MAX_RANGE_DAYS; omega), if_neg hlong,
          Checks.mapM_ok fun x _ => scopeBusiness_eq hfrom hto (by omega) x.1 x.2]
        split
        . rfl
        . split
          . rfl
          . rfl

theorem dayOf_of_isSome {date : List Char} (h : (parseDigits date).isSome)
    : ∃ n, dayOf date = some n := by
  obtain ⟨parts, hparts⟩ := Option.isSome_iff_exists.mp h
  exact ⟨_, by rw [dayOf, hparts, Option.map_some]⟩

theorem resolve_ok {db : Database} {ownerId : Uuid} {scope : ResolvedScope}
    (h : resolve db ownerId query = .ok scope)
    : ∃ m n, dayOf query.fromDate = some m ∧ dayOf query.toDate = some n ∧ m ≤ n ∧ n < m + 366 ∧
        scope = scopeOf db ownerId query m n := by
  obtain ⟨m, hm⟩ := dayOf_of_isSome query.from_matches
  obtain ⟨n, hn⟩ := dayOf_of_isSome query.to_matches
  rw [resolve_eq db ownerId hm hn] at h
  split at h
  . cases h
  . split at h
    . cases h
    . split at h
      . cases h
      . split at h
        . cases h
        . split at h
          . cases h
          . cases h
            exact ⟨m, n, hm, hn, by omega, by omega, rfl⟩

end Resolve

theorem mem_withBranches {businesses : List Business} {branches : List Branch}
    {x : Business × List Uuid}
    : x ∈ withBranches businesses branches ↔ x.1 ∈ businesses ∧ x.2 ≠ [] ∧
        x.2 = (branches.filter (·.businessId = x.1.id)).map (·.id) := by
  unfold withBranches
  rw [List.mem_filterMap]
  constructor
  . rintro ⟨business, hmem, h⟩
    dsimp only at h
    split at h
    . cases h
    . next hne =>
      cases h
      exact ⟨hmem, by simpa using hne, rfl⟩
  . rintro ⟨hmem, hne, hids⟩
    refine ⟨x.1, hmem, ?_⟩
    dsimp only
    rw [← hids, if_neg (by simpa using hne)]

theorem sublist_withBranches (businesses : List Business) (branches : List Branch)
    : ((withBranches businesses branches).map (·.1.id)).Sublist (businesses.map (·.id)) := by
  unfold withBranches
  induction businesses with
  | nil => exact List.Sublist.refl _
  | cons business rest ih =>
    rw [List.filterMap_cons]
    dsimp only
    split
    . next hnone => exact ih.cons _
    . next x hsome =>
      split at hsome
      . cases hsome
      . cases hsome
        exact ih.cons_cons _

section Scoped

variable {db : Database} (hdb : db.Valid) {ownerId : Uuid} {query : AnalyticsQueryDto}
  {scope : ResolvedScope} (hscope : resolve db ownerId query = .ok scope)

include hscope

theorem mem_scope {b : ScopedBusiness} (hb : b ∈ scope.businesses)
    : ∃ business ∈ db.scopeBusinesses ownerId query, business.id = b.id ∧
        b.branchIds = ((db.scopeBranches ownerId query).filter (·.businessId = b.id)).map (·.id) := by
  obtain ⟨m, n, -, -, -, -, rfl⟩ := resolve_ok hscope
  obtain ⟨x, hx, rfl⟩ := List.mem_map.mp hb
  rw [mem_withBranches] at hx
  exact ⟨x.1, hx.1, rfl, hx.2.2⟩

theorem branch_of_scope {b : ScopedBusiness} (hb : b ∈ scope.businesses) {id : Uuid}
    (hid : id ∈ b.branchIds)
    : ∃ branch ∈ db.branches, branch.id = id ∧ branch.businessId = b.id := by
  obtain ⟨business, -, -, hids⟩ := mem_scope hscope hb
  rw [hids] at hid
  obtain ⟨branch, hmem, hbranch⟩ := List.mem_map.mp hid
  rw [List.mem_filter, decide_eq_true_eq] at hmem
  exact ⟨branch, List.mem_of_mem_filter (List.mem_of_mem_filter hmem.1), hbranch, hmem.2⟩

include hdb

theorem nodup_scope : (scope.businesses.map (·.id)).Nodup := by
  obtain ⟨m, n, -, -, -, -, rfl⟩ := resolve_ok hscope
  unfold scopeOf
  dsimp only
  rw [List.map_map]
  apply List.Nodup.sublist (sublist_withBranches _ _)
  exact hdb.businesses.sublist ((List.filter_sublist.trans List.filter_sublist).map _)

theorem scope_of_branch {b b' : ScopedBusiness} (hb : b ∈ scope.businesses)
    (hb' : b' ∈ scope.businesses) {id : Uuid} (hid : id ∈ b.branchIds) (hid' : id ∈ b'.branchIds)
    : b.id = b'.id := by
  obtain ⟨branch, hmem, hbranch, hbusiness⟩ := branch_of_scope hscope hb hid
  obtain ⟨branch', hmem', hbranch', hbusiness'⟩ := branch_of_scope hscope hb' hid'
  have heq := Table.get_of_mem hdb.branches hmem
  rw [hbranch, ← hbranch', Table.get_of_mem hdb.branches hmem'] at heq
  cases heq
  exact hbusiness.symm.trans hbusiness'

end Scoped

namespace Cafe

def business : Business where
  id := 10
  ownerId := 1
  name := "Cafe"
  dayStartTime := ['0', '4', ':', '0', '0']
  taxRate := 12 / 100
  isDemo := false
  deletedAt := none
  dayStart_ok := by decide

def branch : Branch :=
  { id := 20, businessId := 10, name := "Main", deletedAt := none }

def database : Database where
  businesses := [business]
  branches := [branch]
  categories := []
  products := []
  variants := []
  modifierGroups := []
  discounts := []
  sales := []
  saleLines := []
  salePayments := []
  movements := []
  auditLogs := []

end Cafe

end SentryPos.Analytics
