import Mathlib.Tactic.Ring
import SentryPos.Js.Date

/-!
This module contains the arithmetic of business days, and that they divide the time. A date is its
text, an instant its milliseconds, and the start of a day its minutes past midnight in Manila.
-/

namespace SentryPos.Analytics

open Calendar JsDate

def MANILA_OFFSET_MINUTES : ℤ := 8 * 60

inductive DayError where
  | invalidDayStart (dayStartTime : List Char)
  | invalidDate (date : List Char)
  | endsBeforeItStarts (fromDate toDate : List Char)
  deriving DecidableEq

structure Period where
  fromUtc : ℤ
  toUtc : ℤ
  deriving DecidableEq

/-- `HH:mm` to minutes past midnight. -/
def parseDayStart (dayStartTime : List Char) : Except DayError ℤ :=
  match dayStartTime with
  | [h₁, h₂, ':', m₁, m₂] =>
    if ((h₁ = '0' ∨ h₁ = '1') ∧ isDigit h₂ ∨ h₁ = '2' ∧ h₂ ∈ ['0', '1', '2', '3'])
        ∧ m₁ ∈ ['0', '1', '2', '3', '4', '5'] ∧ isDigit m₂ then
      .ok (JsString.parseDigits [h₁, h₂] * 60 + JsString.parseDigits [m₁, m₂])
    else
      .error (.invalidDayStart dayStartTime)
  | _ => .error (.invalidDayStart dayStartTime)

def parseDate (date : List Char) : Except DayError (ℕ × ℕ × ℕ) :=
  match parseDigits date with
  | some parts => .ok parts
  | none => .error (.invalidDate date)

def businessDayStartUtc (date : List Char) (dayStartMinutes : ℤ) : Except DayError ℤ := do
  let (y, m, d) ← parseDate date
  return UTC y (m - 1) d 0 (dayStartMinutes - MANILA_OFFSET_MINUTES)

def businessDayOf (instant dayStartMinutes : ℤ) : List Char :=
  (toISOString (instant + (MANILA_OFFSET_MINUTES - dayStartMinutes) * 60000)).take 10

/-- The loop of `businessDaySeries`. -/
def daysFrom (t last : ℤ) : List (List Char) :=
  if t ≤ last then businessDayOf t 0 :: daysFrom (t + DAY_MS) last else []
termination_by (last + 1 - t).toNat
decreasing_by
  unfold DAY_MS
  omega

def businessDaySeries (fromDate toDate : List Char) : Except DayError (List (List Char)) := do
  let first ← businessDayStartUtc fromDate 0
  let last ← businessDayStartUtc toDate 0
  if last < first then
    throw (.endsBeforeItStarts fromDate toDate)
  return daysFrom first last

def businessDayRangeUtc (fromDate toDate : List Char) (dayStartMinutes : ℤ)
    : Except DayError Period := do
  let fromUtc ← businessDayStartUtc fromDate dayStartMinutes
  let lastStart ← businessDayStartUtc toDate dayStartMinutes
  if lastStart < fromUtc then
    throw (.endsBeforeItStarts fromDate toDate)
  return { fromUtc, toUtc := lastStart + DAY_MS }

def previousPeriod (period : Period) : Period :=
  {
    fromUtc := period.fromUtc - (period.toUtc - period.fromUtc)
    toUtc := period.fromUtc
  }

def addDays (date : List Char) (days : ℤ) : Except DayError (List Char) := do
  let base ← businessDayStartUtc date 0
  return businessDayOf (base + days * DAY_MS) 0

/-- `(created_at + shift)::date` as the number of the day. -/
def dayBucket (createdAt dayStartMinutes : ℤ) : ℤ :=
  (createdAt + (MANILA_OFFSET_MINUTES - dayStartMinutes) * 60000) / DAY_MS

/-- The text of a Postgres `date`, which arrives as a `Date` at midnight UTC. -/
def bucketKey (bucket : ℤ) : List Char :=
  (toISOString (bucket * DAY_MS)).take 10

/-- The instants of a date, for a business whose days start at `dayStartMinutes`. -/
def InDay (dayStartMinutes : ℤ) (d : CivilDate) (t : ℤ) : Prop :=
  ∃ start next nextDate, businessDayStartUtc (isoDate d) dayStartMinutes = .ok start ∧
    addDays (isoDate d) 1 = .ok nextDate ∧
    businessDayStartUtc nextDate dayStartMinutes = .ok next ∧ start ≤ t ∧ t < next

/-- The number of the day that `Date.UTC` makes of a date. -/
def dayOf (date : List Char) : Option ℤ :=
  (parseDigits date).map fun (y, m, d) => utcDay y (m - 1) d

def dayText (n : ℤ) : List Char :=
  (isoDate (.ofDay n)).take 10

theorem dayText_iff {d : CivilDate} (hpos : 0 ≤ d.year) (hle : d.year ≤ 9999) (n : ℤ)
    : dayText n = isoDate d ↔ n = d.toDay := by
  have h := take_toISOString_iff hpos hle (n * DAY_MS)
  rw [take_toISOString, Int.mul_ediv_cancel _ (by decide)] at h
  exact h

theorem businessDayOf_eq (t s : ℤ) : businessDayOf t s = dayText (dayBucket t s) := by
  unfold businessDayOf dayText dayBucket
  rw [take_toISOString]

theorem bucketKey_eq (n : ℤ) : bucketKey n = dayText n := by
  unfold bucketKey dayText
  rw [take_toISOString, Int.mul_ediv_cancel _ (by decide)]

theorem dayOf_isoDate {d : CivilDate} (hge : 100 ≤ d.year) (hle : d.year ≤ 9999)
    : dayOf (isoDate d) = some d.toDay := by
  have hyear : (d.year.toNat : ℤ) = d.year := Int.toNat_of_nonneg (by omega)
  have hday : (d.day.toNat : ℤ) = d.day := Int.toNat_of_nonneg (by have := d.day_pos; omega)
  unfold dayOf
  rw [parseDigits_isoDate (by omega) hle, Option.map_some]
  dsimp only
  rw [hyear, hday, utcDay_date hge]

theorem businessDayStartUtc_of_dayOf {date : List Char} {n : ℤ} (h : dayOf date = some n) (s : ℤ)
    : businessDayStartUtc date s =
        .ok (n * DAY_MS + (s - MANILA_OFFSET_MINUTES) * 60000) := by
  unfold dayOf at h
  rw [Option.map_eq_some_iff] at h
  obtain ⟨⟨y, m, d⟩, hparts, rfl⟩ := h
  unfold businessDayStartUtc parseDate
  rw [hparts]
  simp only [Except.bind, bind, pure, Except.pure]
  unfold UTC
  rw [zero_mul, zero_add]

theorem addDays_of_dayOf {date : List Char} {n : ℤ} (h : dayOf date = some n) (days : ℤ)
    : addDays date days = .ok (dayText (n + days)) := by
  have hbucket : dayBucket (n * DAY_MS + (0 - MANILA_OFFSET_MINUTES) * 60000 + days * DAY_MS) 0 =
      n + days := by
    unfold dayBucket DAY_MS
    omega
  unfold addDays
  rw [businessDayStartUtc_of_dayOf h]
  simp only [bind, Except.bind, pure, Except.pure]
  rw [businessDayOf_eq, hbucket]

theorem daysFrom_eq (t : ℤ) (k : ℕ)
    : daysFrom t (t + (k - 1) * DAY_MS) =
        (List.range k).map fun (i : ℕ) => businessDayOf (t + i * DAY_MS) 0 := by
  induction k generalizing t with
  | zero =>
    rw [daysFrom, if_neg (by unfold DAY_MS; omega)]
    rfl
  | succ k ih =>
    have hlast : t + ((k + 1 : ℕ) - 1) * DAY_MS = t + DAY_MS + (k - 1) * DAY_MS := by
      push_cast
      ring
    rw [daysFrom, if_pos (by unfold DAY_MS; omega), hlast, ih, List.range_succ_eq_map,
      List.map_cons, List.map_map, Nat.cast_zero, zero_mul, add_zero]
    congr 1
    apply List.map_congr_left
    intro i hi
    rw [Function.comp_apply]
    congr 1
    push_cast
    ring

theorem businessDaySeries_of_dayOf {fromDate toDate : List Char} {m n : ℤ}
    (hfrom : dayOf fromDate = some m) (hto : dayOf toDate = some n)
    : businessDaySeries fromDate toDate =
        if n < m then .error (.endsBeforeItStarts fromDate toDate)
        else .ok ((List.range (n + 1 - m).toNat).map fun (i : ℕ) => dayText (m + i)) := by
  unfold businessDaySeries
  rw [businessDayStartUtc_of_dayOf hfrom, businessDayStartUtc_of_dayOf hto]
  simp only [bind, Except.bind]
  by_cases hlt : n < m
  . rw [if_pos (by unfold DAY_MS; omega), if_pos hlt]
    rfl
  . have hlast : n * DAY_MS + (0 - MANILA_OFFSET_MINUTES) * 60000 =
        m * DAY_MS + (0 - MANILA_OFFSET_MINUTES) * 60000 +
          (((n + 1 - m).toNat : ℤ) - 1) * DAY_MS := by
      rw [Int.toNat_of_nonneg (by omega)]
      ring
    have hday (i : ℕ) : dayBucket
        (m * DAY_MS + (0 - MANILA_OFFSET_MINUTES) * 60000 + i * DAY_MS) 0 = m + i := by
      unfold dayBucket DAY_MS
      omega
    rw [if_neg (by unfold DAY_MS; omega), if_neg hlt, hlast, daysFrom_eq]
    simp only [businessDayOf_eq, hday]
    rfl

theorem businessDayRangeUtc_of_dayOf {fromDate toDate : List Char} {m n : ℤ}
    (hfrom : dayOf fromDate = some m) (hto : dayOf toDate = some n) (hle : m ≤ n) (s : ℤ)
    : businessDayRangeUtc fromDate toDate s = .ok {
        fromUtc := m * DAY_MS + (s - MANILA_OFFSET_MINUTES) * 60000
        toUtc := (n + 1) * DAY_MS + (s - MANILA_OFFSET_MINUTES) * 60000
      } := by
  unfold businessDayRangeUtc
  rw [businessDayStartUtc_of_dayOf hfrom, businessDayStartUtc_of_dayOf hto]
  simp only [bind, Except.bind, pure, Except.pure]
  rw [if_neg (by unfold DAY_MS; omega)]
  simp only [Except.ok.injEq, Period.mk.injEq]
  refine ⟨trivial, ?_⟩
  ring

theorem dayBucket_range (m n s t : ℤ)
    : m ≤ dayBucket t s ∧ dayBucket t s ≤ n ↔
        m * DAY_MS + (s - MANILA_OFFSET_MINUTES) * 60000 ≤ t ∧
          t < (n + 1) * DAY_MS + (s - MANILA_OFFSET_MINUTES) * 60000 := by
  unfold dayBucket DAY_MS
  omega

theorem dayBucket_eq (t s : ℤ) : bucketKey (dayBucket t s) = businessDayOf t s := by
  rw [bucketKey_eq, businessDayOf_eq]

theorem inDay_iff {d : CivilDate} (hge : 100 ≤ d.year) (hle : d.year ≤ 9998) (s t : ℤ)
    : InDay s d t ↔ dayBucket t s = d.toDay := by
  have hyear := d.year_ofDay_succ
  have hday := dayOf_isoDate hge (show d.year ≤ 9999 by omega)
  have hnext := dayOf_isoDate (d := .ofDay (d.toDay + 1)) (by omega) (by omega)
  have hbounds := dayBucket_range d.toDay d.toDay s t
  have htext : dayText (d.toDay + 1) = isoDate (.ofDay (d.toDay + 1)) := by
    rw [dayText_iff (by omega) (by omega), CivilDate.toDay_ofDay]
  rw [CivilDate.toDay_ofDay] at hnext
  unfold InDay
  rw [businessDayStartUtc_of_dayOf hday, addDays_of_dayOf hday, htext]
  constructor
  . rintro ⟨start, next, nextDate, hstart, hdate, hend, hin⟩
    cases hdate
    rw [businessDayStartUtc_of_dayOf hnext] at hend
    cases hstart
    cases hend
    have := hbounds.mpr hin
    omega
  . intro hbucket
    exact ⟨_, _, _, rfl, rfl, businessDayStartUtc_of_dayOf hnext s, hbounds.mp (by omega)⟩

theorem businessDaySeries_isoDate {a b : CivilDate} (hge : 100 ≤ a.year) (hle : b.year ≤ 9999)
    (hab : ¬b.Before a)
    : businessDaySeries (isoDate a) (isoDate b) = .ok ((a.upTo b).map isoDate) := by
  rw [CivilDate.not_before_iff] at hab
  have hyear := CivilDate.year_le_of_toDay hab
  rw [businessDaySeries_of_dayOf (dayOf_isoDate hge (by omega)) (dayOf_isoDate (by omega) hle),
    if_neg (by omega)]
  unfold CivilDate.upTo
  rw [List.map_map]
  congr 1
  apply List.map_congr_left
  intro i hi
  rw [List.mem_range] at hi
  have hmem : CivilDate.ofDay (a.toDay + i) ∈ a.upTo b := by
    rw [CivilDate.mem_upTo, CivilDate.not_before_iff, CivilDate.not_before_iff,
      CivilDate.toDay_ofDay]
    omega
  have hyears := CivilDate.year_of_mem_upTo hmem
  rw [Function.comp_apply, dayText_iff (by omega) (by omega), CivilDate.toDay_ofDay]

theorem existsUnique_inDay {a b : CivilDate} (hge : 100 ≤ a.year) (hle : b.year ≤ 9998) (s t : ℤ)
    : (∃! d, d ∈ a.upTo b ∧ InDay s d t) ↔
        a.toDay ≤ dayBucket t s ∧ dayBucket t s ≤ b.toDay := by
  have hmem {d : CivilDate} (h : d ∈ a.upTo b) : InDay s d t ↔ dayBucket t s = d.toDay := by
    have hyears := CivilDate.year_of_mem_upTo h
    exact inDay_iff (by omega) (by omega) s t
  constructor
  . rintro ⟨d, ⟨hd, hin⟩, -⟩
    rw [hmem hd] at hin
    rw [CivilDate.mem_upTo, CivilDate.not_before_iff, CivilDate.not_before_iff] at hd
    omega
  . intro h
    have hday : CivilDate.ofDay (dayBucket t s) ∈ a.upTo b := by
      rw [CivilDate.mem_upTo, CivilDate.not_before_iff, CivilDate.not_before_iff,
        CivilDate.toDay_ofDay]
      exact h
    refine ⟨.ofDay (dayBucket t s), ⟨hday, ?_⟩, ?_⟩
    . rw [hmem hday, CivilDate.toDay_ofDay]
    . rintro d ⟨hd, hin⟩
      rw [hmem hd] at hin
      rw [hin, CivilDate.ofDay_toDay]

/-- The dates that four digits name and `Date.UTC` takes for what they are, with the next day. -/
def Charted (d : CivilDate) : Prop :=
  100 ≤ d.year ∧ d.year ≤ 9998

theorem business_days_partition (s : ℤ)
    : (∀ d t, Charted d → (businessDayOf t s = isoDate d ↔ InDay s d t)) ∧
      (∀ t, bucketKey (dayBucket t s) = businessDayOf t s) ∧
      (∀ a b, Charted a → Charted b → ¬b.Before a →
        ∃ (dates : List CivilDate) (range : Period),
          businessDaySeries (isoDate a) (isoDate b) = .ok (dates.map isoDate) ∧
          dates.Pairwise CivilDate.Before ∧
          (∀ d, d ∈ dates ↔ ¬d.Before a ∧ ¬b.Before d) ∧
          businessDayRangeUtc (isoDate a) (isoDate b) s = .ok range ∧
          (∀ t, range.fromUtc ≤ t ∧ t < range.toUtc ↔ ∃! d, d ∈ dates ∧ InDay s d t) ∧
          (∀ d ∈ dates, ∀ t, InDay s d t → range.fromUtc ≤ t ∧ t < range.toUtc) ∧
          (previousPeriod range).toUtc = range.fromUtc ∧
          (previousPeriod range).toUtc - (previousPeriod range).fromUtc =
            range.toUtc - range.fromUtc) := by
  refine ⟨?_, fun t => dayBucket_eq t s, ?_⟩
  . rintro d t ⟨hge, hle⟩
    rw [businessDayOf_eq, dayText_iff (by omega) (by omega), inDay_iff hge hle]
  . rintro a b ⟨hge, -⟩ ⟨-, hle⟩ hab
    have hdays := CivilDate.not_before_iff.mp hab
    have hyear := CivilDate.year_le_of_toDay hdays
    have hrange := businessDayRangeUtc_of_dayOf (dayOf_isoDate hge (by omega))
      (dayOf_isoDate (by omega) (by omega)) hdays s
    refine ⟨a.upTo b, _, businessDaySeries_isoDate hge (by omega) hab,
      CivilDate.pairwise_upTo a b, fun d => CivilDate.mem_upTo, hrange, ?_, ?_, rfl, ?_⟩
    . intro t
      rw [existsUnique_inDay hge hle, dayBucket_range]
    . intro d hd t hin
      have hyears := CivilDate.year_of_mem_upTo hd
      rw [CivilDate.mem_upTo, CivilDate.not_before_iff, CivilDate.not_before_iff] at hd
      rw [inDay_iff (by omega) (by omega)] at hin
      rw [← dayBucket_range]
      omega
    . unfold previousPeriod
      ring

def leapWeekend : CivilDate × CivilDate :=
  (⟨2024, 2, 28, by decide, by decide, by decide, by decide⟩,
    ⟨2024, 3, 1, by decide, by decide, by decide, by decide⟩)

theorem business_days_partition_leap
    : (businessDayOf 1709146800000 240 = isoDate leapWeekend.1 ↔
        InDay 240 leapWeekend.1 1709146800000) ∧
      ∃ dates : List CivilDate, businessDaySeries (isoDate leapWeekend.1) (isoDate leapWeekend.2) =
        .ok (dates.map isoDate) ∧ dates.Pairwise CivilDate.Before := by
  have hdays := business_days_partition 240
  refine ⟨hdays.1 leapWeekend.1 _ ⟨by decide, by decide⟩, ?_⟩
  obtain ⟨dates, range, hseries, hsorted, -⟩ :=
    hdays.2.2 leapWeekend.1 leapWeekend.2 ⟨by decide, by decide⟩ ⟨by decide, by decide⟩
      (by unfold CivilDate.Before leapWeekend; dsimp only; omega)
  exact ⟨dates, hseries, hsorted⟩

end SentryPos.Analytics
