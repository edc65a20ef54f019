import Mathlib.Data.Nat.Find
import Mathlib.Order.Interval.Finset.Nat
import Mathlib.Tactic.IntervalCases

/-!
This module contains the Gregorian calendar, extended to all years: the number of a day since the
first of January 1970, and back.
-/

namespace Calendar

def isLeap (y : ℤ) : Bool :=
  y % 4 = 0 && (y % 100 ≠ 0 || y % 400 = 0)

def leapDay (y : ℤ) : ℤ :=
  if isLeap y then 1 else 0

def dayFromYear (y : ℤ) : ℤ :=
  365 * (y - 1970) + (y - 1969) / 4 - (y - 1901) / 100 + (y - 1601) / 400

def monthLengths : List ℤ :=
  [31, 28, 31, 30, 31, 30, 31, 31, 30, 31, 30, 31]

/-- The days of a year before its month `m`, for `m` from 1, in a year of 365 days. -/
def monthOffset (m : ℕ) : ℤ :=
  (monthLengths.take (m - 1)).sum

/-- The days of a year before its month `m`, for `m` from 1. -/
def daysBeforeMonth (y : ℤ) (m : ℕ) : ℤ :=
  monthOffset m + if 2 < m then leapDay y else 0

def daysInMonth (y : ℤ) (m : ℕ) : ℤ :=
  monthLengths.getD (m - 1) 0 + if m = 2 then leapDay y else 0

def yearOfDay (n : ℤ) : ℤ :=
  let r := (n - dayFromYear 2000) % 146097
  let y := 2000 + 400 * ((n - dayFromYear 2000) / 146097) + r / 366
  if dayFromYear (y + 1) ≤ n then y + 1 else y

/-- The month of the day `k` of the year `y`, counted from 0. -/
def monthOfDay (y k : ℤ) : ℕ :=
  Nat.findGreatest (fun m => 1 ≤ m ∧ daysBeforeMonth y m ≤ k) 12

theorem leapDay_cases (y : ℤ) : leapDay y = 0 ∨ leapDay y = 1 := by
  unfold leapDay
  split
  . exact .inr rfl
  . exact .inl rfl

theorem leapDay_eq (y : ℤ)
    : leapDay y = if y % 4 = 0 ∧ (y % 100 ≠ 0 ∨ y % 400 = 0) then 1 else 0 := by
  unfold leapDay isLeap
  simp

theorem dayFromYear_succ (y : ℤ) : dayFromYear (y + 1) = dayFromYear y + 365 + leapDay y := by
  rw [leapDay_eq]
  unfold dayFromYear
  split
  . next h =>
    obtain ⟨h4, h⟩ := h
    omega
  . next h =>
    omega

theorem dayFromYear_mono {y y' : ℤ} (h : y ≤ y') : dayFromYear y ≤ dayFromYear y' := by
  unfold dayFromYear
  omega

theorem dayFromYear_yearOfDay (n : ℤ)
    : dayFromYear (yearOfDay n) ≤ n ∧ n < dayFromYear (yearOfDay n + 1) := by
  unfold yearOfDay
  dsimp only
  split
  . next h =>
    refine ⟨h, ?_⟩
    unfold dayFromYear at *
    omega
  . next h =>
    refine ⟨?_, by omega⟩
    unfold dayFromYear at *
    omega

/-- A date that the calendar has. -/
@[ext]
structure CivilDate where
  year : ℤ
  month : ℕ
  day : ℤ
  month_pos : 1 ≤ month
  month_le : month ≤ 12
  day_pos : 1 ≤ day
  day_le : day ≤ daysInMonth year month
  deriving DecidableEq

theorem monthLengths_bounds (m : ℕ)
    : 0 ≤ monthLengths.getD m 0 ∧ monthLengths.getD m 0 ≤ 31 := by
  by_cases h : m < 12
  . interval_cases m <;> decide
  . have hnone : monthLengths[m]? = none := by
      simpa [monthLengths] using h
    rw [List.getD_eq_getElem?_getD, hnone]
    decide

theorem daysBeforeMonth_succ (y : ℤ) {m : ℕ} (hpos : 1 ≤ m)
    : daysBeforeMonth y (m + 1) = daysBeforeMonth y m + daysInMonth y m := by
  have hoffset : monthOffset (m + 1) = monthOffset m + monthLengths.getD (m - 1) 0 := by
    unfold monthOffset
    rw [Nat.add_sub_cancel, ← Nat.sub_add_cancel hpos, Nat.add_sub_cancel, List.take_add_one,
      List.sum_append, List.getD_eq_getElem?_getD]
    cases monthLengths[m - 1]? <;> simp
  unfold daysBeforeMonth daysInMonth
  split <;> split <;> split <;> omega

theorem daysBeforeMonth_mono (y : ℤ) {m m' : ℕ} (hpos : 1 ≤ m) (h : m ≤ m')
    : daysBeforeMonth y m ≤ daysBeforeMonth y m' := by
  induction m', h using Nat.le_induction with
  | base => exact le_refl _
  | succ n hn ih =>
    have hsucc := daysBeforeMonth_succ y (show 1 ≤ n by omega)
    have hlength := monthLengths_bounds (n - 1)
    have hleap := leapDay_cases y
    unfold daysInMonth at hsucc
    split at hsucc <;> omega

theorem daysBeforeMonth_first (y : ℤ) : daysBeforeMonth y 1 = 0 := by
  simp [daysBeforeMonth, monthOffset]

theorem daysBeforeMonth_end (y : ℤ) : daysBeforeMonth y 13 = 365 + leapDay y := by
  simp [daysBeforeMonth, monthOffset, monthLengths]

theorem monthOfDay_spec (y : ℤ) {k : ℤ} (hpos : 0 ≤ k) (hlt : k < 365 + leapDay y)
    : 1 ≤ monthOfDay y k ∧ monthOfDay y k ≤ 12 ∧ daysBeforeMonth y (monthOfDay y k) ≤ k ∧
        k < daysBeforeMonth y (monthOfDay y k + 1) := by
  have hfirst : 1 ≤ 1 ∧ daysBeforeMonth y 1 ≤ k := by
    rw [daysBeforeMonth_first]
    exact ⟨le_refl 1, hpos⟩
  have hspec := Nat.findGreatest_spec (P := fun m => 1 ≤ m ∧ daysBeforeMonth y m ≤ k)
    (show 1 ≤ 12 by omega) hfirst
  have hle : monthOfDay y k ≤ 12 := Nat.findGreatest_le 12
  refine ⟨hspec.1, hle, hspec.2, ?_⟩
  by_cases hlast : monthOfDay y k = 12
  . rw [hlast, daysBeforeMonth_end]
    exact hlt
  . have hnot := Nat.findGreatest_is_greatest
      (P := fun m => 1 ≤ m ∧ daysBeforeMonth y m ≤ k) (n := 12) (k := monthOfDay y k + 1)
      (Nat.lt_succ_self _) (by omega)
    by_contra hge
    exact hnot ⟨by omega, by omega⟩

namespace CivilDate

/-- Dates in the order of the calendar. -/
def Before (a b : CivilDate) : Prop :=
  a.year < b.year ∨ a.year = b.year ∧ (a.month < b.month ∨ a.month = b.month ∧ a.day < b.day)

def toDay (d : CivilDate) : ℤ :=
  dayFromYear d.year + daysBeforeMonth d.year d.month + d.day - 1

theorem toDay_bounds (d : CivilDate)
    : dayFromYear d.year ≤ d.toDay ∧ d.toDay < dayFromYear (d.year + 1) := by
  have hyear := dayFromYear_succ d.year
  have hstart := daysBeforeMonth_mono d.year (le_refl 1) d.month_pos
  have hend := daysBeforeMonth_mono d.year (show 1 ≤ d.month + 1 by omega)
    (show d.month + 1 ≤ 13 by have := d.month_le; omega)
  have hmonth := daysBeforeMonth_succ d.year d.month_pos
  have hday := d.day_pos
  have hlast := d.day_le
  have hzero := daysBeforeMonth_first d.year
  have hall := daysBeforeMonth_end d.year
  unfold toDay
  omega

theorem toDay_lt {a b : CivilDate} (h : a.Before b) : a.toDay < b.toDay := by
  cases h with
  | inl h =>
    have ha := a.toDay_bounds
    have hb := b.toDay_bounds
    have hyears := dayFromYear_mono (show a.year + 1 ≤ b.year by omega)
    omega
  | inr h =>
    obtain ⟨hyear, h⟩ := h
    unfold toDay
    rw [hyear]
    cases h with
    | inl h =>
      have hmonth := daysBeforeMonth_succ b.year a.month_pos
      have hlater := daysBeforeMonth_mono b.year (show 1 ≤ a.month + 1 by omega)
        (show a.month + 1 ≤ b.month by omega)
      have hday := a.day_le
      have hfirst := b.day_pos
      rw [hyear] at hday
      omega
    | inr h =>
      obtain ⟨hmonth, h⟩ := h
      rw [hmonth]
      omega

theorem before_total (a b : CivilDate) : a.Before b ∨ a = b ∨ b.Before a := by
  unfold Before
  rw [CivilDate.ext_iff]
  omega

theorem toDay_lt_iff {a b : CivilDate} : a.toDay < b.toDay ↔ a.Before b := by
  constructor
  . intro h
    rcases before_total a b with hab | hab | hab
    . exact hab
    . rw [hab] at h
      omega
    . have := toDay_lt hab
      omega
  . exact toDay_lt

theorem toDay_inj {a b : CivilDate} (h : a.toDay = b.toDay) : a = b := by
  rcases before_total a b with hab | hab | hab
  . have := toDay_lt hab
    omega
  . exact hab
  . have := toDay_lt hab
    omega

def ofDay (n : ℤ) : CivilDate :=
  have hyear := dayFromYear_yearOfDay n
  have hsucc := dayFromYear_succ (yearOfDay n)
  have hmonth := monthOfDay_spec (yearOfDay n) (k := n - dayFromYear (yearOfDay n)) (by omega)
    (by omega)
  have hnext := daysBeforeMonth_succ (yearOfDay n) hmonth.1
  {
    year := yearOfDay n
    month := monthOfDay (yearOfDay n) (n - dayFromYear (yearOfDay n))
    day := n - dayFromYear (yearOfDay n)
      - daysBeforeMonth (yearOfDay n) (monthOfDay (yearOfDay n) (n - dayFromYear (yearOfDay n))) + 1
    month_pos := hmonth.1
    month_le := hmonth.2.1
    day_pos := by omega
    day_le := by omega
  }

@[simp]
theorem toDay_ofDay (n : ℤ) : (ofDay n).toDay = n := by
  unfold ofDay toDay
  dsimp only
  omega

@[simp]
theorem ofDay_toDay (d : CivilDate) : ofDay d.toDay = d := by
  apply toDay_inj
  rw [toDay_ofDay]

theorem year_le_of_toDay {a b : CivilDate} (h : a.toDay ≤ b.toDay) : a.year ≤ b.year := by
  by_contra hlt
  have hbefore : b.Before a := .inl (by omega)
  have := toDay_lt hbefore
  omega

theorem year_ofDay_succ (d : CivilDate)
    : d.year ≤ (ofDay (d.toDay + 1)).year ∧ (ofDay (d.toDay + 1)).year ≤ d.year + 1 := by
  constructor
  . apply year_le_of_toDay
    rw [toDay_ofDay]
    omega
  . have hbounds := (ofDay (d.toDay + 1)).toDay_bounds
    have hd := d.toDay_bounds
    rw [toDay_ofDay] at hbounds
    by_contra hlt
    have hmono := dayFromYear_mono (show d.year + 1 + 1 ≤ (ofDay (d.toDay + 1)).year by omega)
    have hsucc := dayFromYear_succ (d.year + 1)
    have hleap := leapDay_cases (d.year + 1)
    omega

theorem not_before_iff {a b : CivilDate} : ¬a.Before b ↔ b.toDay ≤ a.toDay := by
  rw [← toDay_lt_iff]
  omega

/-- The dates from `a` to `b`, both inclusive. -/
def upTo (a b : CivilDate) : List CivilDate :=
  (List.range (b.toDay + 1 - a.toDay).toNat).map fun (i : ℕ) => ofDay (a.toDay + i)

theorem mem_upTo {a b d : CivilDate} : d ∈ upTo a b ↔ ¬d.Before a ∧ ¬b.Before d := by
  unfold upTo
  rw [not_before_iff, not_before_iff, List.mem_map]
  constructor
  . rintro ⟨i, hi, rfl⟩
    rw [List.mem_range] at hi
    rw [toDay_ofDay]
    omega
  . intro h
    refine ⟨(d.toDay - a.toDay).toNat, ?_, ?_⟩
    . rw [List.mem_range]
      omega
    . rw [Int.toNat_of_nonneg (by omega), add_sub_cancel, ofDay_toDay]

theorem year_of_mem_upTo {a b d : CivilDate} (h : d ∈ upTo a b)
    : a.year ≤ d.year ∧ d.year ≤ b.year := by
  rw [mem_upTo, not_before_iff, not_before_iff] at h
  exact ⟨year_le_of_toDay h.1, year_le_of_toDay h.2⟩

theorem pairwise_upTo (a b : CivilDate) : (upTo a b).Pairwise Before := by
  unfold upTo
  rw [List.pairwise_map]
  refine List.pairwise_lt_range.imp ?_
  intro i j hij
  rw [← toDay_lt_iff, toDay_ofDay, toDay_ofDay]
  omega

end CivilDate

def makeDay (year month day : ℤ) : ℤ :=
  let y := year + month / 12
  dayFromYear y + daysBeforeMonth y ((month % 12).toNat + 1) + day - 1

theorem makeDay_date (d : CivilDate) : makeDay d.year (d.month - 1) d.day = d.toDay := by
  have hpos := d.month_pos
  have hle := d.month_le
  have hquot : ((d.month : ℤ) - 1) / 12 = 0 := by omega
  have hmod : (((d.month : ℤ) - 1) % 12).toNat + 1 = d.month := by omega
  unfold makeDay CivilDate.toDay
  dsimp only
  rw [hquot, hmod, add_zero]

end Calendar
