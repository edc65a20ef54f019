import SentryPos.Calendar
import SentryPos.Js.Text

/-!
This module contains JavaScript dates as milliseconds since the epoch: `Date.UTC` and `toISOString`,
for the instants that a `Date` can hold.
-/

namespace JsDate

open Calendar

def DAY_MS : ℤ := 86400000

/-- The day of a `Date.UTC`, which takes the years from 0 to 99 for those of the twentieth century. -/
def utcDay (year month date : ℤ) : ℤ :=
  makeDay (if 0 ≤ year ∧ year ≤ 99 then 1900 + year else year) month date

def UTC (year month date hours minutes : ℤ) : ℤ :=
  utcDay year month date * DAY_MS + (hours * 60 + minutes) * 60000

def digit (n : ℕ) : Char :=
  Char.ofNat (48 + n % 10)

def pad2 (n : ℕ) : List Char :=
  [digit (n / 10), digit n]

def pad3 (n : ℕ) : List Char :=
  digit (n / 100) :: pad2 n

def pad4 (n : ℕ) : List Char :=
  digit (n / 1000) :: pad3 n

def pad6 (n : ℕ) : List Char :=
  digit (n / 100000) :: digit (n / 10000) :: pad4 n

def isoYear (y : ℤ) : List Char :=
  if 0 ≤ y ∧ y ≤ 9999 then pad4 y.toNat
  else if y < 0 then '-' :: pad6 (-y).toNat
  else '+' :: pad6 y.toNat

def isoDate (d : CivilDate) : List Char :=
  isoYear d.year ++ '-' :: pad2 d.month ++ '-' :: pad2 d.day.toNat

def toISOString (t : ℤ) : List Char :=
  let ms := (t % DAY_MS).toNat
  isoDate (.ofDay (t / DAY_MS)) ++ 'T' :: pad2 (ms / 3600000) ++ ':' :: pad2 (ms / 60000 % 60)
    ++ ':' :: pad2 (ms / 1000 % 60) ++ '.' :: pad3 (ms % 1000) ++ ['Z']

def isDigit (c : Char) : Bool :=
  48 ≤ c.toNat && c.toNat ≤ 57

/-- The numbers in `YYYY-MM-DD`, as the regular expression of digits and dashes finds them. -/
def parseDigits (s : List Char) : Option (ℕ × ℕ × ℕ) :=
  match s with
  | [y₁, y₂, y₃, y₄, '-', m₁, m₂, '-', d₁, d₂] =>
    if [y₁, y₂, y₃, y₄, m₁, m₂, d₁, d₂].all isDigit then
      some (JsString.parseDigits [y₁, y₂, y₃, y₄], JsString.parseDigits [m₁, m₂],
        JsString.parseDigits [d₁, d₂])
    else
      none
  | _ => none

theorem toNat_digit (n : ℕ) : (digit n).toNat = 48 + n % 10 := by
  unfold digit
  have hlt := Nat.mod_lt n (show 0 < 10 by omega)
  generalize n % 10 = k at hlt
  interval_cases k <;> rfl

theorem isDigit_digit (n : ℕ) : isDigit (digit n) := by
  unfold isDigit
  rw [toNat_digit]
  simp
  omega

theorem digit_of_isDigit {c : Char} (h : isDigit c) : digit (c.toNat - 48) = c := by
  unfold isDigit at h
  simp only [Bool.and_eq_true, decide_eq_true_eq] at h
  unfold digit
  have hmod : 48 + (c.toNat - 48) % 10 = c.toNat := by
    omega
  rw [hmod, Char.ofNat_toNat]

theorem parse_pad2 {n : ℕ} (h : n < 100) : JsString.parseDigits (pad2 n) = n := by
  simp only [JsString.parseDigits, pad2, List.foldl_cons, List.foldl_nil, toNat_digit]
  have hzero : '0'.toNat = 48 := rfl
  omega

theorem parse_pad4 {n : ℕ} (h : n < 10000) : JsString.parseDigits (pad4 n) = n := by
  simp only [JsString.parseDigits, pad4, pad3, pad2, List.foldl_cons, List.foldl_nil, toNat_digit]
  have hzero : '0'.toNat = 48 := rfl
  omega

theorem pad2_parse {a b : Char} (ha : isDigit a) (hb : isDigit b)
    : pad2 (JsString.parseDigits [a, b]) = [a, b] ∧ JsString.parseDigits [a, b] < 100 := by
  have ha' := digit_of_isDigit ha
  have hb' := digit_of_isDigit hb
  have hzero : '0'.toNat = 48 := rfl
  unfold isDigit at ha hb
  simp only [Bool.and_eq_true, decide_eq_true_eq] at ha hb
  simp only [JsString.parseDigits, List.foldl_cons, List.foldl_nil, hzero]
  refine ⟨?_, by omega⟩
  unfold pad2 digit at *
  have h1 : 48 + (10 * (10 * 0 + (a.toNat - 48)) + (b.toNat - 48)) / 10 % 10 =
      48 + (a.toNat - 48) % 10 := by
    omega
  have h2 : 48 + (10 * (10 * 0 + (a.toNat - 48)) + (b.toNat - 48)) % 10 =
      48 + (b.toNat - 48) % 10 := by
    omega
  rw [h1, h2, ha', hb']

theorem daysInMonth_le (y : ℤ) (m : ℕ) : daysInMonth y m ≤ 31 := by
  have hleap := leapDay_cases y
  unfold daysInMonth
  by_cases hm : m = 2
  . subst hm
    simp only [monthLengths, if_pos]
    norm_num
    omega
  . have hlength := monthLengths_bounds (m - 1)
    rw [if_neg hm]
    omega

theorem isoYear_four {y : ℤ} (hpos : 0 ≤ y) (hle : y ≤ 9999) : isoYear y = pad4 y.toNat := by
  unfold isoYear
  rw [if_pos ⟨hpos, hle⟩]

theorem parseDigits_isoDate {d : CivilDate} (hpos : 0 ≤ d.year) (hle : d.year ≤ 9999)
    : parseDigits (isoDate d) = some (d.year.toNat, d.month, d.day.toNat) := by
  have hmonth := d.month_le
  have hday := d.day_le
  have hlast := daysInMonth_le d.year d.month
  have hy := parse_pad4 (show d.year.toNat < 10000 by omega)
  have hm := parse_pad2 (show d.month < 100 by omega)
  have hd := parse_pad2 (show d.day.toNat < 100 by omega)
  simp only [pad2, pad3, pad4] at hy hm hd
  unfold isoDate
  rw [isoYear_four hpos hle]
  simp only [pad2, pad3, pad4, List.cons_append, List.nil_append, parseDigits, List.all_cons,
    isDigit_digit, List.all_nil, Bool.and_self, if_true, hy, hm, hd]

theorem isoDate_inj {d d' : CivilDate} (hpos : 0 ≤ d.year) (hle : d.year ≤ 9999)
    (hpos' : 0 ≤ d'.year) (hle' : d'.year ≤ 9999) (h : isoDate d = isoDate d') : d = d' := by
  have hparts := parseDigits_isoDate hpos hle
  rw [h, parseDigits_isoDate hpos' hle', Option.some.injEq, Prod.mk.injEq, Prod.mk.injEq] at hparts
  obtain ⟨hyear, hmonth, hday⟩ := hparts
  have hfirst := d.day_pos
  have hfirst' := d'.day_pos
  apply CivilDate.ext
  . omega
  . exact hmonth.symm
  . omega

theorem length_isoDate {d : CivilDate} (hpos : 0 ≤ d.year) (hle : d.year ≤ 9999)
    : (isoDate d).length = 10 := by
  unfold isoDate
  rw [isoYear_four hpos hle]
  rfl

theorem le_length_isoDate (d : CivilDate) : 10 ≤ (isoDate d).length := by
  unfold isoDate isoYear
  split
  . exact le_refl 10
  . split
    . exact Nat.le_add_right 10 3
    . exact Nat.le_add_right 10 3

theorem take_toISOString (t : ℤ)
    : (toISOString t).take 10 = (isoDate (.ofDay (t / DAY_MS))).take 10 := by
  unfold toISOString
  simp only [List.append_assoc]
  exact List.take_append_of_le_length (le_length_isoDate _)

theorem year_of_take_isoDate {d d' : CivilDate} (hpos : 0 ≤ d.year) (hle : d.year ≤ 9999)
    (h : (isoDate d').take 10 = isoDate d) : 0 ≤ d'.year ∧ d'.year ≤ 9999 := by
  by_contra hout
  have hdigit (n : ℕ) : digit n ≠ '-' ∧ digit n ≠ '+' := by
    have := toNat_digit n
    constructor
    . intro heq
      rw [heq, show '-'.toNat = 45 from rfl] at this
      omega
    . intro heq
      rw [heq, show '+'.toNat = 43 from rfl] at this
      omega
  unfold isoDate at h
  rw [isoYear_four hpos hle] at h
  unfold isoYear at h
  rw [if_neg hout] at h
  split at h
  . simp only [pad4, List.cons_append, List.take_succ_cons, List.cons.injEq] at h
    exact (hdigit _).1 h.1.symm
  . simp only [pad4, List.cons_append, List.take_succ_cons, List.cons.injEq] at h
    exact (hdigit _).2 h.1.symm

/-- The first ten characters of an instant are those of a date exactly when it is its date. -/
theorem take_toISOString_iff {d : CivilDate} (hpos : 0 ≤ d.year) (hle : d.year ≤ 9999) (t : ℤ)
    : (toISOString t).take 10 = isoDate d ↔ t / DAY_MS = d.toDay := by
  rw [take_toISOString]
  constructor
  . intro h
    have hyear := year_of_take_isoDate hpos hle h
    rw [List.take_of_length_le (length_isoDate hyear.1 hyear.2).le] at h
    rw [← isoDate_inj hyear.1 hyear.2 hpos hle h, CivilDate.toDay_ofDay]
  . intro h
    rw [h, CivilDate.ofDay_toDay, List.take_of_length_le (length_isoDate hpos hle).le]

theorem utcDay_date {d : CivilDate} (hge : 100 ≤ d.year)
    : utcDay d.year (d.month - 1) d.day = d.toDay := by
  unfold utcDay
  rw [if_neg (by omega), makeDay_date]

theorem utcDay_century {d : CivilDate} (hpos : 0 ≤ d.year) (hlt : d.year < 100)
    : utcDay d.year (d.month - 1) d.day
        =
      dayFromYear (1900 + d.year) + daysBeforeMonth (1900 + d.year) d.month + d.day - 1 := by
  have hmonth : (((d.month : ℤ) - 1) % 12).toNat + 1 = d.month := by
    have := d.month_pos
    have := d.month_le
    omega
  have hquot : ((d.month : ℤ) - 1) / 12 = 0 := by
    have := d.month_pos
    have := d.month_le
    omega
  unfold utcDay makeDay
  rw [if_pos (by omega)]
  dsimp only
  rw [hmonth, hquot, add_zero]

theorem utcDay_lt_100 {d : CivilDate} (hpos : 0 ≤ d.year) (hlt : d.year < 100)
    : d.toDay < utcDay d.year (d.month - 1) d.day := by
  have hbounds := d.toDay_bounds
  have hyears := dayFromYear_mono (show d.year + 1 ≤ 1900 + d.year by omega)
  have hstart := daysBeforeMonth_mono (1900 + d.year) (le_refl 1) d.month_pos
  have hzero := daysBeforeMonth_first (1900 + d.year)
  have hday := d.day_pos
  rw [utcDay_century hpos hlt]
  omega

theorem utcDay_bounds {d : CivilDate} (hpos : 0 ≤ d.year) (hlt : d.year < 100)
    : dayFromYear 1900 ≤ utcDay d.year (d.month - 1) d.day
        ∧ utcDay d.year (d.month - 1) d.day < dayFromYear 2001 := by
  have hfirst := dayFromYear_mono (show 1900 ≤ 1900 + d.year by omega)
  have hlast := dayFromYear_mono (show 1900 + d.year ≤ 1999 by omega)
  have hstart := daysBeforeMonth_mono (1900 + d.year) (le_refl 1) d.month_pos
  have hend := daysBeforeMonth_mono (1900 + d.year) d.month_pos
    (show d.month ≤ 13 by have := d.month_le; omega)
  have hzero := daysBeforeMonth_first (1900 + d.year)
  have hall := daysBeforeMonth_end (1900 + d.year)
  have hleap := leapDay_cases (1900 + d.year)
  have hdays : daysInMonth d.year d.month ≤ 32 := by
    have hlength := monthLengths_bounds (d.month - 1)
    have := leapDay_cases d.year
    unfold daysInMonth
    split <;> omega
  have := d.day_pos
  have := d.day_le
  rw [utcDay_century hpos hlt]
  unfold dayFromYear at hlast ⊢
  unfold dayFromYear at hfirst
  omega

end JsDate
