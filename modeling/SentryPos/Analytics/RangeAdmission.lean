import SentryPos.Analytics.Scope

/-!
This module contains which ranges of dates the scope of a report admits.
-/

namespace SentryPos.Analytics

open Calendar JsDate

/-- The business days of a scope are the dates of the calendar between the two that it echoes. -/
def ResolvedScope.Faithful (scope : ResolvedScope) : Prop :=
  ∃ first last : CivilDate, scope.fromDate = isoDate first ∧ scope.toDate = isoDate last ∧
    ¬last.Before first ∧
    businessDaySeries scope.fromDate scope.toDate = .ok ((first.upTo last).map isoDate) ∧
    scope.dayCount = (first.upTo last).length ∧ scope.dayCount ≤ MAX_RANGE_DAYS ∧
    ∀ b ∈ scope.businesses, ∀ t, b.fromUtc ≤ t ∧ t < b.toUtc ↔
      ∃ d ∈ first.upTo last, businessDayOf t b.dayStartMinutes = isoDate d

/-- A request is refused, or its scope has the days it was asked for. -/
def RangeAdmitted : Except ApiError ResolvedScope → Prop
  | .error (.validationFailed _) => True
  | .error (.notFound _) => True
  | .error (.internal _) => False
  | .ok scope => scope.Faithful

/-- The text is a date of the calendar, from the year 100 on. -/
def RealDate (s : List Char) : Prop :=
  ∃ d : CivilDate, 100 ≤ d.year ∧ d.year ≤ 9999 ∧ s = isoDate d

/-- The text is a date of the calendar, which JavaScript may read as one of the twentieth century. -/
def CalendarDate (s : List Char) : Prop :=
  ∃ d : CivilDate, s = isoDate d

/-- What else the request is refused for: its ids, or the days that its dates roll over to. -/
inductive Refused (db : Database) (ownerId : Uuid) (query : AnalyticsQueryDto) : Prop where
  | branchAlone (hbranch : query.branchId.isSome) (hbusiness : query.businessId.isNone)
  | reversed {m n : ℤ} (hfrom : dayOf query.fromDate = some m) (hto : dayOf query.toDate = some n)
      (hlt : n < m)
  | tooLong {m n : ℤ} (hfrom : dayOf query.fromDate = some m) (hto : dayOf query.toDate = some n)
      (hlong : m + 366 ≤ n)
  | noBusiness (h : db.scopeBusinesses ownerId query = [])
  | noBranch (hbranch : query.branchId.isSome) (h : db.scopeBranches ownerId query = [])

theorem length_of_parseDigits {s : List Char} (h : (parseDigits s).isSome) : s.length = 10 := by
  unfold parseDigits at h
  split at h
  . rfl
  . cases h

theorem year_of_parseDigits {d : CivilDate} (h : (parseDigits (isoDate d)).isSome)
    : 0 ≤ d.year ∧ d.year ≤ 9999 := by
  have hlength := length_of_parseDigits h
  by_contra hout
  unfold isoDate isoYear at hlength
  rw [if_neg hout] at hlength
  split at hlength <;> cases hlength

theorem RealDate.calendarDate {s : List Char} (h : RealDate s) : CalendarDate s := by
  obtain ⟨d, _, _, hd⟩ := h
  exact ⟨d, hd⟩

theorem CalendarDate.year_dayOf {s : List Char} (h : CalendarDate s) {n : ℤ} (hn : dayOf s = some n)
    : 100 ≤ (CivilDate.ofDay n).year ∧ (CivilDate.ofDay n).year ≤ 9999 := by
  obtain ⟨d, rfl⟩ := h
  have hparsed : (parseDigits (isoDate d)).isSome := by
    unfold dayOf at hn
    obtain ⟨parts, hparts, _⟩ := Option.map_eq_some_iff.mp hn
    exact Option.isSome_iff_exists.mpr ⟨parts, hparts⟩
  have hyear := year_of_parseDigits hparsed
  by_cases hge : 100 ≤ d.year
  . rw [dayOf_isoDate hge hyear.2, Option.some.injEq] at hn
    rw [← hn, CivilDate.ofDay_toDay]
    exact ⟨hge, hyear.2⟩
  . have hyear' : (d.year.toNat : ℤ) = d.year := Int.toNat_of_nonneg hyear.1
    have hday' : (d.day.toNat : ℤ) = d.day := Int.toNat_of_nonneg (by have := d.day_pos; omega)
    have hbounds := utcDay_bounds hyear.1 (show d.year < 100 by omega)
    have hn' := (CivilDate.ofDay n).toDay_bounds
    unfold dayOf at hn
    rw [parseDigits_isoDate hyear.1 hyear.2, Option.map_some] at hn
    dsimp only at hn
    rw [hyear', hday', Option.some.injEq] at hn
    rw [hn] at hbounds
    rw [CivilDate.toDay_ofDay] at hn'
    -- A year out of the bounds would put the day out of those of the twentieth century.
    constructor
    . by_contra hlow
      have hmono := dayFromYear_mono (show (CivilDate.ofDay n).year + 1 ≤ 1900 by omega)
      omega
    . by_contra hhigh
      have hmono := dayFromYear_mono (show 2001 ≤ (CivilDate.ofDay n).year by omega)
      omega

theorem realDate_of_dayText {date : List Char} {n : ℤ} (hmatches : (parseDigits date).isSome)
    (hday : dayOf date = some n) {d : CivilDate} (hdate : date = isoDate d)
    (htext : dayText n = isoDate d) : RealDate date := by
  rw [hdate] at hmatches
  have hyear := year_of_parseDigits hmatches
  refine ⟨d, ?_, hyear.2, hdate⟩
  by_contra hlt
  rw [dayText_iff hyear.1 hyear.2] at htext
  have hyear' : (d.year.toNat : ℤ) = d.year := Int.toNat_of_nonneg hyear.1
  have hday' : (d.day.toNat : ℤ) = d.day := Int.toNat_of_nonneg (by have := d.day_pos; omega)
  have hroll := utcDay_lt_100 hyear.1 (show d.year < 100 by omega)
  unfold dayOf at hday
  rw [hdate, parseDigits_isoDate hyear.1 hyear.2, Option.map_some] at hday
  dsimp only at hday
  rw [hyear', hday', Option.some.injEq] at hday
  omega

/-- The days that are the texts of the dates from one to another start and end with these two. -/
theorem realDates_of_series {query : AnalyticsQueryDto} {m n : ℤ}
    (hm : dayOf query.fromDate = some m) (hn : dayOf query.toDate = some n) (hle : m ≤ n)
    {first last : CivilDate} (hfirst : query.fromDate = isoDate first)
    (hlast : query.toDate = isoDate last) (hnot : ¬last.Before first)
    (hseries : businessDaySeries query.fromDate query.toDate =
      .ok ((first.upTo last).map isoDate))
    : RealDate query.fromDate ∧ RealDate query.toDate := by
  rw [CivilDate.not_before_iff] at hnot
  rw [businessDaySeries_of_dayOf hm hn, if_neg (by omega), Except.ok.injEq] at hseries
  unfold CivilDate.upTo at hseries
  rw [List.map_map] at hseries
  have hlength := congrArg List.length hseries
  simp only [List.length_map, List.length_range] at hlength
  have hday (i : ℕ) (hi : i < (n + 1 - m).toNat)
      : dayText (m + i) = isoDate (.ofDay (first.toDay + i)) := by
    have h := congrArg (·[i]?) hseries
    simp only [List.getElem?_map] at h
    rw [List.getElem?_range hi, List.getElem?_range (by omega), Option.map_some, Option.map_some,
      Option.some.injEq] at h
    exact h
  constructor
  . have h := hday 0 (by omega)
    rw [Nat.cast_zero, add_zero, add_zero, CivilDate.ofDay_toDay] at h
    exact realDate_of_dayText query.from_matches hm hfirst h
  . have h := hday (n - m).toNat (by omega)
    rw [show m + (n - m).toNat = n by omega,
      show first.toDay + (n - m).toNat = last.toDay by omega, CivilDate.ofDay_toDay] at h
    exact realDate_of_dayText query.to_matches hn hlast h

theorem exists_businessDayOf_iff {first last : CivilDate} (hge : 100 ≤ first.year)
    (hle : last.year ≤ 9999) {t s : ℤ}
    : (∃ d ∈ first.upTo last, businessDayOf t s = isoDate d) ↔
        first.toDay ≤ dayBucket t s ∧ dayBucket t s ≤ last.toDay := by
  constructor
  . rintro ⟨d, hd, htext⟩
    have hyears := CivilDate.year_of_mem_upTo hd
    rw [businessDayOf_eq, dayText_iff (by omega) (by omega)] at htext
    rw [CivilDate.mem_upTo, CivilDate.not_before_iff, CivilDate.not_before_iff] at hd
    omega
  . intro h
    have hmem : CivilDate.ofDay (dayBucket t s) ∈ first.upTo last := by
      rw [CivilDate.mem_upTo, CivilDate.not_before_iff, CivilDate.not_before_iff,
        CivilDate.toDay_ofDay]
      exact h
    have hyears := CivilDate.year_of_mem_upTo hmem
    refine ⟨_, hmem, ?_⟩
    rw [businessDayOf_eq, dayText_iff (by omega) (by omega), CivilDate.toDay_ofDay]

theorem faithful_scopeOf {db : Database} {ownerId : Uuid} {query : AnalyticsQueryDto}
    (hfrom : RealDate query.fromDate) (hto : RealDate query.toDate) {m n : ℤ}
    (hm : dayOf query.fromDate = some m) (hn : dayOf query.toDate = some n) (hle : m ≤ n)
    (hshort : n < m + 366) : (scopeOf db ownerId query m n).Faithful := by
  obtain ⟨first, hge, hfirst, hfrom⟩ := hfrom
  obtain ⟨last, hge', hlast, hto⟩ := hto
  have hm' := dayOf_isoDate hge hfirst
  have hn' := dayOf_isoDate hge' hlast
  rw [← hfrom, hm, Option.some.injEq] at hm'
  rw [← hto, hn, Option.some.injEq] at hn'
  have hnot : ¬last.Before first := by
    rw [CivilDate.not_before_iff]
    omega
  have hcount : (scopeOf db ownerId query m n).dayCount = (first.upTo last).length := by
    unfold scopeOf CivilDate.upTo
    simp only [List.length_map, List.length_range]
    rw [hm', hn']
  refine ⟨first, last, hfrom, hto, hnot, ?_, hcount, ?_, ?_⟩
  . show businessDaySeries query.fromDate query.toDate = _
    rw [hfrom, hto]
    exact businessDaySeries_isoDate hge hlast hnot
  . show (n + 1 - m).toNat ≤ MAX_RANGE_DAYS
    unfold MAX_RANGE_DAYS
    omega
  . intro b hb t
    obtain ⟨x, -, rfl⟩ := List.mem_map.mp hb
    rw [mem_windowsOf, hm', hn', ← exists_businessDayOf_iff hge hlast]
    rfl

theorem range_admission_iff (db : Database) (ownerId : Uuid) (query : AnalyticsQueryDto)
    : RangeAdmitted (resolve db ownerId query) ↔
        RealDate query.fromDate ∧ RealDate query.toDate ∨ Refused db ownerId query := by
  obtain ⟨m, hm⟩ := dayOf_of_isSome query.from_matches
  obtain ⟨n, hn⟩ := dayOf_of_isSome query.to_matches
  rw [resolve_eq db ownerId hm hn]
  split
  . next h =>
    rw [Bool.and_eq_true] at h
    exact iff_of_true trivial (.inr (.branchAlone h.1 h.2))
  . next hids =>
    split
    . next h => exact iff_of_true trivial (.inr (.reversed hm hn h))
    . next hle =>
      split
      . next h => exact iff_of_true trivial (.inr (.tooLong hm hn (by omega)))
      . next hshort =>
        split
        . next h => exact iff_of_true trivial (.inr (.noBusiness (List.isEmpty_iff.mp h)))
        . next hbusiness =>
          split
          . next h =>
            rw [Bool.and_eq_true, List.isEmpty_iff] at h
            exact iff_of_true trivial (.inr (.noBranch h.1 h.2))
          . next hbranch =>
            constructor
            . rintro ⟨first, last, hfirst, hlast, hnot, hseries, -⟩
              exact .inl (realDates_of_series hm hn (by omega) hfirst hlast hnot hseries)
            . rintro (⟨hfrom, hto⟩ | hrefused)
              . exact faithful_scopeOf hfrom hto hm hn (by omega) (by omega)
              . exfalso
                cases hrefused with
                | branchAlone h h' => exact hids (by rw [h, h']; rfl)
                | reversed hfrom hto h =>
                  cases hm.symm.trans hfrom
                  cases hn.symm.trans hto
                  omega
                | tooLong hfrom hto h =>
                  cases hm.symm.trans hfrom
                  cases hn.symm.trans hto
                  omega
                | noBusiness h => exact hbusiness (List.isEmpty_iff.mpr h)
                | noBranch h h' => exact hbranch (by rw [h, h']; rfl)

namespace Cafe

theorem parseDigits_march : (parseDigits ['2', '0', '2', '6', '-', '0', '3', '-', '0', '5']).isSome := by
  decide

/-- From the 31st of February to the 5th of March. -/
def february : AnalyticsQueryDto where
  businessId := none
  branchId := none
  fromDate := ['2', '0', '2', '6', '-', '0', '2', '-', '3', '1']
  toDate := ['2', '0', '2', '6', '-', '0', '3', '-', '0', '5']
  from_matches := by decide
  to_matches := parseDigits_march

theorem february_not_real : ¬RealDate february.fromDate := by
  rintro ⟨d, hge, hle, hdate⟩
  have hparts := parseDigits_isoDate (show 0 ≤ d.year by omega) hle
  rw [← hdate, show parseDigits february.fromDate = some (2026, 2, 31) by decide,
    Option.some.injEq, Prod.mk.injEq, Prod.mk.injEq] at hparts
  obtain ⟨hyear, hmonth, hday⟩ := hparts
  have hlast := d.day_le
  rw [← hmonth, show d.year = 2026 by omega, show daysInMonth 2026 2 = 28 by decide] at hlast
  omega

theorem february_shifted : ¬RangeAdmitted (resolve database 1 february) := by
  have hm : dayOf february.fromDate = some 20515 := by decide
  have hn : dayOf february.toDate = some 20517 := by decide
  rw [resolve_eq database 1 hm hn, if_neg (by decide), if_neg (by decide), if_neg (by decide),
    if_neg (by decide), if_neg (by decide)]
  rintro ⟨first, last, hfirst, hlast, hnot, hseries, -⟩
  exact february_not_real (realDates_of_series hm hn (by decide) hfirst hlast hnot hseries).1

end Cafe

end SentryPos.Analytics
