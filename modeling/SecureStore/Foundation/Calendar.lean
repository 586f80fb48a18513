/-
# The calendar

Days are numbered from the first of January 1970. A date of the Gregorian calendar has a year, a
month and a day; a day number determines its year and its day of the week. A week runs from
Monday to Sunday and belongs to the year that has its Thursday; the first week of a year is the
one with the fourth of January.
-/

import Mathlib

namespace SecureStore.Foundation

/-! ## Years and months -/

def IsLeapYear (year : ℕ) : Prop := year % 4 = 0 ∧ (year % 100 ≠ 0 ∨ year % 400 = 0)

instance : DecidablePred IsLeapYear := fun _ => instDecidableAnd

def yearLength (year : ℕ) : ℕ := if IsLeapYear year then 366 else 365

def monthLength (year month : ℕ) : ℕ :=
  if month = 2 then if IsLeapYear year then 29 else 28
  else if month ∈ [4, 6, 9, 11] then 30 else 31

/-- The days of the first months of a year. -/
def daysOfMonths (year : ℕ) : ℕ → ℕ
  | 0 => 0
  | month + 1 => daysOfMonths year month + monthLength year (month + 1)

/-- The number of the first day of a year. -/
def dayFromYear (year : ℕ) : ℤ :=
  365 * (year - 1970) + (year - 1969) / 4 - (year - 1901) / 100 + (year - 1601) / 400

theorem dayFromYear_succ (year : ℕ) :
    dayFromYear (year + 1) = dayFromYear year + yearLength year := by
  unfold dayFromYear yearLength
  by_cases h : IsLeapYear year
  · rw [if_pos h]
    unfold IsLeapYear at h
    omega
  · rw [if_neg h]
    unfold IsLeapYear at h
    omega

theorem dayFromYear_strictMono : StrictMono dayFromYear := by
  refine strictMono_nat_of_lt_succ fun year => ?_
  rw [dayFromYear_succ]
  unfold yearLength
  split
  · omega
  · omega

theorem daysOfMonths_mono (year : ℕ) : Monotone (daysOfMonths year) :=
  monotone_nat_of_le_succ fun _ => Nat.le_add_right _ _

/-- The twelve months make up the year. -/
theorem daysOfMonths_twelve (year : ℕ) : daysOfMonths year 12 = yearLength year := by
  unfold yearLength
  by_cases h : IsLeapYear year <;> simp [daysOfMonths, monthLength, h]

/-! ## Dates -/

structure CalendarDate where
  year : ℕ
  month : ℕ
  day : ℕ
  month_pos : 1 ≤ month
  month_le : month ≤ 12
  day_pos : 1 ≤ day
  day_le : day ≤ monthLength year month
  deriving DecidableEq

namespace CalendarDate

variable {d e : CalendarDate}

/-- The days of the year before a date. -/
def dayOfYear (d : CalendarDate) : ℕ := daysOfMonths d.year (d.month - 1) + (d.day - 1)

def dayNumber (d : CalendarDate) : ℤ := dayFromYear d.year + d.dayOfYear

/-- A date comes before the end of its month. -/
theorem dayOfYear_lt_month (d : CalendarDate) : d.dayOfYear < daysOfMonths d.year d.month := by
  have hstep : daysOfMonths d.year (d.month - 1 + 1) =
      daysOfMonths d.year (d.month - 1) + monthLength d.year (d.month - 1 + 1) := rfl
  rw [Nat.sub_add_cancel d.month_pos] at hstep
  have hday := d.day_le
  have hpos := d.day_pos
  unfold dayOfYear
  omega

theorem dayOfYear_lt (d : CalendarDate) : d.dayOfYear < yearLength d.year := by
  rw [← daysOfMonths_twelve]
  exact d.dayOfYear_lt_month.trans_le (daysOfMonths_mono d.year d.month_le)

theorem dayFromYear_le (d : CalendarDate) : dayFromYear d.year ≤ d.dayNumber :=
  Int.le_add_of_nonneg_right (Int.natCast_nonneg _)

theorem dayNumber_lt_year (d : CalendarDate) : d.dayNumber < dayFromYear (d.year + 1) := by
  have hday := d.dayOfYear_lt
  rw [dayFromYear_succ]
  unfold dayNumber
  omega

/-- Dates that are not later have years, months and days that are not later. -/
theorem le_of_dayNumber_le (h : d.dayNumber ≤ e.dayNumber) :
    d.year < e.year ∨ d.year = e.year ∧
      (d.month < e.month ∨ d.month = e.month ∧ d.day ≤ e.day) := by
  rcases Nat.lt_trichotomy d.year e.year with hyear | hyear | hyear
  · exact .inl hyear
  · refine .inr ⟨hyear, ?_⟩
    have hdays : d.dayOfYear ≤ e.dayOfYear := by
      unfold dayNumber at h
      rw [hyear] at h
      omega
    rcases Nat.lt_trichotomy d.month e.month with hmonth | hmonth | hmonth
    · exact .inl hmonth
    · refine .inr ⟨hmonth, ?_⟩
      have hpos := d.day_pos
      have hpos' := e.day_pos
      unfold dayOfYear at hdays
      rw [hyear, hmonth] at hdays
      omega
    · exfalso
      have hbefore : e.dayOfYear < daysOfMonths e.year (d.month - 1) :=
        e.dayOfYear_lt_month.trans_le (daysOfMonths_mono e.year (by omega))
      have hafter : daysOfMonths e.year (d.month - 1) ≤ d.dayOfYear := by
        rw [← hyear]
        exact Nat.le_add_right _ _
      omega
  · exfalso
    have hbefore : e.dayNumber < dayFromYear d.year :=
      e.dayNumber_lt_year.trans_le (dayFromYear_strictMono.monotone hyear)
    have hafter := d.dayFromYear_le
    omega

end CalendarDate

/-! ## Day numbers -/

/-- The day of the week, from Sunday. -/
def weekDay (n : ℤ) : ℤ := (n + 4) % 7

/-- The last year that has begun by a day. -/
def yearFromDay (n : ℤ) : ℕ :=
  Nat.findGreatest (fun year => dayFromYear year ≤ n) (n / 365 + 1973).toNat

theorem yearFromDay_eq {year : ℕ} {n : ℤ} (hfrom : dayFromYear year ≤ n)
    (huntil : n < dayFromYear (year + 1)) : yearFromDay n = year := by
  refine Nat.findGreatest_eq_iff.mpr ⟨?_, fun _ => hfrom, fun later hlater _ hle => ?_⟩
  · unfold dayFromYear at hfrom
    omega
  · have hstart := dayFromYear_strictMono.monotone (Nat.succ_le_of_lt hlater)
    exact absurd (hstart.trans hle) (not_le_of_gt huntil)

/-- Every day from the year zero on is in its year. -/
theorem yearFromDay_spec {n : ℤ} (h : dayFromYear 0 ≤ n) :
    dayFromYear (yearFromDay n) ≤ n ∧ n < dayFromYear (yearFromDay n + 1) := by
  constructor
  · exact Nat.findGreatest_spec (P := fun year => dayFromYear year ≤ n) (Nat.zero_le _) h
  · by_contra hlater
    have hbound : yearFromDay n + 1 ≤ (n / 365 + 1973).toNat := by
      unfold dayFromYear at hlater h
      omega
    exact Nat.findGreatest_is_greatest (P := fun year => dayFromYear year ≤ n)
      (Nat.lt_succ_self _) hbound (not_lt.mp hlater)

@[simp] theorem CalendarDate.yearFromDay_dayNumber (d : CalendarDate) :
    yearFromDay d.dayNumber = d.year :=
  yearFromDay_eq d.dayFromYear_le d.dayNumber_lt_year

/-! ## Weeks -/

/-- The Monday of the week of a day. -/
def mondayOf (n : ℤ) : ℤ := n - (weekDay n + 6) % 7

/-- The Thursday of the week of a day. -/
def thursdayOf (n : ℤ) : ℤ := mondayOf n + 3

/-- A day is in a week of a year: weeks are counted from the one with the fourth of January, up
to that of the next year. -/
structure InIsoWeek (n : ℤ) (year week : ℕ) : Prop where
  counted : mondayOf n = mondayOf (dayFromYear year + 3) + 7 * (week - 1)
  pos : 1 ≤ week
  before : mondayOf n < mondayOf (dayFromYear (year + 1) + 3)

/-- The week of a day is the week of its year that has its Thursday. -/
theorem inIsoWeek_iff {n : ℤ} {year week : ℕ} :
    InIsoWeek n year week ↔
      (dayFromYear year ≤ thursdayOf n ∧ thursdayOf n < dayFromYear (year + 1)) ∧
        (week : ℤ) = (thursdayOf n - dayFromYear year) / 7 + 1 := by
  generalize hstart : dayFromYear year = start
  generalize hend : dayFromYear (year + 1) = finish
  constructor
  · rintro ⟨hcounted, hpos, hbefore⟩
    rw [hstart] at hcounted
    rw [hend] at hbefore
    unfold thursdayOf mondayOf weekDay at *
    omega
  · rintro ⟨⟨hfrom, huntil⟩, hweek⟩
    constructor
    · rw [hstart]
      unfold thursdayOf mondayOf weekDay at *
      omega
    · unfold thursdayOf mondayOf weekDay at *
      omega
    · rw [hend]
      unfold thursdayOf mondayOf weekDay at *
      omega

theorem thursdayOf_mono {n m : ℤ} (h : n ≤ m) : thursdayOf n ≤ thursdayOf m := by
  unfold thursdayOf mondayOf weekDay
  omega

namespace InIsoWeek

variable {n m : ℤ} {year year' week week' : ℕ}

/-- Weeks pass as days do. -/
theorem mono (h : InIsoWeek n year week) (h' : InIsoWeek m year' week') (hle : n ≤ m) :
    year < year' ∨ year = year' ∧ week ≤ week' := by
  obtain ⟨⟨hfrom, -⟩, hweek⟩ := inIsoWeek_iff.mp h
  obtain ⟨⟨-, huntil⟩, hweek'⟩ := inIsoWeek_iff.mp h'
  have hthursday := thursdayOf_mono hle
  have hyear : year < year' + 1 :=
    dayFromYear_strictMono.lt_iff_lt.mp ((hfrom.trans hthursday).trans_lt huntil)
  rcases (Nat.lt_succ_iff.mp hyear).lt_or_eq with hless | rfl
  · exact .inl hless
  · exact .inr ⟨rfl, by omega⟩

/-- A day is in one week. -/
theorem unique (h : InIsoWeek n year week) (h' : InIsoWeek n year' week') :
    year = year' ∧ week = week' := by
  rcases h.mono h' le_rfl with hless | ⟨rfl, hle⟩
  · rcases h'.mono h le_rfl with hless' | ⟨hsame, -⟩
    · omega
    · omega
  · rcases h'.mono h le_rfl with hless' | ⟨-, hle'⟩
    · omega
    · exact ⟨rfl, Nat.le_antisymm hle hle'⟩

/-- No year has more than fifty-three weeks. -/
theorem week_le (h : InIsoWeek n year week) : week ≤ 53 := by
  obtain ⟨⟨hfrom, huntil⟩, hweek⟩ := inIsoWeek_iff.mp h
  rw [dayFromYear_succ] at huntil
  have hlength : yearLength year ≤ 366 := by
    unfold yearLength
    split <;> decide
  omega

end InIsoWeek

end SecureStore.Foundation
