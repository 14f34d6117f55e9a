import Mathlib.Tactic.IntervalCases
import VenueLink.Calendar.Timestamp

/-!
# The range of timestamps

The date of a day is found by counting eras of 400 years from the first of March of year 0,
years of an era, and days of a year that begins in March. The year of an era is the one that the
day lies in (`yearOfEra_spec`), and a day 365 is there only where the next year has a 29th of
February (`isLeap_of_day_365`), so the date that is found always exists, and what limits it is
its year alone: `Timestamp.isUnixSecond_iff`.
-/

namespace VenueLink

namespace Date

open Calendar

/-- The days of an era before its year `y` begins. -/
def daysToYearOfEra (y : Nat) : Nat :=
  365 * y + y / 4 - y / 100

/-- The year of an era that one of its days lies in. -/
def yearOfEra (day : Nat) : Nat :=
  (day - day / 1460 + day / 36524 - day / 146096) / 365

/-- The last day of an era apart, no day lies in a fifth century of it. -/
theorem century_cases {day : Nat} (h : day < 146097) :
    day / 36524 < 4 ∧ day / 146096 = 0 ∨ day = 146096 := by
  omega

/-- A day of an era falls into its year, before the next one begins. -/
theorem yearOfEra_spec {day : Nat} (h : day < 146097) :
    yearOfEra day < 400 ∧ daysToYearOfEra (yearOfEra day) ≤ day ∧
      day < daysToYearOfEra (yearOfEra day) + 366 := by
  obtain ⟨y, hy⟩ : ∃ y, y = yearOfEra day := ⟨_, rfl⟩
  rw [← hy]
  unfold yearOfEra at hy
  unfold daysToYearOfEra
  rcases century_cases h with ⟨hc, h0⟩ | rfl
  · rw [h0] at hy
    have hlt : y < 400 := by omega
    -- with the century of the day and that of the year as numerals, the rest is linear
    obtain ⟨c, hceq⟩ : ∃ c, c = day / 36524 := ⟨_, rfl⟩
    obtain ⟨q, hqeq⟩ : ∃ q, q = y / 100 := ⟨_, rfl⟩
    have hq : q < 4 := by omega
    rw [← hceq] at hy hc
    rw [← hqeq]
    refine ⟨hlt, ?_, ?_⟩ <;> interval_cases c <;> interval_cases q <;> omega
  · omega

/-- A year of an era has a day 365 only if the year that begins in it is a leap year. -/
theorem isLeap_of_day_365 {day : Nat} (h : day < 146097)
    (hday : day = daysToYearOfEra (yearOfEra day) + 365) (era : Int) :
    isLeap (yearOfEra day + era * 400 + 1) = true := by
  obtain ⟨y, hy⟩ : ∃ y, y = yearOfEra day := ⟨_, rfl⟩
  have hlt := (yearOfEra_spec h).1
  rw [← hy] at hday hlt ⊢
  have hleap : (y + 1) % 4 = 0 ∧ ((y + 1) % 100 ≠ 0 ∨ (y + 1) % 400 = 0) := by
    unfold yearOfEra at hy
    unfold daysToYearOfEra at hday
    rcases century_cases h with ⟨hc, h0⟩ | rfl
    · rw [h0] at hy
      obtain ⟨c, hceq⟩ : ∃ c, c = day / 36524 := ⟨_, rfl⟩
      obtain ⟨q, hqeq⟩ : ∃ q, q = y / 100 := ⟨_, rfl⟩
      have hq : q < 4 := by omega
      rw [← hceq] at hy hc
      rw [← hqeq] at hday
      have hcq : c = q := by interval_cases c <;> interval_cases q <;> omega
      subst hcq
      have hfour : (y + 1) % 4 = 0 := by
        by_contra hne
        have hg : day / 1460 = (y + 1) / 4 := by interval_cases c <;> omega
        rw [hg] at hy
        interval_cases c <;> omega
      exact ⟨hfour, by interval_cases c <;> omega⟩
    · omega
  simp only [isLeap, Bool.and_eq_true, Bool.or_eq_true, decide_eq_true_eq]
  omega

/-- Every day of a year that begins in March is a day of the month it falls into; day 365 needs
a leap year. -/
theorem day_le_monthLength {year : Int} {n : Nat} (h : n < 366)
    (hleap : n = 365 → isLeap year = true) :
    n - daysToMonth ((5 * n + 2) / 153) + 1 ≤
      monthLength year (if (5 * n + 2) / 153 < 10 then (5 * n + 2) / 153 + 3
        else (5 * n + 2) / 153 - 9) := by
  obtain ⟨m, hm⟩ : ∃ m, m = (5 * n + 2) / 153 := ⟨_, rfl⟩
  rw [← hm]
  have hlt : m < 12 := by omega
  unfold daysToMonth
  interval_cases m <;>
    simp only [monthLength, Nat.reduceAdd, Nat.reduceSub, Nat.reduceLT, if_true, if_false] <;>
    try omega
  -- February
  by_cases h365 : n = 365
  · simp only [hleap h365, if_true]
    omega
  · split <;> omega

/-- The year that begins in January, for day `n` of the year `y` that begins in March. -/
def yearOfDay (y : Int) (n : Nat) : Int :=
  if 306 ≤ n then y + 1 else y

/-- A date can be made when there is such a day. -/
theorem isSome_make?_iff {year : Int} {month day : Nat} :
    (make? year month day).isSome = true ↔ IsDay year month day := by
  unfold make?
  split <;> simp [*]

/-- The year of a day is in range exactly if the day is. -/
theorem year_in_range_iff (era : Int) {y n : Nat} (hy : y < 400) (hn : n < 366)
    (hlast : daysToYearOfEra y + n < 146097) :
    (minYear ≤ yearOfDay (y + era * 400) n ∧ yearOfDay (y + era * 400) n ≤ maxYear) ↔
      -96465292 ≤ era * 146097 + (daysToYearOfEra y + n : Nat) - 719468 ∧
        era * 146097 + (daysToYearOfEra y + n : Nat) - 719468 ≤ 95026236 := by
  unfold yearOfDay daysToYearOfEra minYear maxYear at *
  refine and_congr ?_ ?_
  · rcases lt_trichotomy era (-656) with he | rfl | he
    · split <;> omega
    · rcases lt_trichotomy y 256 with hy | rfl | hy <;> split <;> omega
    · split <;> omega
  · rcases lt_trichotomy era 655 with he | rfl | he
    · split <;> omega
    · rcases lt_trichotomy y 142 with hy | rfl | hy <;> split <;> omega
    · split <;> omega

/-- The days that have a date: those of the years from the earliest to the latest. -/
theorem isSome_ofDays?_iff (days : Int) :
    (ofDays? days).isSome = true ↔ -96465292 ≤ days ∧ days ≤ 95026236 := by
  obtain ⟨era, hera⟩ : ∃ era, era = (days + 719468) / 146097 := ⟨_, rfl⟩
  obtain ⟨day, hday⟩ : ∃ day, day = ((days + 719468) % 146097).toNat := ⟨_, rfl⟩
  have hlt : day < 146097 := by omega
  obtain ⟨hy, hle, hn⟩ := yearOfEra_spec hlt
  obtain ⟨n, hn'⟩ : ∃ n, n = day - daysToYearOfEra (yearOfEra day) := ⟨_, rfl⟩
  have hsum : daysToYearOfEra (yearOfEra day) + n = day := by omega
  have hdays : days = era * 146097 + (daysToYearOfEra (yearOfEra day) + n : Nat) - 719468 := by
    omega
  have hleap : n = 365 → isLeap (yearOfDay (yearOfEra day + era * 400) n) = true := by
    rintro rfl
    exact isLeap_of_day_365 hlt hsum.symm era
  have hyear : (if (if (5 * n + 2) / 153 < 10 then (5 * n + 2) / 153 + 3
      else (5 * n + 2) / 153 - 9) ≤ 2 then (yearOfEra day : Int) + era * 400 + 1
      else yearOfEra day + era * 400) = yearOfDay (yearOfEra day + era * 400) n := by
    unfold yearOfDay
    split <;> split at * <;> split <;> omega
  have hunfold : ofDays? days = make? (yearOfDay (yearOfEra day + era * 400) n)
      (if (5 * n + 2) / 153 < 10 then (5 * n + 2) / 153 + 3 else (5 * n + 2) / 153 - 9)
      (n - daysToMonth ((5 * n + 2) / 153) + 1) := by
    rw [← hyear, hn', hera, hday]
    rfl
  have hrange := year_in_range_iff era hy (by omega : n < 366) (by omega)
  rw [hunfold, isSome_make?_iff, hdays, ← hrange]
  constructor
  · rintro ⟨hmin, hmax, -, -⟩
    exact ⟨hmin, hmax⟩
  · rintro ⟨hmin, hmax⟩
    exact ⟨hmin, hmax, Nat.le_add_left _ _, day_le_monthLength (by omega) hleap⟩

end Date

namespace Timestamp

/-- The first second of the earliest year, and the last second of the latest one. -/
def firstSecond : Int := -8334601228800
def lastSecond : Int := 8210266876799

/-- The seconds that an instant can stand for are those of the years that a date can have. -/
theorem isUnixSecond_iff (n : Int) :
    isUnixSecond n = true ↔ firstSecond ≤ n ∧ n ≤ lastSecond := by
  unfold isUnixSecond firstSecond lastSecond
  rw [Date.isSome_ofDays?_iff]
  omega

end Timestamp

end VenueLink
