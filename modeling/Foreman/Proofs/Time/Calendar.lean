import Foreman.Calendar
/-!
# Days and their numbers

The day of a number is a day of the calendar, and its number is that number. A group of four hundred
years, which starts in March, is taken apart into centuries, each of them into fours of years, and
those into years: only the last year of four has a leap day, and the last year of a century has none
unless it ends the group.

## Main definitions

* `Foreman.Calendar.Split`: a day of a group, taken apart.

## Main results

* `Foreman.Calendar.exists_split`: every day of a group can be taken apart.
* `Foreman.Calendar.Split.ofEra_eq`, `Foreman.Calendar.Split.ofYear_eq`: its year and its day.
* `Foreman.Calendar.ofDayNumber_spec`: the day of a number is in its month, and its number is that
  number.
-/

namespace Foreman.Calendar

/-- A day of a group of four hundred years: the century, the four of years in it, the year in that
and the day of the year, all from zero. -/
structure Split (g c q y r : Int) : Prop where
  century : 0 ≤ c ∧ c ≤ 3
  four : 0 ≤ q ∧ q ≤ 24
  year : 0 ≤ y ∧ y ≤ 3
  day : 0 ≤ r ∧ r ≤ 365
  /-- A leap day ends a year before one that four divides. -/
  leap : r = 365 → y = 3 ∧ (q < 24 ∨ c = 3)
  sum : g = 36524 * c + 1461 * q + 365 * y + r

/-- Every day of a group can be taken apart. -/
theorem exists_split {g : Int} (h : 0 ≤ g ∧ g < 146097) : ∃ c q y r, Split g c q y r := by
  obtain ⟨c, k, hc, hk, hg⟩ : ∃ c k : Int, (0 ≤ c ∧ c ≤ 3) ∧
      (0 ≤ k ∧ k ≤ 36524 ∧ (k = 36524 → c = 3)) ∧ g = 36524 * c + k := by
    by_cases hlast : g = 146096
    · exact ⟨3, 36524, by omega⟩
    · exact ⟨g / 36524, g % 36524, by omega⟩
  obtain ⟨y, r, hy, hr, hk'⟩ : ∃ y r : Int, (0 ≤ y ∧ y ≤ 3) ∧
      (0 ≤ r ∧ r ≤ 365 ∧ (r = 365 → y = 3)) ∧ k % 1461 = 365 * y + r := by
    by_cases hlast : k % 1461 = 1460
    · exact ⟨3, 365, by omega⟩
    · exact ⟨k % 1461 / 365, k % 1461 % 365, by omega⟩
  exact ⟨c, k / 1461, y, r, by omega, by omega, hy, by omega, by omega, by omega⟩

theorem Split.ofEra_eq {g c q y r : Int} (h : Split g c q y r) :
    (g - g / 1460 + g / 36524 - g / 146096) / 365 = 100 * c + 4 * q + y := by
  obtain ⟨hc, hq, hy, hr, hleap, hg⟩ := h
  have hfours : g / 1460 = 25 * c + q + (if y = 3 ∧ 365 ≤ r + 24 * c + q then 1 else 0) := by
    split <;> omega
  have hcenturies : g / 36524 - g / 146096 = c := by
    by_cases hlast : g = 146096
    · omega
    · have hcentury : 36524 * c ≤ g ∧ g < 36524 * (c + 1) := by omega
      omega
  split at hfours <;> omega

theorem Split.ofYear_eq {g c q y r : Int} (h : Split g c q y r) :
    g - (365 * (100 * c + 4 * q + y) + (100 * c + 4 * q + y) / 4 - (100 * c + 4 * q + y) / 100) =
      r := by
  obtain ⟨hc, hq, hy, hr, hleap, hg⟩ := h
  omega

/-- A day of a year that starts in March is in one of its months, which have 31 days but for four of
them and the last. -/
theorem month_and_day {r : Int} (h : 0 ≤ r ∧ r ≤ 365) :
    ∃ m d : Int, (5 * r + 2) / 153 = m ∧ r - (153 * m + 2) / 5 + 1 = d ∧ (0 ≤ m ∧ m ≤ 11) ∧
      (1 ≤ d ∧ d ≤ 31) ∧ (m = 1 ∨ m = 3 ∨ m = 6 ∨ m = 8 → d ≤ 30) ∧
      (m = 11 → d ≤ 29 ∧ (d = 29 → r = 365)) := by
  refine ⟨_, _, rfl, rfl, ?_⟩
  omega

/-- The month of a year that starts in January, counted from March on. -/
theorem month_fromMarch {m : Int} (h : 0 ≤ m ∧ m ≤ 11) :
    ∃ month : Nat, (if m < 10 then m + 3 else m - 9).toNat = month ∧
      (1 ≤ month ∧ month ≤ 12) ∧ (((month : Int) + 9) % 12 = m) ∧ (month ≤ 2 ↔ 10 ≤ m) := by
  refine ⟨_, rfl, ?_⟩
  split <;> omega

theorem daysIn_le (year : Int) (month : Nat) : daysIn year month ≤ 31 := by
  unfold daysIn
  split
  · split <;> omega
  · split <;> omega

theorem le_daysIn {year : Int} {month day : Nat} (hday : day ≤ 31)
    (hshort : month = 4 ∨ month = 6 ∨ month = 9 ∨ month = 11 → day ≤ 30)
    (hlast : month = 2 → day ≤ 29 ∧ (day = 29 → isLeap year)) : day ≤ daysIn year month := by
  unfold daysIn
  split
  · next hmonth =>
    obtain ⟨hle, hleap⟩ := hlast hmonth
    split
    · exact hle
    · next hno =>
      have : day ≠ 29 := fun h => hno (hleap h)
      omega
  · split
    · next hmonth => exact hshort hmonth
    · exact hday

/-- The day of a number is a day of the calendar, and its number is that number. -/
theorem ofDayNumber_spec (n : Int) : ∃ year month day, ofDayNumber n = (year, month, day) ∧
    (1 ≤ month ∧ month ≤ 12) ∧ (1 ≤ day ∧ day ≤ daysIn year month) ∧
      dayNumber year month day = n := by
  obtain ⟨c, q, y, r, hsplit⟩ := exists_split (g := (n + 719468) % 146097) (by omega)
  obtain ⟨m, d, hm, hd, hmonth, hday, hshort, hlast⟩ := month_and_day hsplit.day
  obtain ⟨month, hmonthNat, hmonths, hfromMarch, hstart⟩ := month_fromMarch hmonth
  refine ⟨_, _, _, rfl, ?_⟩
  simp only [hsplit.ofEra_eq, hsplit.ofYear_eq, hm, hd, hmonthNat]
  obtain ⟨hc, hq, hy, hr, hleap, hg⟩ := hsplit
  refine ⟨hmonths, ⟨by omega, le_daysIn (by omega) ?_ ?_⟩, ?_⟩
  · intro h
    omega
  · rintro rfl
    obtain ⟨hle, hleapDay⟩ := hlast (by omega)
    refine ⟨by omega, fun h29 => ?_⟩
    obtain ⟨hy3, hexception⟩ := hleap (hleapDay (by omega))
    simp only [isLeap, decide_eq_true_eq]
    omega
  · have hwhole : (if m < 10 then m + 3 else m - 9) ≤ 2 ↔ 10 ≤ m := by split <;> omega
    have hyear (k : Int) : (if 10 ≤ m then (if 10 ≤ m then k + 1 else k) - 1
        else if 10 ≤ m then k + 1 else k) = k := by split <;> omega
    have hgroup (k : Int) : (100 * c + 4 * q + y + k * 400) / 400 = k ∧
        (100 * c + 4 * q + y + k * 400) % 400 = 100 * c + 4 * q + y := by omega
    have hparts : (100 * c + 4 * q + y) / 4 = 25 * c + q ∧ (100 * c + 4 * q + y) / 100 = c := by
      omega
    simp only [dayNumber, hstart, hfromMarch, hwhole, hyear, hgroup, hparts]
    omega

end Foreman.Calendar
