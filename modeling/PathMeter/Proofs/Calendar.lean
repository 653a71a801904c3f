import Mathlib.Tactic.IntervalCases
import PathMeter.Time.Calendar

/-!
# The calendar and back

Days are counted in eras of four hundred years, which are all alike.  An era
falls into centuries, groups of four years, years and days (`EraDay`), where the
last part of each kind may be one day longer or shorter than the others; these
parts are what the divisions of `Date.ofDays` find (`EraDay.div_365`,
`EraDay.days_before`).  So every day has a place in the calendar and is found
again from there (`Date.ofDays_spec`).
-/

namespace PathMeter.Time

/-- Where a day lies in an era of four hundred years: its century, the group of
four years, the year in the group and the day of that year.  The last year of a
group has one day more, unless it is also the last of a century that is not the
era's last. -/
structure EraDay where
  century : Int
  group : Int
  year : Int
  day : Int
  century_mem : 0 ≤ century ∧ century ≤ 3
  group_mem : 0 ≤ group ∧ group ≤ 24
  year_mem : 0 ≤ year ∧ year ≤ 3
  day_nonneg : 0 ≤ day
  day_le : day ≤ 364 ∨ day = 365 ∧ year = 3 ∧ (group < 24 ∨ century = 3)

namespace EraDay

/-- The number of the day in its era. -/
def index (e : EraDay) : Int :=
  36524 * e.century + 1461 * e.group + 365 * e.year + e.day

/-- The number of the year in its era. -/
def yearIndex (e : EraDay) : Int :=
  100 * e.century + 4 * e.group + e.year

/-- Every day of an era has such a place. -/
theorem exists_index {d : Int} (hd : 0 ≤ d) (hlt : d < 146097) : ∃ e : EraDay, e.index = d := by
  obtain ⟨c, hc⟩ : ∃ c, c = min (d / 36524) 3 := ⟨_, rfl⟩
  obtain ⟨q, hq⟩ : ∃ q, q = (d - 36524 * c) / 1461 := ⟨_, rfl⟩
  obtain ⟨t, ht⟩ : ∃ t, t = min ((d - 36524 * c - 1461 * q) / 365) 3 := ⟨_, rfl⟩
  refine ⟨⟨c, q, t, d - 36524 * c - 1461 * q - 365 * t, by omega, by omega, by omega, by omega,
    by omega⟩, ?_⟩
  unfold index
  dsimp only
  omega

/-- The year of a day, from the days that have leap years taken out. -/
theorem div_365 (e : EraDay) :
    (e.index - e.index / 1460 + e.index / 36524 - e.index / 146096) / 365 = e.yearIndex := by
  obtain ⟨c, q, t, u, hc, hq, ht, hu, hu'⟩ := e
  unfold index yearIndex
  dsimp only at *
  have hcentury : (36524 * c + 1461 * q + 365 * t + u) / 36524 -
      (36524 * c + 1461 * q + 365 * t + u) / 146096 = c := by
    have hrest : 1461 * q + 365 * t + u ≤ 36523 ∨ 1461 * q + 365 * t + u = 36524 ∧ c = 3 := by
      omega
    have hrest' : 0 ≤ 1461 * q + 365 * t + u := by omega
    rw [Int.add_assoc, Int.add_assoc, ← Int.add_assoc (1461 * q)]
    generalize 1461 * q + 365 * t + u = r at hrest hrest'
    rcases hrest with hrest | ⟨rfl, rfl⟩ <;> omega
  obtain ⟨k, hk⟩ : ∃ k, k = (24 * c + q + 365 * t + u) / 1460 := ⟨_, rfl⟩
  have hgroup : (36524 * c + 1461 * q + 365 * t + u) / 1460 = 25 * c + q + k := by omega
  have hday : 0 ≤ u - k ∧ u - k ≤ 364 := by omega
  rw [hgroup, Int.add_sub_assoc, hcentury]
  omega

/-- The days that lie before the year of a day. -/
theorem days_before (e : EraDay) :
    e.index - (365 * e.yearIndex + e.yearIndex / 4 - e.yearIndex / 100) = e.day := by
  obtain ⟨c, q, t, u, hc, hq, ht, hu, hu'⟩ := e
  unfold index yearIndex
  dsimp only at *
  omega

theorem yearIndex_mem (e : EraDay) : 0 ≤ e.yearIndex ∧ e.yearIndex ≤ 399 := by
  obtain ⟨c, q, t, u, hc, hq, ht, hu, hu'⟩ := e
  unfold yearIndex
  dsimp only at *
  omega

/-- The years with one day more are the leap years. -/
theorem isLeap_of_long (e : EraDay) (era : Int)
    (h : e.year = 3 ∧ (e.group < 24 ∨ e.century = 3)) :
    isLeap (e.yearIndex + era * 400 + 1) = true := by
  obtain ⟨c, q, t, u, hc, hq, ht, hu, hu'⟩ := e
  unfold isLeap yearIndex
  dsimp only at *
  simp only [Bool.and_eq_true, Bool.or_eq_true, decide_eq_true_eq]
  omega

end EraDay

namespace Date

/-- A day of a year that starts in March. -/
def ofMarch (year day : Int) : Date :=
  let monthFromMarch := (5 * day + 2) / 153
  let month := if monthFromMarch < 10 then monthFromMarch + 3 else monthFromMarch - 9
  ⟨year + (if month ≤ 2 then 1 else 0), month.toNat,
    (day - (153 * monthFromMarch + 2) / 5 + 1).toNat⟩

theorem ofDays_index (era : Int) (e : EraDay) :
    ofDays (era * 146097 + e.index - 719468) = ofMarch (e.yearIndex + era * 400) e.day := by
  have hindex : 0 ≤ e.index ∧ e.index < 146097 := by
    obtain ⟨c, q, t, u, hc, hq, ht, hu, hu'⟩ := e
    unfold EraDay.index
    dsimp only at *
    omega
  have hera : (era * 146097 + e.index).fdiv 146097 = era := by
    rw [Int.fdiv_eq_ediv_of_nonneg _ (by decide)]
    omega
  unfold ofDays
  dsimp only
  rw [Int.sub_add_cancel, hera, add_sub_cancel_left, e.div_365, e.days_before]
  rfl

variable {year day : Int}

/-- The days of a year that starts in March are days of the calendar, the last
one in leap years only. -/
theorem isValid_ofMarch (hday : 0 ≤ day)
    (hlast : day ≤ 364 ∨ day = 365 ∧ isLeap (year + 1) = true) :
    (ofMarch year day).isValid = true := by
  obtain ⟨m, hm⟩ := Int.eq_ofNat_of_zero_le (show 0 ≤ (5 * day + 2) / 153 by omega)
  have hm' : m < 12 := by omega
  unfold ofMarch isValid
  dsimp only
  rw [hm]
  simp only [Bool.and_eq_true, decide_eq_true_eq]
  by_cases hfebruary : m = 11
  · subst hfebruary
    have hdays : day ≤ 364 → day - 337 + 1 ≤ 28 := by omega
    have hfew : 28 ≤ daysInMonth (year + 1) 2 := by
      show 28 ≤ if isLeap (year + 1) then 29 else 28
      split <;> decide
    have hleap : isLeap (year + 1) = true → daysInMonth (year + 1) 2 = 29 :=
      fun h => if_pos h
    refine ⟨⟨by decide, ?_⟩, ?_⟩
    · show 1 ≤ (day - 337 + 1).toNat
      omega
    · show (day - 337 + 1).toNat ≤ daysInMonth (year + 1) 2
      rcases hlast with hlast | ⟨rfl, hlast⟩
      · omega
      · rw [hleap hlast]
        decide
  · interval_cases m <;> first | exact absurd rfl hfebruary | (simp [daysInMonth]; omega)

theorem toDays_eq {d : Date} {era yearOfEra m : Int} (hera : 0 ≤ yearOfEra ∧ yearOfEra ≤ 399)
    (hyear : (if d.month ≤ 2 then d.year - 1 else d.year) = yearOfEra + era * 400)
    (hmonth : ((d.month : Int) + 9) % 12 = m)
    (hday : (153 * m + 2) / 5 + (d.day : Int) - 1 = day) :
    d.toDays =
      era * 146097 + (yearOfEra * 365 + yearOfEra / 4 - yearOfEra / 100 + day) - 719468 := by
  have hera' : (yearOfEra + era * 400).fdiv 400 = era := by
    rw [Int.fdiv_eq_ediv_of_nonneg _ (by decide)]
    omega
  unfold toDays
  dsimp only
  rw [hyear, hera', hmonth, hday, add_sub_cancel_right]

/-- A day is found again from its month and its place in the month. -/
theorem toDays_ofMarch {era yearOfEra : Int} (hday : 0 ≤ day) (hlast : day ≤ 365)
    (hyear : 0 ≤ yearOfEra ∧ yearOfEra ≤ 399) :
    (ofMarch (yearOfEra + era * 400) day).toDays =
      era * 146097 + (yearOfEra * 365 + yearOfEra / 4 - yearOfEra / 100 + day) - 719468 := by
  obtain ⟨m, hm⟩ : ∃ m, m = (5 * day + 2) / 153 := ⟨_, rfl⟩
  obtain ⟨month, hmonth⟩ : ∃ month, month = if m < 10 then m + 3 else m - 9 := ⟨_, rfl⟩
  have hmonth' : 1 ≤ month ∧ month ≤ 12 ∧ (month + 9) % 12 = m := by
    rw [hmonth]
    split <;> omega
  have hofMarch : ofMarch (yearOfEra + era * 400) day =
      ⟨yearOfEra + era * 400 + (if month ≤ 2 then 1 else 0), month.toNat,
        (day - (153 * m + 2) / 5 + 1).toNat⟩ := by
    rw [hmonth, hm]
    rfl
  rw [hofMarch]
  refine toDays_eq (m := m) hyear ?_ ?_ ?_
  · dsimp only
    split <;> split <;> omega
  · dsimp only
    rw [Int.toNat_of_nonneg (by omega)]
    exact hmonth'.2.2
  · dsimp only
    rw [Int.toNat_of_nonneg (by omega)]
    omega

/-- **Every day has its place in the calendar**, and is found again there. -/
theorem ofDays_spec (n : Int) : (ofDays n).isValid = true ∧ (ofDays n).toDays = n := by
  obtain ⟨e, he⟩ := EraDay.exists_index
    (show 0 ≤ (n + 719468) % 146097 by omega) (show (n + 719468) % 146097 < 146097 by omega)
  obtain ⟨era, hera⟩ : ∃ era, era = (n + 719468) / 146097 := ⟨_, rfl⟩
  obtain rfl : n = era * 146097 + e.index - 719468 := by omega
  rw [ofDays_index]
  have hdays := e.days_before
  have hyear := e.yearIndex_mem
  have hday := e.day_le
  refine ⟨isValid_ofMarch e.day_nonneg ?_, ?_⟩
  · rcases e.day_le with hday | ⟨hday, hlast⟩
    · exact Or.inl hday
    · exact Or.inr ⟨hday, e.isLeap_of_long era hlast⟩
  · rw [toDays_ofMarch e.day_nonneg (by omega) hyear]
    omega

end Date

end PathMeter.Time
