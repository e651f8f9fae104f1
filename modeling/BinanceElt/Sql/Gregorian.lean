import BinanceElt.Sql.Text
import Mathlib.Tactic.IntervalCases
import Mathlib.Tactic.NormNum

/-!
# The Gregorian calendar

A civil date carries the proof that its day exists in its month.  The calendar
itself is `CivilDate.next`: a day later within the month, else the first of the
next month, else New Year, with the lengths of the months and the leap rule as
everybody knows them.  The civil parts that are computed from the number of a day
follow it in both directions of time.

## Main results

* `marchYear_marchDay_unique` — the March year and day of a date are determined
  by its number.
* `civil_succ` — the next date is the next day of the calendar.
* `civil_toDate`, `civil_injective` — dates are numbered without gaps or repetitions.
* `length_sundays`, `eq_of_extractWeek_eq` — weeks start on Sundays, and a year has every
  weekday of a week once.
-/

namespace Sql

/-! ## The calendar -/

/-- A leap year of the Gregorian calendar. -/
def IsLeap (year : ℤ) : Prop := year % 4 = 0 ∧ (year % 100 ≠ 0 ∨ year % 400 = 0)

instance (year : ℤ) : Decidable (IsLeap year) :=
  inferInstanceAs (Decidable (year % 4 = 0 ∧ (year % 100 ≠ 0 ∨ year % 400 = 0)))

def monthLength (year month : ℤ) : ℤ :=
  if month = 2 then if IsLeap year then 29 else 28
  else if month = 4 ∨ month = 6 ∨ month = 9 ∨ month = 11 then 30
  else 31

theorem monthLength_bounds (year month : ℤ) :
    28 ≤ monthLength year month ∧ monthLength year month ≤ 31 := by
  unfold monthLength
  split
  · split <;> omega
  · split <;> omega

/-- A day of the calendar. -/
@[ext] structure CivilDate where
  year : ℤ
  month : ℤ
  day : ℤ
  month_bounds : 1 ≤ month ∧ month ≤ 12
  day_bounds : 1 ≤ day ∧ day ≤ monthLength year month

/-- The day after. -/
def CivilDate.next (c : CivilDate) : CivilDate :=
  if h : c.day < monthLength c.year c.month then
    { c with
      day := c.day + 1
      day_bounds := ⟨by have := c.day_bounds; omega, by omega⟩ }
  else if h' : c.month < 12 then
    { year := c.year
      month := c.month + 1
      day := 1
      month_bounds := ⟨by have := c.month_bounds; omega, by omega⟩
      day_bounds := ⟨le_rfl, by have := monthLength_bounds c.year (c.month + 1); omega⟩ }
  else
    { year := c.year + 1
      month := 1
      day := 1
      month_bounds := ⟨le_rfl, by omega⟩
      day_bounds := ⟨le_rfl, by have := monthLength_bounds (c.year + 1) 1; omega⟩ }

section Next

variable {c : CivilDate}

theorem CivilDate.next_of_lt (h : c.day < monthLength c.year c.month) :
    c.next.year = c.year ∧ c.next.month = c.month ∧ c.next.day = c.day + 1 := by
  simp [next, h]

theorem CivilDate.next_of_month (h : ¬ c.day < monthLength c.year c.month) (h' : c.month < 12) :
    c.next.year = c.year ∧ c.next.month = c.month + 1 ∧ c.next.day = 1 := by
  simp [next, h, h']

theorem CivilDate.next_of_year (h : ¬ c.day < monthLength c.year c.month)
    (h' : ¬ c.month < 12) : c.next.year = c.year + 1 ∧ c.next.month = 1 ∧ c.next.day = 1 := by
  simp [next, h, h']

end Next

/-! ## March years -/

/-- The days of the year from March of `year` on. -/
def marchLength (year : ℤ) : ℤ := if IsLeap (year + 1) then 366 else 365

theorem marchLength_bounds (year : ℤ) : 365 ≤ marchLength year ∧ marchLength year ≤ 366 := by
  unfold marchLength
  split <;> omega

/-- The number of a day of a March year. -/
def daysFromMarch (year doy : ℤ) : ℤ :=
  365 * year + year / 4 - year / 100 + year / 400 + doy - 719468

/-- The leap days before a March year, counted by centuries and cycles. -/
theorem marchYear_div (d : ℤ) :
    marchYear d / 4 =
        100 * era d + 25 * century (dayOfEra d) + dayOfCentury (dayOfEra d) / 1461 ∧
      marchYear d / 100 = 4 * era d + century (dayOfEra d) ∧ marchYear d / 400 = era d := by
  have hcentury := century_bounds (dayOfEra_bounds d)
  have hyear := yearOfCycle_bounds (dayOfCentury (dayOfEra d))
  have hcycle : 0 ≤ dayOfCentury (dayOfEra d) / 1461 ∧
      dayOfCentury (dayOfEra d) / 1461 ≤ 24 := by omega
  unfold marchYear
  generalize dayOfCentury (dayOfEra d) / 1461 = cycle at hcycle ⊢
  generalize yearOfCycle (dayOfCentury (dayOfEra d)) = year at hyear ⊢
  generalize century (dayOfEra d) = cent at hcentury ⊢
  refine ⟨?_, ?_, ?_⟩ <;> omega

/-- The digits of a date are those of its number. -/
theorem daysFromMarch_marchYear (d : ℤ) : daysFromMarch (marchYear d) (marchDay d) = d := by
  have hera : d + 719468 = 146097 * era d + dayOfEra d := by
    unfold era dayOfEra
    omega
  have hdoc : dayOfEra d = 36524 * century (dayOfEra d) + dayOfCentury (dayOfEra d) := by
    unfold dayOfCentury
    omega
  have hcycle : dayOfCentury (dayOfEra d) = 1461 * (dayOfCentury (dayOfEra d) / 1461) +
      365 * yearOfCycle (dayOfCentury (dayOfEra d)) + dayOfYear (dayOfCentury (dayOfEra d)) := by
    unfold dayOfYear
    omega
  obtain ⟨h4, h100, h400⟩ := marchYear_div d
  rw [daysFromMarch, h4, h100, h400, marchYear, marchDay]
  omega

/-- Only a leap day is the 366th. -/
theorem marchDay_lt (d : ℤ) : 0 ≤ marchDay d ∧ marchDay d < marchLength (marchYear d) := by
  have hyear := yearOfCycle_bounds (dayOfCentury (dayOfEra d))
  have hbounds := century_bounds (dayOfEra_bounds d)
  refine ⟨hyear.2.2.1, ?_⟩
  have hshort : century (dayOfEra d) < 3 → dayOfCentury (dayOfEra d) < 36524 := by
    unfold dayOfCentury century
    split <;> omega
  have hlong : dayOfYear (dayOfCentury (dayOfEra d)) = 365 →
      yearOfCycle (dayOfCentury (dayOfEra d)) = 3 ∧
        dayOfCentury (dayOfEra d) % 1461 = 1460 := by
    unfold dayOfYear yearOfCycle
    split <;> omega
  have hdigits : marchYear d = 400 * era d + 100 * century (dayOfEra d) +
      4 * (dayOfCentury (dayOfEra d) / 1461) + yearOfCycle (dayOfCentury (dayOfEra d)) := rfl
  have hday : marchDay d = dayOfYear (dayOfCentury (dayOfEra d)) := rfl
  rw [marchLength]
  split
  · omega
  · next hleap =>
      by_contra hlast
      obtain ⟨hthird, hcycle⟩ := hlong (by omega)
      refine hleap ⟨by omega, ?_⟩
      -- the last cycle of a century is short, but for that of an era
      omega

/-- A March year ends where the next one starts. -/
theorem daysFromMarch_succ (year : ℤ) :
    daysFromMarch (year + 1) 0 = daysFromMarch year (marchLength year) := by
  rw [marchLength]
  split
  · next hleap =>
      unfold IsLeap at hleap
      unfold daysFromMarch
      omega
  · next hleap =>
      unfold IsLeap at hleap
      unfold daysFromMarch
      omega

theorem daysFromMarch_add (year doy : ℤ) :
    daysFromMarch year doy = daysFromMarch year 0 + doy := by
  unfold daysFromMarch
  omega

/-- A day has one number, and a number one day. -/
theorem marchYear_marchDay_unique {year doy : ℤ} (h : 0 ≤ doy ∧ doy < marchLength year) {d : ℤ}
    (hd : daysFromMarch year doy = d) : marchYear d = year ∧ marchDay d = doy := by
  have hday := marchDay_lt d
  have hnumber := (daysFromMarch_marchYear d).trans hd.symm
  have hnext : ∀ y y' : ℤ, y < y' → daysFromMarch y (marchLength y) ≤ daysFromMarch y' 0 := by
    intro y y' hlt
    rw [← daysFromMarch_succ]
    unfold daysFromMarch
    omega
  rw [daysFromMarch_add, daysFromMarch_add year] at hnumber
  rcases lt_trichotomy (marchYear d) year with hlt | heq | hlt
  · have hle := hnext _ _ hlt
    rw [daysFromMarch_add] at hle
    omega
  · rw [heq] at hnumber
    exact ⟨heq, by omega⟩
  · have hle := hnext _ _ hlt
    rw [daysFromMarch_add] at hle
    omega

/-- The day after, within the March year or at the start of the next one. -/
theorem march_succ (d : ℤ) :
    (marchDay d + 1 < marchLength (marchYear d) ∧ marchYear (d + 1) = marchYear d ∧
        marchDay (d + 1) = marchDay d + 1) ∨
      (marchDay d + 1 = marchLength (marchYear d) ∧ marchYear (d + 1) = marchYear d + 1 ∧
        marchDay (d + 1) = 0) := by
  have hday := marchDay_lt d
  have hnumber := daysFromMarch_marchYear d
  rw [daysFromMarch_add] at hnumber
  by_cases hlast : marchDay d + 1 < marchLength (marchYear d)
  · refine .inl ⟨hlast, marchYear_marchDay_unique ⟨by omega, hlast⟩ ?_⟩
    rw [daysFromMarch_add]
    omega
  · have hlength : marchDay d + 1 = marchLength (marchYear d) := by omega
    have hnext := marchLength_bounds (marchYear d + 1)
    refine .inr ⟨hlength, marchYear_marchDay_unique ⟨le_rfl, by omega⟩ ?_⟩
    rw [daysFromMarch_succ, daysFromMarch_add, ← hlength]
    omega

/-! ## Civil dates follow the calendar -/

/-- The month of a day of a March year, by its first and last day. -/
theorem marchMonth_eq_iff {doy m : ℤ} :
    marchMonth doy = m ↔ 153 * m ≤ 5 * doy + 2 ∧ 5 * doy + 2 < 153 * m + 153 := by
  unfold marchMonth
  omega

/-- The day after the last one of a month of a March year. -/
def monthEnd (year m : ℤ) : ℤ := if m = 11 then marchLength year else (153 * (m + 1) + 2) / 5

/-- The months of a March year have the lengths of the calendar. -/
theorem monthLength_march (year : ℤ) {m : ℤ} (hm : 0 ≤ m ∧ m ≤ 11) :
    monthLength (year + if 10 ≤ m then 1 else 0) (if m < 10 then m + 3 else m - 9) =
      monthEnd year m - (153 * m + 2) / 5 := by
  unfold monthLength monthEnd marchLength
  obtain ⟨hmin, hmax⟩ := hm
  interval_cases m <;> norm_num
  split <;> rfl

theorem monthLength_civil (d : Date) : monthLength (civilYear d) (civilMonth d) =
    monthEnd (marchYear d) (marchMonth (marchDay d)) -
      (153 * marchMonth (marchDay d) + 2) / 5 :=
  monthLength_march (marchYear d) (marchMonth_bounds (marchDay_bounds d))

/-- A date lies in its month. -/
theorem marchDay_month (d : Date) : (153 * marchMonth (marchDay d) + 2) / 5 ≤ marchDay d ∧
    marchDay d < monthEnd (marchYear d) (marchMonth (marchDay d)) := by
  obtain ⟨hlo, hhi⟩ := marchMonth_eq_iff.mp (rfl : marchMonth (marchDay d) = _)
  refine ⟨by omega, ?_⟩
  unfold monthEnd
  split
  · exact (marchDay_lt d).2
  · omega

theorem civilDay_le (d : Date) : civilDay d ≤ monthLength (civilYear d) (civilMonth d) := by
  have hmonth := marchDay_month d
  rw [monthLength_civil, civilDay]
  omega

/-- The civil parts of a date are a day of the calendar. -/
def civil (d : Date) : CivilDate where
  year := civilYear d
  month := civilMonth d
  day := civilDay d
  month_bounds := civilMonth_bounds d
  day_bounds := ⟨(civilDay_bounds d).1, civilDay_le d⟩

/-- The parts of a date by its March year, month and day. -/
theorem civil_parts {d : Date} {year m : ℤ} (hyear : marchYear d = year)
    (hm : marchMonth (marchDay d) = m) :
    civilYear d = year + (if 10 ≤ m then 1 else 0) ∧
      civilMonth d = (if m < 10 then m + 3 else m - 9) ∧
      civilDay d = marchDay d - (153 * m + 2) / 5 + 1 := by
  subst hyear hm
  exact ⟨rfl, rfl, rfl⟩

/-- Within a month the next date is the next day of it. -/
theorem civil_succ_of_lt {d : Date} (h : civilDay d < monthLength (civilYear d) (civilMonth d)) :
    civilYear (d + 1) = civilYear d ∧ civilMonth (d + 1) = civilMonth d ∧
      civilDay (d + 1) = civilDay d + 1 := by
  have hbounds := marchMonth_bounds (marchDay_bounds d)
  have hday := marchDay_lt d
  obtain ⟨hlo, -⟩ := marchMonth_eq_iff.mp (rfl : marchMonth (marchDay d) = _)
  rw [monthLength_civil, civilDay] at h
  have hlength := marchLength_bounds (marchYear d)
  have hend : marchDay d + 1 < marchLength (marchYear d) ∧
      5 * (marchDay d + 1) + 2 < 153 * marchMonth (marchDay d) + 153 := by
    unfold monthEnd at h
    split at h <;> omega
  obtain ⟨-, hyear, hsucc⟩ | ⟨hlast, -, -⟩ := march_succ d
  · have hmonth : marchMonth (marchDay (d + 1)) = marchMonth (marchDay d) := by
      rw [hsucc]
      exact marchMonth_eq_iff.mpr ⟨by omega, hend.2⟩
    obtain ⟨hy, hm, hd⟩ := civil_parts hyear hmonth
    refine ⟨hy, hm, ?_⟩
    rw [hd, hsucc, civilDay]
    omega
  · omega

/-- The last date of a month is followed by the first of the next one, and
December by January. -/
theorem civil_succ_of_not_lt {d : Date}
    (h : ¬ civilDay d < monthLength (civilYear d) (civilMonth d)) :
    civilDay (d + 1) = 1 ∧
      ((civilMonth d < 12 ∧ civilYear (d + 1) = civilYear d ∧
          civilMonth (d + 1) = civilMonth d + 1) ∨
        (civilMonth d = 12 ∧ civilYear (d + 1) = civilYear d + 1 ∧ civilMonth (d + 1) = 1)) := by
  have hbounds := marchMonth_bounds (marchDay_bounds d)
  have hday := marchDay_lt d
  have hmonth := marchDay_month d
  have hlast : marchDay d + 1 = monthEnd (marchYear d) (marchMonth (marchDay d)) := by
    rw [monthLength_civil, civilDay] at h
    omega
  obtain ⟨hy, hm, -⟩ := civil_parts (d := d) rfl rfl
  by_cases hfebruary : marchMonth (marchDay d) = 11
  · rw [monthEnd, if_pos hfebruary] at hlast
    obtain ⟨hlt, -, -⟩ | ⟨-, hyear, hsucc⟩ := march_succ d
    · omega
    · obtain ⟨hy', hm', hd'⟩ := civil_parts (m := 0) hyear (by rw [hsucc]; rfl)
      rw [hsucc] at hd'
      rw [hfebruary] at hy hm
      norm_num at hy hm hy' hm' hd'
      omega
  · rw [monthEnd, if_neg hfebruary] at hlast
    have hlong : marchDay d + 1 < marchLength (marchYear d) := by
      have hlength := marchLength_bounds (marchYear d)
      omega
    obtain ⟨-, hyear, hsucc⟩ | ⟨hend, -, -⟩ := march_succ d
    · have hnext : marchMonth (marchDay (d + 1)) = marchMonth (marchDay d) + 1 := by
        rw [hsucc]
        exact marchMonth_eq_iff.mpr ⟨by omega, by omega⟩
      obtain ⟨hy', hm', hd'⟩ := civil_parts hyear hnext
      rw [hsucc] at hd'
      refine ⟨by omega, ?_⟩
      split at hy <;> split at hm <;> split at hy' <;> split at hm' <;> omega
    · omega

/-- The next date is the next day of the calendar. -/
theorem civil_succ (d : Date) : civil (d + 1) = (civil d).next := by
  by_cases hlast : civilDay d < monthLength (civilYear d) (civilMonth d)
  · obtain ⟨hy, hm, hd⟩ := civil_succ_of_lt hlast
    obtain ⟨hyear, hmonth, hday⟩ := CivilDate.next_of_lt (c := civil d) hlast
    exact CivilDate.ext (hy.trans hyear.symm) (hm.trans hmonth.symm) (hd.trans hday.symm)
  · obtain ⟨hd, ⟨hlt, hy, hm⟩ | ⟨htwelve, hy, hm⟩⟩ := civil_succ_of_not_lt hlast
    · obtain ⟨hyear, hmonth, hday⟩ := CivilDate.next_of_month (c := civil d) hlast hlt
      exact CivilDate.ext (hy.trans hyear.symm) (hm.trans hmonth.symm) (hd.trans hday.symm)
    · obtain ⟨hyear, hmonth, hday⟩ := CivilDate.next_of_year (c := civil d) hlast
        (not_lt_of_ge htwelve.ge)
      exact CivilDate.ext (hy.trans hyear.symm) (hm.trans hmonth.symm) (hd.trans hday.symm)

/-! ## Numbers of civil dates -/

/-- The number of a day of the calendar. -/
def CivilDate.toDate (c : CivilDate) : Date :=
  if 3 ≤ c.month then
    daysFromMarch c.year ((153 * (c.month - 3) + 2) / 5 + c.day - 1)
  else daysFromMarch (c.year - 1) ((153 * (c.month + 9) + 2) / 5 + c.day - 1)

example : (civil 19844).toDate = 19844 ∧ civilYear 19844 = 2024 := by decide

/-- A day of a month of a March year. -/
private theorem civil_daysFromMarch {year m day : ℤ} (hm : 0 ≤ m ∧ m ≤ 11) (hday : 1 ≤ day)
    (hlast : day ≤ monthEnd year m - (153 * m + 2) / 5) :
    let d := daysFromMarch year ((153 * m + 2) / 5 + day - 1)
    civilYear d = year + (if 10 ≤ m then 1 else 0) ∧
      civilMonth d = (if m < 10 then m + 3 else m - 9) ∧ civilDay d = day := by
  intro d
  have hlength := marchLength_bounds year
  have hdoy : (153 * m + 2) / 5 + day - 1 < marchLength year ∧
      5 * ((153 * m + 2) / 5 + day - 1) + 2 < 153 * m + 153 := by
    unfold monthEnd at hlast
    split at hlast <;> omega
  obtain ⟨hyear, hd⟩ := marchYear_marchDay_unique ⟨by omega, hdoy.1⟩ (rfl : _ = d)
  have hmonth : marchMonth (marchDay d) = m := by
    rw [hd]
    exact marchMonth_eq_iff.mpr ⟨by omega, hdoy.2⟩
  obtain ⟨hy, hm', hd'⟩ := civil_parts hyear hmonth
  exact ⟨hy, hm', by omega⟩

theorem civil_toDate (c : CivilDate) : civil c.toDate = c := by
  have hmonth := c.month_bounds
  have hday := c.day_bounds
  rw [CivilDate.toDate]
  split
  · next hmarch =>
      have hlength := monthLength_march c.year (m := c.month - 3) ⟨by omega, by omega⟩
      rw [if_neg (by omega), if_pos (by omega), add_zero, sub_add_cancel] at hlength
      obtain ⟨hy, hm, hd⟩ := civil_daysFromMarch (m := c.month - 3) ⟨by omega, by omega⟩ hday.1
        (hlength ▸ hday.2)
      rw [if_neg (by omega), add_zero] at hy
      rw [if_pos (by omega), sub_add_cancel] at hm
      exact CivilDate.ext hy hm hd
  · next hmarch =>
      have hlength := monthLength_march (c.year - 1) (m := c.month + 9) ⟨by omega, by omega⟩
      rw [if_pos (by omega), if_neg (by omega), sub_add_cancel, add_sub_cancel_right] at hlength
      obtain ⟨hy, hm, hd⟩ := civil_daysFromMarch (m := c.month + 9) ⟨by omega, by omega⟩ hday.1
        (hlength ▸ hday.2)
      rw [if_pos (by omega), sub_add_cancel] at hy
      rw [if_neg (by omega), add_sub_cancel_right] at hm
      exact CivilDate.ext hy hm hd

theorem civil_injective : Function.Injective civil := by
  intro d d' h
  obtain ⟨hy, hm, hd⟩ := CivilDate.ext_iff.mp h
  refine formatYmd_injective ?_
  have hy : civilYear d = civilYear d' := hy
  have hm : civilMonth d = civilMonth d' := hm
  have hd : civilDay d = civilDay d' := hd
  rw [formatYmd_eq, formatYmd_eq, hy, hm, hd]

/-! ## Weeks -/

/-- The first of January. -/
def newYear (year : ℤ) : Date := daysFromMarch (year - 1) 306

/-- The day of the year, the first of January being day 0. -/
def dayOfCivilYear (d : Date) : ℤ := d - newYear (civilYear d)

/-- The weekday `%w` prints: 0 for Sunday to 6 for Saturday. -/
def dayOfWeek (d : ℤ) : ℤ := (d + 4) % 7

/-- `EXTRACT(WEEK FROM d)`: weeks start on Sundays, and the days before the
first one are week 0. -/
def extractWeek (d : Date) : ℤ := (dayOfCivilYear d + 7 - dayOfWeek d) / 7

theorem dayOfWeek_bounds (d : ℤ) : 0 ≤ dayOfWeek d ∧ dayOfWeek d ≤ 6 := by
  unfold dayOfWeek
  omega

theorem dayOfCivilYear_bounds (d : Date) : 0 ≤ dayOfCivilYear d ∧ dayOfCivilYear d ≤ 365 := by
  have hday := marchDay_lt d
  have hlength := marchLength_bounds (marchYear d)
  have hnumber := daysFromMarch_marchYear d
  have hsucc := daysFromMarch_succ (marchYear d - 1)
  have hlength' := marchLength_bounds (marchYear d - 1)
  have hmonth : 10 ≤ marchMonth (marchDay d) ↔ 306 ≤ marchDay d := by
    unfold marchMonth
    omega
  rw [daysFromMarch_add] at hnumber
  rw [sub_add_cancel, daysFromMarch_add (marchYear d - 1)] at hsucc
  unfold dayOfCivilYear newYear civilYear
  split
  · rw [add_sub_cancel_right, daysFromMarch_add]
    omega
  · rw [add_zero, daysFromMarch_add]
    omega

theorem generateDateArray_succ {start stop : ℤ} (h : start ≤ stop + 1) :
    generateDateArray start (stop + 1) = generateDateArray start stop ++ [stop + 1] := by
  unfold generateDateArray
  rw [show (stop + 1 - start + 1).toNat = (stop - start + 1).toNat + 1 by omega, List.range_succ,
    List.map_append, List.map_singleton,
    show start + ((stop - start + 1).toNat : ℤ) = stop + 1 by omega]

/-- The week is the number of Sundays the year has had. -/
theorem length_sundays (d : Date) :
    (((generateDateArray (newYear (civilYear d)) d).filter fun e => dayOfWeek e = 0).length : ℤ) =
      extractWeek d := by
  suffices h : ∀ (start : ℤ) (n : ℕ),
      (((generateDateArray start (start + n)).filter fun e => dayOfWeek e = 0).length : ℤ) =
        (n + 7 - dayOfWeek (start + n)) / 7 by
    have hday : 0 ≤ d - newYear (civilYear d) := (dayOfCivilYear_bounds d).1
    have hcount := h (newYear (civilYear d)) (d - newYear (civilYear d)).toNat
    rw [Int.toNat_of_nonneg hday, add_sub_cancel] at hcount
    exact hcount
  intro start n
  induction n with
  | zero =>
      have hone : generateDateArray start (start + ((0 : ℕ) : ℤ)) = [start] := by
        simp [generateDateArray]
      rw [hone, List.filter_singleton]
      unfold dayOfWeek
      by_cases hsunday : (start + 4) % 7 = 0
      · simp [hsunday]
      · simp only [hsunday, decide_false, Bool.cond_false, List.length_nil]
        omega
  | succ n ih =>
      have hsucc : start + ((n + 1 : ℕ) : ℤ) = start + n + 1 := by omega
      rw [hsucc, generateDateArray_succ (by omega), List.filter_append, List.length_append,
        Nat.cast_add, ih, List.filter_singleton]
      unfold dayOfWeek
      by_cases hsunday : (start + n + 1 + 4) % 7 = 0
      · simp only [hsunday, decide_true, Bool.cond_true, List.length_singleton]
        omega
      · simp only [hsunday, decide_false, Bool.cond_false, List.length_nil]
        omega

/-- The week and the weekday tell the dates of a year apart. -/
theorem eq_of_extractWeek_eq {d d' : ℤ} (hyear : civilYear d = civilYear d')
    (hweek : extractWeek d = extractWeek d') (hday : dayOfWeek d = dayOfWeek d') : d = d' := by
  unfold extractWeek dayOfCivilYear at hweek
  rw [hyear, hday] at hweek
  unfold dayOfWeek at hday hweek
  omega

end Sql
