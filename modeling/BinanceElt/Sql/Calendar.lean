import Mathlib.Data.List.Nodup
import Mathlib.Data.List.Range
import Mathlib.Order.Monotone.Basic
import Mathlib.Tactic.SplitIfs

/-!
# Dates and timestamps

A `DATE` is its number of days since 1970-01-01 and a `TIMESTAMP` its number of
microseconds since that day's midnight UTC, so that date arithmetic and the
order of dates are those of the integers.  The civil year, month and day are
computed in years that start on the first of March: the leap day is then the
last day of its year, and a date is a mixed-radix number of 400-year eras,
centuries, four-year cycles, years and days.

## Main results

* `marchYear_marchDay_lt` — the mixed-radix digits order dates.
* `formatYmd_lt_iff`, `formatYmd_le_iff` — the number `%Y%m%d` prints orders dates
  too.
-/

namespace Sql

/-- Days since 1970-01-01. -/
abbrev Date := ℤ

/-- Microseconds since 1970-01-01 00:00:00 UTC. -/
abbrev Timestamp := ℤ

/-- `EXTRACT(DATE FROM ts)`. -/
def extractDate (ts : Timestamp) : Date := ts / 86400000000

/-- The first timestamp of a date. -/
def midnight (d : Date) : Timestamp := d * 86400000000

@[simp] theorem extractDate_midnight (d : ℤ) : extractDate (midnight d) = d := by
  have hdiv : d * 86400000000 / 86400000000 = d := by omega
  exact hdiv

/-- A day in microseconds. -/
def oneDay : ℤ := 86400000000

/-- At most a day later is at most one date later. -/
theorem extractDate_sub_one_le {ts ts' : ℤ} (h : ts' ≤ ts + oneDay) :
    extractDate ts' - 1 ≤ extractDate ts := by
  have h : ts' ≤ ts + 86400000000 := h
  have hdates : ts' / 86400000000 - 1 ≤ ts / 86400000000 := by omega
  exact hdates

/-- 0001-01-01 and 9999-12-31, the first and the last `DATE`. -/
def minDate : Date := -719162
def maxDate : Date := 2932896

/-- A `TIMESTAMP` falls on a `DATE`. -/
def IsTimestamp (ts : Timestamp) : Prop := minDate ≤ extractDate ts ∧ extractDate ts ≤ maxDate

instance (ts : Timestamp) : Decidable (IsTimestamp ts) := instDecidableAnd

/-- `TIMESTAMP_MILLIS(ms)`, where it has a value: the function raises when the
number of microseconds is no `TIMESTAMP` (`IsTimestamp`), which its callers
check. -/
def timestampMillis (ms : ℤ) : Timestamp := ms * 1000

theorem timestampMillis_injective : Function.Injective timestampMillis := by
  intro a b h
  have h : a * 1000 = b * 1000 := h
  omega

/-- The weekday `date +%u` prints: 1 for Monday to 7 for Sunday. -/
def isoWeekday (d : ℤ) : ℤ := (d + 3) % 7 + 1

/-! ## Civil dates -/

/-- The 400-year era of a date, and the day within it. -/
def era (d : ℤ) : ℤ := (d + 719468) / 146097
def dayOfEra (d : ℤ) : ℤ := (d + 719468) % 146097

/-- The century of a day of an era; the last one has a day more. -/
def century (doe : ℤ) : ℤ := if doe / 36524 = 4 then 3 else doe / 36524
def dayOfCentury (doe : ℤ) : ℤ := doe - 36524 * century doe

/-- The year of a day of a four-year cycle; the last one is the leap year. -/
def yearOfCycle (doc : ℤ) : ℤ :=
  if doc % 1461 / 365 = 4 then 3 else doc % 1461 / 365
def dayOfYear (doc : ℤ) : ℤ := doc % 1461 - 365 * yearOfCycle doc

/-- The year, counted from March to February, of a date. -/
def marchYear (d : ℤ) : ℤ :=
  400 * era d + 100 * century (dayOfEra d) +
    4 * (dayOfCentury (dayOfEra d) / 1461) + yearOfCycle (dayOfCentury (dayOfEra d))

/-- The day of that year, the first of March being day 0. -/
def marchDay (d : ℤ) : ℤ := dayOfYear (dayOfCentury (dayOfEra d))

/-- The month of a day of a March year, March being month 0. -/
def marchMonth (doy : ℤ) : ℤ := (5 * doy + 2) / 153

/-- `FORMAT_DATE('%Y%m%d')` of a day of a March year, read as a number. -/
def ymd (year doy : ℤ) : ℤ :=
  (year + if 10 ≤ marchMonth doy then 1 else 0) * 10000 +
    (if marchMonth doy < 10 then marchMonth doy + 3 else marchMonth doy - 9) * 100 +
    (doy - (153 * marchMonth doy + 2) / 5 + 1)

/-- `CAST(FORMAT_DATE('%Y%m%d', d) AS INT64)`. -/
def formatYmd (d : ℤ) : ℤ := ymd (marchYear d) (marchDay d)

/-! ## The digits order dates -/

theorem dayOfEra_bounds (d : ℤ) : 0 ≤ dayOfEra d ∧ dayOfEra d < 146097 := by
  unfold dayOfEra
  omega

theorem century_bounds {doe : ℤ} (h : 0 ≤ doe ∧ doe < 146097) :
    0 ≤ century doe ∧ century doe ≤ 3 ∧
      0 ≤ dayOfCentury doe ∧ dayOfCentury doe < 36525 := by
  unfold dayOfCentury century
  split <;> omega

theorem yearOfCycle_bounds (doc : ℤ) :
    0 ≤ yearOfCycle doc ∧ yearOfCycle doc ≤ 3 ∧
      0 ≤ dayOfYear doc ∧ dayOfYear doc ≤ 365 := by
  unfold dayOfYear yearOfCycle
  split <;> omega

theorem marchDay_bounds (d : ℤ) : 0 ≤ marchDay d ∧ marchDay d ≤ 365 :=
  (yearOfCycle_bounds _).2.2

/-- Later days of an era fall in a later century, or later in the same one. -/
theorem century_lt {doe doe' : ℤ} (h0 : 0 ≤ doe) (hlt : doe < doe')
    (h1 : doe' < 146097) :
    century doe < century doe' ∨
      (century doe = century doe' ∧ dayOfCentury doe < dayOfCentury doe') := by
  unfold dayOfCentury century
  split <;> split <;> omega

/-- Later days of a century fall in a later year, or later in the same one. -/
theorem yearOfCycle_lt {doc doc' : ℤ} (hlt : doc < doc') :
    4 * (doc / 1461) + yearOfCycle doc < 4 * (doc' / 1461) + yearOfCycle doc' ∨
      (4 * (doc / 1461) + yearOfCycle doc = 4 * (doc' / 1461) + yearOfCycle doc' ∧
        dayOfYear doc < dayOfYear doc') := by
  unfold dayOfYear yearOfCycle
  split <;> split <;> omega

/-- A later date has a later March year, or a later day of the same one. -/
theorem marchYear_marchDay_lt {d d' : ℤ} (hlt : d < d') :
    marchYear d < marchYear d' ∨
      (marchYear d = marchYear d' ∧ marchDay d < marchDay d') := by
  have hd := dayOfEra_bounds d
  have hd' := dayOfEra_bounds d'
  have hc := century_bounds hd
  have hc' := century_bounds hd'
  have hy := yearOfCycle_bounds (dayOfCentury (dayOfEra d))
  have hy' := yearOfCycle_bounds (dayOfCentury (dayOfEra d'))
  have hera : era d < era d' ∨ (era d = era d' ∧ dayOfEra d < dayOfEra d') := by
    clear hc hc' hy hy' hd hd'
    unfold era dayOfEra
    omega
  unfold marchYear marchDay
  rcases hera with hera | ⟨hera, hday⟩
  · omega
  · rcases century_lt hd.1 hday hd'.2 with hcen | ⟨hcen, hdoc⟩
    · omega
    · have hyear := yearOfCycle_lt hdoc
      omega

/-! ## The printed number orders dates -/

theorem marchMonth_bounds {doy : ℤ} (h : 0 ≤ doy ∧ doy ≤ 365) :
    0 ≤ marchMonth doy ∧ marchMonth doy ≤ 11 := by
  unfold marchMonth
  omega

theorem dayOfMonth_bounds (doy : ℤ) :
    0 ≤ doy - (153 * marchMonth doy + 2) / 5 ∧
      doy - (153 * marchMonth doy + 2) / 5 ≤ 30 := by
  unfold marchMonth
  omega

theorem ymd_bounds (year : ℤ) {doy : ℤ} (h : 0 ≤ doy ∧ doy ≤ 365) :
    year * 10000 + 301 ≤ ymd year doy ∧ ymd year doy < (year + 1) * 10000 + 301 := by
  have hmonth := marchMonth_bounds h
  have hday := dayOfMonth_bounds doy
  unfold ymd
  split <;> split <;> omega

theorem ymd_lt_of_day_lt (year : ℤ) {doy doy' : ℤ} (h : 0 ≤ doy) (hlt : doy < doy')
    (h' : doy' ≤ 365) : ymd year doy < ymd year doy' := by
  have hmonth := marchMonth_bounds ⟨h, hlt.le.trans h'⟩
  have hmonth' := marchMonth_bounds ⟨h.trans hlt.le, h'⟩
  have hday := dayOfMonth_bounds doy
  have hday' := dayOfMonth_bounds doy'
  have hle : marchMonth doy ≤ marchMonth doy' := by
    unfold marchMonth
    omega
  have hsame : marchMonth doy = marchMonth doy' →
      (153 * marchMonth doy + 2) / 5 = (153 * marchMonth doy' + 2) / 5 := by
    intro heq
    rw [heq]
  unfold ymd
  split <;> split <;> split <;> split <;> omega

/-- `%Y%m%d` prints later dates as greater numbers, also across the ends of
months and years. -/
theorem formatYmd_lt {d d' : Date} (h : d < d') : formatYmd d < formatYmd d' := by
  unfold formatYmd
  rcases marchYear_marchDay_lt h with hyear | ⟨hyear, hday⟩
  · have hb := ymd_bounds (marchYear d) (marchDay_bounds d)
    have hb' := ymd_bounds (marchYear d') (marchDay_bounds d')
    omega
  · rw [hyear]
    exact ymd_lt_of_day_lt _ (marchDay_bounds d).1 hday (marchDay_bounds d').2

theorem formatYmd_lt_iff {d d' : Date} : formatYmd d < formatYmd d' ↔ d < d' :=
  StrictMono.lt_iff_lt fun _ _ => formatYmd_lt

theorem formatYmd_le_iff {d d' : Date} : formatYmd d ≤ formatYmd d' ↔ d ≤ d' :=
  StrictMono.le_iff_le fun _ _ => formatYmd_lt

theorem formatYmd_injective : Function.Injective formatYmd :=
  StrictMono.injective fun _ _ => formatYmd_lt

example : formatYmd 0 = 19700101 ∧ formatYmd 19782 = 20240229 := by decide

/-! ## Ranges of dates -/

/-- `GENERATE_DATE_ARRAY(start, stop, INTERVAL 1 DAY)`. -/
def generateDateArray (start stop : ℤ) : List Date :=
  (List.range (stop - start + 1).toNat).map fun i : ℕ => start + (i : ℤ)

theorem mem_generateDateArray {start stop d : ℤ} :
    d ∈ generateDateArray start stop ↔ start ≤ d ∧ d ≤ stop := by
  simp only [generateDateArray, List.mem_map, List.mem_range]
  constructor
  · rintro ⟨i, hi, rfl⟩
    omega
  · rintro ⟨hstart, hstop⟩
    exact ⟨(d - start).toNat, by omega, by omega⟩

theorem nodup_generateDateArray (start stop : ℤ) :
    (generateDateArray start stop).Nodup := by
  refine List.Nodup.map ?_ List.nodup_range
  intro i j hij
  have hcast : start + (i : ℤ) = start + (j : ℤ) := hij
  omega

end Sql
