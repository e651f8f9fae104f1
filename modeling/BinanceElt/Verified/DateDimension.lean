import BinanceElt.Models.History
import BinanceElt.Sql.Gregorian
import Mathlib.Data.List.Iterate

/-!
# The columns of `dim_date`

The other models read `id` and `full_date` only; a report reads the rest.  The
columns `year`, `month` and `year_day` count the days of the Gregorian calendar,
`id` puts them together, and `year_week` and `week_day` are those of weeks that
start on Sundays, the days on which `run_dbt.sh` asks for a full refresh.

## Main results

* `map_toDimDate` — the columns the other models read.
* `dateColumns_calendar` — the table lists the days of the calendar, one by one.
* `weekColumns_sunday` — weeks start with the full refresh, and have no day twice.
-/

namespace BinanceElt

open Sql (Date CivilDate civil civilYear civilMonth civilDay dayOfWeek extractWeek newYear)

/-! ## The query -/

/-- `FORMAT_DATE('%B', d)`. -/
def monthName (month : ℤ) : String :=
  ["January", "February", "March", "April", "May", "June", "July", "August", "September",
    "October", "November", "December"].getD (month - 1).toNat ""

/-- `FORMAT_DATE('%A', d)`. -/
def dayName (weekday : ℤ) : String :=
  ["Sunday", "Monday", "Tuesday", "Wednesday", "Thursday", "Friday", "Saturday"].getD
    weekday.toNat ""

/-- A row with all its columns. -/
structure DimDateColumns extends DimDate where
  year : ℤ
  yearWeek : ℤ
  yearDay : ℤ
  fiscalYear : ℤ
  fiscalQtr : String
  month : ℤ
  monthName : String
  weekDay : String
  dayName : String
  dayIsWeekday : ℤ
deriving DecidableEq, Repr

/-- The select list of `dim_date`. -/
def DimDateColumns.ofDate (d : Date) : DimDateColumns where
  toDimDate := DimDate.ofDate d
  year := civilYear d
  yearWeek := extractWeek d
  yearDay := civilDay d
  fiscalYear := civilYear d
  fiscalQtr := toString ((civilMonth d - 1) / 3 + 1)
  month := civilMonth d
  monthName := BinanceElt.monthName (civilMonth d)
  weekDay := toString (dayOfWeek d)
  dayName := BinanceElt.dayName (dayOfWeek d)
  dayIsWeekday := if BinanceElt.dayName (dayOfWeek d) ∈ ["Sunday", "Saturday"] then 0 else 1

/-- The rows of the dates between two dates. -/
def dateColumns (start stop : Date) : List DimDateColumns :=
  (Sql.generateDateArray start stop).map DimDateColumns.ofDate

/-- Of these columns the other models read the dimension. -/
theorem map_toDimDate :
    (dateColumns firstDate lastDate).map DimDateColumns.toDimDate = dimDate := by
  rw [dateColumns, List.map_map]
  rfl

example : DimDateColumns.ofDate 19844 =
    { id := 20240501, fullDate := 19844, year := 2024, yearWeek := 17, yearDay := 1,
      fiscalYear := 2024, fiscalQtr := "2", month := 5, monthName := "May", weekDay := "3",
      dayName := "Wednesday", dayIsWeekday := 1 } := by decide

/-! ## The calendar -/

/-- The columns that name a day. -/
def DimDateColumns.parts (r : DimDateColumns) : ℤ × ℤ × ℤ := (r.year, r.month, r.yearDay)

private theorem parts_ofDate (d : Date) : (DimDateColumns.ofDate d).parts =
    ((civil d).year, (civil d).month, (civil d).day) := rfl

/-- A day that is `n` days later. -/
private theorem civil_add (d : Date) (n : ℕ) : civil (d + n) = CivilDate.next^[n] (civil d) := by
  induction n with
  | zero => simp
  | succ n ih =>
      rw [Function.iterate_succ_apply', ← ih, ← Sql.civil_succ]
      congr 1
      push_cast
      ring

/-- The rows from any day on name it and the days after it, without a gap and
without a repetition, and their ids are these names.

`CivilDate.next` is the calendar as one writes it down, month by month and with
its leap years; `dateColumns` goes by the number of the day.  The theorem is
therefore also a check of the arithmetic in `formatYmd`, for all years. -/
theorem dateColumns_calendar (start : CivilDate) (n : ℕ) :
    (dateColumns start.toDate (start.toDate + n)).map DimDateColumns.parts =
        (List.iterate CivilDate.next start (n + 1)).map
          (fun c => (c.year, c.month, c.day)) ∧
      ((dateColumns start.toDate (start.toDate + n)).map DimDateColumns.parts).Nodup ∧
      ∀ r ∈ dateColumns start.toDate (start.toDate + n),
        r.id = r.year * 10000 + r.month * 100 + r.yearDay := by
  refine ⟨?_, ?_, fun r hr => ?_⟩
  · have hlength : (start.toDate + n - start.toDate + 1).toNat = n + 1 := by omega
    rw [dateColumns, Sql.generateDateArray, hlength, List.map_map, List.map_map]
    refine List.ext_getElem (by simp) fun i hi hi' => ?_
    simp only [List.getElem_map, List.getElem_range, Function.comp_apply, parts_ofDate,
      List.getElem_iterate, civil_add, Sql.civil_toDate]
  · rw [dateColumns, List.map_map]
    refine (Sql.nodup_generateDateArray _ _).map fun d d' h => Sql.civil_injective ?_
    simp only [Function.comp_apply, parts_ofDate, Prod.mk.injEq] at h
    exact CivilDate.ext h.1 h.2.1 h.2.2
  · obtain ⟨d, -, rfl⟩ := List.mem_map.mp hr
    exact Sql.formatYmd_eq d

/-! ## Weeks -/

private theorem toString_dayOfWeek_inj {d d' : ℤ}
    (h : toString (dayOfWeek d) = toString (dayOfWeek d')) : dayOfWeek d = dayOfWeek d' :=
  Sql.intText_inj (congrArg String.toList h)

private theorem dayName_eq_sunday_iff {d : ℤ} :
    dayName (dayOfWeek d) = "Sunday" ↔ dayOfWeek d = 0 := by
  have hall : ∀ n < 7, dayName (n : ℕ) = "Sunday" ↔ n = 0 := by decide
  have hbounds := Sql.dayOfWeek_bounds d
  have h := hall (dayOfWeek d).toNat (by omega)
  rw [Int.toNat_of_nonneg hbounds.1] at h
  rw [h]
  omega

/-- The week of a row is the number of Sundays of its year so far, and no other
row of the year has the same week and weekday; the Sundays are the days on which
an execution of `run_dbt.sh` refreshes everything.

BigQuery counts weekdays from Sunday and `date +%u` from Monday, so that the
last part compares two numberings of the weekdays. -/
theorem weekColumns_sunday (d : Date) :
    (((dateColumns (newYear (civilYear d)) d).filter fun r => r.dayName = "Sunday").length : ℤ) =
        (DimDateColumns.ofDate d).yearWeek ∧
      (∀ d', ((DimDateColumns.ofDate d').year, (DimDateColumns.ofDate d').yearWeek,
          (DimDateColumns.ofDate d').weekDay) = ((DimDateColumns.ofDate d).year,
          (DimDateColumns.ofDate d).yearWeek, (DimDateColumns.ofDate d).weekDay) ↔ d' = d) ∧
      ∀ e : Execution,
        e.run.fullRefresh = true ↔ (DimDateColumns.ofDate e.today).dayName = "Sunday" := by
  refine ⟨?_, fun d' => ⟨fun h => ?_, fun h => h ▸ rfl⟩, fun e => ?_⟩
  · have hsundays := Sql.length_sundays d
    rw [dateColumns, List.filter_map, List.length_map, ← show _ = (DimDateColumns.ofDate d).yearWeek
      from hsundays]
    congr 2
    refine List.filter_congr fun e _ => ?_
    simp only [Function.comp_apply, DimDateColumns.ofDate, dayName_eq_sunday_iff]
  · obtain ⟨hyear, hweek⟩ := Prod.mk.inj h
    obtain ⟨hweek, hday⟩ := Prod.mk.inj hweek
    exact Sql.eq_of_extractWeek_eq hyear hweek (toString_dayOfWeek_inj hday)
  · have hsunday : Sql.isoWeekday e.today = 7 ↔ dayOfWeek e.today = 0 := by
      unfold Sql.isoWeekday dayOfWeek
      omega
    show (Sql.isoWeekday e.today == 7) = true ↔ dayName (dayOfWeek e.today) = "Sunday"
    rw [beq_iff_eq, hsunday, dayName_eq_sunday_iff]

end BinanceElt
