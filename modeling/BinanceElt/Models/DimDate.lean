import BinanceElt.Models.Sources

/-!
# `dim_date`

The date dimension is tagged `static`: it is built once, from 2014-01-01 to
2050-01-01, and excluded from the scheduled runs.  Only `id` and `full_date`
are read by other models; the descriptive columns are left out.
-/

namespace BinanceElt

open Sql (Date)

structure DimDate where
  id : ℤ
  fullDate : Date
deriving DecidableEq, Repr

/-- The select list of `dim_date`. -/
def DimDate.ofDate (d : Date) : DimDate := ⟨Sql.formatYmd d, d⟩

/-- 2014-01-01 and 2050-01-01, the bounds of the generated array.  A row
ingested outside them joins with no date. -/
def firstDate : Date := 16071
def lastDate : Date := 29220

example : Sql.formatYmd firstDate = 20140101 ∧ Sql.formatYmd lastDate = 20500101 := by
  decide

/-- The dimension of the dates between two dates. -/
def dateDim (start stop : Date) : List DimDate :=
  (Sql.generateDateArray start stop).map DimDate.ofDate

def dimDate : List DimDate := dateDim firstDate lastDate

/-- What the other models need of a date dimension: one row per date, with the
id computed from the date.  Results that do not depend on the bounds are stated
for any such dimension, so that a witness can take a short one. -/
structure IsDateDim (dd : List DimDate) : Prop where
  nodup : (dd.map DimDate.fullDate).Nodup
  eq_ofDate : ∀ d ∈ dd, d = DimDate.ofDate d.fullDate

theorem isDateDim_map {dates : List Date} (h : dates.Nodup) :
    IsDateDim (dates.map DimDate.ofDate) where
  nodup := by simpa [List.map_map, Function.comp_def, DimDate.ofDate] using h
  eq_ofDate := by
    intro d hd
    obtain ⟨date, -, rfl⟩ := List.mem_map.mp hd
    rfl

theorem isDateDim_dateDim (start stop : Date) : IsDateDim (dateDim start stop) :=
  isDateDim_map (Sql.nodup_generateDateArray _ _)

theorem isDateDim_dimDate : IsDateDim dimDate := isDateDim_dateDim _ _

/-- A date of the dimension has one row. -/
theorem filter_dateDim {start stop date : Date} (hstart : start ≤ date)
    (hstop : date ≤ stop) :
    ((dateDim start stop).filter fun d => d.fullDate = date) = [DimDate.ofDate date] := by
  have hdim := isDateDim_dateDim start stop
  refine List.perm_singleton.mp ((List.perm_ext_iff_of_nodup
    ((List.Nodup.of_map _ hdim.nodup).filter _) (List.nodup_singleton _)).mpr fun d => ?_)
  rw [List.mem_filter, decide_eq_true_eq, List.mem_singleton]
  constructor
  · rintro ⟨hd, rfl⟩
    exact hdim.eq_ofDate d hd
  · rintro rfl
    exact ⟨List.mem_map_of_mem (Sql.mem_generateDateArray.mpr ⟨hstart, hstop⟩), rfl⟩

/-- Between two dates of its range, `dim_date` has the rows of the dimension of
these dates. -/
theorem filter_dimDate {start stop date : Date} (hfirst : firstDate ≤ start)
    (hstart : start ≤ date) (hstop : date ≤ stop) (hlast : stop ≤ lastDate) :
    (dimDate.filter fun d => d.fullDate = date) =
      (dateDim start stop).filter fun d => d.fullDate = date := by
  rw [dimDate, filter_dateDim (hfirst.trans hstart) (hstop.trans hlast),
    filter_dateDim hstart hstop]

namespace IsDateDim

variable {dd : List DimDate} (h : IsDateDim dd)
include h

theorem id_eq {d : DimDate} (hd : d ∈ dd) : d.id = Sql.formatYmd d.fullDate :=
  congrArg DimDate.id (h.eq_ofDate d hd)

theorem eq_of_fullDate_eq {d d' : DimDate} (hd : d ∈ dd) (hd' : d' ∈ dd)
    (heq : d.fullDate = d'.fullDate) : d = d' := by
  rw [h.eq_ofDate d hd, h.eq_ofDate d' hd', heq]

theorem eq_of_id_eq {d d' : DimDate} (hd : d ∈ dd) (hd' : d' ∈ dd)
    (heq : d.id = d'.id) : d = d' := by
  refine h.eq_of_fullDate_eq hd hd' (Sql.formatYmd_injective ?_)
  rw [← h.id_eq hd, ← h.id_eq hd', heq]

theorem nodup_id : (dd.map DimDate.id).Nodup := by
  refine Sql.nodup_map_of_imp h.nodup fun d hd d' hd' heq => ?_
  rw [h.eq_of_id_eq hd hd' heq]

/-- Ordering by `date_id` is ordering by calendar date. -/
theorem id_le_id_iff {d d' : DimDate} (hd : d ∈ dd) (hd' : d' ∈ dd) :
    d.id ≤ d'.id ↔ d.fullDate ≤ d'.fullDate := by
  rw [h.id_eq hd, h.id_eq hd', Sql.formatYmd_le_iff]

theorem id_lt_id_iff {d d' : DimDate} (hd : d ∈ dd) (hd' : d' ∈ dd) :
    d.id < d'.id ↔ d.fullDate < d'.fullDate := by
  rw [h.id_eq hd, h.id_eq hd', Sql.formatYmd_lt_iff]

end IsDateDim

end BinanceElt
