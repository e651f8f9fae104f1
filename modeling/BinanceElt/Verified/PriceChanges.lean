import BinanceElt.Models.History
import BinanceElt.Models.SurrogateKey

/-!
# `price_change` after a full refresh

The value of a day is rounded before `lag` reads it, so that the changes of
`fact_daily_account_value` are exact and add up without drift.  The days are
ordered by the number `%Y%m%d` prints, which orders them as the calendar does.

A day whose prices are all null has a null value.  `coalesce` then shows no
change on this day and on the next one, and what the account gained across it is
in no row.

## Main results

* `priceChanges_exact` — the changes and their sums, over days without nulls.
* `not_priceChanges_exact_gap` — a gain across a day without a price.
-/

namespace BinanceElt

open Sql (Date Timestamp QueryError)

/-! ## The calendar -/

/-- The date of a row of `dim_date`. -/
def fullDateOf (dateId : ℤ) : Date :=
  ((dimDate.find? fun d => d.id = dateId).map DimDate.fullDate).getD firstDate

theorem fullDateOf_id {d : DimDate} (hd : d ∈ dimDate) : fullDateOf d.id = d.fullDate := by
  unfold fullDateOf
  cases hfind : dimDate.find? fun e => e.id = d.id with
  | none => simpa using List.find?_eq_none.mp hfind d hd
  | some e =>
      have hid : e.id = d.id := by simpa using List.find?_some hfind
      have heq : e = d :=
        isDateDim_dimDate.eq_of_id_eq (List.mem_of_find?_eq_some hfind) hd hid
      rw [heq]
      rfl

variable {Id : Type} [DecidableEq Id] (K : SurrogateKey Id)

/-- The calendar date of a row. -/
def FactDailyAccountValue.fullDate (r : FactDailyAccountValue Id) : Date := fullDateOf r.dateId

/-! ## Changes between two rows -/

/-- The change from `u` to `r` is the difference of their values, and none where
a value is null. -/
def ChangesFrom (r : FactDailyAccountValue Id) : Option (FactDailyAccountValue Id) → Prop
  | none => r.priceChange = 0
  | some u =>
      (∀ x y, r.walletValue = some x → u.walletValue = some y → r.priceChange = x - y) ∧
      (r.walletValue = none ∨ u.walletValue = none → r.priceChange = 0)

/-- The sum of `price_change` over the rows up to the date of `r`. -/
def priceChangesUpTo (rows : List (FactDailyAccountValue Id))
    (r : FactDailyAccountValue Id) : ℚ :=
  ((rows.filter fun s => s.fullDate ≤ r.fullDate).map fun s => s.priceChange).sum

section Rows

variable {src : List AccountSnaphsot} {dt : List (DimTickers Id)}
  {prices : List (FactTickerPrices Id)} {ctx : RunContext}
  {rows : List (FactDailyAccountValue Id)}
  (h : factDailyAccountValue K src dt dimDate prices ctx false = .ok rows)
include h

/-- The row of a value of the query. -/
theorem toTotalValue_mem {r : FactDailyAccountValue Id} (hr : r ∈ rows) :
    r.toTotalValue ∈ totalValueOf src dt dimDate prices ctx false :=
  (map_factDailyAccountValue_perm K h).mem_iff.mp (List.mem_map_of_mem hr)

/-- Every row is of a date of the calendar. -/
theorem exists_fullDate {r : FactDailyAccountValue Id} (hr : r ∈ rows) :
    ∃ d ∈ dimDate, d.id = r.dateId ∧ d.fullDate = r.fullDate := by
  obtain ⟨d, hd, hid⟩ := exists_dateId_of_mem_totalValueOf (toTotalValue_mem K h hr)
  refine ⟨d, hd, hid, ?_⟩
  rw [FactDailyAccountValue.fullDate, ← hid, fullDateOf_id hd]

/-- Ordering the rows by `date_id` is ordering them by calendar date. -/
theorem dateId_le_iff {r s : FactDailyAccountValue Id} (hr : r ∈ rows) (hs : s ∈ rows) :
    r.dateId ≤ s.dateId ↔ r.fullDate ≤ s.fullDate := by
  obtain ⟨d, hd, hid, hdate⟩ := exists_fullDate K h hr
  obtain ⟨e, he, hid', hdate'⟩ := exists_fullDate K h hs
  rw [← hid, ← hid', ← hdate, ← hdate', isDateDim_dimDate.id_le_id_iff hd he]

theorem nodup_fullDate : (rows.map fun r => r.fullDate).Nodup := by
  refine Sql.nodup_map_of_imp (nodup_factDailyAccountValue K h) fun r hr s hs hdate => ?_
  exact le_antisymm ((dateId_le_iff K h hr hs).mpr hdate.le)
    ((dateId_le_iff K h hs hr).mpr hdate.ge)

/-- The change of a row is the one since the row of the calendar date before. -/
theorem changesFrom_of_isPrevious {r : FactDailyAccountValue Id} (hr : r ∈ rows)
    {u : Option (FactDailyAccountValue Id)}
    (hu : Sql.IsPrevious (fun s => s.fullDate) rows r u) : ChangesFrom r u := by
  obtain ⟨hchange, -⟩ := valueChanges_of_isPrevious K h hr
    (hu.congr_ord hr fun b hb c hc => (dateId_le_iff K h hb hc).symm)
  cases u with
  | none => rw [ChangesFrom, hchange, Option.bind_none, valueChange_none]
  | some u =>
      rw [Option.bind_some] at hchange
      constructor
      · intro x y hx hy
        have hgrid := isGrid_walletValue (toTotalValue_mem K h hr) hx
        have hgrid' := isGrid_walletValue (toTotalValue_mem K h hu.1) hy
        rw [hchange, hx, hy, valueChange_of_isGrid hgrid hgrid']
      · rintro (hnull | hnull)
        · rw [hchange, hnull]
          rfl
        · rw [hchange, hnull, valueChange_none]

/-- The rows up to a date are those up to its `date_id`. -/
theorem priceChangesUpTo_eq {r : FactDailyAccountValue Id} (hr : r ∈ rows) :
    priceChangesUpTo rows r =
      ((rows.filter fun s => s.dateId ≤ r.dateId).map fun s => s.priceChange).sum := by
  have hfilter : (rows.filter fun s => s.fullDate ≤ r.fullDate) =
      rows.filter fun s => s.dateId ≤ r.dateId :=
    List.filter_congr fun s hs => by simp only [dateId_le_iff K h hs hr]
  rw [priceChangesUpTo, hfilter]

end Rows

/-- Wherever the query succeeds, the order of `date_id` is the calendar order
and no date has two rows; the first row shows no change, and every other row the
exact change since the nearest earlier date with a row, or none where one of the
two values is null; up to a date without a null value before it, the changes add
up to the value of the date minus the first value.

A value is null where a day has assets but no price that can be multiplied.
Such a day breaks the sum, since the changes into it and out of it are both
shown as zero.  The values are multiples of a cent, so that rounding a
difference of two of them changes nothing. -/
theorem priceChanges_exact {src : List AccountSnaphsot} {dt : List (DimTickers Id)}
    {prices : List (FactTickerPrices Id)} {ctx : RunContext}
    {rows : List (FactDailyAccountValue Id)}
    (h : factDailyAccountValue K src dt dimDate prices ctx false = .ok rows) :
    (∀ r ∈ rows, ∃ d ∈ dimDate, d.id = r.dateId ∧ d.fullDate = r.fullDate) ∧
    (∀ r ∈ rows, ∀ s ∈ rows, r.dateId ≤ s.dateId ↔ r.fullDate ≤ s.fullDate) ∧
    (rows.map fun r => r.fullDate).Nodup ∧
    (∀ r ∈ rows, ∀ u, Sql.IsPrevious (fun s => s.fullDate) rows r u → ChangesFrom r u) ∧
    ∀ r ∈ rows, (∀ s ∈ rows, s.fullDate ≤ r.fullDate → s.walletValue ≠ none) →
      ∃ first ∈ rows, (∀ s ∈ rows, first.fullDate ≤ s.fullDate) ∧
        ∃ x x₀, r.walletValue = some x ∧ first.walletValue = some x₀ ∧
          priceChangesUpTo rows r = x - x₀ := by
  refine ⟨fun r hr => exists_fullDate K h hr, fun r hr s hs => dateId_le_iff K h hr hs,
    nodup_fullDate K h, fun r hr u hu => changesFrom_of_isPrevious K h hr hu,
    fun r hr hnonnull => ?_⟩
  obtain ⟨first, hfirst, hnone⟩ := Sql.exists_isPrevious_none (fun s => s.fullDate) hr
  obtain ⟨x, hx⟩ := Option.ne_none_iff_exists'.mp (hnonnull r hr le_rfl)
  obtain ⟨x₀, hx₀⟩ := Option.ne_none_iff_exists'.mp (hnonnull first hfirst (hnone r hr))
  refine ⟨first, hfirst, hnone, x, x₀, hx, hx₀, ?_⟩
  have hstep : ∀ b ∈ rows, b.fullDate ≤ r.fullDate → ∀ p,
      Sql.IsPrevious (fun s => s.fullDate) rows b (some p) →
        |b.priceChange - (b.walletValue.getD 0 - p.walletValue.getD 0)| ≤ 0 := by
    intro b hb hbr p hp
    obtain ⟨y, hy⟩ := Option.ne_none_iff_exists'.mp (hnonnull b hb hbr)
    obtain ⟨z, hz⟩ := Option.ne_none_iff_exists'.mp
      (hnonnull p hp.1 (hp.2.1.le.trans hbr))
    rw [(changesFrom_of_isPrevious K h hb hp).1 y z hy hz, hy, hz]
    simp
  have hzero : first.priceChange = 0 := changesFrom_of_isPrevious K h hfirst hnone
  have hsum := Sql.abs_sum_change_sub_le (nodup_fullDate K h)
    (fun s => s.walletValue.getD 0) ⟨hfirst, hnone⟩ hzero hr hstep
  rw [mul_zero, abs_nonpos_iff, sub_eq_zero] at hsum
  simp only [hx, hx₀, Option.getD_some] at hsum
  exact hsum

/-! ## A day without a price -/

def gapTicker : DimTickers (List ℤ) :=
  ⟨[1], some "BTCUSDT", some "BTC", "Bitcoin", some (Sql.midnight 19844),
    Sql.midnight 19847⟩

/-- The high of 2024-05-02 is null. -/
def gapPrices : List TickerPriceChange :=
  [.ofPrices "BTCUSDT" 60000 50000 1714521600000 (Sql.midnight 19844),
    { TickerPriceChange.ofPrices "BTCUSDT" 0 0 1714608000000 (Sql.midnight 19845) with
      highPrice := none },
    .ofPrices "BTCUSDT" 70000 60000 1714694400000 (Sql.midnight 19846)]

/-- One bitcoin is held on all three days. -/
def gapSnapshots : List AccountSnaphsot :=
  [⟨some "BTC", some 1, some 0, Sql.midnight 19844⟩,
    ⟨some "BTC", some 1, some 0, Sql.midnight 19845⟩,
    ⟨some "BTC", some 1, some 0, Sql.midnight 19846⟩]

def gapContext : RunContext := ⟨19847, Sql.midnight 19847, daysToIngest⟩

/-- The query of a full refresh, over the prices it has just refreshed. -/
def gapQuery (dd : List DimDate) :
    Except QueryError (List (FactDailyAccountValue (List ℤ))) :=
  factDailyAccountValue listing gapSnapshots [gapTicker] dd
    (factTickerPrices listing gapPrices [gapTicker] dd gapContext false) gapContext false

private theorem gapQuery_dimDate : gapQuery dimDate = gapQuery (dateDim 19844 19846) := by
  have hprices : ∀ tp ∈ gapPrices, 19844 ≤ Sql.extractDate tp.timestamp ∧
      Sql.extractDate tp.timestamp ≤ 19846 := by decide
  have hsnapshots : ∀ a ∈ gapSnapshots, 19844 ≤ Sql.extractDate a.timestamp ∧
      Sql.extractDate a.timestamp ≤ 19846 := by decide
  rw [gapQuery, gapQuery, factDailyAccountValue, factDailyAccountValue, totalValueOf,
    totalValueOf,
    currentPortfolio_congr fun a ha => filter_dimDate (by decide) (hsnapshots a ha).1
      (hsnapshots a ha).2 (by decide),
    factTickerPrices_congr listing fun tp htp => filter_dimDate (by decide) (hprices tp htp).1
      (hprices tp htp).2 (by decide)]

theorem priceChanges_exact_gap : ∃ rows, gapQuery dimDate = .ok rows ∧
    (∀ r ∈ rows, ∃ d ∈ dimDate, d.id = r.dateId ∧ d.fullDate = r.fullDate) ∧
    (∀ r ∈ rows, ∀ s ∈ rows, r.dateId ≤ s.dateId ↔ r.fullDate ≤ s.fullDate) ∧
    (rows.map fun r => r.fullDate).Nodup ∧
    (∀ r ∈ rows, ∀ u, Sql.IsPrevious (fun s => s.fullDate) rows r u → ChangesFrom r u) ∧
    ∀ r ∈ rows, (∀ s ∈ rows, s.fullDate ≤ r.fullDate → s.walletValue ≠ none) →
      ∃ first ∈ rows, (∀ s ∈ rows, first.fullDate ≤ s.fullDate) ∧
        ∃ x x₀, r.walletValue = some x ∧ first.walletValue = some x₀ ∧
          priceChangesUpTo rows r = x - x₀ := by
  have hok : ∃ rows, gapQuery dimDate = .ok rows := by
    rw [gapQuery_dimDate]
    decide +kernel
  obtain ⟨rows, hrows⟩ := hok
  exact ⟨rows, hrows, priceChanges_exact listing hrows⟩

/-- From 2024-05-01 to 2024-05-03 the account gains 10000, and no row shows
it. -/
theorem not_priceChanges_exact_gap : ∃ rows, gapQuery dimDate = .ok rows ∧
    ∃ r ∈ rows, ∃ first ∈ rows, (∀ s ∈ rows, first.fullDate ≤ s.fullDate) ∧
      r.walletValue = some 65000 ∧ first.walletValue = some 55000 ∧
      priceChangesUpTo rows r ≠ 65000 - 55000 := by
  have hrows : ∃ rows, gapQuery dimDate = .ok rows ∧
      ∃ r ∈ rows, ∃ first ∈ rows, (∀ s ∈ rows, first.dateId ≤ s.dateId) ∧
        r.walletValue = some 65000 ∧ first.walletValue = some 55000 ∧
        ((rows.filter fun s => s.dateId ≤ r.dateId).map fun s => s.priceChange).sum ≠
          65000 - 55000 := by
    rw [gapQuery_dimDate]
    decide +kernel
  obtain ⟨rows, h, r, hr, first, hfirst, hmin, hvalue, hvalue', hsum⟩ := hrows
  refine ⟨rows, h, r, hr, first, hfirst, fun s hs => ?_, hvalue, hvalue', ?_⟩
  · exact (dateId_le_iff listing h hfirst hs).mp (hmin s hs)
  · rw [priceChangesUpTo_eq listing h hr]
    exact hsum

end BinanceElt
