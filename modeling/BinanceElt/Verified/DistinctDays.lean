import BinanceElt.Models.History
import BinanceElt.Models.SurrogateKey
import BinanceElt.Models.Valuation

/-!
# One row per day in `fact_daily_account_value`

The key of the table contains the computed value, so that a day whose value
comes out different in a later incremental run is inserted again instead of
being updated.

## Main results

* `distinctDays_dbtRun_iff` — when one run keeps the days distinct.
* `distinctDays_iff` — the days stay distinct over a sequence of runs exactly
  when no incremental run finds a stored day worth something else.
* `not_distinctDays_lateIngest` — a day ingested in two parts gets two rows.
-/

namespace BinanceElt

open Sql (Date Timestamp QueryError)

variable {Id : Type} [DecidableEq Id] (K : SurrogateKey Id) (dd : List DimDate)

/-- No two rows of the table carry the same day.  A table that does not exist
yet has none. -/
def DistinctDays (w : Warehouse Id) : Prop :=
  ∀ rows, w.factDailyAccountValue = some rows → (rows.map fun r => r.dateId).Nodup

/-- An incremental run finds every stored day of its window worth what the
stored row says.  The worth is that of `walletValueOn`, from the sources and
the prices of the run; a stored day without a valued ticker is not computed
again. -/
def KeepsStoredValues (run : DbtRun) (w : Warehouse Id) : Prop :=
  ∀ stored dt prices, run.fullRefresh = false → w.factDailyAccountValue = some stored →
    buildDimTickers K run = .ok dt → buildFactTickerPrices K dd run w = .ok prices →
    ∀ r ∈ stored, ∀ d ∈ dd, d.id = r.dateId →
      valuedTickers run.sources.accountSnaphsot dt prices run.toRunContext true d ≠ [] →
      walletValueOn run.sources.accountSnaphsot dt prices run.toRunContext true d =
        r.walletValue

/-! ## One run -/

section Step

variable {dd} {run : DbtRun} {w : Warehouse Id}

/-- A stored day is inserted again exactly when it is worth something else.
`hkeyed` says that stored ids are the keys of their rows, so that an output row
matches the stored row of its day if and only if the values agree. -/
theorem nodup_dateId_merge_iff (hdd : IsDateDim dd) (hkeyed : ValueKeyed K w)
    {stored source merged : List (FactDailyAccountValue Id)}
    {dt : List (DimTickers Id)} {prices : List (FactTickerPrices Id)}
    (hstored : w.factDailyAccountValue = some stored)
    (hdistinct : (stored.map fun r => r.dateId).Nodup)
    (hdt : buildDimTickers K run = .ok dt)
    (hsource : factDailyAccountValue K run.sources.accountSnaphsot dt dd prices
      run.toRunContext true = .ok source)
    (hmerge : Sql.merge (fun r => r.id) stored source = .ok merged) :
    (merged.map fun r => r.dateId).Nodup ↔
      ∀ r ∈ stored, ∀ d ∈ dd, d.id = r.dateId →
        valuedTickers run.sources.accountSnaphsot dt prices run.toRunContext true d ≠ [] →
        walletValueOn run.sources.accountSnaphsot dt prices run.toRunContext true d =
          r.walletValue := by
  have hid : ∀ r ∈ stored, ∀ s ∈ source,
      (s.id = r.id ↔ s.dateId = r.dateId ∧ s.walletValue = r.walletValue) := by
    intro r hr s hs
    rw [hkeyed stored hstored r hr, factDailyAccountValue_id K hsource hs, valueId_inj]
  rw [Sql.nodup_map_of_merge_iff hmerge (fun r hr s hs h => ((hid r hr s hs).mp h).1)
    hdistinct (nodup_factDailyAccountValue K hsource)]
  refine forall₂_congr fun r hr => ?_
  constructor
  · intro hsame d hd hday hvalued
    obtain ⟨s, hs, hsv⟩ := (exists_row_iff K hdd hdt hsource).mpr ⟨d, hd, hvalued, rfl⟩
    have hsday : s.dateId = r.dateId := by rw [← hday, hsv]
    rw [← ((hid r hr s hs).mp (hsame s hs hsday)).2, hsv]
  · intro hsame s hs hday
    obtain ⟨d, hd, hvalued, hsv⟩ := (exists_row_iff K hdd hdt hsource).mp ⟨s, hs, rfl⟩
    refine (hid r hr s hs).mpr ⟨hday, ?_⟩
    rw [← hsame d hd (by rw [← hday, hsv]) hvalued, hsv]

/-- One run keeps the days distinct exactly when it fails or finds the stored
days worth what they were.  This is the step of `distinctDays_iff`; of a full
refresh `KeepsStoredValues` asks nothing. -/
theorem distinctDays_dbtRun_iff (hdd : IsDateDim dd) (hkeyed : ValueKeyed K w)
    (hdistinct : DistinctDays w) :
    DistinctDays (dbtRun K dd run w) ↔
      ((∃ rows, buildFactDailyAccountValue K dd run w = .ok rows) →
        KeepsStoredValues K dd run w) := by
  rcases Sql.tableAfter_cases (fun r => r.id) w.factDailyAccountValue run.fullRefresh
    (queryFactDailyAccountValue K dd run w) with ⟨hfail, hafter⟩ |
      ⟨source, hmode, hquery, hafter⟩ |
      ⟨stored, source, merged, hmode, hstored, hquery, hmerge, hafter⟩
  · refine iff_of_true (fun rows hrows => hdistinct rows (hafter.symm.trans hrows)) ?_
    rintro ⟨rows, hrows⟩
    exact absurd hrows (hfail rows)
  · obtain ⟨dt, -, prices, -, hsource⟩ := (queryFactDailyAccountValue_eq_ok_iff K).mp hquery
    refine iff_of_true (fun rows hrows => ?_) fun _ stored _ _ hfull hstored => ?_
    · obtain rfl := Option.some.inj (hafter.symm.trans hrows)
      exact nodup_factDailyAccountValue K hsource
    · simp [Sql.isIncremental, hstored, hfull] at hmode
  · obtain ⟨dt, hdt, prices, hprices, hsource⟩ :=
      (queryFactDailyAccountValue_eq_ok_iff K).mp hquery
    have hmerged := nodup_dateId_merge_iff K hdd hkeyed hstored (hdistinct stored hstored)
      hdt hsource hmerge
    have hbuilt : buildFactDailyAccountValue K dd run w = .ok merged :=
      Sql.materialize_eq_ok_iff.mpr
        ⟨source, hmode ▸ hquery, .inr ⟨hmode, stored, hstored, hmerge⟩⟩
    constructor
    · intro hafterDistinct _ stored' dt' prices' _ hstored' hdt' hprices'
      obtain rfl := Option.some.inj (hstored.symm.trans hstored')
      obtain rfl := Except.ok.inj (hdt.symm.trans hdt')
      obtain rfl := Except.ok.inj (hprices.symm.trans hprices')
      exact hmerged.mp (hafterDistinct merged hafter)
    · intro hkeeps rows hrows
      obtain rfl := Option.some.inj (hafter.symm.trans hrows)
      have hfull : run.fullRefresh = false := by
        simpa [Sql.isIncremental, hstored] using hmode
      exact hmerged.mpr (hkeeps ⟨merged, hbuilt⟩ stored dt prices hfull hstored hdt hprices)

end Step

/-! ## Sequences of runs -/

/-- The days are distinct after every run exactly when every incremental run
that builds the table finds the stored days worth what they were.

The id of a row hashes the day together with its value, so that a day whose
value has changed is inserted beside its old row.  A full refresh and a run
whose query fails need no condition: the one replaces the table, and the other
leaves it.  Nothing is assumed of the runs, not even that their sources grow. -/
theorem distinctDays_iff (runs : ℕ → DbtRun) (n : ℕ) :
    (∀ m ≤ n, DistinctDays (warehouseAfter K dimDate runs m)) ↔
      ∀ m < n, (∃ rows, buildFactDailyAccountValue K dimDate (runs m)
          (warehouseAfter K dimDate runs m) = .ok rows) →
        KeepsStoredValues K dimDate (runs m) (warehouseAfter K dimDate runs m) := by
  refine Sql.forall_le_iff_forall_lt (fun rows hrows => by cases hrows) fun m _ hm => ?_
  exact distinctDays_dbtRun_iff K isDateDim_dimDate
    (valueKeyed_warehouseAfter K) hm

/-! ## A day ingested in two parts -/

/-- What the runs of 2024-05-01 and 2024-05-02 see: the second one also finds
the prices of the first evening. -/
def lateIngestRun (today : Date) (evening : List TickerPriceChange) : DbtRun where
  currentDate := today
  currentTimestamp := Sql.midnight today
  daysToIngest := daysToIngest
  sources :=
    { tickerPrices := [⟨some "BTCUSDT", Sql.midnight 19844⟩]
      tickerPriceChange :=
        TickerPriceChange.ofPrices "BTCUSDT" 60000 50000 1714435200000
          (Sql.midnight 19844 + 1) :: evening
      accountSnaphsot := [⟨some "BTC", some 1, some 0, Sql.midnight 19844 + 2⟩] }
  nameMapping := [⟨some "Bitcoin", some "BTC"⟩]
  fullRefresh := false

def lateIngest : ℕ → DbtRun :=
  (lateIngestRun 19844 []).thenRepeat <| lateIngestRun 19845
    [TickerPriceChange.ofPrices "BTCUSDT" 62000 52000 1714478400000
      (Sql.midnight 19844 + 43200000000)]

private theorem dateIds_lateIngest :
    (warehouseAfter listing (dateDim 19844 19844) lateIngest 2).factDailyAccountValue.map
      (fun rows => rows.map fun r => (r.dateId, r.walletValue)) =
      some [(20240501, some 55000), (20240501, some 56000)] := by
  decide +kernel

/-- The second run inserts a second row for 2024-05-01. -/
theorem not_distinctDays_lateIngest :
    History lateIngest ∧ (∀ n, (lateIngest n).nameMapping = (lateIngest 0).nameMapping) ∧
      ¬ DistinctDays (warehouseAfter listing dimDate lateIngest 2) := by
  refine ⟨history_thenRepeat ⟨List.prefix_refl _, ⟨_, rfl⟩, List.prefix_refl _⟩ (by decide),
    forall_thenRepeat (P := fun run => run.nameMapping = _) rfl rfl, fun hdistinct => ?_⟩
  have hdates : ∀ n, SameDates dimDate (dateDim 19844 19844) (lateIngest n) :=
    forall_thenRepeat (sameDates_dimDate (by decide) (by decide) (by decide))
      (sameDates_dimDate (by decide) (by decide) (by decide))
  rw [warehouseAfter_congr listing hdates] at hdistinct
  obtain ⟨rows, hrows, htable⟩ := Option.map_eq_some_iff.mp dateIds_lateIngest
  have hdays := congrArg (List.map Prod.fst) htable
  rw [List.map_map] at hdays
  have hnodup := hdistinct rows hrows
  rw [show (rows.map fun r => r.dateId) = [20240501, 20240501] from hdays] at hnodup
  simp at hnodup

end BinanceElt
