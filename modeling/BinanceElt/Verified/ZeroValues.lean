import BinanceElt.Models.History
import BinanceElt.Models.Valuation

/-!
# Division by zero in `fact_daily_account_value`

The percentage of a day divides by the value of the day before, which is rounded
to two decimals.  A day on which the holdings are worth less than half a cent
shows zero, however positive prices and balances are, and the next day aborts
the query.

## Main results

* `walletValueOn_eq_roundTo` — the value of a day is its worth, rounded.
* `exists_factDailyAccountValue_iff_showsValues` — one query succeeds exactly
  when every day that has a later one is worth half a cent.
* `builds_iff_showsValues` — the same for the model, in both modes and after
  every sequence of runs.
* `not_builds_dust` — holdings of a few satoshis on two days.
-/

namespace BinanceElt

open Sql (Date Timestamp QueryError)

variable {Id : Type} [DecidableEq Id]

/-! ## The worth of a day -/

section Worth

variable (src : List AccountSnaphsot) (dt : List (DimTickers Id)) (dd : List DimDate)
  (prices : List (FactTickerPrices Id)) (ctx : RunContext) (isIncremental : Bool)

/-- What the holdings of a day are worth, before the last rounding. -/
def worthOn (d : DimDate) : ℚ :=
  ((valuedTickers src dt prices ctx isIncremental d).map fun t =>
    (usdValueOn src prices ctx isIncremental t d).getD 0).sum

/-- Every day of the window with a later one is worth at least half a cent,
which is the least that rounding to two decimals does not show as 0.00. -/
def ShowsValues : Prop :=
  ∀ d ∈ dd, ∀ d' ∈ dd, d.fullDate < d'.fullDate →
    valuedTickers src dt prices ctx isIncremental d ≠ [] →
    valuedTickers src dt prices ctx isIncremental d' ≠ [] →
    1 / 200 ≤ worthOn src dt prices ctx isIncremental d

end Worth

/-- The high and the low of every price row are positive. -/
def PositivePrices (src : List TickerPriceChange) : Prop :=
  ∀ tp ∈ src, ∃ high low, tp.highPrice = some high ∧ tp.lowPrice = some low ∧
    0 < high ∧ 0 < low

/-- Stored prices are neither null nor negative. -/
def NonnegPrices (prices : List (FactTickerPrices Id)) : Prop :=
  ∀ r ∈ prices, Sql.Nonneg r.price

section Query

variable {src : List AccountSnaphsot} {dt : List (DimTickers Id)} {dd : List DimDate}
  {prices : List (FactTickerPrices Id)} {ctx : RunContext} {isIncremental : Bool}
  (hbalances : NonnegBalances src) (hprices : NonnegPrices prices)

include hprices in
theorem nonneg_avgPriceOn {symbolId : Id} {dateId : ℤ}
    (hne : pricesOn prices ctx isIncremental symbolId dateId ≠ []) :
    Sql.Nonneg (avgPriceOn prices ctx isIncremental symbolId dateId) :=
  (Sql.nonneg_avg hne fun r hr => hprices r (List.mem_of_mem_filter hr)).round 2

include hbalances hprices

theorem nonneg_usdValueOn {d : DimDate} {t : DimTickers Id}
    (ht : t ∈ valuedTickers src dt prices ctx isIncremental d) :
    Sql.Nonneg (usdValueOn src prices ctx isIncremental t d) := by
  obtain ⟨-, -, hheld, hpriced⟩ := mem_valuedTickers.mp ht
  exact (nonneg_avgPriceOn hprices hpriced).mul (nonneg_quantityOn hbalances hheld)

theorem worthOn_nonneg (d : DimDate) : 0 ≤ worthOn src dt prices ctx isIncremental d := by
  refine List.sum_nonneg fun x hx => ?_
  obtain ⟨t, ht, rfl⟩ := List.mem_map.mp hx
  exact (nonneg_usdValueOn hbalances hprices ht).getD_nonneg

/-- The value of a day is its worth, rounded. -/
theorem walletValueOn_eq_roundTo {d : DimDate}
    (hne : valuedTickers src dt prices ctx isIncremental d ≠ []) :
    walletValueOn src dt prices ctx isIncremental d =
      some (Sql.roundTo 2 (worthOn src dt prices ctx isIncremental d)) := by
  rw [walletValueOn, Sql.sum_map_of_ne_none hne fun t ht =>
    (nonneg_usdValueOn hbalances hprices ht).ne_none]
  rfl

/-- It shows zero below half a cent. -/
theorem walletValueOn_eq_zero_iff {d : DimDate}
    (hne : valuedTickers src dt prices ctx isIncremental d ≠ []) :
    walletValueOn src dt prices ctx isIncremental d = some 0 ↔
      worthOn src dt prices ctx isIncremental d < 1 / 200 := by
  rw [walletValueOn_eq_roundTo hbalances hprices hne, Option.some.injEq,
    Sql.roundTo_eq_zero_iff 2 (worthOn_nonneg hbalances hprices d)]
  norm_num

/-- The query succeeds exactly when no day that has a later one shows zero. -/
theorem exists_factDailyAccountValue_iff_showsValues (K : SurrogateKey Id)
    (hdt : (dt.map DimTickers.id).Nodup) (hdd : IsDateDim dd) :
    (∃ rows, factDailyAccountValue K src dt dd prices ctx isIncremental = .ok rows) ↔
      ShowsValues src dt dd prices ctx isIncremental := by
  -- a row fails exactly when the value before it is zero
  have hrow : ∀ v ∈ totalValueOf src dt dd prices ctx isIncremental, ∀ u,
      (∃ c, totalValueChangeRow (v, u) = .ok c) ↔ u.bind TotalValue.walletValue ≠ some 0 := by
    intro v hv u
    obtain ⟨d, -, hne, rfl⟩ := (mem_totalValueOf hdt hdd).mp hv
    simp only [totalValueChangeRow_eq_ok_iff,
      walletValueOn_eq_roundTo hbalances hprices hne]
    rw [← exists_percentageChange_iff]
    constructor
    · rintro ⟨_, percentage, hok, -⟩
      exact ⟨percentage, hok⟩
    · rintro ⟨percentage, hok⟩
      exact ⟨_, percentage, hok, rfl⟩
  rw [exists_factDailyAccountValue_iff]
  constructor
  · intro h d hd d' hd' hlt hne hne'
    have hv := (mem_totalValueOf (v := ⟨d.id, _⟩) hdt hdd).mpr ⟨d, hd, hne, rfl⟩
    have hv' := (mem_totalValueOf (v := ⟨d'.id, _⟩) hdt hdd).mpr ⟨d', hd', hne', rfl⟩
    have hids : d.id < d'.id := (hdd.id_lt_id_iff hd hd').mpr hlt
    obtain ⟨next, hnext, hprevious⟩ := Sql.exists_isPrevious_some TotalValue.dateId hv hv' hids
    have hzero := (hrow next hnext _).mp (h next hnext _ hprevious)
    rw [Option.bind_some] at hzero
    exact not_lt.mp fun hworth =>
      hzero ((walletValueOn_eq_zero_iff hbalances hprices hne).mpr hworth)
  · intro h v hv u hu
    rw [hrow v hv]
    cases u with
    | none => simp
    | some u =>
        obtain ⟨hmem, hlt, -⟩ := hu
        obtain ⟨d, hd, hne, rfl⟩ := (mem_totalValueOf hdt hdd).mp hmem
        obtain ⟨d', hd', hne', rfl⟩ := (mem_totalValueOf hdt hdd).mp hv
        have hworth := h d hd d' hd' ((hdd.id_lt_id_iff hd hd').mp hlt) hne hne'
        rw [Option.bind_some]
        exact fun hzero => absurd
          ((walletValueOn_eq_zero_iff hbalances hprices hne).mp hzero) (not_lt.mpr hworth)

end Query

/-! ## Stored prices -/

section Prices

variable (K : SurrogateKey Id) {dd : List DimDate} {run : DbtRun} {w : Warehouse Id}

theorem nonneg_midPrice {tp : TickerPriceChange} {high low : ℚ}
    (hhigh : tp.highPrice = some high) (hlow : tp.lowPrice = some low) (hpos : 0 < high)
    (hpos' : 0 < low) : Sql.Nonneg (midPrice tp) := by
  refine ⟨Sql.roundTo 2 ((high + low) / 2), ?_, Sql.roundTo_nonneg 2 (by linarith)⟩
  simp [midPrice, hhigh, hlow, Sql.add, Sql.round]

omit [DecidableEq Id] in
theorem nonnegPrices_query (hpositive : PositivePrices run.sources.tickerPriceChange)
    {isIncremental : Bool} {rows : List (FactTickerPrices Id)}
    (h : queryFactTickerPrices K dd run isIncremental = .ok rows) : NonnegPrices rows := by
  intro r hr
  obtain ⟨dt, -, -, rfl⟩ := (queryFactTickerPrices_eq_ok_iff K).mp h
  obtain ⟨tp, htp, t, -, d, -, -, -, rfl⟩ := (mem_factTickerPrices K).mp hr
  obtain ⟨high, low, hhigh, hlow, hpos, hpos'⟩ := hpositive tp htp
  exact nonneg_midPrice hhigh hlow hpos hpos'

/-- The prices a run builds are those it computes or found.  A price that is
computed may be 0.00 even so: the mid price is rounded. -/
theorem nonnegPrices_build (hpositive : PositivePrices run.sources.tickerPriceChange)
    (hstored : ∀ stored, w.factTickerPrices = some stored → NonnegPrices stored)
    {prices : List (FactTickerPrices Id)}
    (h : buildFactTickerPrices K dd run w = .ok prices) : NonnegPrices prices := by
  intro r hr
  rcases Sql.mem_of_materialize h hr with ⟨source, hsource, hr⟩ | ⟨stored, hw, hr⟩
  · exact nonnegPrices_query K hpositive hsource r hr
  · exact hstored stored hw r hr

theorem nonnegPrices_warehouseAfter {runs : ℕ → DbtRun}
    (hpositive : ∀ n, PositivePrices (runs n).sources.tickerPriceChange) (n : ℕ) :
    ∀ stored, (warehouseAfter K dd runs n).factTickerPrices = some stored →
      NonnegPrices stored := by
  refine Sql.stateAfter_invariant
    (P := fun _ (w : Warehouse Id) =>
      ∀ stored, w.factTickerPrices = some stored → NonnegPrices stored)
    (fun stored hstored => by cases hstored) (fun m w hw => ?_) n
  exact Sql.forall_mem_tableAfter
    (fun source hsource r hr => nonnegPrices_query K (hpositive m) hsource r hr) hw

end Prices

/-! ## Sequences of runs -/

section Runs

variable (K : SurrogateKey Id) (runs : ℕ → DbtRun)

/-- With positive prices and non-negative balances, in either mode and after
every sequence of runs, the query succeeds exactly when every day of its window
with a later one is worth half a cent, and the model is built exactly when its
query succeeds.

A day that is worth less is stored as 0.00, and the percentage of the next day
divides by it; the last day of the window is divided by nothing.  `hpositive`
and `hbalances` are about all runs, as the table of the prices may hold rows of
any of them.  `hdt` and `hprices` are the tables that the query reads. -/
theorem builds_iff_showsValues (n : ℕ)
    (hpositive : ∀ m, PositivePrices (runs m).sources.tickerPriceChange)
    (hbalances : ∀ m, NonnegBalances (runs m).sources.accountSnaphsot)
    {dt : List (DimTickers Id)} {prices : List (FactTickerPrices Id)}
    (hdt : buildDimTickers K (runs n) = .ok dt)
    (hprices : buildFactTickerPrices K dimDate (runs n) (warehouseAfter K dimDate runs n) =
      .ok prices) :
    (∀ isIncremental, (∃ rows, queryFactDailyAccountValue K dimDate (runs n)
        (warehouseAfter K dimDate runs n) isIncremental = .ok rows) ↔
      ShowsValues (runs n).sources.accountSnaphsot dt dimDate prices (runs n).toRunContext
        isIncremental) ∧
    ((∃ rows, buildFactDailyAccountValue K dimDate (runs n)
        (warehouseAfter K dimDate runs n) = .ok rows) ↔
      ShowsValues (runs n).sources.accountSnaphsot dt dimDate prices (runs n).toRunContext
        (Sql.isIncremental (warehouseAfter K dimDate runs n).factDailyAccountValue
          (runs n).fullRefresh)) := by
  have hnonneg := nonnegPrices_build K (hpositive n)
    (nonnegPrices_warehouseAfter K hpositive n) hprices
  have hquery : ∀ isIncremental, (∃ rows, queryFactDailyAccountValue K dimDate (runs n)
        (warehouseAfter K dimDate runs n) isIncremental = .ok rows) ↔
      ShowsValues (runs n).sources.accountSnaphsot dt dimDate prices (runs n).toRunContext
        isIncremental := by
    intro isIncremental
    rw [← exists_factDailyAccountValue_iff_showsValues (hbalances n) hnonneg K
      (nodup_dimTickers_id K hdt) isDateDim_dimDate]
    simp only [queryFactDailyAccountValue_eq_ok_iff, hdt, hprices, Except.ok.injEq,
      exists_eq_left']
  refine ⟨hquery, ?_⟩
  rw [← hquery]
  constructor
  · rintro ⟨rows, hrows⟩
    obtain ⟨source, hsource, -⟩ := Sql.materialize_eq_ok_iff.mp hrows
    exact ⟨source, hsource⟩
  · rintro ⟨source, hsource⟩
    obtain ⟨_, _, _, _, hrows⟩ := (queryFactDailyAccountValue_eq_ok_iff K).mp hsource
    exact Sql.exists_materialize hsource (nodup_factDailyAccountValue_id K hrows)

end Runs

/-! ## Dust -/

/-- What the runs of 2024-05-01 and 2024-05-02 see: three satoshis on each
day. -/
def dustRun (today : Date) (prices : List TickerPriceChange)
    (snapshots : List AccountSnaphsot) : DbtRun where
  currentDate := today
  currentTimestamp := Sql.midnight today
  daysToIngest := daysToIngest
  sources :=
    { tickerPrices := [⟨some "BTCUSDT", Sql.midnight 19844⟩]
      tickerPriceChange :=
        TickerPriceChange.ofPrices "BTCUSDT" 60000 50000 1714435200000 (Sql.midnight 19844) ::
          prices
      accountSnaphsot :=
        ⟨some "BTC", some (3 / 100000000), some 0, Sql.midnight 19844⟩ :: snapshots }
  nameMapping := [⟨some "Bitcoin", some "BTC"⟩]
  fullRefresh := false

def dust : ℕ → DbtRun :=
  (dustRun 19844 [] []).thenRepeat <| dustRun 19845
    [TickerPriceChange.ofPrices "BTCUSDT" 60000 50000 1714521600000 (Sql.midnight 19845)]
    [⟨some "BTC", some (3 / 100000000), some 0, Sql.midnight 19845⟩]

private theorem sameDates_dust : ∀ n, SameDates dimDate (dateDim 19844 19845) (dust n) :=
  forall_thenRepeat (sameDates_dimDate (by decide) (by decide) (by decide))
    (sameDates_dimDate (by decide) (by decide) (by decide))

private theorem positivePrices_dust (n : ℕ) :
    PositivePrices (dust n).sources.tickerPriceChange := by
  refine forall_thenRepeat (P := fun run => PositivePrices run.sources.tickerPriceChange)
    ?_ ?_ n <;>
  · simp only [PositivePrices, dustRun, List.mem_cons, List.not_mem_nil, or_false,
      forall_eq_or_imp, forall_eq]
    norm_num [TickerPriceChange.ofPrices]

private theorem nonnegBalances_dust (n : ℕ) :
    NonnegBalances (dust n).sources.accountSnaphsot := by
  refine forall_thenRepeat (P := fun run => NonnegBalances run.sources.accountSnaphsot)
    ?_ ?_ n <;> decide +kernel

private theorem exists_sources_dust :
    (∃ dt, buildDimTickers listing (dust 1) = .ok dt) ∧
      ∃ prices, buildFactTickerPrices listing dimDate (dust 1)
        (warehouseAfter listing dimDate dust 1) = .ok prices := by
  rw [buildFactTickerPrices_congr listing (sameDates_dust 1),
    warehouseAfter_congr listing sameDates_dust]
  decide +kernel

theorem builds_iff_showsValues_dust :
    ∃ (dt : List (DimTickers (List ℤ))) (prices : List (FactTickerPrices (List ℤ))),
    (∀ isIncremental, (∃ rows, queryFactDailyAccountValue listing dimDate (dust 1)
        (warehouseAfter listing dimDate dust 1) isIncremental = .ok rows) ↔
      ShowsValues (dust 1).sources.accountSnaphsot dt dimDate prices (dust 1).toRunContext
        isIncremental) ∧
    ((∃ rows, buildFactDailyAccountValue listing dimDate (dust 1)
        (warehouseAfter listing dimDate dust 1) = .ok rows) ↔
      ShowsValues (dust 1).sources.accountSnaphsot dt dimDate prices (dust 1).toRunContext
        (Sql.isIncremental (warehouseAfter listing dimDate dust 1).factDailyAccountValue
          (dust 1).fullRefresh)) := by
  obtain ⟨⟨dt, hdt⟩, prices, hprices⟩ := exists_sources_dust
  exact ⟨dt, prices, builds_iff_showsValues listing dust 1 positivePrices_dust
    nonnegBalances_dust hdt hprices⟩

/-- The second run divides by the value of 2024-05-01, in either mode. -/
theorem not_builds_dust :
    (∀ n, PositivePrices (dust n).sources.tickerPriceChange) ∧
      (∀ n, NonnegBalances (dust n).sources.accountSnaphsot) ∧
      ∀ isIncremental, queryFactDailyAccountValue listing dimDate (dust 1)
        (warehouseAfter listing dimDate dust 1) isIncremental = .error .divisionByZero := by
  refine ⟨positivePrices_dust, nonnegBalances_dust, ?_⟩
  rw [queryFactDailyAccountValue_congr listing (sameDates_dust 1),
    warehouseAfter_congr listing sameDates_dust]
  decide +kernel

end BinanceElt
