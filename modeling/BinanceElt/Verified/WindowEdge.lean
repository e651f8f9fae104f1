import BinanceElt.Models.PriceRuns
import BinanceElt.Models.Valuation

/-!
# The edge of the valuation window

In incremental mode `fact_daily_account_value` cuts the snapshots by the date of
their ingestion and the prices by the date of their open time, up to 24 hours
earlier, while both are grouped by the ingestion date.  After the first day of
the window no price of the day is cut.  On the first day those whose figures
begin on the day before are, and the day is valued as in a full query only when
the rest leaves every asset the price it has.

## Main results

* `keepsPrices_of_lt` — after its first day the window cuts no price.
* `valuesAlike_iff` — the days on which the two queries agree, whatever is held.
* `not_valuesAlike_edge` — a first day whose prices begin on the day before.
-/

namespace BinanceElt

open Sql (Date Timestamp QueryError)

variable {Id : Type} [DecidableEq Id] (K : SurrogateKey Id)

/-! ## The price of an asset -/

/-- The figures of a row begin at most 24 hours before its ingestion, as those
of `/api/v3/ticker/24hr` do. -/
def TickerPriceChange.IsRolling (tp : TickerPriceChange) : Prop :=
  ∃ openTime, tp.openTime = some openTime ∧ Sql.timestampMillis openTime ≤ tp.timestamp ∧
    tp.timestamp ≤ Sql.timestampMillis openTime + Sql.oneDay

section Definitions

variable (dt : List (DimTickers Id)) (prices : List (FactTickerPrices Id)) (ctx : RunContext)
  (isIncremental : Bool) (d : DimDate)

/-- The tickers of an asset that have a price on a day. -/
def pricedTickers (asset : Option String) : List (DimTickers Id) :=
  dt.filter fun t => decide (t.symbolShort = asset) &&
    decide (pricesOn prices ctx isIncremental t.id d.id ≠ [])

/-- What a unit of an asset counts for on a day: the average prices of its
tickers, added up. -/
def assetPriceOn (asset : Option String) : Option ℚ :=
  Sql.sum ((pricedTickers dt prices ctx isIncremental d asset).map fun t =>
    avgPriceOn prices ctx isIncremental t.id d.id)

/-- The cut by the date of the open time leaves the day a price of every asset
that has one, and leaves it the same. -/
def KeepsPrices : Prop :=
  ∀ asset : String,
    (pricedTickers dt prices ctx true d (some asset) = [] ↔
      pricedTickers dt prices ctx false d (some asset) = []) ∧
    assetPriceOn dt prices ctx true d (some asset) =
      assetPriceOn dt prices ctx false d (some asset)

end Definitions

/-- The two queries have the same row for a date. -/
def ValuesAlike (src : List AccountSnaphsot) (dt : List (DimTickers Id)) (dd : List DimDate)
    (prices : List (FactTickerPrices Id)) (ctx : RunContext) (date : Date) : Prop :=
  ∀ v : TotalValue, v.dateId = Sql.formatYmd date →
    (v ∈ totalValueOf src dt dd prices ctx true ↔ v ∈ totalValueOf src dt dd prices ctx false)

/-! ## The cut by the open time -/

section Cut

variable {runs : ℕ → PriceRun Id} {n : ℕ} {prices : List (FactTickerPrices Id)}
  (hprices : pricesAfter K runs n = some prices) (hdates : ∀ m, IsDateDim (runs m).dimDate)
  (hsrc : ∀ m, ∀ tp ∈ (runs m).tickerPriceChange, tp.IsRolling)
include hprices hdates hsrc

/-- A price of a day has an open time on the day or on the day before. -/
theorem exists_openTime {r : FactTickerPrices Id} (hr : r ∈ prices) {date : Date}
    (hdate : r.dateId = Sql.formatYmd date) :
    ∃ openTime, r.openTime = some openTime ∧ date - 1 ≤ Sql.extractDate openTime := by
  obtain ⟨m, -, tp, htp, t, -, d, hd, hjoin, rfl⟩ := mem_pricesAfter K runs n prices hprices r hr
  obtain ⟨openTime, hopen, -, hlater⟩ := hsrc m tp htp
  have hday : Sql.formatYmd d.fullDate = Sql.formatYmd date := by
    rw [← (hdates m).id_eq hd]
    exact hdate
  obtain rfl : d.fullDate = date := Sql.formatYmd_injective hday
  refine ⟨Sql.timestampMillis openTime, congrArg (Option.map Sql.timestampMillis) hopen, ?_⟩
  rw [hjoin.date]
  exact Sql.extractDate_sub_one_le hlater

/-- After its first day the window cuts no price. -/
theorem pricesOn_of_lt {ctx : RunContext} {date : Date}
    (hlt : ctx.currentDate - ctx.daysToIngest < date) (symbolId : Id) :
    pricesOn prices ctx true symbolId (Sql.formatYmd date) =
      pricesOn prices ctx false symbolId (Sql.formatYmd date) := by
  refine List.filter_congr fun r hr => ?_
  by_cases hkey : (r.symbolId, r.dateId) = (symbolId, Sql.formatYmd date)
  · obtain ⟨openTime, hopen, hle⟩ := exists_openTime K hprices hdates hsrc hr
      (Prod.mk.inj hkey).2
    have hin : ctx.ingests true (r.openTime.map Sql.extractDate) = true :=
      (ctx.ingests_incremental _).mpr ⟨Sql.extractDate openTime, by rw [hopen]; rfl,
        (Int.le_sub_one_of_lt hlt).trans hle⟩
    rw [hin, ctx.ingests_full]
  · simp [hkey]

theorem keepsPrices_of_lt (dt : List (DimTickers Id)) {ctx : RunContext} {date : Date}
    (hlt : ctx.currentDate - ctx.daysToIngest < date) :
    KeepsPrices dt prices ctx (DimDate.ofDate date) := by
  have hkept := pricesOn_of_lt K hprices hdates hsrc hlt
  have htickers : ∀ asset, pricedTickers dt prices ctx true (DimDate.ofDate date) asset =
      pricedTickers dt prices ctx false (DimDate.ofDate date) asset := by
    intro asset
    refine List.filter_congr fun t _ => ?_
    rw [show pricesOn prices ctx true t.id (DimDate.ofDate date).id = _ from hkept t.id]
    rfl
  have havg : ∀ symbolId, avgPriceOn prices ctx true symbolId (Sql.formatYmd date) =
      avgPriceOn prices ctx false symbolId (Sql.formatYmd date) := by
    intro symbolId
    rw [avgPriceOn, avgPriceOn, hkept]
  refine fun asset => ⟨by rw [htickers], ?_⟩
  rw [assetPriceOn, assetPriceOn, htickers]
  exact congrArg Sql.sum (List.map_congr_left fun t _ => havg t.id)

end Cut

/-! ## The value of a day, asset by asset -/

section Assets

variable {src : List AccountSnaphsot} {dt : List (DimTickers Id)}
  {prices : List (FactTickerPrices Id)} {ctx : RunContext} {isIncremental : Bool} {d : DimDate}

theorem mem_pricedTickers {asset : Option String} {t : DimTickers Id} :
    t ∈ pricedTickers dt prices ctx isIncremental d asset ↔ t ∈ dt ∧ t.symbolShort = asset ∧
      pricesOn prices ctx isIncremental t.id d.id ≠ [] := by
  simp only [pricedTickers, List.mem_filter, Bool.and_eq_true, decide_eq_true_eq]

/-- The tickers of an asset that count on a day of the window. -/
theorem filter_valuedTickers (hin : ctx.ingests isIncremental (some d.fullDate) = true)
    (asset : Option String) :
    (valuedTickers src dt prices ctx isIncremental d).filter (fun t => t.symbolShort = asset) =
      if holdings src asset d.fullDate = [] then []
        else pricedTickers dt prices ctx isIncremental d asset := by
  rw [valuedTickers, List.filter_filter]
  split
  · next hnone =>
      refine List.filter_eq_nil_iff.mpr fun t _ => ?_
      simp only [Bool.and_eq_true, decide_eq_true_eq, not_and]
      rintro rfl - hheld
      exact absurd hnone hheld
  · next hheld =>
      refine List.filter_congr fun t _ => ?_
      by_cases hasset : t.symbolShort = asset
      · simp [hasset, hin, hheld]
      · simp [hasset]

/-- The tickers of an asset contribute its price times its quantity. -/
theorem sum_usdValueOn_filter (hin : ctx.ingests isIncremental (some d.fullDate) = true)
    (asset : Option String) :
    Sql.sum (((valuedTickers src dt prices ctx isIncremental d).filter fun t =>
        t.symbolShort = asset).map fun t => usdValueOn src prices ctx isIncremental t d) =
      if holdings src asset d.fullDate = [] then none
        else Sql.mul (assetPriceOn dt prices ctx isIncremental d asset)
          (quantityOn src asset d.fullDate) := by
  rw [filter_valuedTickers hin]
  split
  · rfl
  · rw [assetPriceOn, ← Sql.sum_map_mul_right]
    refine congrArg Sql.sum (List.map_congr_left fun t ht => ?_)
    rw [usdValueOn, (mem_pricedTickers.mp ht).2.1]

/-- A snapshot of an asset makes a day count when a ticker of it has a price. -/
theorem valuedTickers_eq_nil_iff (hin : ctx.ingests isIncremental (some d.fullDate) = true) :
    valuedTickers src dt prices ctx isIncremental d = [] ↔
      ∀ asset : String, holdings src (some asset) d.fullDate ≠ [] →
        pricedTickers dt prices ctx isIncremental d (some asset) = [] := by
  constructor
  · intro hnil asset hheld
    have hfilter : (valuedTickers src dt prices ctx isIncremental d).filter
        (fun t => t.symbolShort = some asset) = _ := filter_valuedTickers hin (some asset)
    rwa [hnil, List.filter_nil, if_neg hheld, eq_comm] at hfilter
  · intro hnone
    refine List.eq_nil_iff_forall_not_mem.mpr fun t ht => ?_
    obtain ⟨htdt, -, hheld, hpriced⟩ := mem_valuedTickers.mp ht
    obtain ⟨asset, hasset⟩ := exists_asset_of_holdings_ne_nil hheld
    rw [hasset] at hheld
    exact List.eq_nil_iff_forall_not_mem.mp (hnone asset hheld) t
      (mem_pricedTickers.mpr ⟨htdt, hasset, hpriced⟩)

end Assets

/-! ## One unit of one asset -/

/-- A single snapshot of one unit of an asset. -/
def oneUnit (asset : String) (date : Date) : List AccountSnaphsot :=
  [⟨some asset, some 1, some 0, Sql.midnight date⟩]

section OneUnit

variable {asset : String} {date : Date}

theorem holdings_oneUnit :
    holdings (oneUnit asset date) (some asset) date = oneUnit asset date := by
  simp [holdings, oneUnit, AccountSnaphsot.isPositive_iff]

theorem quantityOn_oneUnit : quantityOn (oneUnit asset date) (some asset) date = some 1 := by
  rw [quantityOn, holdings_oneUnit]
  change Sql.add (Sql.avg [some 1]) (Sql.avg [some 0]) = some 1
  decide +kernel

theorem holdings_oneUnit_ne_nil_iff {short : Option String} :
    holdings (oneUnit asset date) short date ≠ [] ↔ short = some asset := by
  constructor
  · intro hheld
    obtain ⟨a, ha⟩ := List.exists_mem_of_ne_nil _ hheld
    obtain ⟨hmem, hkeep⟩ := List.mem_filter.mp ha
    obtain ⟨s, hs, hshort⟩ := (Sql.holds_eq _ _).mp (Bool.and_eq_true_iff.mp hkeep).1
    rw [List.mem_singleton.mp hmem] at hs
    rw [hshort, ← hs]
  · rintro rfl
    rw [holdings_oneUnit]
    exact List.cons_ne_nil _ _

variable {dt : List (DimTickers Id)} {prices : List (FactTickerPrices Id)} {ctx : RunContext}
  {isIncremental : Bool} (hin : ctx.ingests isIncremental (some date) = true)
include hin

theorem valuedTickers_oneUnit :
    valuedTickers (oneUnit asset date) dt prices ctx isIncremental (DimDate.ofDate date) =
      pricedTickers dt prices ctx isIncremental (DimDate.ofDate date) (some asset) := by
  refine List.filter_congr fun t _ => ?_
  rw [show ctx.ingests isIncremental (some (DimDate.ofDate date).fullDate) = true from hin,
    Bool.true_and]
  congr 1
  rw [decide_eq_decide]
  exact holdings_oneUnit_ne_nil_iff

/-- The unit is worth the price of the asset; two decimals are not rounded. -/
theorem walletValueOn_oneUnit :
    walletValueOn (oneUnit asset date) dt prices ctx isIncremental (DimDate.ofDate date) =
      assetPriceOn dt prices ctx isIncremental (DimDate.ofDate date) (some asset) := by
  have husd : ∀ t ∈ pricedTickers dt prices ctx isIncremental (DimDate.ofDate date) (some asset),
      usdValueOn (oneUnit asset date) prices ctx isIncremental t (DimDate.ofDate date) =
        avgPriceOn prices ctx isIncremental t.id (Sql.formatYmd date) := by
    intro t ht
    rw [usdValueOn, (mem_pricedTickers.mp ht).2.1]
    rw [show quantityOn (oneUnit asset date) (some asset) (DimDate.ofDate date).fullDate = some 1
      from quantityOn_oneUnit]
    change Sql.mul (avgPriceOn prices ctx isIncremental t.id (Sql.formatYmd date)) (some 1) = _
    cases avgPriceOn prices ctx isIncremental t.id (Sql.formatYmd date) <;> simp [Sql.mul]
  rw [walletValueOn, valuedTickers_oneUnit hin, List.map_congr_left husd]
  refine Sql.round_sum_of_isGrid fun x hx => ?_
  obtain ⟨t, -, ht⟩ := List.mem_map.mp hx
  obtain ⟨y, -, rfl⟩ := Option.map_eq_some_iff.mp ht
  exact Sql.isGrid_roundTo 2 y

end OneUnit

/-! ## The days on which the two queries agree -/

section Agreement

variable {dt : List (DimTickers Id)} {dd : List DimDate} {prices : List (FactTickerPrices Id)}
  {ctx : RunContext} {date : Date}

/-- Without a row in `dim_date` a date has no value in either query. -/
theorem valuesAlike_of_not_mem (hdd : IsDateDim dd) (hdate : DimDate.ofDate date ∉ dd)
    (src : List AccountSnaphsot) : ValuesAlike src dt dd prices ctx date := by
  have hnone : ∀ {isIncremental : Bool} {v : TotalValue}, v.dateId = Sql.formatYmd date →
      v ∉ totalValueOf src dt dd prices ctx isIncremental := by
    intro isIncremental v hv hmem
    obtain ⟨d, hd, hid⟩ := exists_dateId_of_mem_totalValueOf hmem
    have hday : d.fullDate = date := by
      refine Sql.formatYmd_injective ?_
      rw [← hdd.id_eq hd, hid, hv]
    rw [← hday, ← hdd.eq_ofDate d hd] at hdate
    exact hdate hd
  exact fun v hv => iff_of_false (hnone hv) (hnone hv)

variable (hdt : (dt.map DimTickers.id).Nodup) (hdd : IsDateDim dd)
  (hdate : DimDate.ofDate date ∈ dd)
include hdt hdd hdate

/-- On a date with a row, agreeing is valuing the same tickers at the same
total. -/
theorem valuesAlike_iff_valuedTickers (src : List AccountSnaphsot) :
    ValuesAlike src dt dd prices ctx date ↔
      (valuedTickers src dt prices ctx true (DimDate.ofDate date) = [] ↔
        valuedTickers src dt prices ctx false (DimDate.ofDate date) = []) ∧
      (valuedTickers src dt prices ctx true (DimDate.ofDate date) ≠ [] →
        walletValueOn src dt prices ctx true (DimDate.ofDate date) =
          walletValueOn src dt prices ctx false (DimDate.ofDate date)) := by
  have hrow : ∀ (isIncremental : Bool) (v : TotalValue), v.dateId = Sql.formatYmd date →
      (v ∈ totalValueOf src dt dd prices ctx isIncremental ↔
        valuedTickers src dt prices ctx isIncremental (DimDate.ofDate date) ≠ [] ∧
          v.walletValue = walletValueOn src dt prices ctx isIncremental (DimDate.ofDate date)) :=
    fun _ _ hv => mem_totalValueOf_iff_of_mem hdt hdd hdate hv
  constructor
  · intro h
    have hsame : ∀ value,
        (valuedTickers src dt prices ctx true (DimDate.ofDate date) ≠ [] ∧
          value = walletValueOn src dt prices ctx true (DimDate.ofDate date)) ↔
        (valuedTickers src dt prices ctx false (DimDate.ofDate date) ≠ [] ∧
          value = walletValueOn src dt prices ctx false (DimDate.ofDate date)) := by
      intro value
      rw [← hrow true ⟨_, value⟩ rfl, ← hrow false ⟨_, value⟩ rfl]
      exact h ⟨_, value⟩ rfl
    refine ⟨not_iff_not.mp ⟨fun hne => ?_, fun hne => ?_⟩, fun hne => ?_⟩
    · exact ((hsame _).mp ⟨hne, rfl⟩).1
    · exact ((hsame _).mpr ⟨hne, rfl⟩).1
    · exact ((hsame _).mp ⟨hne, rfl⟩).2
  · rintro ⟨hnil, hvalue⟩ v hv
    rw [hrow true v hv, hrow false v hv]
    constructor
    · rintro ⟨hne, heq⟩
      exact ⟨mt hnil.mpr hne, heq.trans (hvalue hne)⟩
    · rintro ⟨hne, heq⟩
      have hne' := mt hnil.mp hne
      exact ⟨hne', heq.trans (hvalue hne').symm⟩

variable (hwindow : ctx.currentDate - ctx.daysToIngest ≤ date)
include hwindow

/-- Where every asset keeps its price, every account keeps its value. -/
theorem valuesAlike_of_keepsPrices (hkeeps : KeepsPrices dt prices ctx (DimDate.ofDate date))
    (src : List AccountSnaphsot) : ValuesAlike src dt dd prices ctx date := by
  have hin := ctx.ingests_of_le hwindow
  refine (valuesAlike_iff_valuedTickers hdt hdd hdate src).mpr ⟨?_, fun _ => ?_⟩
  · rw [valuedTickers_eq_nil_iff (hin true), valuedTickers_eq_nil_iff (hin false)]
    exact forall_congr' fun asset => imp_congr_right fun _ => (hkeeps asset).1
  · refine congrArg (Sql.round 2) (Sql.sum_congr_groups DimTickers.symbolShort fun short => ?_)
    rw [sum_usdValueOn_filter (hin true), sum_usdValueOn_filter (hin false)]
    cases short with
    | none =>
        have hnone : holdings src none (DimDate.ofDate date).fullDate = [] := by
          by_contra hne
          obtain ⟨_, hasset⟩ := exists_asset_of_holdings_ne_nil hne
          cases hasset
        rw [if_pos hnone, if_pos hnone]
    | some asset => rw [(hkeeps asset).2]

/-- One unit of an asset shows whether it keeps its price. -/
theorem keepsPrices_of_valuesAlike (h : ∀ src, ValuesAlike src dt dd prices ctx date) :
    KeepsPrices dt prices ctx (DimDate.ofDate date) := by
  have hin := ctx.ingests_of_le hwindow
  intro asset
  obtain ⟨hnil, hvalue⟩ := (valuesAlike_iff_valuedTickers hdt hdd hdate
    (oneUnit asset date)).mp (h _)
  rw [valuedTickers_oneUnit (hin true), valuedTickers_oneUnit (hin false)] at hnil
  refine ⟨hnil, ?_⟩
  by_cases hpriced : pricedTickers dt prices ctx true (DimDate.ofDate date) (some asset) = []
  · rw [assetPriceOn, assetPriceOn, hpriced, hnil.mp hpriced]
    rfl
  · rw [valuedTickers_oneUnit (hin true), walletValueOn_oneUnit (hin true),
      walletValueOn_oneUnit (hin false)] at hvalue
    exact hvalue hpriced

end Agreement

/-- Over price rows that cover at most 24 hours before their ingestion, on a
date of the window the incremental query values every account as the full query
does exactly when the date is after the first one of the window, or the cut by
the open time leaves every asset the price it has on the date.

The incremental query reads the prices by the date of their `open_time`, and the
snapshots by their ingestion date.  `hsrc` puts the two at most a day apart, so
that only the first date of the window loses prices.  The accounts on the left
are all snapshot tables; one that holds a single unit of an asset tells whether
its price is kept. -/
theorem valuesAlike_iff {runs : ℕ → PriceRun Id} (hdates : ∀ n, IsDateDim (runs n).dimDate)
    (hsrc : ∀ n, ∀ tp ∈ (runs n).tickerPriceChange, tp.IsRolling) {n : ℕ}
    {prices : List (FactTickerPrices Id)} (hprices : pricesAfter K runs n = some prices)
    {dt : List (DimTickers Id)} (hdt : (dt.map DimTickers.id).Nodup) {dd : List DimDate}
    (hdd : IsDateDim dd) (ctx : RunContext) {date : Date}
    (hwindow : ctx.currentDate - ctx.daysToIngest ≤ date) :
    (∀ src, ValuesAlike src dt dd prices ctx date) ↔
      (DimDate.ofDate date ∈ dd → ctx.currentDate - ctx.daysToIngest < date ∨
        KeepsPrices dt prices ctx (DimDate.ofDate date)) := by
  by_cases hdate : DimDate.ofDate date ∈ dd
  · rw [forall_prop_of_true hdate]
    constructor
    · exact fun h => .inr (keepsPrices_of_valuesAlike hdt hdd hdate hwindow h)
    · rintro (hlt | hkeeps)
      · exact valuesAlike_of_keepsPrices hdt hdd hdate hwindow
          (keepsPrices_of_lt K hprices hdates hsrc dt hlt)
      · exact valuesAlike_of_keepsPrices hdt hdd hdate hwindow hkeeps
  · exact iff_of_true (valuesAlike_of_not_mem hdd hdate) fun hmem => absurd hmem hdate

/-! ## The first day of a window -/

/-- Noon of 2024-05-01, with figures from noon of the day before on; the window
of 2024-05-04 begins on 2024-05-01. -/
def edgeRun : PriceRun (List ℤ) where
  currentDate := 19847
  currentTimestamp := Sql.midnight 19847
  daysToIngest := daysToIngest
  tickerPriceChange := [TickerPriceChange.ofPrices "BTCUSDT" 60000 50000 1714478400000
    (Sql.midnight 19844 + 43200000000)]
  dimTickers := [⟨[1], some "BTCUSDT", some "BTC", "Bitcoin", some (Sql.midnight 19844),
    Sql.midnight 19847⟩]
  dimDate := dateDim 19844 19844
  fullRefresh := false

/-- The prices that are built from it. -/
def edgePrices : List (FactTickerPrices (List ℤ)) :=
  (pricesAfter listing (fun _ => edgeRun) 1).getD []

private theorem pricesAfter_edge :
    pricesAfter listing (fun _ => edgeRun) 1 = some edgePrices := rfl

private theorem isRolling_edge : ∀ tp ∈ edgeRun.tickerPriceChange, tp.IsRolling := by
  intro tp htp
  rw [List.mem_singleton.mp htp]
  exact ⟨_, rfl, by decide, by decide⟩

private theorem nodup_edge : (edgeRun.dimTickers.map DimTickers.id).Nodup :=
  List.nodup_singleton _

theorem valuesAlike_iff_edge :
    (∀ src, ValuesAlike src edgeRun.dimTickers edgeRun.dimDate edgePrices edgeRun.toRunContext
        19844) ↔
      (DimDate.ofDate 19844 ∈ edgeRun.dimDate → (19847 : ℤ) - daysToIngest < 19844 ∨
        KeepsPrices edgeRun.dimTickers edgePrices edgeRun.toRunContext
          (DimDate.ofDate 19844)) :=
  valuesAlike_iff listing (fun _ => isDateDim_dateDim _ _) (fun _ => isRolling_edge)
    pricesAfter_edge nodup_edge (isDateDim_dateDim _ _) _ (by decide)

/-- On 2024-05-01 one bitcoin is worth 55000 in the full query, and the
incremental one has no row for the day. -/
theorem not_valuesAlike_edge :
    IsDateDim edgeRun.dimDate ∧ (∀ tp ∈ edgeRun.tickerPriceChange, tp.IsRolling) ∧
      pricesAfter listing (fun _ => edgeRun) 1 = some edgePrices ∧
      (edgeRun.dimTickers.map DimTickers.id).Nodup ∧
      edgeRun.currentDate - edgeRun.daysToIngest ≤ 19844 ∧
      totalValueOf (oneUnit "BTC" 19844) edgeRun.dimTickers edgeRun.dimDate edgePrices
        edgeRun.toRunContext false = [⟨20240501, some 55000⟩] ∧
      totalValueOf (oneUnit "BTC" 19844) edgeRun.dimTickers edgeRun.dimDate edgePrices
        edgeRun.toRunContext true = [] ∧
      ¬ ValuesAlike (oneUnit "BTC" 19844) edgeRun.dimTickers edgeRun.dimDate edgePrices
        edgeRun.toRunContext 19844 := by
  have hfull : totalValueOf (oneUnit "BTC" 19844) edgeRun.dimTickers edgeRun.dimDate edgePrices
      edgeRun.toRunContext false = [⟨20240501, some 55000⟩] := by decide +kernel
  have hincremental : totalValueOf (oneUnit "BTC" 19844) edgeRun.dimTickers edgeRun.dimDate
      edgePrices edgeRun.toRunContext true = [] := by decide +kernel
  refine ⟨isDateDim_dateDim _ _, isRolling_edge, pricesAfter_edge, nodup_edge, by decide,
    hfull, hincremental, fun h => ?_⟩
  have hrow := h ⟨20240501, some 55000⟩ (by decide +kernel)
  rw [hfull, hincremental] at hrow
  exact List.not_mem_nil (hrow.mpr List.mem_cons_self)

end BinanceElt
