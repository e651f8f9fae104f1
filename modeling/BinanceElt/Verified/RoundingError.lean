import BinanceElt.Models.PriceRuns
import BinanceElt.Verified.WalletValue
import Mathlib.Data.Set.Finite.Lemmas

/-!
# Rounding in the valuation

A price is rounded when it is stored, the average of a day is rounded again,
and so is the sum over the tickers.  The stored bounds of a day have two
decimals themselves, so that no rounding leaves them; each rounding moves its
value by half a cent at most, and the first two are multiplied by the quantity.

## Main results

* `avgPrice_mem_range` — the price of a day lies between the least stored low
  price and the greatest stored high price of the day.
* `walletValue_near_exactValue` — how far the stored value is from the exact one.
-/

namespace BinanceElt

open Sql (Date Timestamp QueryError)

variable {Id : Type} [DecidableEq Id] (K : SurrogateKey Id)

/-! ## The range of a day -/

/-- A source row with a low and a high price in this order. -/
def TickerPriceChange.LowLeHigh (tp : TickerPriceChange) : Prop :=
  ∃ low high, tp.lowPrice = some low ∧ tp.highPrice = some high ∧ low ≤ high

/-- The values of a column in the rows of a ticker and a day. -/
def storedOn (prices : List (FactTickerPrices Id)) (symbolId : Id) (dateId : ℤ)
    (column : FactTickerPrices Id → Option ℚ) : Set ℚ :=
  {x | ∃ r ∈ prices, r.symbolId = symbolId ∧ r.dateId = dateId ∧ column r = some x}

section Range

/-- The stored price lies between the stored bounds, which have two decimals. -/
structure InRange (r : FactTickerPrices Id) (low price high : ℚ) : Prop where
  lowPrice_eq : r.lowPrice = some low
  price_eq : r.price = some price
  highPrice_eq : r.highPrice = some high
  isGrid_low : Sql.IsGrid 2 low
  isGrid_high : Sql.IsGrid 2 high
  low_le : low ≤ price
  le_high : price ≤ high

omit [DecidableEq Id] in
/-- Rounding keeps the order of the bounds and the price between them. -/
theorem exists_inRange {tp : TickerPriceChange} (h : tp.LowLeHigh) (ctx : RunContext)
    (t : DimTickers Id) (d : DimDate) :
    ∃ low price high, InRange (factTickerPricesRow K ctx tp t d) low price high := by
  obtain ⟨low, high, hlow, hhigh, hle⟩ := h
  have hround : ∀ {x : ℚ} {column : Option ℚ}, column = some x →
      Sql.round 2 column = some (Sql.roundTo 2 x) := by
    rintro x column rfl
    rfl
  refine ⟨Sql.roundTo 2 low, Sql.roundTo 2 ((high + low) / 2), Sql.roundTo 2 high,
    hround hlow, ?_, hround hhigh, Sql.isGrid_roundTo 2 low, Sql.isGrid_roundTo 2 high,
    Sql.roundTo_mono 2 (by linarith), Sql.roundTo_mono 2 (by linarith)⟩
  refine hround ?_
  rw [hhigh, hlow]
  rfl

omit [DecidableEq Id] in
/-- A column without nulls has a least and a greatest value on a day with
rows. -/
theorem exists_isLeast_isGreatest (column : FactTickerPrices Id → Option ℚ)
    {prices : List (FactTickerPrices Id)} {symbolId : Id} {dateId : ℤ}
    (hne : (storedOn prices symbolId dateId column).Nonempty) :
    (∃ x, IsLeast (storedOn prices symbolId dateId column) x) ∧
      ∃ x, IsGreatest (storedOn prices symbolId dateId column) x := by
  have hfinite : (storedOn prices symbolId dateId column).Finite := by
    refine (prices.filterMap column).toFinset.finite_toSet.subset ?_
    rintro x ⟨r, hr, -, -, hx⟩
    rw [Finset.mem_coe, List.mem_toFinset, List.mem_filterMap]
    exact ⟨r, hr, hx⟩
  obtain ⟨x, hx, hleast⟩ := Set.exists_min_image _ id hfinite hne
  obtain ⟨y, hy, hgreatest⟩ := Set.exists_max_image _ id hfinite hne
  exact ⟨⟨x, hx, hleast⟩, y, hy, hgreatest⟩

variable {prices : List (FactTickerPrices Id)}
  (hrange : ∀ r ∈ prices, ∃ low price high, InRange r low price high)
include hrange

/-- The average of some of the rows of a day lies between the bounds of all of
them, and rounding it does not leave them. -/
theorem avgPriceOn_mem_range (ctx : RunContext) (isIncremental : Bool) {symbolId : Id}
    {dateId : ℤ} (hne : pricesOn prices ctx isIncremental symbolId dateId ≠ []) :
    ∃ low high q, IsLeast (storedOn prices symbolId dateId fun r => r.lowPrice) low ∧
      IsGreatest (storedOn prices symbolId dateId fun r => r.highPrice) high ∧
      avgPriceOn prices ctx isIncremental symbolId dateId = some q ∧ low ≤ q ∧ q ≤ high := by
  obtain ⟨r₀, hr₀⟩ := List.exists_mem_of_ne_nil _ hne
  obtain ⟨hmem₀, ⟨hsymbol₀, hdate₀⟩, -⟩ := mem_pricesOn.mp hr₀
  obtain ⟨low₀, _, high₀, hrange₀⟩ := hrange r₀ hmem₀
  obtain ⟨low, hlow⟩ := (exists_isLeast_isGreatest (fun r => r.lowPrice)
    ⟨low₀, r₀, hmem₀, hsymbol₀, hdate₀, hrange₀.lowPrice_eq⟩).1
  obtain ⟨high, hhigh⟩ := (exists_isLeast_isGreatest (fun r => r.highPrice)
    ⟨high₀, r₀, hmem₀, hsymbol₀, hdate₀, hrange₀.highPrice_eq⟩).2
  -- the bounds are stored values, so they have two decimals
  have hgrid_low : Sql.IsGrid 2 low := by
    obtain ⟨r, hr, -, -, hcolumn⟩ := hlow.1
    obtain ⟨_, _, _, hr⟩ := hrange r hr
    rw [← Option.some.inj (hr.lowPrice_eq.symm.trans hcolumn)]
    exact hr.isGrid_low
  have hgrid_high : Sql.IsGrid 2 high := by
    obtain ⟨r, hr, -, -, hcolumn⟩ := hhigh.1
    obtain ⟨_, _, _, hr⟩ := hrange r hr
    rw [← Option.some.inj (hr.highPrice_eq.symm.trans hcolumn)]
    exact hr.isGrid_high
  have hbounds : ∀ r ∈ pricesOn prices ctx isIncremental symbolId dateId,
      ∃ x, r.price = some x ∧ low ≤ x ∧ x ≤ high := by
    intro r hr
    obtain ⟨hmem, ⟨hsymbol, hdate⟩, -⟩ := mem_pricesOn.mp hr
    obtain ⟨low', price, high', hr⟩ := hrange r hmem
    exact ⟨price, hr.price_eq,
      (hlow.2 ⟨r, hmem, hsymbol, hdate, hr.lowPrice_eq⟩).trans hr.low_le,
      hr.le_high.trans (hhigh.2 ⟨r, hmem, hsymbol, hdate, hr.highPrice_eq⟩)⟩
  obtain ⟨q, hq, hle⟩ := Sql.exists_round_avg_between hgrid_low hgrid_high hne hbounds
  exact ⟨low, high, q, hlow, hhigh, hq, hle⟩

end Range

/-- Over source rows whose low price is at most the high price, whatever runs
have built the table: every ticker and day with rows has an average price, and
an average price, in either mode, lies between the least stored low price and
the greatest stored high price of its ticker and day.

The bounds are among the stored prices, which are rounded, and so is the
average.  They hold because rounding is monotone and leaves numbers of two
decimals as they are: the mid price lies between the rounded low and high price,
and so does the rounded mean of mid prices. -/
theorem avgPrice_mem_range {runs : ℕ → PriceRun Id}
    (hsrc : ∀ n, ∀ tp ∈ (runs n).tickerPriceChange, tp.LowLeHigh) {n : ℕ}
    {prices : List (FactTickerPrices Id)} (hprices : pricesAfter K runs n = some prices)
    (ctx : RunContext) :
    (∀ r ∈ prices, ∃ f ∈ avgDailyTickerPrices prices ctx false,
      f.symbolId = r.symbolId ∧ f.dateId = r.dateId) ∧
    ∀ isIncremental, ∀ f ∈ avgDailyTickerPrices prices ctx isIncremental, ∃ low high q,
      IsLeast (storedOn prices f.symbolId f.dateId fun r => r.lowPrice) low ∧
      IsGreatest (storedOn prices f.symbolId f.dateId fun r => r.highPrice) high ∧
      f.avgPrice = some q ∧ low ≤ q ∧ q ≤ high := by
  have hrange : ∀ r ∈ prices, ∃ low price high, InRange r low price high := by
    intro r hr
    obtain ⟨m, -, tp, htp, t, -, d, -, -, rfl⟩ := mem_pricesAfter K runs n prices hprices r hr
    exact exists_inRange K (hsrc m tp htp) _ t d
  constructor
  · intro r hr
    refine ⟨⟨r.symbolId, r.dateId, avgPriceOn prices ctx false r.symbolId r.dateId⟩,
      mem_avgDailyTickerPrices.mpr ⟨?_, rfl⟩, rfl, rfl⟩
    exact List.ne_nil_of_mem (mem_pricesOn.mpr ⟨hr, ⟨rfl, rfl⟩, rfl⟩)
  · intro isIncremental f hf
    obtain ⟨hne, havg⟩ := mem_avgDailyTickerPrices.mp hf
    rw [havg]
    exact avgPriceOn_mem_range hrange ctx isIncremental hne

/-! ### Bounds half a cent off the grid -/

/-- A run over a price of one cent, between 0.005 and 0.015. -/
def halfwayRun : PriceRun (List ℤ) where
  currentDate := 19844
  currentTimestamp := Sql.midnight 19844
  daysToIngest := daysToIngest
  tickerPriceChange := [TickerPriceChange.ofPrices "DOGEUSDT" (3 / 200) (1 / 200) 1714435200000
    (Sql.midnight 19844)]
  dimTickers := [⟨[1], some "DOGEUSDT", some "DOGE", "Dogecoin", some (Sql.midnight 19844),
    Sql.midnight 19844⟩]
  dimDate := dateDim 19844 19844
  fullRefresh := false

/-- The table after a first build and an incremental run. -/
def halfwayPrices : List (FactTickerPrices (List ℤ)) :=
  (pricesAfter listing (fun _ => halfwayRun) 2).getD []

theorem avgPrice_mem_range_halfway :
    halfwayPrices.map (fun r => (r.lowPrice, r.price, r.highPrice)) =
        [(some (1 / 100), some (1 / 100), some (1 / 50))] ∧
      (∀ r ∈ halfwayPrices, ∃ f ∈ avgDailyTickerPrices halfwayPrices halfwayRun.toRunContext
        false, f.symbolId = r.symbolId ∧ f.dateId = r.dateId) ∧
      ∀ isIncremental, ∀ f ∈ avgDailyTickerPrices halfwayPrices halfwayRun.toRunContext
          isIncremental, ∃ low high q,
        IsLeast (storedOn halfwayPrices f.symbolId f.dateId fun r => r.lowPrice) low ∧
        IsGreatest (storedOn halfwayPrices f.symbolId f.dateId fun r => r.highPrice) high ∧
        f.avgPrice = some q ∧ low ≤ q ∧ q ≤ high := by
  have hsrc : ∀ tp ∈ halfwayRun.tickerPriceChange, tp.LowLeHigh := by
    intro tp htp
    rw [List.mem_singleton.mp htp]
    exact ⟨_, _, rfl, rfl, by norm_num⟩
  have hprices : pricesAfter listing (fun _ => halfwayRun) 2 = some halfwayPrices := by
    decide +kernel
  exact ⟨by decide +kernel, avgPrice_mem_range listing (fun _ => hsrc) hprices _⟩

/-! ## The exact value of a day -/

section Exact

variable (S : Sources) (dt : List (DimTickers Id)) (d : DimDate)

omit [DecidableEq Id] in
/-- The tickers with a positive-balance snapshot and a price row of the day. -/
def countedTickers : List (DimTickers Id) :=
  dt.filter fun t => holdings S.accountSnaphsot t.symbolShort d.fullDate ≠ [] ∧
    observations S.tickerPriceChange t.symbol d.fullDate ≠ []

omit [DecidableEq Id] in
/-- The mean of the mid prices of a ticker on the day. -/
def exactPrice (t : DimTickers Id) : Option ℚ :=
  Sql.avg ((observations S.tickerPriceChange t.symbol d.fullDate).map fun tp =>
    (Sql.add tp.highPrice tp.lowPrice).map (· / 2))

omit [DecidableEq Id] in
/-- The mean mid price times the quantity, over the tickers that count,
without any rounding on the way.  It is null when no ticker has a price and
a quantity. -/
def exactValue : Option ℚ :=
  Sql.sum ((countedTickers S dt d).map fun t =>
    Sql.mul (exactPrice S d t) (quantityOn S.accountSnaphsot t.symbolShort d.fullDate))

omit [DecidableEq Id] in
/-- The sum of the quantities of these tickers. -/
def countedQuantity : ℚ :=
  ((countedTickers S dt d).map fun t =>
    (quantityOn S.accountSnaphsot t.symbolShort d.fullDate).getD 0).sum

end Exact

section Error

variable {dd : List DimDate} {run : DbtRun} {dt : List (DimTickers Id)} {d : DimDate}
  (hdd : IsDateDim dd) (hdt : buildDimTickers K run = .ok dt) (hd : d ∈ dd)
include hdd hdt hd

/-- A ticker counts in the query when it has snapshots and price rows. -/
theorem refreshedTickers_eq_countedTickers :
    refreshedTickers K dd run dt d = countedTickers run.sources dt d := by
  refine List.filter_congr fun t ht => ?_
  have hprices := map_price_pricesOn_refreshed K run.sources.tickerPriceChange
    run.toRunContext run.toRunContext (nodup_dimTickers_id K hdt) hdd ht hd
  have hpriced := congrArg (fun xs => xs = []) hprices
  simp only [List.map_eq_nil_iff] at hpriced
  simp only [RunContext.ingests_full, Bool.true_and, ne_eq, hpriced, Bool.decide_and]

/-- Two roundings move the average price by a cent at most. -/
theorem avgPriceOn_near_exactPrice {t : DimTickers Id} (ht : t ∈ dt) :
    Sql.Near (1 / 100) (avgPriceOn (refreshedPrices K dd run dt) run.toRunContext false t.id d.id)
      (exactPrice run.sources d t) := by
  have hmid : List.Forall₂ (Sql.Near (1 / (2 * 10 ^ 2)))
      ((observations run.sources.tickerPriceChange t.symbol d.fullDate).map midPrice)
      ((observations run.sources.tickerPriceChange t.symbol d.fullDate).map fun tp =>
        (Sql.add tp.highPrice tp.lowPrice).map (· / 2)) := by
    rw [List.forall₂_map_left_iff, List.forall₂_map_right_iff, List.forall₂_same]
    exact fun tp _ => Sql.near_round 2 _
  have hnear := (Sql.near_round 2 _).trans (Sql.Near.avg hmid)
  rw [avgPriceOn, map_price_pricesOn_refreshed K _ _ _ (nodup_dimTickers_id K hdt) hdd ht hd]
  norm_num at hnear ⊢
  exact hnear

/-- The rounded sum is half a cent, and a cent for each unit that is held, away
from the exact one at most. -/
theorem walletValueOn_near_exactValue (hbalances : NonnegBalances run.sources.accountSnaphsot) :
    Sql.Near (1 / 200 + 1 / 100 * countedQuantity run.sources dt d)
      (walletValueOn run.sources.accountSnaphsot dt (refreshedPrices K dd run dt)
        run.toRunContext false d) (exactValue run.sources dt d) := by
  have hquantity : ∀ t ∈ countedTickers run.sources dt d,
      Sql.Nonneg (quantityOn run.sources.accountSnaphsot t.symbolShort d.fullDate) := by
    intro t ht
    exact nonneg_quantityOn hbalances (of_decide_eq_true (List.mem_filter.mp ht).2).1
  have hticker : ∀ t ∈ countedTickers run.sources dt d,
      Sql.Near (1 / 100 *
          (quantityOn run.sources.accountSnaphsot t.symbolShort d.fullDate).getD 0)
        (usdValueOn run.sources.accountSnaphsot (refreshedPrices K dd run dt) run.toRunContext
          false t d)
        (Sql.mul (exactPrice run.sources d t)
          (quantityOn run.sources.accountSnaphsot t.symbolShort d.fullDate)) := by
    intro t ht
    obtain ⟨q, hq, hnonneg⟩ := hquantity t ht
    rw [usdValueOn, hq]
    exact (avgPriceOn_near_exactPrice K hdd hdt hd (List.mem_of_mem_filter ht)).mul_right hnonneg
  have hsum := Sql.Near.sum hticker fun t ht =>
    mul_nonneg (by norm_num) (hquantity t ht).getD_nonneg
  have htotal := (Sql.near_round 2 _).trans hsum
  rw [List.sum_map_mul_left] at htotal
  rw [exactValue, countedQuantity]
  rw [← refreshedTickers_eq_countedTickers K hdd hdt hd] at htotal ⊢
  norm_num at htotal ⊢
  exact htotal

end Error

end BinanceElt
