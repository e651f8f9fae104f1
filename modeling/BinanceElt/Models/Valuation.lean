import BinanceElt.Models.Run

/-!
# The value of a day, ticker by ticker

What `total_value` is meant to compute, without its joins and groups: a ticker
counts on a day when the day has a price and a positive-balance snapshot of it,
and the value of the day is the rounded sum, over these tickers, of the rounded
average price times the quantity.

## Main results

* `mem_totalValueOf` — the rows of `total_value` are the days with a ticker
  that counts, each with this value.
* `exists_row_iff` — the same for the rows of the table a run computes.
-/

namespace BinanceElt

open Sql (Date Timestamp QueryError)

variable {Id : Type} [DecidableEq Id]

/-! ## Tickers that count -/

section Definitions

variable (src : List AccountSnaphsot) (dt : List (DimTickers Id))
  (prices : List (FactTickerPrices Id)) (ctx : RunContext) (isIncremental : Bool)

/-- The prices of a ticker on a day, in the window of the run.  The window is
one of `open_time`, not of the day the prices are stored under. -/
def pricesOn (symbolId : Id) (dateId : ℤ) : List (FactTickerPrices Id) :=
  prices.filter fun r => decide ((r.symbolId, r.dateId) = (symbolId, dateId)) &&
    ctx.ingests isIncremental (r.openTime.map Sql.extractDate)

/-- The average price of a ticker on a day. -/
def avgPriceOn (symbolId : Id) (dateId : ℤ) : Option ℚ :=
  Sql.round 2 (Sql.avg ((pricesOn prices ctx isIncremental symbolId dateId).map
    fun r => r.price))

/-- The tickers that count on a day of the window: those with a holding of their
asset and a price, both of this day. -/
def valuedTickers (d : DimDate) : List (DimTickers Id) :=
  dt.filter fun t => ctx.ingests isIncremental (some d.fullDate) &&
    (decide (holdings src t.symbolShort d.fullDate ≠ []) &&
      decide (pricesOn prices ctx isIncremental t.id d.id ≠ []))

/-- What a ticker is worth on a day. -/
def usdValueOn (t : DimTickers Id) (d : DimDate) : Option ℚ :=
  Sql.mul (avgPriceOn prices ctx isIncremental t.id d.id)
    (quantityOn src t.symbolShort d.fullDate)

/-- What the account is worth on a day: the rounded sum of what its tickers are
worth, which is null when no ticker has a value. -/
def walletValueOn (d : DimDate) : Option ℚ :=
  Sql.round 2 (Sql.sum ((valuedTickers src dt prices ctx isIncremental d).map fun t =>
    usdValueOn src prices ctx isIncremental t d))

/-- The ids of the days on which some ticker counts. -/
def valuedDays (dd : List DimDate) : List ℤ :=
  (dd.filter fun d => decide (valuedTickers src dt prices ctx isIncremental d ≠ [])).map
    DimDate.id

end Definitions

/-! ## The query computes it -/

section Query

variable {src : List AccountSnaphsot} {dt : List (DimTickers Id)} {dd : List DimDate}
  {prices : List (FactTickerPrices Id)} {ctx : RunContext} {isIncremental : Bool}

theorem mem_valuedTickers {d : DimDate} {t : DimTickers Id} :
    t ∈ valuedTickers src dt prices ctx isIncremental d ↔ t ∈ dt ∧
      ctx.ingests isIncremental (some d.fullDate) = true ∧
      holdings src t.symbolShort d.fullDate ≠ [] ∧
      pricesOn prices ctx isIncremental t.id d.id ≠ [] := by
  simp only [valuedTickers, List.mem_filter, Bool.and_eq_true, decide_eq_true_eq]

theorem mem_pricesOn {symbolId : Id} {dateId : ℤ} {r : FactTickerPrices Id} :
    r ∈ pricesOn prices ctx isIncremental symbolId dateId ↔ r ∈ prices ∧
      (r.symbolId = symbolId ∧ r.dateId = dateId) ∧
      ctx.ingests isIncremental (r.openTime.map Sql.extractDate) = true := by
  simp only [pricesOn, List.mem_filter, Bool.and_eq_true, decide_eq_true_eq, Prod.mk.injEq]

/-- The rows of `avg_daily_ticker_prices`. -/
theorem mem_avgDailyTickerPrices {f : AvgDailyTickerPrices Id} :
    f ∈ avgDailyTickerPrices prices ctx isIncremental ↔
      pricesOn prices ctx isIncremental f.symbolId f.dateId ≠ [] ∧
      f.avgPrice = avgPriceOn prices ctx isIncremental f.symbolId f.dateId := by
  have hgroup : ∀ symbolId dateId,
      ((prices.filter fun r =>
          ctx.ingests isIncremental (r.openTime.map Sql.extractDate)).filter fun r =>
        decide ((r.symbolId, r.dateId) = (symbolId, dateId))) =
        pricesOn prices ctx isIncremental symbolId dateId :=
    fun _ _ => List.filter_filter
  simp only [avgDailyTickerPrices, List.mem_map]
  constructor
  · rintro ⟨g, hg, rfl⟩
    have hne := Sql.groupBy_ne_nil hg
    obtain ⟨-, hrows⟩ := Sql.mem_groupBy.mp hg
    rw [hgroup] at hrows
    exact ⟨hrows ▸ hne, by rw [hrows]; rfl⟩
  · rintro ⟨hne, havg⟩
    obtain ⟨r, hr⟩ := List.exists_mem_of_ne_nil _ hne
    rw [← hgroup, List.mem_filter, decide_eq_true_eq] at hr
    obtain ⟨symbolId, dateId, avgPrice⟩ := f
    obtain rfl : avgPrice = avgPriceOn prices ctx isIncremental symbolId dateId := havg
    refine ⟨_, Sql.mk_mem_groupBy hr.1 hr.2, ?_⟩
    simp only [hgroup]
    rfl

theorem nodup_avgDailyTickerPrices :
    ((avgDailyTickerPrices prices ctx isIncremental).map fun f =>
      (f.symbolId, f.dateId)).Nodup := by
  rw [avgDailyTickerPrices, List.map_map]
  exact Sql.nodup_groupBy

/-- The prices a full refresh stores for a ticker and a day. -/
theorem map_price_pricesOn_refreshed (K : SurrogateKey Id) (priceSrc : List TickerPriceChange)
    (ctx ctx' : RunContext) (hdt : (dt.map DimTickers.id).Nodup) (hdd : IsDateDim dd)
    {t : DimTickers Id} {d : DimDate} (ht : t ∈ dt) (hd : d ∈ dd) :
    (pricesOn (factTickerPrices K priceSrc dt dd ctx false) ctx' false t.id d.id).map
        (fun r => r.price) =
      (observations priceSrc t.symbol d.fullDate).map midPrice := by
  simp only [pricesOn, RunContext.ingests_full, Bool.and_true]
  rw [filter_factTickerPrices K hdt hdd ht hd, List.map_map]
  rfl

/-- A pair of the join of prices and holdings is a ticker that counts. -/
private theorem exists_join_iff (hdt : (dt.map DimTickers.id).Nodup) (hdd : IsDateDim dd)
    {d : DimDate} (hd : d ∈ dd) (i : Id) (u : Option ℚ) :
    (∃ r ∈ (Sql.innerJoin (avgDailyTickerPrices prices ctx isIncremental)
          (currentPortfolio src dt dd ctx isIncremental) fun f c =>
          decide (f.symbolId = c.symbolId) && decide (f.dateId = c.dateId)).filter
        fun r => decide (r.2.dateId = d.id),
        r.2.symbolId = i ∧ Sql.mul r.1.avgPrice r.2.quantity = u) ↔
      ∃ t ∈ valuedTickers src dt prices ctx isIncremental d,
        t.id = i ∧ usdValueOn src prices ctx isIncremental t d = u := by
  constructor
  · rintro ⟨⟨f, c⟩, hr, rfl, rfl⟩
    simp only [List.mem_filter, Sql.mem_innerJoin, Bool.and_eq_true,
      decide_eq_true_eq] at hr
    obtain ⟨⟨hf, hc, hsym, hdate⟩, hcd⟩ := hr
    obtain ⟨hne, havg⟩ := mem_avgDailyTickerPrices.mp hf
    obtain ⟨t, ht, d', hd', hin, hheld, rfl⟩ := (mem_currentPortfolio hdt hdd).mp hc
    obtain rfl : d' = d := hdd.eq_of_id_eq hd' hd hcd
    rw [hsym, hdate] at hne havg
    exact ⟨t, mem_valuedTickers.mpr ⟨ht, hin, hheld, hne⟩, rfl, by rw [usdValueOn, havg]⟩
  · rintro ⟨t, ht, rfl, rfl⟩
    obtain ⟨htdt, hin, hheld, hne⟩ := mem_valuedTickers.mp ht
    refine ⟨(⟨t.id, d.id, avgPriceOn prices ctx isIncremental t.id d.id⟩,
      ⟨t.id, d.id, quantityOn src t.symbolShort d.fullDate⟩), ?_, rfl, rfl⟩
    simp only [List.mem_filter, Sql.mem_innerJoin, Bool.and_eq_true, decide_eq_true_eq,
      and_true]
    exact ⟨mem_avgDailyTickerPrices.mpr ⟨hne, rfl⟩,
      (mem_currentPortfolio hdt hdd).mpr ⟨t, htdt, d, hd, hin, hheld, rfl⟩⟩

/-- The join of prices and holdings has one row per ticker on a day. -/
private theorem nodup_join_symbolId (d : DimDate) :
    (((Sql.innerJoin (avgDailyTickerPrices prices ctx isIncremental)
        (currentPortfolio src dt dd ctx isIncremental) fun f c =>
        decide (f.symbolId = c.symbolId) && decide (f.dateId = c.dateId)).filter
      fun r => decide (r.2.dateId = d.id)).map fun r => r.2.symbolId).Nodup := by
  have hnodup : (Sql.innerJoin (avgDailyTickerPrices prices ctx isIncremental)
      (currentPortfolio src dt dd ctx isIncremental) fun f c =>
        decide (f.symbolId = c.symbolId) && decide (f.dateId = c.dateId)).Nodup :=
    Sql.nodup_innerJoin (List.Nodup.of_map _ nodup_avgDailyTickerPrices)
      (List.Nodup.of_map _ nodup_currentPortfolio)
  refine Sql.nodup_map_of_imp (f := id) ?_ fun r hr r' hr' hsym => ?_
  · rw [List.map_id]
    exact hnodup.filter _
  simp only [List.mem_filter, Sql.mem_innerJoin, Bool.and_eq_true,
    decide_eq_true_eq] at hr hr'
  obtain ⟨⟨hf, hc, hfsym, hfdate⟩, hcd⟩ := hr
  obtain ⟨⟨hf', hc', hfsym', hfdate'⟩, hcd'⟩ := hr'
  have hright : r.2 = r'.2 := List.inj_on_of_nodup_map nodup_currentPortfolio hc hc'
    (Prod.ext hsym (hcd.trans hcd'.symm))
  have hleft : r.1 = r'.1 := List.inj_on_of_nodup_map nodup_avgDailyTickerPrices hf hf'
    (Prod.ext (by rw [hfsym, hfsym', hright]) (by rw [hfdate, hfdate', hright]))
  exact Prod.ext hleft hright

variable (src prices ctx isIncremental) in
/-- The values of a day are those of the tickers that count, each once. -/
private theorem filter_tickerPortflioValues_perm (hdt : (dt.map DimTickers.id).Nodup)
    (hdd : IsDateDim dd) {d : DimDate} (hd : d ∈ dd) :
    (((tickerPortflioValues (avgDailyTickerPrices prices ctx isIncremental)
        (currentPortfolio src dt dd ctx isIncremental)).filter fun x =>
        decide (x.dateId = d.id)).map TickerPortflioValues.usdValue).Perm
      ((valuedTickers src dt prices ctx isIncremental d).map fun t =>
        usdValueOn src prices ctx isIncremental t d) := by
  rw [tickerPortflioValues, List.filter_map, List.map_map]
  exact Sql.map_perm_map (nodup_join_symbolId d)
    (hdt.sublist (List.filter_sublist.map _)) (exists_join_iff hdt hdd hd)

/-- A day has a row in `total_value` exactly when a ticker counts on it, and its
value is that of the day. -/
theorem mem_totalValueOf (hdt : (dt.map DimTickers.id).Nodup) (hdd : IsDateDim dd)
    {v : TotalValue} :
    v ∈ totalValueOf src dt dd prices ctx isIncremental ↔
      ∃ d ∈ dd, valuedTickers src dt prices ctx isIncremental d ≠ [] ∧
        v = ⟨d.id, walletValueOn src dt prices ctx isIncremental d⟩ := by
  rw [totalValueOf, mem_totalValue]
  constructor
  · rintro ⟨⟨x, hx, hdate⟩, hvalue⟩
    obtain ⟨⟨f, c⟩, hr, rfl⟩ := List.mem_map.mp hx
    simp only [Sql.mem_innerJoin, Bool.and_eq_true, decide_eq_true_eq] at hr
    obtain ⟨t, ht, d, hd, hin, hheld, hc⟩ := (mem_currentPortfolio hdt hdd).mp hr.2.1
    have hcd : c.dateId = d.id := by rw [hc]
    have hvd : v.dateId = d.id := hdate.symm.trans hcd
    refine ⟨d, hd, ?_, ?_⟩
    · have hperm :=
        filter_tickerPortflioValues_perm src prices ctx isIncremental hdt hdd hd
      intro hnil
      rw [hnil, List.map_nil, List.perm_nil, List.map_eq_nil_iff,
        List.filter_eq_nil_iff] at hperm
      exact hperm _ hx (by simpa using hcd)
    · cases v
      simp only at hvd hvalue
      rw [hvd] at hvalue
      rw [hvd, hvalue, Sql.sum_perm
        (filter_tickerPortflioValues_perm src prices ctx isIncremental hdt hdd hd)]
      rfl
  · rintro ⟨d, hd, hne, rfl⟩
    have hperm :=
      filter_tickerPortflioValues_perm src prices ctx isIncremental hdt hdd hd
    refine ⟨?_, by rw [walletValueOn, Sql.sum_perm hperm]⟩
    by_contra hnone
    push Not at hnone
    have hnil : (tickerPortflioValues (avgDailyTickerPrices prices ctx isIncremental)
        (currentPortfolio src dt dd ctx isIncremental)).filter (fun x =>
        decide (x.dateId = d.id)) = [] := by
      rw [List.filter_eq_nil_iff]
      exact fun x hx => by simpa using hnone x hx
    rw [hnil, List.map_nil, List.nil_perm, List.map_eq_nil_iff] at hperm
    exact hne hperm

/-- The rows of a day: one when a ticker counts on it, with the value of the
day.  This says all there is to `total_value`, and the results about the account
value argue from `valuedTickers` and `walletValueOn` instead of the joins and
groups. -/
theorem mem_totalValueOf_iff_of_mem (hdt : (dt.map DimTickers.id).Nodup) (hdd : IsDateDim dd)
    {d : DimDate} (hd : d ∈ dd) {v : TotalValue} (hv : v.dateId = d.id) :
    v ∈ totalValueOf src dt dd prices ctx isIncremental ↔
      valuedTickers src dt prices ctx isIncremental d ≠ [] ∧
        v.walletValue = walletValueOn src dt prices ctx isIncremental d := by
  rw [mem_totalValueOf hdt hdd]
  constructor
  · rintro ⟨d', hd', hvalued, rfl⟩
    obtain rfl : d' = d := hdd.eq_of_id_eq hd' hd hv
    exact ⟨hvalued, rfl⟩
  · rintro ⟨hvalued, hvalue⟩
    exact ⟨d, hd, hvalued, TotalValue.ext hv hvalue⟩

end Query

/-! ## The rows of a run -/

section Run

variable (K : SurrogateKey Id) {dd : List DimDate} {run : DbtRun}

/-- The rows of the query are the valued days of the run. -/
theorem exists_row_iff (hdd : IsDateDim dd) {isIncremental : Bool}
    {dt : List (DimTickers Id)} {prices : List (FactTickerPrices Id)}
    {rows : List (FactDailyAccountValue Id)} (hdt : buildDimTickers K run = .ok dt)
    (h : factDailyAccountValue K run.sources.accountSnaphsot dt dd prices
      run.toRunContext isIncremental = .ok rows) {v : TotalValue} :
    (∃ r ∈ rows, r.toTotalValue = v) ↔ ∃ d ∈ dd,
      valuedTickers run.sources.accountSnaphsot dt prices run.toRunContext
        isIncremental d ≠ [] ∧
      v = ⟨d.id, walletValueOn run.sources.accountSnaphsot dt prices run.toRunContext
        isIncremental d⟩ := by
  rw [← mem_totalValueOf (nodup_dimTickers_id K hdt) hdd,
    ← (map_factDailyAccountValue_perm K h).mem_iff, List.mem_map]

/-- The days of the query. -/
theorem mem_dateId_iff (hdd : IsDateDim dd) {isIncremental : Bool}
    {dt : List (DimTickers Id)} {prices : List (FactTickerPrices Id)}
    {rows : List (FactDailyAccountValue Id)} (hdt : buildDimTickers K run = .ok dt)
    (h : factDailyAccountValue K run.sources.accountSnaphsot dt dd prices
      run.toRunContext isIncremental = .ok rows) {day : ℤ} :
    day ∈ rows.map (fun r => r.dateId) ↔ day ∈ valuedDays run.sources.accountSnaphsot dt
      prices run.toRunContext isIncremental dd := by
  simp only [valuedDays, List.mem_map, List.mem_filter, decide_eq_true_eq]
  constructor
  · rintro ⟨r, hr, rfl⟩
    obtain ⟨d, hd, hvalued, hrd⟩ := (exists_row_iff K hdd hdt h).mp ⟨r, hr, rfl⟩
    exact ⟨d, ⟨hd, hvalued⟩, by rw [hrd]⟩
  · rintro ⟨d, ⟨hd, hvalued⟩, rfl⟩
    obtain ⟨r, hr, hrd⟩ := (exists_row_iff K hdd hdt h).mpr ⟨d, hd, hvalued, rfl⟩
    exact ⟨r, hr, by rw [hrd]⟩

end Run

end BinanceElt
