import BinanceElt.Models.SurrogateKey
import BinanceElt.Models.Valuation
import Mathlib.Algebra.BigOperators.Group.Finset.Basic

/-!
# `wallet_value` asset by asset

When all symbols of `ticker_prices` end in the same quote currency, a full
refresh values a day by a sum over assets: the rounded average price of the day
times the average balance, for every asset with a ticker, a price and a positive
balance on the day.  No join repeats or drops an asset.

## Main results

* `mem_countedAssets` — which assets count on a day.
* `toFinset_refreshedTickers` — the tickers that count are those of these assets.
* `totalValue_eq_directValue` — the rows of `total_value` after a full refresh.
-/

namespace BinanceElt

open Sql (Date Timestamp QueryError)
open scoped BigOperators

/-! ## The value of a day, asset by asset -/

section Direct

variable (S : Sources) (quote : String) (date : Date)

/-- The snapshots of a day with a positive balance of an asset. -/
def snapshotsOf (asset : String) : List AccountSnaphsot :=
  S.accountSnaphsot.filter fun a => a.asset = some asset ∧
    Sql.extractDate a.timestamp = date ∧ (0 < a.free.getD 0 ∨ 0 < a.locked.getD 0)

/-- The price rows of an asset on a day. -/
def pricesOf (asset : String) : List TickerPriceChange :=
  S.tickerPriceChange.filter fun tp => tp.symbol = some (asset ++ quote) ∧
    Sql.extractDate tp.timestamp = date

/-- The average of the rounded mid prices of a day, rounded. -/
def assetPrice (asset : String) : ℚ :=
  Sql.roundTo 2 (Sql.mean ((pricesOf S quote date asset).map fun tp =>
    Sql.roundTo 2 ((tp.highPrice.getD 0 + tp.lowPrice.getD 0) / 2)))

/-- The average free balance of a day plus the average locked one, over the
snapshots with a positive balance. -/
def assetQuantity (asset : String) : ℚ :=
  Sql.mean ((snapshotsOf S date asset).map fun a => a.free.getD 0) +
    Sql.mean ((snapshotsOf S date asset).map fun a => a.locked.getD 0)

/-- The assets with a ticker, a positive-balance snapshot and a price row of the
day. -/
def countedAssets : Finset String :=
  ((S.accountSnaphsot.filterMap AccountSnaphsot.asset).filter fun asset =>
    (∃ tp ∈ S.tickerPrices, tp.symbol = some (asset ++ quote)) ∧
      snapshotsOf S date asset ≠ [] ∧ pricesOf S quote date asset ≠ []).toFinset

/-- The rounded sum over these assets.  It is defined on the sources, asset by
asset, without a join, a group or an id, so that it says what the query is meant
to compute. -/
def directValue : ℚ :=
  Sql.roundTo 2 (∑ asset ∈ countedAssets S quote date,
    assetPrice S quote date asset * assetQuantity S date asset)

/-- The numeric columns that are read have no nulls. -/
structure Sources.NonNull : Prop where
  prices : ∀ tp ∈ S.tickerPriceChange, tp.highPrice ≠ none ∧ tp.lowPrice ≠ none
  balances : ∀ a ∈ S.accountSnaphsot, a.free ≠ none ∧ a.locked ≠ none

/-- All symbols end in the same quote currency of four characters. -/
structure Sources.QuotedIn : Prop where
  length_eq : quote.length = 4
  symbols : ∀ tp ∈ S.tickerPrices, ∀ s, tp.symbol = some s → ∃ asset, s = asset ++ quote

variable {S quote date}

/-- An asset counts on a day with a ticker, a snapshot and a price. -/
theorem mem_countedAssets {asset : String} :
    asset ∈ countedAssets S quote date ↔
      (∃ tp ∈ S.tickerPrices, tp.symbol = some (asset ++ quote)) ∧
        snapshotsOf S date asset ≠ [] ∧ pricesOf S quote date asset ≠ [] := by
  simp only [countedAssets, List.mem_toFinset, List.mem_filter, decide_eq_true_eq,
    and_iff_right_iff_imp]
  rintro ⟨-, hne, -⟩
  obtain ⟨a, ha⟩ := List.exists_mem_of_ne_nil _ hne
  obtain ⟨ha, hasset⟩ := List.mem_filter.mp ha
  exact List.mem_filterMap.mpr ⟨a, ha, (of_decide_eq_true hasset).1⟩

end Direct

/-! ## The rows the models read -/

section Rows

variable {S : Sources} {quote : String} {date : Date} {asset : String}

theorem holdings_eq_snapshotsOf :
    holdings S.accountSnaphsot (some asset) date = snapshotsOf S date asset := by
  refine List.filter_congr fun a _ => ?_
  rw [Bool.eq_iff_iff]
  simp only [Bool.and_eq_true, Sql.holds_eq, decide_eq_true_eq,
    AccountSnaphsot.isPositive_iff, Option.some.injEq]
  constructor
  · rintro ⟨⟨_, hasset, rfl⟩, hdate, hpositive⟩
    exact ⟨hasset, hdate.symm, hpositive⟩
  · rintro ⟨hasset, hdate, hpositive⟩
    exact ⟨⟨asset, hasset, rfl⟩, hdate.symm, hpositive⟩

theorem observations_eq_pricesOf :
    observations S.tickerPriceChange (some (asset ++ quote)) date =
      pricesOf S quote date asset := by
  refine List.filter_congr fun tp _ => ?_
  rw [Bool.eq_iff_iff]
  simp only [Bool.and_eq_true, Sql.holds_eq, decide_eq_true_eq, Option.some.injEq]
  constructor
  · rintro ⟨⟨_, hsymbol, rfl⟩, hdate⟩
    exact ⟨hsymbol, hdate.symm⟩
  · rintro ⟨hsymbol, hdate⟩
    exact ⟨⟨_, hsymbol, rfl⟩, hdate.symm⟩

variable (hnull : S.NonNull)
include hnull

theorem quantityOn_eq_assetQuantity (hne : snapshotsOf S date asset ≠ []) :
    quantityOn S.accountSnaphsot (some asset) date = some (assetQuantity S date asset) := by
  have hrows : ∀ a ∈ snapshotsOf S date asset, a.free ≠ none ∧ a.locked ≠ none :=
    fun a ha => hnull.balances a (List.mem_of_mem_filter ha)
  rw [quantityOn, holdings_eq_snapshotsOf, Sql.avg_map_of_ne_none hne fun a ha => (hrows a ha).1,
    Sql.avg_map_of_ne_none hne fun a ha => (hrows a ha).2]
  rfl

theorem avg_midPrice_eq_assetPrice (hne : pricesOf S quote date asset ≠ []) :
    Sql.round 2 (Sql.avg ((pricesOf S quote date asset).map midPrice)) =
      some (assetPrice S quote date asset) := by
  have hmid : ∀ tp ∈ pricesOf S quote date asset, midPrice tp =
      some (Sql.roundTo 2 ((tp.highPrice.getD 0 + tp.lowPrice.getD 0) / 2)) := by
    intro tp htp
    obtain ⟨hhigh, hlow⟩ := hnull.prices tp (List.mem_of_mem_filter htp)
    obtain ⟨high, hhigh⟩ := Option.ne_none_iff_exists'.mp hhigh
    obtain ⟨low, hlow⟩ := Option.ne_none_iff_exists'.mp hlow
    simp [midPrice, hhigh, hlow, Sql.add, Sql.round]
  rw [Sql.avg_map_of_ne_none hne fun tp htp => by simp [hmid tp htp], assetPrice]
  refine congrArg (fun x => some (Sql.roundTo 2 (Sql.mean x))) ?_
  exact List.map_congr_left fun tp htp => by simp [hmid tp htp]

end Rows

/-! ## The tickers that count -/

section Tickers

variable {Id : Type} [DecidableEq Id] (K : SurrogateKey Id)

omit [DecidableEq Id] in
/-- The short symbol of a ticker is its asset. -/
theorem symbolShort_eq_iff {run : DbtRun} {quote : String} {dt : List (DimTickers Id)}
    (hdt : buildDimTickers K run = .ok dt) (hquote : run.sources.QuotedIn quote)
    {t : DimTickers Id} (ht : t ∈ dt) {asset : String} :
    t.symbolShort = some asset ↔ t.symbol = some (asset ++ quote) := by
  obtain ⟨⟨tp, htp, hsymbol⟩, hmap, -⟩ := (mem_dimTickers K hdt).mp ht
  rw [hmap]
  constructor
  · intro hshort
    obtain ⟨s, hs, hshort⟩ := Option.map_eq_some_iff.mp hshort
    obtain ⟨asset', rfl⟩ := hquote.symbols tp htp s (hsymbol.trans hs)
    rw [shortSymbol_append hquote.length_eq] at hshort
    rw [hs, hshort]
  · intro hs
    rw [hs, Option.map_some, shortSymbol_append hquote.length_eq]

/-- `fact_ticker_prices` after a full refresh. -/
abbrev refreshedPrices (dd : List DimDate) (run : DbtRun) (dt : List (DimTickers Id)) :
    List (FactTickerPrices Id) :=
  factTickerPrices K run.sources.tickerPriceChange dt dd run.toRunContext false

/-- The tickers that count on a day after a full refresh. -/
abbrev refreshedTickers (dd : List DimDate) (run : DbtRun) (dt : List (DimTickers Id))
    (d : DimDate) : List (DimTickers Id) :=
  valuedTickers run.sources.accountSnaphsot dt (refreshedPrices K dd run dt)
    run.toRunContext false d

variable {dd : List DimDate} {run : DbtRun} {quote : String} {dt : List (DimTickers Id)}
  {d : DimDate} (hdd : IsDateDim dd) (hdt : buildDimTickers K run = .ok dt)
  (hquote : run.sources.QuotedIn quote) (hd : d ∈ dd)
include hdd hdt hquote hd

/-- The prices of a ticker are the price rows of its asset. -/
theorem map_price_pricesOn {t : DimTickers Id} (ht : t ∈ dt) {asset : String}
    (hshort : t.symbolShort = some asset) :
    (pricesOn (refreshedPrices K dd run dt) run.toRunContext false t.id d.id).map
        (fun r => r.price) =
      (pricesOf run.sources quote d.fullDate asset).map midPrice := by
  rw [map_price_pricesOn_refreshed K _ _ _ (nodup_dimTickers_id K hdt) hdd ht hd,
    (symbolShort_eq_iff K hdt hquote ht).mp hshort, observations_eq_pricesOf]

/-- A ticker that counts is the ticker of an asset that counts. -/
theorem mem_refreshedTickers {t : DimTickers Id} :
    t ∈ refreshedTickers K dd run dt d ↔ t ∈ dt ∧
      ∃ asset ∈ countedAssets run.sources quote d.fullDate, t.symbolShort = some asset := by
  rw [mem_valuedTickers]
  refine and_congr_right fun ht => ?_
  simp only [RunContext.ingests_full, true_and, mem_countedAssets]
  have hprices : ∀ {asset}, t.symbolShort = some asset →
      (pricesOn (refreshedPrices K dd run dt) run.toRunContext false t.id d.id ≠ [] ↔
        pricesOf run.sources quote d.fullDate asset ≠ []) := by
    intro asset hshort
    refine not_congr ?_
    rw [← List.map_eq_nil_iff, map_price_pricesOn K hdd hdt hquote hd ht hshort,
      List.map_eq_nil_iff]
  constructor
  · rintro ⟨hheld, hpriced⟩
    obtain ⟨asset, hshort⟩ := exists_asset_of_holdings_ne_nil hheld
    obtain ⟨⟨tp, htp, hsymbol⟩, -⟩ := (mem_dimTickers K hdt).mp ht
    rw [(symbolShort_eq_iff K hdt hquote ht).mp hshort] at hsymbol
    rw [hshort, holdings_eq_snapshotsOf] at hheld
    exact ⟨asset, ⟨⟨tp, htp, hsymbol⟩, hheld, (hprices hshort).mp hpriced⟩, hshort⟩
  · rintro ⟨asset, ⟨-, hheld, hpriced⟩, hshort⟩
    refine ⟨?_, (hprices hshort).mpr hpriced⟩
    rwa [hshort, holdings_eq_snapshotsOf]

/-- No asset counts twice. -/
theorem nodup_refreshedTickers (hunique : UniqueAbbreviations run.nameMapping) :
    ((refreshedTickers K dd run dt d).map fun t => t.symbolShort.getD "").Nodup := by
  refine Sql.nodup_map_of_imp (f := DimTickers.id)
    ((nodup_dimTickers_id K hdt).sublist (List.filter_sublist.map _)) fun t ht t' ht' h => ?_
  obtain ⟨ht, asset, -, hshort⟩ := (mem_refreshedTickers K hdd hdt hquote hd).mp ht
  obtain ⟨ht', asset', -, hshort'⟩ := (mem_refreshedTickers K hdd hdt hquote hd).mp ht'
  obtain rfl : asset = asset' := by simpa [hshort, hshort'] using h
  have hsymbol := (symbolShort_eq_iff K hdt hquote ht).mp hshort
  have hsymbol' := (symbolShort_eq_iff K hdt hquote ht').mp hshort'
  rw [dimTickers_symbol_inj K hdt hunique ht ht' (hsymbol.trans hsymbol'.symm)]

/-- The tickers that count are those of the assets that count. -/
theorem toFinset_refreshedTickers :
    ((refreshedTickers K dd run dt d).map fun t => t.symbolShort.getD "").toFinset =
      countedAssets run.sources quote d.fullDate := by
  ext asset
  rw [List.mem_toFinset, List.mem_map]
  constructor
  · rintro ⟨t, ht, rfl⟩
    obtain ⟨-, asset, hasset, hshort⟩ := (mem_refreshedTickers K hdd hdt hquote hd).mp ht
    simpa [hshort] using hasset
  · intro hasset
    obtain ⟨⟨tp, htp, hsymbol⟩, -⟩ := mem_countedAssets.mp hasset
    obtain ⟨t, ht, hts⟩ := exists_symbol_dimTickers K hdt htp
    have hshort := (symbolShort_eq_iff K hdt hquote ht).mpr (hts.trans hsymbol)
    refine ⟨t, (mem_refreshedTickers K hdd hdt hquote hd).mpr ⟨ht, asset, hasset, hshort⟩, ?_⟩
    rw [hshort, Option.getD_some]

/-- What a ticker is worth is what its asset is worth. -/
theorem usdValueOn_eq (hnull : run.sources.NonNull) {t : DimTickers Id}
    (ht : t ∈ refreshedTickers K dd run dt d) :
    usdValueOn run.sources.accountSnaphsot (refreshedPrices K dd run dt) run.toRunContext
        false t d =
      some (assetPrice run.sources quote d.fullDate (t.symbolShort.getD "") *
        assetQuantity run.sources d.fullDate (t.symbolShort.getD "")) := by
  obtain ⟨ht, asset, hasset, hshort⟩ := (mem_refreshedTickers K hdd hdt hquote hd).mp ht
  obtain ⟨-, hheld, hpriced⟩ := mem_countedAssets.mp hasset
  rw [usdValueOn, avgPriceOn, map_price_pricesOn K hdd hdt hquote hd ht hshort,
    avg_midPrice_eq_assetPrice hnull hpriced, hshort,
    quantityOn_eq_assetQuantity hnull hheld]
  rfl

/-- The value of a day is the sum over the assets that count.  The tickers that
count are one for each asset, and without nulls each of them has a value; `hne`
makes the sum one of at least one term, as the sum of none would be null. -/
theorem walletValueOn_eq_directValue (hunique : UniqueAbbreviations run.nameMapping)
    (hnull : run.sources.NonNull)
    (hne : (countedAssets run.sources quote d.fullDate).Nonempty) :
    walletValueOn run.sources.accountSnaphsot dt (refreshedPrices K dd run dt)
        run.toRunContext false d =
      some (directValue run.sources quote d.fullDate) := by
  have hassets := toFinset_refreshedTickers K hdd hdt hquote hd
  have husd : ((refreshedTickers K dd run dt d).map fun t =>
      usdValueOn run.sources.accountSnaphsot (refreshedPrices K dd run dt) run.toRunContext
        false t d) =
      (((refreshedTickers K dd run dt d).map fun t => t.symbolShort.getD "").map fun asset =>
        assetPrice run.sources quote d.fullDate asset *
          assetQuantity run.sources d.fullDate asset).map some := by
    rw [List.map_map, List.map_map]
    exact List.map_congr_left fun t ht => usdValueOn_eq K hdd hdt hquote hd hnull ht
  rw [walletValueOn, husd, Sql.sum_map_some,
    ← List.sum_toFinset _ (nodup_refreshedTickers K hdd hdt hquote hd hunique), hassets]
  · rfl
  · rw [ne_eq, List.map_eq_nil_iff, ← List.toFinset_eq_empty_iff, hassets]
    exact hne.ne_empty

/-- A day has a row exactly when an asset counts on it. -/
theorem refreshedTickers_ne_nil_iff :
    refreshedTickers K dd run dt d ≠ [] ↔
      (countedAssets run.sources quote d.fullDate).Nonempty := by
  rw [← toFinset_refreshedTickers K hdd hdt hquote hd, List.toFinset_nonempty_iff,
    ne_eq, ne_eq, List.map_eq_nil_iff]

end Tickers

/-! ## A full refresh -/

section FullRefresh

variable {Id : Type} [DecidableEq Id] (K : SurrogateKey Id) {dd : List DimDate}
  {run : DbtRun} {quote : String}

omit [DecidableEq Id] in
/-- No symbol is too short for `LEFT`. -/
theorem exists_buildDimTickers_of_quotedIn (hquote : run.sources.QuotedIn quote) :
    ∃ dt, buildDimTickers K run = .ok dt := by
  refine (exists_dimTickers_iff K).mpr fun tp htp s hs => ?_
  obtain ⟨asset, rfl⟩ := hquote.symbols tp htp s hs
  rw [String.length_append, hquote.length_eq]
  exact Nat.le_add_left 4 _

/-- A full refresh of the prices keeps nothing of the stored ones. -/
theorem eq_refreshedPrices_of_fullRefresh (hfull : run.fullRefresh = true)
    {dt : List (DimTickers Id)} (hdt : buildDimTickers K run = .ok dt) {w : Warehouse Id}
    {prices : List (FactTickerPrices Id)} (h : buildFactTickerPrices K dd run w = .ok prices) :
    prices = refreshedPrices K dd run dt := by
  rw [buildFactTickerPrices, hfull, Sql.materialize_of_fullRefresh] at h
  obtain ⟨dt', hdt', -, rfl⟩ := (queryFactTickerPrices_eq_ok_iff K).mp h
  obtain rfl := Except.ok.inj (hdt'.symm.trans hdt)
  rfl

/-- After a full refresh of the dimension and the prices, `total_value` has one
row for each day on which an asset counts, with the sum over these assets.

`hdd` says that the dates of `dim_date` and their ids are unique, `hunique` that
no abbreviation is mapped twice, `hquote` that all symbols end in one quote
currency, so that an asset has one ticker, and `hnull` that the columns that are
added up have no nulls.  `hrefresh` is the refresh of the prices; it is there
unless `TIMESTAMP_MILLIS` has aborted it. -/
theorem totalValue_eq_directValue (hdd : IsDateDim dd) (hfull : run.fullRefresh = true)
    (hunique : UniqueAbbreviations run.nameMapping) (hquote : run.sources.QuotedIn quote)
    (hnull : run.sources.NonNull) {w : Warehouse Id}
    (hrefresh : ∃ prices, buildFactTickerPrices K dd run w = .ok prices) :
    ∃ totals, queryTotalValue K dd run w false = .ok totals ∧ ∀ d ∈ dd,
      totals.filter (fun v => v.dateId = d.id) =
        if (countedAssets run.sources quote d.fullDate).Nonempty then
          [⟨d.id, some (directValue run.sources quote d.fullDate)⟩] else [] := by
  obtain ⟨dt, hdt⟩ := exists_buildDimTickers_of_quotedIn K hquote
  obtain ⟨prices, hprices⟩ := hrefresh
  obtain rfl := eq_refreshedPrices_of_fullRefresh K hfull hdt hprices
  refine ⟨_, (queryTotalValue_eq_ok_iff K).mpr ⟨dt, hdt, _, hprices, rfl⟩, fun d hd => ?_⟩
  have hids := nodup_dimTickers_id K hdt
  split
  · next hne =>
      have hvalued := (refreshedTickers_ne_nil_iff K hdd hdt hquote hd).mpr hne
      have hvalue := walletValueOn_eq_directValue K hdd hdt hquote hd hunique hnull hne
      refine List.perm_singleton.mp ((List.perm_ext_iff_of_nodup
        ((List.Nodup.of_map _ nodup_totalValueOf).filter _) (List.nodup_singleton _)).mpr
          fun v => ?_)
      rw [List.mem_filter, List.mem_singleton, decide_eq_true_eq]
      constructor
      · rintro ⟨hv, hday⟩
        obtain ⟨-, heq⟩ := (mem_totalValueOf_iff_of_mem hids hdd hd hday).mp hv
        exact TotalValue.ext hday (heq.trans hvalue)
      · rintro rfl
        exact ⟨(mem_totalValueOf_iff_of_mem hids hdd hd rfl).mpr ⟨hvalued, hvalue.symm⟩, rfl⟩
  · next hnone =>
      refine List.filter_eq_nil_iff.mpr fun v hv hday => hnone ?_
      obtain ⟨d', hd', hvalued, rfl⟩ := (mem_totalValueOf hids hdd).mp hv
      rw [hdd.eq_of_id_eq hd' hd (of_decide_eq_true hday)] at hvalued
      exact (refreshedTickers_ne_nil_iff K hdd hdt hquote hd).mp hvalued

/-- A full refresh over two assets, one of them observed twice on 2024-05-01. -/
def twoAssets : DbtRun where
  currentDate := 19844
  currentTimestamp := Sql.midnight 19844
  daysToIngest := daysToIngest
  sources :=
    { tickerPrices := [⟨some "BTCUSDT", Sql.midnight 19844⟩,
        ⟨some "ETHUSDT", Sql.midnight 19844⟩]
      tickerPriceChange :=
        [TickerPriceChange.ofPrices "BTCUSDT" 60000 50000 1714435200000 (Sql.midnight 19844),
          TickerPriceChange.ofPrices "BTCUSDT" 62000 52000 1714478400000
            (Sql.midnight 19844 + 43200000000),
          TickerPriceChange.ofPrices "ETHUSDT" 3000 2000 1714435200000 (Sql.midnight 19844)]
      accountSnaphsot := [⟨some "BTC", some 1, some 0, Sql.midnight 19844⟩,
        ⟨some "ETH", some 2, some 1, Sql.midnight 19844⟩] }
  nameMapping := [⟨some "Bitcoin", some "BTC"⟩]
  fullRefresh := true

theorem totalValue_eq_directValue_twoAssets :
    directValue twoAssets.sources "USDT" 19844 = 63500 ∧
      ∃ totals, queryTotalValue listing dimDate twoAssets Warehouse.empty false = .ok totals ∧
        ∀ d ∈ dimDate, totals.filter (fun v => v.dateId = d.id) =
          if (countedAssets twoAssets.sources "USDT" d.fullDate).Nonempty then
            [⟨d.id, some (directValue twoAssets.sources "USDT" d.fullDate)⟩] else [] := by
  have hquote : twoAssets.sources.QuotedIn "USDT" := by
    refine ⟨rfl, fun tp htp s hs => ?_⟩
    rcases List.mem_pair.mp htp with rfl | rfl
    · exact ⟨"BTC", (Option.some.inj hs).symm⟩
    · exact ⟨"ETH", (Option.some.inj hs).symm⟩
  have hdates : SameDates dimDate (dateDim 19844 19844) twoAssets :=
    sameDates_dimDate (by decide) (by decide) (by decide)
  have hrefresh : ∃ prices, buildFactTickerPrices listing dimDate twoAssets Warehouse.empty =
      .ok prices := by
    rw [buildFactTickerPrices_congr listing hdates]
    decide +kernel
  exact ⟨by decide +kernel, totalValue_eq_directValue listing isDateDim_dimDate rfl
    (by decide) hquote ⟨by decide, by decide⟩ hrefresh⟩

end FullRefresh

end BinanceElt
