import BinanceElt.Models.Run
import BinanceElt.Models.SurrogateKey

/-!
# Running twice on the same day

A second incremental run on the same date, over the same sources and seed, finds
the rows the first one has just merged.  Every query reads `dim_tickers` and
`fact_ticker_prices` up to `updated_timestamp`, so that it gives the same rows
again, and merging them changes nothing but that column.

## Main results

* `factTickerPrices_stampedAt` and its siblings — what a query makes of a later
  clock.
* `materialize_stampedAt` — one incremental table, run twice.
* `dbtRun_repeatedAt` — the second run completes and leaves the warehouse as it
  was, up to `updated_timestamp`.
-/

namespace BinanceElt

open Sql (Date Timestamp QueryError)

variable {Id : Type}

/-! ## Rows up to `updated_timestamp` -/

section Stamps

variable (now : Timestamp)

def DimTickers.stampedAt (t : DimTickers Id) : DimTickers Id :=
  { t with updatedTimestamp := now }

def FactTickerPrices.stampedAt (r : FactTickerPrices Id) : FactTickerPrices Id :=
  { r with updatedTimestamp := now }

def FactDailyTickersQuantity.stampedAt (r : FactDailyTickersQuantity Id) :
    FactDailyTickersQuantity Id :=
  { r with updatedTimestamp := now }

def FactDailyAccountValue.stampedAt (r : FactDailyAccountValue Id) :
    FactDailyAccountValue Id :=
  { r with updatedTimestamp := now }

/-- The tables with every `updated_timestamp` set to `now`. -/
def Warehouse.stampedAt (w : Warehouse Id) : Warehouse Id where
  dimTickers := w.dimTickers.map (List.map (DimTickers.stampedAt now))
  factTickerPrices := w.factTickerPrices.map (List.map (FactTickerPrices.stampedAt now))
  factDailyTickersQuantity :=
    w.factDailyTickersQuantity.map (List.map (FactDailyTickersQuantity.stampedAt now))
  factDailyAccountValue :=
    w.factDailyAccountValue.map (List.map (FactDailyAccountValue.stampedAt now))

/-- The same run by a later clock: same date, sources, seed and flags. -/
def DbtRun.repeatedAt (run : DbtRun) : DbtRun := { run with currentTimestamp := now }

end Stamps

/-- The run is incremental for every fact: the tables exist and no full refresh
was asked for. -/
structure DbtRun.IsIncremental (run : DbtRun) (w : Warehouse Id) : Prop where
  factTickerPrices : Sql.isIncremental w.factTickerPrices run.fullRefresh = true
  factDailyTickersQuantity :
    Sql.isIncremental w.factDailyTickersQuantity run.fullRefresh = true
  factDailyAccountValue : Sql.isIncremental w.factDailyAccountValue run.fullRefresh = true

variable [DecidableEq Id] (K : SurrogateKey Id)

/-! ## The queries by a later clock -/

section Queries

variable {now : Timestamp} {dd : List DimDate} {dt : List (DimTickers Id)}
  {ctx : RunContext} {isIncremental : Bool}

omit [DecidableEq Id] in
theorem dimTickers_stampedAt {src : List TickerPrices} {nm : List NameMapping}
    (h : dimTickers K src nm ctx = .ok dt) :
    dimTickers K src nm { ctx with currentTimestamp := now } =
      .ok (dt.map (DimTickers.stampedAt now)) := by
  obtain ⟨names, hnames, rfl⟩ := Sql.select_eq_ok_iff.mp h
  refine Sql.bind_eq_ok_iff.mpr ⟨names, hnames, ?_⟩
  rw [List.map_map]
  rfl

omit [DecidableEq Id] in
theorem factTickerPrices_stampedAt {src : List TickerPriceChange} :
    factTickerPrices K src (dt.map (DimTickers.stampedAt now)) dd
        { ctx with currentTimestamp := now } isIncremental =
      (factTickerPrices K src dt dd ctx isIncremental).map
        (FactTickerPrices.stampedAt now) := by
  simp only [factTickerPrices, recentData, Sql.innerJoin_map_right, Sql.innerJoin_map_left,
    List.filter_map, List.map_map]
  rfl

omit [DecidableEq Id] in
theorem readRows_stampedAt {src : List TickerPriceChange} :
    readRows src (dt.map (DimTickers.stampedAt now)) dd { ctx with currentTimestamp := now }
        isIncremental = readRows src dt dd ctx isIncremental := by
  refine List.filter_congr fun tp _ => ?_
  rw [isRead, isRead, List.any_map]
  rfl

theorem currentPortfolio_stampedAt {src : List AccountSnaphsot} :
    currentPortfolio src (dt.map (DimTickers.stampedAt now)) dd
        { ctx with currentTimestamp := now } isIncremental =
      currentPortfolio src dt dd ctx isIncremental := by
  simp only [currentPortfolio, portfolioRows, Sql.innerJoin_map_right,
    Sql.innerJoin_map_left, List.filter_map, Sql.groupBy_map, List.map_map,
    Function.comp_def]
  rfl

theorem factDailyTickersQuantity_stampedAt {src : List AccountSnaphsot}
    {rows : List (FactDailyTickersQuantity Id)}
    (h : factDailyTickersQuantity K src dt dd ctx isIncremental = .ok rows) :
    factDailyTickersQuantity K src (dt.map (DimTickers.stampedAt now)) dd
        { ctx with currentTimestamp := now } isIncremental =
      .ok (rows.map (FactDailyTickersQuantity.stampedAt now)) := by
  obtain ⟨changes, hchanges, rfl⟩ := Sql.select_eq_ok_iff.mp h
  refine Sql.bind_eq_ok_iff.mpr ⟨changes, ?_, ?_⟩
  · rw [currentPortfolio_stampedAt, hchanges]
  · rw [List.map_map]
    rfl

theorem avgDailyTickerPrices_stampedAt {prices : List (FactTickerPrices Id)} :
    avgDailyTickerPrices (prices.map (FactTickerPrices.stampedAt now)) ctx isIncremental =
      avgDailyTickerPrices prices ctx isIncremental := by
  simp only [avgDailyTickerPrices, List.filter_map, Sql.groupBy_map, List.map_map,
    Function.comp_def]
  rfl

/-- The account value reads the prices up to `updated_timestamp`. -/
theorem factDailyAccountValue_stampedAt {src : List AccountSnaphsot}
    {prices prices' : List (FactTickerPrices Id)}
    (hprices : prices'.map (FactTickerPrices.stampedAt now) =
      prices.map (FactTickerPrices.stampedAt now))
    {rows : List (FactDailyAccountValue Id)}
    (h : factDailyAccountValue K src dt dd prices ctx isIncremental = .ok rows) :
    factDailyAccountValue K src (dt.map (DimTickers.stampedAt now)) dd prices'
        { ctx with currentTimestamp := now } isIncremental =
      .ok (rows.map (FactDailyAccountValue.stampedAt now)) := by
  have havg : avgDailyTickerPrices prices' { ctx with currentTimestamp := now } isIncremental =
      avgDailyTickerPrices prices ctx isIncremental := by
    have hstamped := congrArg (fun rows => avgDailyTickerPrices rows ctx isIncremental) hprices
    simp only [avgDailyTickerPrices_stampedAt] at hstamped
    exact hstamped
  obtain ⟨changes, hchanges, rfl⟩ := Sql.select_eq_ok_iff.mp h
  refine Sql.bind_eq_ok_iff.mpr ⟨changes, ?_, ?_⟩
  · rw [totalValueOf, havg, currentPortfolio_stampedAt]
    exact hchanges
  · rw [List.map_map]
    rfl

end Queries

/-! ## One table, run twice -/

/-- An incremental table that is run again over a query that gives the same
rows with another stamp is written again and changes its stamps only.
`hkey` and `hstamp` say that the stamp is no part of the key and that the
last one counts. -/
theorem materialize_stampedAt {Row : Type} {key : Row → Id} {stamp : Row → Row}
    {target : Option (List Row)} {fullRefresh : Bool}
    {query query' : Bool → Except QueryError (List Row)} {built : List Row}
    (hkey : ∀ r, key (stamp r) = key r) (hstamp : ∀ r, stamp (stamp r) = stamp r)
    (h : Sql.materialize key target fullRefresh query = .ok built)
    (hmode : Sql.isIncremental target fullRefresh = true)
    (hnodup : ∀ rows, query true = .ok rows → (rows.map key).Nodup)
    (hagain : ∀ rows, query true = .ok rows → query' true = .ok (rows.map stamp)) :
    ∃ built', Sql.materialize key (some built) fullRefresh query' = .ok built' ∧
      built'.map stamp = built.map stamp := by
  refine Sql.materialize_again h hmode hnodup fun rows hrows => ⟨_, hagain rows hrows, ?_⟩
  rw [List.map_map]
  exact List.map_congr_left fun r _ => by simp [hkey, hstamp]

/-! ## A run, twice -/

section Run

variable {dd : List DimDate} {run : DbtRun} {w : Warehouse Id} (now : Timestamp)

omit [DecidableEq Id] in
theorem queryFactTickerPrices_repeatedAt {isIncremental : Bool}
    {rows : List (FactTickerPrices Id)}
    (h : queryFactTickerPrices K dd run isIncremental = .ok rows) :
    queryFactTickerPrices K dd (run.repeatedAt now) isIncremental =
      .ok (rows.map (FactTickerPrices.stampedAt now)) := by
  obtain ⟨dt, hdt, hrange, rfl⟩ := (queryFactTickerPrices_eq_ok_iff K).mp h
  refine (queryFactTickerPrices_eq_ok_iff K).mpr
    ⟨_, dimTickers_stampedAt K hdt, ?_, (factTickerPrices_stampedAt K).symm⟩
  exact fun tp htp => hrange tp ((congrArg (tp ∈ ·) readRows_stampedAt).mp htp)

theorem queryFactDailyTickersQuantity_repeatedAt {isIncremental : Bool}
    {rows : List (FactDailyTickersQuantity Id)}
    (h : queryFactDailyTickersQuantity K dd run isIncremental = .ok rows) :
    queryFactDailyTickersQuantity K dd (run.repeatedAt now) isIncremental =
      .ok (rows.map (FactDailyTickersQuantity.stampedAt now)) := by
  obtain ⟨dt, hdt, hrows⟩ := (queryFactDailyTickersQuantity_eq_ok_iff K).mp h
  exact (queryFactDailyTickersQuantity_eq_ok_iff K).mpr
    ⟨_, dimTickers_stampedAt K hdt, factDailyTickersQuantity_stampedAt K hrows⟩

/-- The prices of the second run are those of the first. -/
theorem buildFactTickerPrices_repeatedAt (hdd : IsDateDim dd)
    (hkeys : (run.sources.tickerPriceChange.map sourceKey).Nodup)
    (hmode : Sql.isIncremental w.factTickerPrices run.fullRefresh = true)
    {prices : List (FactTickerPrices Id)}
    (h : buildFactTickerPrices K dd run w = .ok prices) :
    ∃ prices', buildFactTickerPrices K dd (run.repeatedAt now) (dbtRun K dd run w) =
        .ok prices' ∧
      prices'.map (FactTickerPrices.stampedAt now) =
        prices.map (FactTickerPrices.stampedAt now) := by
  rw [buildFactTickerPrices, show (dbtRun K dd run w).factTickerPrices = some prices from
    Sql.tableAfter_of_ok h]
  refine materialize_stampedAt (fun _ => rfl) (fun _ => rfl) h hmode (fun rows hrows => ?_)
    fun rows hrows => queryFactTickerPrices_repeatedAt K now hrows
  obtain ⟨dt, hdt, -, rfl⟩ := (queryFactTickerPrices_eq_ok_iff K).mp hrows
  exact nodup_factTickerPrices_id K hkeys (nodup_dimTickers_id K hdt) hdd.nodup_id

theorem buildFactDailyTickersQuantity_repeatedAt
    (hmode : Sql.isIncremental w.factDailyTickersQuantity run.fullRefresh = true)
    {rows : List (FactDailyTickersQuantity Id)}
    (h : buildFactDailyTickersQuantity K dd run w = .ok rows) :
    ∃ rows', buildFactDailyTickersQuantity K dd (run.repeatedAt now) (dbtRun K dd run w) =
        .ok rows' ∧
      rows'.map (FactDailyTickersQuantity.stampedAt now) =
        rows.map (FactDailyTickersQuantity.stampedAt now) := by
  rw [buildFactDailyTickersQuantity,
    show (dbtRun K dd run w).factDailyTickersQuantity = some rows from Sql.tableAfter_of_ok h]
  refine materialize_stampedAt (fun _ => rfl) (fun _ => rfl) h hmode (fun rows hrows => ?_)
    fun rows hrows => queryFactDailyTickersQuantity_repeatedAt K now hrows
  obtain ⟨dt, -, hquery⟩ := (queryFactDailyTickersQuantity_eq_ok_iff K).mp hrows
  exact nodup_factDailyTickersQuantity_id K hquery

/-- The account value of the second run reads prices that were merged twice and
finds the same rows. -/
theorem queryFactDailyAccountValue_repeatedAt (hdd : IsDateDim dd)
    (hkeys : (run.sources.tickerPriceChange.map sourceKey).Nodup)
    (hmode : Sql.isIncremental w.factTickerPrices run.fullRefresh = true)
    {isIncremental : Bool} {rows : List (FactDailyAccountValue Id)}
    (h : queryFactDailyAccountValue K dd run w isIncremental = .ok rows) :
    queryFactDailyAccountValue K dd (run.repeatedAt now) (dbtRun K dd run w) isIncremental =
      .ok (rows.map (FactDailyAccountValue.stampedAt now)) := by
  obtain ⟨dt, hdt, prices, hprices, hrows⟩ := (queryFactDailyAccountValue_eq_ok_iff K).mp h
  obtain ⟨prices', hprices', hsame⟩ :=
    buildFactTickerPrices_repeatedAt K now hdd hkeys hmode hprices
  exact (queryFactDailyAccountValue_eq_ok_iff K).mpr
    ⟨_, dimTickers_stampedAt K hdt, prices', hprices',
      factDailyAccountValue_stampedAt K hsame hrows⟩

theorem buildFactDailyAccountValue_repeatedAt (hdd : IsDateDim dd)
    (hkeys : (run.sources.tickerPriceChange.map sourceKey).Nodup)
    (hmode : run.IsIncremental w) {rows : List (FactDailyAccountValue Id)}
    (h : buildFactDailyAccountValue K dd run w = .ok rows) :
    ∃ rows', buildFactDailyAccountValue K dd (run.repeatedAt now) (dbtRun K dd run w) =
        .ok rows' ∧
      rows'.map (FactDailyAccountValue.stampedAt now) =
        rows.map (FactDailyAccountValue.stampedAt now) := by
  rw [buildFactDailyAccountValue,
    show (dbtRun K dd run w).factDailyAccountValue = some rows from Sql.tableAfter_of_ok h]
  refine materialize_stampedAt (fun _ => rfl) (fun _ => rfl) h hmode.factDailyAccountValue
    (fun rows hrows => ?_)
    fun rows hrows =>
      queryFactDailyAccountValue_repeatedAt K now hdd hkeys hmode.factTickerPrices hrows
  obtain ⟨dt, -, prices, -, hquery⟩ := (queryFactDailyAccountValue_eq_ok_iff K).mp hrows
  exact nodup_factDailyAccountValue_id K hquery

/-- Whatever the tables hold: a second incremental run on the same date
completes, finds the same rows of `fact_daily_account_value` and changes nothing
but `updated_timestamp`.

`hmode` says that all facts exist and no full refresh was asked for, and `h`
that the first run completes.  `hkeys` gives the price rows of the run distinct
ids; with two rows of one id the merge of the second run would find two source
rows for one stored row and abort.  The warehouse `w` need not be one that runs
have made. -/
theorem dbtRun_repeatedAt (hdd : IsDateDim dd)
    (hkeys : (run.sources.tickerPriceChange.map sourceKey).Nodup)
    (hmode : run.IsIncremental w) (h : Completes K dd run w) :
    Completes K dd (run.repeatedAt now) (dbtRun K dd run w) ∧
      (dbtRun K dd (run.repeatedAt now) (dbtRun K dd run w)).stampedAt now =
        (dbtRun K dd run w).stampedAt now ∧
      ∃ rows, queryFactDailyAccountValue K dd run w true = .ok rows ∧
        queryFactDailyAccountValue K dd (run.repeatedAt now) (dbtRun K dd run w) true =
          .ok (rows.map (FactDailyAccountValue.stampedAt now)) := by
  obtain ⟨dt, hdt⟩ := h.dimTickers
  obtain ⟨prices, hprices⟩ := h.factTickerPrices
  obtain ⟨quantities, hquantities⟩ := h.factDailyTickersQuantity
  obtain ⟨values, hvalues⟩ := h.factDailyAccountValue
  have hdt' : buildDimTickers K (run.repeatedAt now) =
      .ok (dt.map (DimTickers.stampedAt now)) := dimTickers_stampedAt K hdt
  obtain ⟨prices', hprices', hsamePrices⟩ :=
    buildFactTickerPrices_repeatedAt K now hdd hkeys hmode.factTickerPrices hprices
  obtain ⟨quantities', hquantities', hsameQuantities⟩ :=
    buildFactDailyTickersQuantity_repeatedAt K now hmode.factDailyTickersQuantity hquantities
  obtain ⟨values', hvalues', hsameValues⟩ :=
    buildFactDailyAccountValue_repeatedAt K now hdd hkeys hmode hvalues
  refine ⟨⟨⟨_, hdt'⟩, ⟨_, hprices'⟩, ⟨_, hquantities'⟩, ⟨_, hvalues'⟩⟩, ?_, ?_⟩
  · rw [dbtRun_of_ok K dd hdt' hprices' hquantities' hvalues',
      dbtRun_of_ok K dd hdt hprices hquantities hvalues]
    simp only [Warehouse.stampedAt, Option.map_some, hsamePrices, hsameQuantities,
      hsameValues, List.map_map]
    rfl
  · obtain ⟨rows, hrows, -⟩ := Sql.materialize_eq_ok_iff.mp hvalues
    rw [hmode.factDailyAccountValue] at hrows
    exact ⟨rows, hrows,
      queryFactDailyAccountValue_repeatedAt K now hdd hkeys hmode.factTickerPrices hrows⟩

end Run

/-- What the runs of 2024-05-01 and 2024-05-02 see. -/
def rerunDay (today : Date) : DbtRun where
  currentDate := today
  currentTimestamp := Sql.midnight today
  daysToIngest := daysToIngest
  sources :=
    { tickerPrices := [⟨some "BTCUSDT", Sql.midnight 19844⟩]
      tickerPriceChange :=
        [TickerPriceChange.ofPrices "BTCUSDT" 60000 50000 1714435200000 (Sql.midnight 19844),
          TickerPriceChange.ofPrices "BTCUSDT" 62000 52000 1714521600000
            (Sql.midnight 19845)]
      accountSnaphsot :=
        [⟨some "BTC", some 1, some 0, Sql.midnight 19844⟩,
          ⟨some "BTC", some 2, some 0, Sql.midnight 19845⟩] }
  nameMapping := [⟨some "Bitcoin", some "BTC"⟩]
  fullRefresh := false

/-- The warehouse the second of these days starts from. -/
def rerunWarehouse : Warehouse (List ℤ) :=
  dbtRun listing (dateDim 19844 19845) (rerunDay 19844) Warehouse.empty

theorem dbtRun_repeatedAt_rerunDay :
    Completes listing (dateDim 19844 19845) ((rerunDay 19845).repeatedAt 1714665600000000)
        (dbtRun listing (dateDim 19844 19845) (rerunDay 19845) rerunWarehouse) ∧
      (dbtRun listing (dateDim 19844 19845) ((rerunDay 19845).repeatedAt 1714665600000000)
        (dbtRun listing (dateDim 19844 19845) (rerunDay 19845) rerunWarehouse)).stampedAt
          1714665600000000 =
        (dbtRun listing (dateDim 19844 19845) (rerunDay 19845) rerunWarehouse).stampedAt
          1714665600000000 ∧
      ∃ rows, queryFactDailyAccountValue listing (dateDim 19844 19845) (rerunDay 19845)
          rerunWarehouse true = .ok rows ∧
        queryFactDailyAccountValue listing (dateDim 19844 19845)
          ((rerunDay 19845).repeatedAt 1714665600000000)
          (dbtRun listing (dateDim 19844 19845) (rerunDay 19845) rerunWarehouse) true =
          .ok (rows.map (FactDailyAccountValue.stampedAt 1714665600000000)) :=
  dbtRun_repeatedAt listing 1714665600000000 (isDateDim_dateDim _ _) (by decide +kernel)
    ⟨by decide +kernel, by decide +kernel, by decide +kernel⟩ (by decide +kernel)

end BinanceElt
