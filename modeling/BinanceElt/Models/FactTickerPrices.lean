import BinanceElt.Models.DimDate
import BinanceElt.Models.DimTickers

/-!
# `fact_ticker_prices`

One row per row of `ticker_price_change` whose symbol is in `dim_tickers` and
whose ingestion date is in `dim_date`, with the prices rounded to two decimals.
In incremental mode only the rows ingested in the last `days_to_ingest` days
are read.

## Main results

* `mem_factTickerPrices` — the rows of the query.
* `factTickerPrices_key_inj` — which source rows share an id.
* `nodup_factTickerPrices_id`, `nodup_factTickerPrices_id_iff` — distinct ids from
  distinct source keys.
* `filter_factTickerPrices` — the rows of a ticker and a day.
-/

namespace BinanceElt

open Sql (Date Timestamp QueryError)

/-! ## The query -/

/-- A row of `recent_data`. -/
structure RecentData (Id : Type) where
  symbolId : Id
  dateId : ℤ
  price : Option ℚ
  priceChange : Option ℚ
  priceChangePercent : Option ℚ
  weightedAvgPrice : Option ℚ
  prevClosePrice : Option ℚ
  lastPrice : Option ℚ
  lastQty : Option ℚ
  bidPrice : Option ℚ
  bidQty : Option ℚ
  askPrice : Option ℚ
  askQty : Option ℚ
  openPrice : Option ℚ
  highPrice : Option ℚ
  lowPrice : Option ℚ
  volume : Option ℚ
  firstId : Option ℤ
  lastId : Option ℤ
  count : Option ℤ
  openTime : Option Timestamp
  closeTime : Option Timestamp
deriving DecidableEq, Repr

/-- `round((tp.highPrice + tp.lowPrice) / 2, 2)`.  The result is null as soon as
one of the two prices is. -/
def midPrice (tp : TickerPriceChange) : Option ℚ :=
  Sql.round 2 ((Sql.add tp.highPrice tp.lowPrice).map (· / 2))

variable {Id : Type}

/-- The select list of `recent_data`. -/
def recentDataRow (tp : TickerPriceChange) (dt : DimTickers Id) (dd : DimDate) :
    RecentData Id where
  symbolId := dt.id
  dateId := dd.id
  price := midPrice tp
  priceChange := Sql.round 2 tp.priceChange
  priceChangePercent := Sql.round 2 tp.priceChangePercent
  weightedAvgPrice := Sql.round 2 tp.weightedAvgPrice
  prevClosePrice := Sql.round 2 tp.prevClosePrice
  lastPrice := Sql.round 2 tp.lastPrice
  lastQty := Sql.round 2 tp.lastQty
  bidPrice := Sql.round 2 tp.bidPrice
  bidQty := Sql.round 2 tp.bidQty
  askPrice := Sql.round 2 tp.askPrice
  askQty := Sql.round 2 tp.askQty
  openPrice := Sql.round 2 tp.openPrice
  highPrice := Sql.round 2 tp.highPrice
  lowPrice := Sql.round 2 tp.lowPrice
  volume := Sql.round 2 tp.volume
  firstId := tp.firstId
  lastId := tp.lastId
  count := tp.count
  openTime := tp.openTime.map Sql.timestampMillis
  closeTime := tp.closeTime.map Sql.timestampMillis

def recentData (src : List TickerPriceChange) (dt : List (DimTickers Id))
    (dd : List DimDate) (ctx : RunContext) (isIncremental : Bool) :
    List (RecentData Id) :=
  let joined := Sql.innerJoin
    (Sql.innerJoin src dt fun tp t => Sql.holds (Sql.eq tp.symbol t.symbol)) dd
    fun r d => decide (d.fullDate = Sql.extractDate r.1.timestamp)
  (joined.filter fun r =>
      ctx.ingests isIncremental (some (Sql.extractDate r.1.1.timestamp))).map
    fun r => recentDataRow r.1.1 r.1.2 r.2

/-- A row of `recent_data_with_id`. -/
structure RecentDataWithId (Id : Type) extends RecentData Id where
  id : Id
deriving DecidableEq, Repr

/-- A row of the table. -/
structure FactTickerPrices (Id : Type) extends RecentDataWithId Id where
  updatedTimestamp : Timestamp
deriving DecidableEq, Repr

variable (K : SurrogateKey Id)

def recentDataWithId (r : RecentData Id) : RecentDataWithId Id where
  toRecentData := r
  id := K.generateSurrogateKey
    [.id r.symbolId, .int r.dateId, .ofOption .number r.price,
      .ofOption .timestamp r.openTime]

def factTickerPrices (src : List TickerPriceChange) (dt : List (DimTickers Id))
    (dd : List DimDate) (ctx : RunContext) (isIncremental : Bool) :
    List (FactTickerPrices Id) :=
  (recentData src dt dd ctx isIncremental).map fun r =>
    { toRecentDataWithId := recentDataWithId K r
      updatedTimestamp := ctx.currentTimestamp }

/-! ## The statement -/

/-- A source row the query reads: it is in the window and joins a ticker and a
date.  How many tickers it joins does not matter here. -/
def isRead (dt : List (DimTickers Id)) (dd : List DimDate) (ctx : RunContext)
    (isIncremental : Bool) (tp : TickerPriceChange) : Bool :=
  (dt.any fun t => Sql.holds (Sql.eq tp.symbol t.symbol)) &&
    ((dd.any fun d => decide (d.fullDate = Sql.extractDate tp.timestamp)) &&
      ctx.ingests isIncremental (some (Sql.extractDate tp.timestamp)))

def readRows (src : List TickerPriceChange) (dt : List (DimTickers Id)) (dd : List DimDate)
    (ctx : RunContext) (isIncremental : Bool) : List TickerPriceChange :=
  src.filter (isRead dt dd ctx isIncremental)

/-- `TIMESTAMP_MILLIS` has a value at `openTime` and at `closeTime`. -/
def TickerPriceChange.InRange (tp : TickerPriceChange) : Prop :=
  (∀ ms ∈ tp.openTime, Sql.IsTimestamp (Sql.timestampMillis ms)) ∧
    ∀ ms ∈ tp.closeTime, Sql.IsTimestamp (Sql.timestampMillis ms)

instance (tp : TickerPriceChange) : Decidable tp.InRange := instDecidableAnd

/-- The statement that dbt sends.  `TIMESTAMP_MILLIS` is evaluated on the rows
that are left after the joins and the filter, and one of them outside its range
aborts the whole statement; nothing is written then. -/
def selectFactTickerPrices (src : List TickerPriceChange) (dt : List (DimTickers Id))
    (dd : List DimDate) (ctx : RunContext) (isIncremental : Bool) :
    Except QueryError (List (FactTickerPrices Id)) :=
  if ∀ tp ∈ readRows src dt dd ctx isIncremental, tp.InRange then
    .ok (factTickerPrices K src dt dd ctx isIncremental)
  else .error .timestampOutOfRange

theorem selectFactTickerPrices_eq_ok_iff {src : List TickerPriceChange}
    {dt : List (DimTickers Id)} {dd : List DimDate} {ctx : RunContext} {isIncremental : Bool}
    {rows : List (FactTickerPrices Id)} :
    selectFactTickerPrices K src dt dd ctx isIncremental = .ok rows ↔
      (∀ tp ∈ readRows src dt dd ctx isIncremental, tp.InRange) ∧
        rows = factTickerPrices K src dt dd ctx isIncremental := by
  unfold selectFactTickerPrices
  split
  · next hrange => exact ⟨fun h => ⟨hrange, (Except.ok.inj h).symm⟩, fun h => congrArg _ h.2.symm⟩
  · next hrange => exact ⟨nofun, fun h => absurd h.1 hrange⟩

/-! ## The rows -/

section Rows

variable {src : List TickerPriceChange} {dt : List (DimTickers Id)}
  {dd : List DimDate} {ctx : RunContext} {isIncremental : Bool}

/-- The row a source row contributes when it joins with `t` and `d`. -/
def factTickerPricesRow (ctx : RunContext) (tp : TickerPriceChange)
    (t : DimTickers Id) (d : DimDate) : FactTickerPrices Id where
  toRecentDataWithId := recentDataWithId K (recentDataRow tp t d)
  updatedTimestamp := ctx.currentTimestamp

/-- `tp` joins with the ticker `t` and the date `d`. -/
structure Joins (tp : TickerPriceChange) (t : DimTickers Id) (d : DimDate) : Prop where
  symbol : ∃ s, tp.symbol = some s ∧ t.symbol = some s
  date : d.fullDate = Sql.extractDate tp.timestamp

theorem mem_factTickerPrices {r : FactTickerPrices Id} :
    r ∈ factTickerPrices K src dt dd ctx isIncremental ↔
      ∃ tp ∈ src, ∃ t ∈ dt, ∃ d ∈ dd, Joins tp t d ∧
        ctx.ingests isIncremental (some (Sql.extractDate tp.timestamp)) = true ∧
        r = factTickerPricesRow K ctx tp t d := by
  simp only [factTickerPrices, recentData, List.map_map, List.mem_map,
    List.mem_filter, Sql.mem_innerJoin, Sql.holds_eq, decide_eq_true_eq]
  constructor
  · rintro ⟨⟨⟨tp, t⟩, d⟩, ⟨⟨⟨htp, ht, hsym⟩, hd, hdate⟩, hin⟩, rfl⟩
    exact ⟨tp, htp, t, ht, d, hd, ⟨hsym, hdate⟩, hin, rfl⟩
  · rintro ⟨tp, htp, t, ht, d, hd, hjoin, hin, rfl⟩
    exact ⟨((tp, t), d), ⟨⟨⟨htp, ht, hjoin.symbol⟩, hd, hjoin.date⟩, hin⟩, rfl⟩

/-- Of `dim_date`, the rows of the ingestion dates matter. -/
theorem factTickerPrices_congr {dd' : List DimDate}
    (h : ∀ tp ∈ src, dd.filter (fun d => d.fullDate = Sql.extractDate tp.timestamp) =
      dd'.filter fun d => d.fullDate = Sql.extractDate tp.timestamp) :
    factTickerPrices K src dt dd ctx isIncremental =
      factTickerPrices K src dt dd' ctx isIncremental := by
  rw [factTickerPrices, recentData, Sql.innerJoin_congr fun r hr =>
    h r.1 (Sql.mem_innerJoin.mp hr).1]
  rfl

theorem readRows_congr {dd' : List DimDate}
    (h : ∀ tp ∈ src, dd.filter (fun d => d.fullDate = Sql.extractDate tp.timestamp) =
      dd'.filter fun d => d.fullDate = Sql.extractDate tp.timestamp) :
    readRows src dt dd ctx isIncremental = readRows src dt dd' ctx isIncremental := by
  have hany : ∀ (dd : List DimDate) (date : Date),
      (dd.any fun d => decide (d.fullDate = date)) = (dd.filter fun d => d.fullDate = date).any
        fun _ => true := by
    intro dd date
    rw [List.any_filter]
    simp
  refine List.filter_congr fun tp htp => ?_
  rw [isRead, isRead, hany, hany dd', h tp htp]

theorem selectFactTickerPrices_congr {dd' : List DimDate}
    (h : ∀ tp ∈ src, dd.filter (fun d => d.fullDate = Sql.extractDate tp.timestamp) =
      dd'.filter fun d => d.fullDate = Sql.extractDate tp.timestamp) :
    selectFactTickerPrices K src dt dd ctx isIncremental =
      selectFactTickerPrices K src dt dd' ctx isIncremental := by
  rw [selectFactTickerPrices, selectFactTickerPrices, readRows_congr h,
    factTickerPrices_congr K h]

/-! ## Ids -/

/-- What tells the rows of a source table apart: symbol, ingestion date, rounded
mid price and `openTime`.  These are the fields of the id, with the symbol for
the ticker; two rows that agree in them have one id. -/
def sourceKey (tp : TickerPriceChange) : Option String × Date × Option ℚ × Option ℤ :=
  (tp.symbol, Sql.extractDate tp.timestamp, midPrice tp, tp.openTime)

/-- Rows with the same id come from the same ticker and date, and from source
rows with the same key.  The symbol and the date are known from the ids of the
ticker and the day, which `hdt` and `hdd` make unique; the mid price and the
open time are hashed as they are. -/
theorem factTickerPrices_key_inj (hdt : (dt.map DimTickers.id).Nodup)
    (hdd : (dd.map DimDate.id).Nodup) {tp tp' : TickerPriceChange} {t t' : DimTickers Id}
    {d d' : DimDate} (ht : t ∈ dt) (ht' : t' ∈ dt) (hd : d ∈ dd) (hd' : d' ∈ dd)
    (hjoin : Joins tp t d) (hjoin' : Joins tp' t' d')
    (hid : (recentDataWithId K (recentDataRow tp t d)).id =
      (recentDataWithId K (recentDataRow tp' t' d')).id) :
    t = t' ∧ d = d' ∧ sourceKey tp = sourceKey tp' := by
  simp only [recentDataWithId, recentDataRow,
    SurrogateKey.eq_iff, List.cons.injEq, KeyField.id.injEq, KeyField.int.injEq,
    KeyField.ofOption_number_inj, KeyField.ofOption_timestamp_inj, and_true] at hid
  obtain ⟨hsym, hdate, hprice, hopen⟩ := hid
  have htt : t = t' := List.inj_on_of_nodup_map hdt ht ht' hsym
  have hdd' : d = d' := List.inj_on_of_nodup_map hdd hd hd' hdate
  refine ⟨htt, hdd', ?_⟩
  obtain ⟨s, hs, hts⟩ := hjoin.symbol
  obtain ⟨s', hs', hts'⟩ := hjoin'.symbol
  have hss : s = s' := by
    rw [htt, hts'] at hts
    exact (Option.some.inj hts).symm
  have hopen' : tp.openTime = tp'.openTime :=
    Option.map_injective Sql.timestampMillis_injective hopen
  simp only [sourceKey, hs, hs', hss, ← hjoin.date, ← hjoin'.date, hdd', hprice, hopen']

/-- Distinct source keys give distinct ids. -/
theorem nodup_factTickerPrices_id (hsrc : (src.map sourceKey).Nodup)
    (hdt : (dt.map DimTickers.id).Nodup) (hdd : (dd.map DimDate.id).Nodup) :
    ((factTickerPrices K src dt dd ctx isIncremental).map fun r => r.id).Nodup := by
  rw [factTickerPrices, recentData, List.map_map, List.map_map]
  refine Sql.nodup_map_of_imp (f := id) ?_ fun p hp q hq hid => ?_
  · rw [List.map_id]
    exact (Sql.nodup_innerJoin (Sql.nodup_innerJoin (List.Nodup.of_map _ hsrc)
      (List.Nodup.of_map _ hdt)) (List.Nodup.of_map _ hdd)).filter _
  · obtain ⟨⟨tp, t⟩, d⟩ := p
    obtain ⟨⟨tp', t'⟩, d'⟩ := q
    simp only [List.mem_filter, Sql.mem_innerJoin, Sql.holds_eq,
      decide_eq_true_eq] at hp hq
    obtain ⟨⟨⟨htp, ht, hsym⟩, hd, hdate⟩, -⟩ := hp
    obtain ⟨⟨⟨htp', ht', hsym'⟩, hd', hdate'⟩, -⟩ := hq
    obtain ⟨rfl, rfl, hkey⟩ := factTickerPrices_key_inj K hdt hdd ht ht' hd hd'
      ⟨hsym, hdate⟩ ⟨hsym', hdate'⟩ hid
    rw [List.inj_on_of_nodup_map hsrc htp htp' hkey]

theorem isRead_iff {tp : TickerPriceChange} :
    isRead dt dd ctx isIncremental tp = true ↔ (∃ t ∈ dt, ∃ d ∈ dd, Joins tp t d) ∧
      ctx.ingests isIncremental (some (Sql.extractDate tp.timestamp)) = true := by
  simp only [isRead, Bool.and_eq_true, List.any_eq_true, Sql.holds_eq, decide_eq_true_eq]
  constructor
  · rintro ⟨⟨t, ht, hsymbol⟩, ⟨d, hd, hdate⟩, hin⟩
    exact ⟨⟨t, ht, d, hd, hsymbol, hdate⟩, hin⟩
  · rintro ⟨⟨t, ht, d, hd, hjoin⟩, hin⟩
    exact ⟨⟨t, ht, hjoin.symbol⟩, ⟨d, hd, hjoin.date⟩, hin⟩

theorem mem_readRows {tp : TickerPriceChange} :
    tp ∈ readRows src dt dd ctx isIncremental ↔ tp ∈ src ∧
      (∃ t ∈ dt, ∃ d ∈ dd, Joins tp t d) ∧
        ctx.ingests isIncremental (some (Sql.extractDate tp.timestamp)) = true := by
  rw [readRows, List.mem_filter, isRead_iff]

/-- The query maps one source row at a time. -/
theorem factTickerPrices_eq_flatMap :
    factTickerPrices K src dt dd ctx isIncremental =
      src.flatMap fun tp => factTickerPrices K [tp] dt dd ctx isIncremental := by
  simp only [factTickerPrices, recentData, Sql.innerJoin, List.flatMap_assoc,
    List.filter_flatMap, List.map_flatMap, List.flatMap_singleton]

/-- Source rows with the same key contribute rows with the same id. -/
theorem sourceKey_congr {tp tp' : TickerPriceChange} (hkey : sourceKey tp = sourceKey tp')
    {t : DimTickers Id} {d : DimDate} (hjoin : Joins tp t d) :
    Joins tp' t d ∧ (recentDataWithId K (recentDataRow tp t d)).id =
      (recentDataWithId K (recentDataRow tp' t d)).id := by
  simp only [sourceKey, Prod.mk.injEq] at hkey
  obtain ⟨hsymbol, hdate, hprice, hopen⟩ := hkey
  refine ⟨⟨hsymbol ▸ hjoin.symbol, hdate ▸ hjoin.date⟩, ?_⟩
  simp only [recentDataWithId, recentDataRow, hprice, hopen]

/-- Two source rows contribute a common id exactly when both are read and have
the same key. -/
private theorem disjoint_ids_iff (hdt : (dt.map DimTickers.id).Nodup)
    (hdd : (dd.map DimDate.id).Nodup) (tp tp' : TickerPriceChange) :
    ((factTickerPrices K [tp] dt dd ctx isIncremental).map fun r => r.id).Disjoint
        ((factTickerPrices K [tp'] dt dd ctx isIncremental).map fun r => r.id) ↔
      (isRead dt dd ctx isIncremental tp = true → isRead dt dd ctx isIncremental tp' = true →
        sourceKey tp ≠ sourceKey tp') := by
  have hids : ∀ tp i, i ∈ (factTickerPrices K [tp] dt dd ctx isIncremental).map (fun r => r.id) ↔
      ∃ t ∈ dt, ∃ d ∈ dd, Joins tp t d ∧
        ctx.ingests isIncremental (some (Sql.extractDate tp.timestamp)) = true ∧
        (recentDataWithId K (recentDataRow tp t d)).id = i := by
    intro tp i
    simp only [List.mem_map, mem_factTickerPrices, List.mem_singleton, exists_eq_left]
    constructor
    · rintro ⟨r, ⟨t, ht, d, hd, hjoin, hin, rfl⟩, rfl⟩
      exact ⟨t, ht, d, hd, hjoin, hin, rfl⟩
    · rintro ⟨t, ht, d, hd, hjoin, hin, rfl⟩
      exact ⟨_, ⟨t, ht, d, hd, hjoin, hin, rfl⟩, rfl⟩
  simp only [isRead_iff]
  constructor
  · rintro hdisjoint ⟨⟨t, ht, d, hd, hjoin⟩, hin⟩ ⟨-, hin'⟩ hkey
    obtain ⟨hjoin', hid⟩ := sourceKey_congr K hkey hjoin
    exact hdisjoint ((hids tp _).mpr ⟨t, ht, d, hd, hjoin, hin, hid⟩)
      ((hids tp' _).mpr ⟨t, ht, d, hd, hjoin', hin', rfl⟩)
  · intro hkeys i hi hi'
    obtain ⟨t, ht, d, hd, hjoin, hin, hid⟩ := (hids tp i).mp hi
    obtain ⟨t', ht', d', hd', hjoin', hin', hid'⟩ := (hids tp' i).mp hi'
    obtain ⟨-, -, hkey⟩ := factTickerPrices_key_inj K hdt hdd ht ht' hd hd' hjoin hjoin'
      (hid.trans hid'.symm)
    exact hkeys ⟨⟨t, ht, d, hd, hjoin⟩, hin⟩ ⟨⟨t', ht', d', hd', hjoin'⟩, hin'⟩ hkey

/-- The ids are distinct exactly when the source keys of the rows that are read
are. -/
theorem nodup_factTickerPrices_id_iff (hdt : (dt.map DimTickers.id).Nodup)
    (hdd : (dd.map DimDate.id).Nodup) :
    ((factTickerPrices K src dt dd ctx isIncremental).map fun r => r.id).Nodup ↔
      ((readRows src dt dd ctx isIncremental).map sourceKey).Nodup := by
  have hsingle : ∀ tp ∈ src, ((factTickerPrices K [tp] dt dd ctx isIncremental).map
      fun r => r.id).Nodup :=
    fun tp _ => nodup_factTickerPrices_id K (List.nodup_singleton _) hdt hdd
  rw [factTickerPrices_eq_flatMap, List.map_flatMap, List.nodup_flatMap, and_iff_right hsingle,
    List.Nodup, List.pairwise_map, readRows, List.pairwise_filter]
  exact List.Pairwise.iff (disjoint_ids_iff K hdt hdd)

/-! ## The rows of a ticker and a day -/

/-- The price rows of a symbol on a day. -/
def observations (src : List TickerPriceChange) (symbol : Option String) (date : Date) :
    List TickerPriceChange :=
  src.filter fun tp => Sql.holds (Sql.eq tp.symbol symbol) &&
    decide (date = Sql.extractDate tp.timestamp)

/-- A full refresh stores one row for each price row of a ticker and a day.
There is no window, and `hdt` and `hdd` make the join find one ticker and one
date. -/
theorem filter_factTickerPrices [DecidableEq Id] (hdt : (dt.map DimTickers.id).Nodup)
    (hdd : IsDateDim dd) {t : DimTickers Id} {d : DimDate} (ht : t ∈ dt) (hd : d ∈ dd) :
    ((factTickerPrices K src dt dd ctx false).filter fun r =>
        decide ((r.symbolId, r.dateId) = (t.id, d.id))) =
      (observations src t.symbol d.fullDate).map fun tp => factTickerPricesRow K ctx tp t d := by
  have hisT : ∀ t' ∈ dt, decide (t'.id = t.id) = true ↔ t' = t := Sql.decide_key_eq_iff hdt ht
  have hisD : ∀ d' ∈ dd, decide (d'.id = d.id) = true ↔ d' = d :=
    Sql.decide_key_eq_iff hdd.nodup_id hd
  let joined := Sql.innerJoin
    (Sql.innerJoin src dt fun tp t => Sql.holds (Sql.eq tp.symbol t.symbol)) dd
    fun r d => decide (d.fullDate = Sql.extractDate r.1.timestamp)
  let kept := joined.filter fun r =>
    decide (r.2.id = d.id) && (decide (r.1.2.id = t.id) && true)
  have hkept : kept.map (fun r => r.1.1) = observations src t.symbol d.fullDate := by
    rw [Sql.map_fst_fst_filter_innerJoin (List.Nodup.of_map _ hdt) ht hisT
      (List.Nodup.of_map _ hdd.nodup) hd hisD fun _ => true]
    simp only [Bool.and_true]
    rfl
  calc ((factTickerPrices K src dt dd ctx false).filter fun r =>
        decide ((r.symbolId, r.dateId) = (t.id, d.id)))
      = kept.map fun r => factTickerPricesRow K ctx r.1.1 r.1.2 r.2 := by
        rw [factTickerPrices, recentData, List.map_map, List.filter_map]
        simp only [RunContext.ingests_full, List.filter_true]
        refine congrArg _ (List.filter_congr fun r _ => ?_)
        rw [Bool.eq_iff_iff]
        simp [recentDataWithId, recentDataRow, and_comm]
    _ = kept.map fun r => factTickerPricesRow K ctx r.1.1 t d := by
        refine List.map_congr_left fun r hr => ?_
        obtain ⟨hr, hkey⟩ := List.mem_filter.mp hr
        obtain ⟨hr, hrd, -⟩ := Sql.mem_innerJoin.mp hr
        obtain ⟨-, hrt, -⟩ := Sql.mem_innerJoin.mp hr
        simp only [Bool.and_true, Bool.and_eq_true] at hkey
        rw [(hisT _ hrt).mp hkey.2, (hisD _ hrd).mp hkey.1]
    _ = (observations src t.symbol d.fullDate).map fun tp =>
        factTickerPricesRow K ctx tp t d := by
        rw [← hkept, List.map_map]
        rfl

end Rows

end BinanceElt
