import BinanceElt.Models.CurrentPortfolio
import BinanceElt.Models.FactTickerPrices
import BinanceElt.Sql.Window

/-!
# `fact_daily_account_value`

The daily value of the account: for every ticker held on a day, the day's
average price times the quantity, summed over the tickers.  The prices are
read from `fact_ticker_prices` as the run left it.  In incremental mode the
snapshots are cut by their ingestion date and the prices by `open_time`, both
before the value is computed and before `lag`.

## Main results

* `mem_totalValue` — the value of a day is the rounded sum over its tickers.
* `mem_factDailyAccountValue` — the rows of the query.
* `exists_factDailyAccountValue_iff` — when it does not divide by zero.
* `nodup_factDailyAccountValue` — one row per day in the output of one run.
* `valueChanges_of_isPrevious` — the change columns of a row step from the previous
  row.
-/

namespace BinanceElt

open Sql (Date Timestamp QueryError)

/-! ## The query -/

/-- A row of `avg_daily_ticker_prices`. -/
structure AvgDailyTickerPrices (Id : Type) where
  symbolId : Id
  dateId : ℤ
  avgPrice : Option ℚ
deriving DecidableEq, Repr

/-- A row of `ticker_portflio_values`. -/
structure TickerPortflioValues where
  dateId : ℤ
  usdValue : Option ℚ
deriving DecidableEq, Repr

/-- A row of `total_value`. -/
@[ext] structure TotalValue where
  dateId : ℤ
  walletValue : Option ℚ
deriving DecidableEq, Repr

/-- A row of `total_value_change`. -/
structure TotalValueChange extends TotalValue where
  priceChange : ℚ
  percentageChange : ℚ
deriving DecidableEq, Repr

/-- A row of the table. -/
structure FactDailyAccountValue (Id : Type) extends TotalValueChange where
  id : Id
  updatedTimestamp : Timestamp
deriving DecidableEq, Repr

variable {Id : Type} [DecidableEq Id]

def avgDailyTickerPrices (prices : List (FactTickerPrices Id)) (ctx : RunContext)
    (isIncremental : Bool) : List (AvgDailyTickerPrices Id) :=
  let kept := prices.filter fun r =>
    ctx.ingests isIncremental (r.openTime.map Sql.extractDate)
  (Sql.groupBy (fun r => (r.symbolId, r.dateId)) kept).map fun g =>
    { symbolId := g.1.1
      dateId := g.1.2
      avgPrice := Sql.round 2 (Sql.avg (g.2.map fun r => r.price)) }

def tickerPortflioValues (avgs : List (AvgDailyTickerPrices Id))
    (portfolio : List (CurrentPortfolio Id)) : List TickerPortflioValues :=
  (Sql.innerJoin avgs portfolio fun f c =>
      decide (f.symbolId = c.symbolId) && decide (f.dateId = c.dateId)).map fun r =>
    { dateId := r.2.dateId, usdValue := Sql.mul r.1.avgPrice r.2.quantity }

omit [DecidableEq Id] in
def totalValue (values : List TickerPortflioValues) : List TotalValue :=
  (Sql.groupBy TickerPortflioValues.dateId values).map fun g =>
    { dateId := g.1
      walletValue := Sql.round 2 (Sql.sum (g.2.map TickerPortflioValues.usdValue)) }

/-- The common table expressions up to `total_value`.  The prices are averaged
per ticker and day, multiplied by the quantities and summed per day; a day on
which no ticker has both has no row. -/
def totalValueOf (src : List AccountSnaphsot) (dt : List (DimTickers Id))
    (dd : List DimDate) (prices : List (FactTickerPrices Id)) (ctx : RunContext)
    (isIncremental : Bool) : List TotalValue :=
  totalValue (tickerPortflioValues (avgDailyTickerPrices prices ctx isIncremental)
    (currentPortfolio src dt dd ctx isIncremental))

/-- The select list of `total_value_change`, for a row and its `lag` row.  It
fails where the value of the row before is zero. -/
def totalValueChangeRow (r : TotalValue × Option TotalValue) :
    Except QueryError TotalValueChange := do
  let lag := r.2.bind TotalValue.walletValue
  let percentage ← BinanceElt.percentageChange r.1.walletValue lag
  return { toTotalValue := r.1
           priceChange := valueChange r.1.walletValue lag
           percentageChange := percentage }

def totalValueChange (totals : List TotalValue) :
    Except QueryError (List TotalValueChange) :=
  (Sql.lagOver (fun _ => ()) TotalValue.dateId totals).mapM totalValueChangeRow

variable (K : SurrogateKey Id)

omit [DecidableEq Id] in
/-- The id of the table.  The value is one of the hashed fields, so that a day
that is valued anew has another id than before. -/
def valueId (dateId : ℤ) (walletValue : Option ℚ) : Id :=
  K.generateSurrogateKey [.int dateId, .ofOption .number walletValue]

omit [DecidableEq Id] in
/-- The select list of the final step. -/
def factDailyAccountValueRow (ctx : RunContext) (c : TotalValueChange) :
    FactDailyAccountValue Id where
  toTotalValueChange := c
  id := valueId K c.dateId c.walletValue
  updatedTimestamp := ctx.currentTimestamp

def factDailyAccountValue (src : List AccountSnaphsot) (dt : List (DimTickers Id))
    (dd : List DimDate) (prices : List (FactTickerPrices Id)) (ctx : RunContext)
    (isIncremental : Bool) : Except QueryError (List (FactDailyAccountValue Id)) := do
  let rows ← totalValueChange (totalValueOf src dt dd prices ctx isIncremental)
  return rows.map (factDailyAccountValueRow K ctx)

/-! ## The value of a day -/

section Totals

omit [DecidableEq Id] in
/-- A day has a value when some ticker has one, and it is the rounded sum. -/
theorem mem_totalValue {values : List TickerPortflioValues} {v : TotalValue} :
    v ∈ totalValue values ↔ (∃ x ∈ values, x.dateId = v.dateId) ∧
      v.walletValue = Sql.round 2 (Sql.sum
        ((values.filter fun x => x.dateId = v.dateId).map
          TickerPortflioValues.usdValue)) := by
  simp only [totalValue, List.mem_map]
  constructor
  · rintro ⟨g, hg, rfl⟩
    obtain ⟨hkey, hrows⟩ := Sql.mem_groupBy.mp hg
    exact ⟨hkey, by rw [hrows]⟩
  · rintro ⟨⟨x, hx, hdate⟩, hvalue⟩
    refine ⟨_, Sql.mk_mem_groupBy hx hdate, ?_⟩
    cases v
    simp_all

omit [DecidableEq Id] in
/-- Values have two decimals. -/
theorem isGrid_walletValue {values : List TickerPortflioValues} {v : TotalValue}
    (hv : v ∈ totalValue values) {x : ℚ} (hx : v.walletValue = some x) : Sql.IsGrid 2 x := by
  obtain ⟨-, hvalue⟩ := mem_totalValue.mp hv
  obtain ⟨y, -, rfl⟩ := Option.map_eq_some_iff.mp (hvalue.symm.trans hx)
  exact Sql.isGrid_roundTo 2 y

omit [DecidableEq Id] in
theorem nodup_totalValue {values : List TickerPortflioValues} :
    ((totalValue values).map TotalValue.dateId).Nodup := by
  rw [totalValue, List.map_map]
  exact Sql.nodup_groupBy

theorem totalValueChangeRow_eq_ok_iff {v : TotalValue} {u : Option TotalValue}
    {c : TotalValueChange} :
    totalValueChangeRow (v, u) = .ok c ↔ ∃ percentage,
      percentageChange v.walletValue (u.bind TotalValue.walletValue) = .ok percentage ∧
      c = ⟨v, valueChange v.walletValue (u.bind TotalValue.walletValue), percentage⟩ := by
  simp only [totalValueChangeRow, Sql.bind_eq_ok_iff, Sql.pure_eq_ok_iff]
  refine exists_congr fun percentage => and_congr_right fun _ => ?_
  exact ⟨fun h => h.symm, fun h => h.symm⟩

/-- The dates of one query are its `LAG` order, without ties. -/
private theorem nodup_lag_key {totals : List TotalValue}
    (h : (totals.map TotalValue.dateId).Nodup) :
    (totals.map fun v => ((), v.dateId)).Nodup :=
  Sql.nodup_map_of_imp h fun _ _ _ _ heq => (Prod.mk.inj heq).2

/-- The rows of `total_value_change`. -/
theorem mem_totalValueChange {totals : List TotalValue}
    (hnodup : (totals.map TotalValue.dateId).Nodup) {changes : List TotalValueChange}
    (h : totalValueChange totals = .ok changes) {c : TotalValueChange} :
    c ∈ changes ↔ ∃ v ∈ totals, ∃ u, Sql.IsPrevious TotalValue.dateId totals v u ∧
      totalValueChangeRow (v, u) = .ok c := by
  rw [Sql.mem_mapM_lagOver (nodup_lag_key hnodup) h]
  simp only [decide_true, List.filter_true]

/-- `total_value_change` succeeds when no row divides by zero. -/
theorem exists_totalValueChange_iff {totals : List TotalValue}
    (hnodup : (totals.map TotalValue.dateId).Nodup) :
    (∃ changes, totalValueChange totals = .ok changes) ↔
      ∀ v ∈ totals, ∀ u, Sql.IsPrevious TotalValue.dateId totals v u →
        ∃ c, totalValueChangeRow (v, u) = .ok c := by
  rw [totalValueChange, Sql.exists_mapM_lagOver_iff (nodup_lag_key hnodup)]
  simp only [decide_true, List.filter_true]

end Totals

/-! ## The rows -/

section Rows

variable {src : List AccountSnaphsot} {dt : List (DimTickers Id)}
  {dd : List DimDate} {prices : List (FactTickerPrices Id)} {ctx : RunContext}
  {isIncremental : Bool} {rows : List (FactDailyAccountValue Id)}

theorem nodup_totalValueOf :
    ((totalValueOf src dt dd prices ctx isIncremental).map TotalValue.dateId).Nodup :=
  nodup_totalValue

/-- Every day with a value is a date of `dim_date`. -/
theorem exists_dateId_of_mem_totalValueOf {v : TotalValue}
    (hv : v ∈ totalValueOf src dt dd prices ctx isIncremental) : ∃ d ∈ dd, d.id = v.dateId := by
  obtain ⟨⟨x, hx, hdate⟩, -⟩ := mem_totalValue.mp hv
  obtain ⟨⟨f, c⟩, hr, rfl⟩ := List.mem_map.mp hx
  obtain ⟨d, hd, hcd⟩ := exists_dateId_of_mem_currentPortfolio (Sql.mem_innerJoin.mp hr).2.1
  exact ⟨d, hd, hcd.trans hdate⟩

theorem mem_factDailyAccountValue
    (h : factDailyAccountValue K src dt dd prices ctx isIncremental = .ok rows)
    {r : FactDailyAccountValue Id} :
    r ∈ rows ↔ ∃ v ∈ totalValueOf src dt dd prices ctx isIncremental, ∃ u,
      Sql.IsPrevious TotalValue.dateId
        (totalValueOf src dt dd prices ctx isIncremental) v u ∧
      ∃ c, totalValueChangeRow (v, u) = .ok c ∧ r = factDailyAccountValueRow K ctx c := by
  obtain ⟨changes, hchange, rfl⟩ := Sql.select_eq_ok_iff.mp h
  rw [List.mem_map]
  constructor
  · rintro ⟨c, hc, rfl⟩
    obtain ⟨v, hv, u, hu, hrow⟩ := (mem_totalValueChange nodup_totalValueOf hchange).mp hc
    exact ⟨v, hv, u, hu, c, hrow, rfl⟩
  · rintro ⟨v, hv, u, hu, c, hrow, rfl⟩
    exact ⟨c, (mem_totalValueChange nodup_totalValueOf hchange).mpr
      ⟨v, hv, u, hu, hrow⟩, rfl⟩

/-- The query succeeds when no row divides by zero. -/
theorem exists_factDailyAccountValue_iff :
    (∃ rows, factDailyAccountValue K src dt dd prices ctx isIncremental = .ok rows) ↔
      ∀ v ∈ totalValueOf src dt dd prices ctx isIncremental, ∀ u,
        Sql.IsPrevious TotalValue.dateId
          (totalValueOf src dt dd prices ctx isIncremental) v u →
        ∃ c, totalValueChangeRow (v, u) = .ok c := by
  rw [← exists_totalValueChange_iff nodup_totalValueOf]
  exact Sql.exists_select_eq_ok_iff

/-- The days of the output are the valued days. -/
theorem map_factDailyAccountValue_perm
    (h : factDailyAccountValue K src dt dd prices ctx isIncremental = .ok rows) :
    (rows.map fun r => r.toTotalValue).Perm
      (totalValueOf src dt dd prices ctx isIncremental) := by
  obtain ⟨changes, hchange, rfl⟩ := Sql.select_eq_ok_iff.mp h
  rw [List.map_map]
  have hperm := Sql.map_mapM_lagOver_perm (g := TotalValueChange.toTotalValue) (k := id)
    hchange fun v u c hc => by
      obtain ⟨percentage, -, rfl⟩ := totalValueChangeRow_eq_ok_iff.mp hc
      rfl
  rwa [List.map_id] at hperm

/-- One row per day in the output of one run. -/
theorem nodup_factDailyAccountValue
    (h : factDailyAccountValue K src dt dd prices ctx isIncremental = .ok rows) :
    (rows.map fun r => r.dateId).Nodup := by
  have hperm := (map_factDailyAccountValue_perm K h).map TotalValue.dateId
  rw [List.map_map] at hperm
  exact hperm.nodup_iff.mpr nodup_totalValueOf

/-- The change columns of a row step from the previous row of the output. -/
theorem valueChanges_of_isPrevious
    (h : factDailyAccountValue K src dt dd prices ctx isIncremental = .ok rows)
    {r : FactDailyAccountValue Id} (hr : r ∈ rows) {u : Option (FactDailyAccountValue Id)}
    (hu : Sql.IsPrevious (fun s => s.dateId) rows r u) :
    r.priceChange = valueChange r.walletValue (u.bind fun s => s.walletValue) ∧
      percentageChange r.walletValue (u.bind fun s => s.walletValue) =
        .ok r.percentageChange := by
  obtain ⟨v, -, w, hw, c, hc, rfl⟩ := (mem_factDailyAccountValue K h).mp hr
  obtain ⟨percentage, hpercentage, rfl⟩ := totalValueChangeRow_eq_ok_iff.mp hc
  have hmap : Sql.IsPrevious TotalValue.dateId (rows.map fun s => s.toTotalValue) v
      (u.map fun s => s.toTotalValue) :=
    Sql.IsPrevious.map (f := fun s : FactDailyAccountValue Id => s.toTotalValue) hu
  have hprevious : (u.map fun s => s.toTotalValue) = w :=
    Sql.IsPrevious.unique
      (fun _ hb _ hc heq => List.inj_on_of_nodup_map nodup_totalValueOf hb hc heq)
      (hmap.congr fun _ => (map_factDailyAccountValue_perm K h).mem_iff) hw
  have hvalue : (u.bind fun s => s.walletValue) = w.bind TotalValue.walletValue := by
    rw [← hprevious]
    cases u <;> rfl
  rw [hvalue]
  exact ⟨rfl, hpercentage⟩

/-- Every row carries the id of its date and value. -/
theorem factDailyAccountValue_id
    (h : factDailyAccountValue K src dt dd prices ctx isIncremental = .ok rows)
    {r : FactDailyAccountValue Id} (hr : r ∈ rows) :
    r.id = valueId K r.dateId r.walletValue := by
  obtain ⟨_, -, _, -, c, -, rfl⟩ := (mem_factDailyAccountValue K h).mp hr
  rfl

omit [DecidableEq Id] in
@[simp] theorem valueId_inj {dateId dateId' : ℤ} {value value' : Option ℚ} :
    valueId K dateId value = valueId K dateId' value' ↔
      dateId = dateId' ∧ value = value' := by
  simp [valueId]

theorem nodup_factDailyAccountValue_id
    (h : factDailyAccountValue K src dt dd prices ctx isIncremental = .ok rows) :
    (rows.map fun r => r.id).Nodup := by
  refine Sql.nodup_map_of_imp (nodup_factDailyAccountValue K h) fun r hr r' hr' hid => ?_
  rw [factDailyAccountValue_id K h hr, factDailyAccountValue_id K h hr', valueId_inj] at hid
  exact hid.1

end Rows

end BinanceElt
