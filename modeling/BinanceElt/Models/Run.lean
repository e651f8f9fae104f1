import BinanceElt.Models.FactDailyAccountValue
import BinanceElt.Models.FactDailyTickersQuantity
import BinanceElt.Sql.Merge

/-!
# Runs of the project

`dbt run --exclude tag:static` builds the four models in dependency order:
`dim_tickers` as a table, the facts as incremental tables.  A model that fails
keeps its table, and the models that read it are skipped.  `dim_date` is tagged
`static`, so that every run finds the same one.

## Main results

* `queryFactTickerPrices_eq_ok_iff` and its siblings — what the query of a fact
  reads in a run.
* `pricesKeyed_warehouseAfter` and its siblings — stored ids are keys, after
  every run.
* `warehouseAfter_congr` — only the dates that occur matter of `dim_date`.
-/

namespace BinanceElt

open Sql (Date Timestamp QueryError)

/-! ## One run -/

/-- The tables a run maintains; `none` before the first build. -/
structure Warehouse (Id : Type) where
  dimTickers : Option (List (DimTickers Id))
  factTickerPrices : Option (List (FactTickerPrices Id))
  factDailyTickersQuantity : Option (List (FactDailyTickersQuantity Id))
  factDailyAccountValue : Option (List (FactDailyAccountValue Id))
deriving DecidableEq

/-- The warehouse before the first run. -/
def Warehouse.empty {Id : Type} : Warehouse Id := ⟨none, none, none, none⟩

/-- What one run reads: the sources as they are, the loaded seed, the clock and
the variables, and the `--full-refresh` flag.  All queries of a run see the
sources and the clock alike. -/
structure DbtRun extends RunContext where
  sources : Sources
  nameMapping : List NameMapping
  fullRefresh : Bool

variable {Id : Type} [DecidableEq Id] (K : SurrogateKey Id) (dd : List DimDate)

section Build

variable (run : DbtRun) (w : Warehouse Id)

omit [DecidableEq Id] in
def buildDimTickers : Except QueryError (List (DimTickers Id)) :=
  dimTickers K run.sources.tickerPrices run.nameMapping run.toRunContext

omit [DecidableEq Id] in
def queryFactTickerPrices (isIncremental : Bool) :
    Except QueryError (List (FactTickerPrices Id)) := do
  let dt ← buildDimTickers K run
  selectFactTickerPrices K run.sources.tickerPriceChange dt dd run.toRunContext isIncremental

def buildFactTickerPrices : Except QueryError (List (FactTickerPrices Id)) :=
  Sql.materialize (fun r => r.id) w.factTickerPrices run.fullRefresh
    (queryFactTickerPrices K dd run)

def queryFactDailyTickersQuantity (isIncremental : Bool) :
    Except QueryError (List (FactDailyTickersQuantity Id)) := do
  let dt ← buildDimTickers K run
  factDailyTickersQuantity K run.sources.accountSnaphsot dt dd run.toRunContext
    isIncremental

def buildFactDailyTickersQuantity :
    Except QueryError (List (FactDailyTickersQuantity Id)) :=
  Sql.materialize (fun r => r.id) w.factDailyTickersQuantity run.fullRefresh
    (queryFactDailyTickersQuantity K dd run)

/-- The prices are those of the table this run has just built, and the dimension
likewise; without either the model is skipped. -/
def queryFactDailyAccountValue (isIncremental : Bool) :
    Except QueryError (List (FactDailyAccountValue Id)) := do
  let dt ← buildDimTickers K run
  let prices ← buildFactTickerPrices K dd run w
  factDailyAccountValue K run.sources.accountSnaphsot dt dd prices run.toRunContext
    isIncremental

/-- The step `total_value` of that query. -/
def queryTotalValue (isIncremental : Bool) : Except QueryError (List TotalValue) := do
  let dt ← buildDimTickers K run
  let prices ← buildFactTickerPrices K dd run w
  return totalValueOf run.sources.accountSnaphsot dt dd prices run.toRunContext isIncremental

def buildFactDailyAccountValue :
    Except QueryError (List (FactDailyAccountValue Id)) :=
  Sql.materialize (fun r => r.id) w.factDailyAccountValue run.fullRefresh
    (queryFactDailyAccountValue K dd run w)

/-- The tables after a run.  `dim_tickers` is replaced when its query succeeds,
and a fact is replaced or merged into; a model that fails or is skipped keeps
the table it had. -/
def dbtRun : Warehouse Id where
  dimTickers := (buildDimTickers K run).toOption.or w.dimTickers
  factTickerPrices := Sql.tableAfter (fun r => r.id) w.factTickerPrices run.fullRefresh
    (queryFactTickerPrices K dd run)
  factDailyTickersQuantity := Sql.tableAfter (fun r => r.id) w.factDailyTickersQuantity
    run.fullRefresh (queryFactDailyTickersQuantity K dd run)
  factDailyAccountValue := Sql.tableAfter (fun r => r.id) w.factDailyAccountValue
    run.fullRefresh (queryFactDailyAccountValue K dd run w)

/-- The run completes: every model is built.  This is what `dbt run` reports
with the exit code 0. -/
structure Completes : Prop where
  dimTickers : ∃ rows, buildDimTickers K run = .ok rows
  factTickerPrices : ∃ rows, buildFactTickerPrices K dd run w = .ok rows
  factDailyTickersQuantity : ∃ rows, buildFactDailyTickersQuantity K dd run w = .ok rows
  factDailyAccountValue : ∃ rows, buildFactDailyAccountValue K dd run w = .ok rows

instance : Decidable (Completes K dd run w) :=
  decidable_of_iff
    ((∃ rows, buildDimTickers K run = .ok rows) ∧
      (∃ rows, buildFactTickerPrices K dd run w = .ok rows) ∧
      (∃ rows, buildFactDailyTickersQuantity K dd run w = .ok rows) ∧
      ∃ rows, buildFactDailyAccountValue K dd run w = .ok rows)
    ⟨fun ⟨h₁, h₂, h₃, h₄⟩ => ⟨h₁, h₂, h₃, h₄⟩, fun ⟨h₁, h₂, h₃, h₄⟩ => ⟨h₁, h₂, h₃, h₄⟩⟩

/-- A completed run leaves what its models have built. -/
theorem dbtRun_of_ok {dt : List (DimTickers Id)} {prices : List (FactTickerPrices Id)}
    {quantities : List (FactDailyTickersQuantity Id)}
    {values : List (FactDailyAccountValue Id)} {run : DbtRun} {w : Warehouse Id}
    (hdt : buildDimTickers K run = .ok dt)
    (hprices : buildFactTickerPrices K dd run w = .ok prices)
    (hquantities : buildFactDailyTickersQuantity K dd run w = .ok quantities)
    (hvalues : buildFactDailyAccountValue K dd run w = .ok values) :
    dbtRun K dd run w = ⟨some dt, some prices, some quantities, some values⟩ := by
  rw [dbtRun, hdt, Sql.tableAfter_of_ok hprices, Sql.tableAfter_of_ok hquantities,
    Sql.tableAfter_of_ok hvalues]
  rfl

end Build

/-! ## What a query of a run has read -/

section Query

variable {dd} {run : DbtRun} {w : Warehouse Id} {isIncremental : Bool}

omit [DecidableEq Id] in
theorem queryFactTickerPrices_eq_ok_iff {rows : List (FactTickerPrices Id)} :
    queryFactTickerPrices K dd run isIncremental = .ok rows ↔
      ∃ dt, buildDimTickers K run = .ok dt ∧
        (∀ tp ∈ readRows run.sources.tickerPriceChange dt dd run.toRunContext isIncremental,
          tp.InRange) ∧
        rows = factTickerPrices K run.sources.tickerPriceChange dt dd
          run.toRunContext isIncremental := by
  simp only [queryFactTickerPrices, Sql.bind_eq_ok_iff, selectFactTickerPrices_eq_ok_iff]

theorem queryFactDailyTickersQuantity_eq_ok_iff
    {rows : List (FactDailyTickersQuantity Id)} :
    queryFactDailyTickersQuantity K dd run isIncremental = .ok rows ↔
      ∃ dt, buildDimTickers K run = .ok dt ∧
        factDailyTickersQuantity K run.sources.accountSnaphsot dt dd
          run.toRunContext isIncremental = .ok rows :=
  Sql.bind_eq_ok_iff

theorem queryFactDailyAccountValue_eq_ok_iff {rows : List (FactDailyAccountValue Id)} :
    queryFactDailyAccountValue K dd run w isIncremental = .ok rows ↔
      ∃ dt, buildDimTickers K run = .ok dt ∧
        ∃ prices, buildFactTickerPrices K dd run w = .ok prices ∧
          factDailyAccountValue K run.sources.accountSnaphsot dt dd prices
            run.toRunContext isIncremental = .ok rows := by
  simp only [queryFactDailyAccountValue, Sql.bind_eq_ok_iff]

theorem queryTotalValue_eq_ok_iff {totals : List TotalValue} :
    queryTotalValue K dd run w isIncremental = .ok totals ↔
      ∃ dt, buildDimTickers K run = .ok dt ∧
        ∃ prices, buildFactTickerPrices K dd run w = .ok prices ∧
          totals = totalValueOf run.sources.accountSnaphsot dt dd prices run.toRunContext
            isIncremental := by
  simp only [queryTotalValue, Sql.bind_eq_ok_iff, Sql.pure_eq_ok_iff]
  exact exists_congr fun dt => and_congr_right fun _ => exists_congr fun prices =>
    and_congr_right fun _ => eq_comm

end Query

/-! ## Sequences of runs -/

/-- The warehouse after the first `n` of a sequence of runs. -/
def warehouseAfter (runs : ℕ → DbtRun) (n : ℕ) : Warehouse Id :=
  Sql.stateAfter (dbtRun K dd) runs Warehouse.empty n

theorem warehouseAfter_succ (runs : ℕ → DbtRun) (n : ℕ) :
    warehouseAfter K dd runs (n + 1) = dbtRun K dd (runs n) (warehouseAfter K dd runs n) := rfl

/-! ## Stored ids -/

section Keyed

/-- Every id of `fact_ticker_prices` is the key of the row it stands in. -/
def PricesKeyed (w : Warehouse Id) : Prop :=
  ∀ rows, w.factTickerPrices = some rows → ∀ r ∈ rows,
    r.toRecentDataWithId = recentDataWithId K r.toRecentData

/-- Every id of `fact_daily_tickers_quantity` is the key of its row. -/
def QuantityKeyed (w : Warehouse Id) : Prop :=
  ∀ rows, w.factDailyTickersQuantity = some rows → ∀ r ∈ rows,
    r.id = quantityId K r.symbolId r.dateId r.quantity

/-- Every id of `fact_daily_account_value` is the key of its row. -/
def ValueKeyed (w : Warehouse Id) : Prop :=
  ∀ rows, w.factDailyAccountValue = some rows → ∀ r ∈ rows,
    r.id = valueId K r.dateId r.walletValue

variable {dd} {runs : ℕ → DbtRun} {n : ℕ}

theorem pricesKeyed_warehouseAfter : PricesKeyed K (warehouseAfter K dd runs n) := by
  refine Sql.stateAfter_invariant (P := fun _ => PricesKeyed K)
    (fun _ hrows => by cases hrows) (fun m w hw => ?_) n
  refine Sql.forall_mem_tableAfter (fun source hquery r hr => ?_) hw
  obtain ⟨dt, -, -, rfl⟩ := (queryFactTickerPrices_eq_ok_iff K).mp hquery
  obtain ⟨tp, -, t, -, d, -, -, -, rfl⟩ := (mem_factTickerPrices K).mp hr
  rfl

theorem quantityKeyed_warehouseAfter : QuantityKeyed K (warehouseAfter K dd runs n) := by
  refine Sql.stateAfter_invariant (P := fun _ => QuantityKeyed K)
    (fun _ hrows => by cases hrows) (fun m w hw => ?_) n
  refine Sql.forall_mem_tableAfter (fun source hquery r hr => ?_) hw
  obtain ⟨dt, -, hrows⟩ := (queryFactDailyTickersQuantity_eq_ok_iff K).mp hquery
  exact factDailyTickersQuantity_id K hrows hr

theorem valueKeyed_warehouseAfter : ValueKeyed K (warehouseAfter K dd runs n) := by
  refine Sql.stateAfter_invariant (P := fun _ => ValueKeyed K)
    (fun _ hrows => by cases hrows) (fun m w hw => ?_) n
  refine Sql.forall_mem_tableAfter (fun source hquery r hr => ?_) hw
  obtain ⟨dt, -, prices, -, hrows⟩ := (queryFactDailyAccountValue_eq_ok_iff K).mp hquery
  exact factDailyAccountValue_id K hrows hr

end Keyed

/-! ## Runs and `dim_date` -/

/-- The ingestion dates of the sources. -/
def Sources.dates (s : Sources) : List Date :=
  s.tickerPriceChange.map (fun tp => Sql.extractDate tp.timestamp) ++
    s.accountSnaphsot.map fun a => Sql.extractDate a.timestamp

/-- Two date dimensions agree on the dates a run sees.  The generated dimension
has more than 13,000 rows, and a short one with the dates that occur gives the
same tables. -/
def SameDates (dd dd' : List DimDate) (run : DbtRun) : Prop :=
  ∀ date ∈ run.sources.dates,
    dd.filter (fun d => d.fullDate = date) = dd'.filter fun d => d.fullDate = date

section Congr

variable {dd dd' : List DimDate} {run : DbtRun} (h : SameDates dd dd' run)
include h

omit [DecidableEq Id] in
theorem queryFactTickerPrices_congr :
    queryFactTickerPrices K dd run = queryFactTickerPrices K dd' run := by
  funext isIncremental
  unfold queryFactTickerPrices
  refine congrArg _ (funext fun dt => ?_)
  exact selectFactTickerPrices_congr K fun _ htp => h _ (List.mem_append_left _
    (List.mem_map_of_mem htp))

theorem buildFactTickerPrices_congr (w : Warehouse Id) :
    buildFactTickerPrices K dd run w = buildFactTickerPrices K dd' run w := by
  simp only [buildFactTickerPrices, queryFactTickerPrices_congr K h]

private theorem currentPortfolio_run_congr (dt : List (DimTickers Id))
    (isIncremental : Bool) :
    currentPortfolio run.sources.accountSnaphsot dt dd run.toRunContext isIncremental =
      currentPortfolio run.sources.accountSnaphsot dt dd' run.toRunContext isIncremental :=
  currentPortfolio_congr fun _ ha => h _ (List.mem_append_right _ (List.mem_map_of_mem ha))

theorem queryFactDailyTickersQuantity_congr :
    queryFactDailyTickersQuantity K dd run = queryFactDailyTickersQuantity K dd' run := by
  funext isIncremental
  simp only [queryFactDailyTickersQuantity, factDailyTickersQuantity,
    currentPortfolio_run_congr h]

theorem buildFactDailyTickersQuantity_congr (w : Warehouse Id) :
    buildFactDailyTickersQuantity K dd run w = buildFactDailyTickersQuantity K dd' run w := by
  simp only [buildFactDailyTickersQuantity, queryFactDailyTickersQuantity_congr K h]

theorem queryFactDailyAccountValue_congr (w : Warehouse Id) :
    queryFactDailyAccountValue K dd run w = queryFactDailyAccountValue K dd' run w := by
  funext isIncremental
  simp only [queryFactDailyAccountValue, factDailyAccountValue, totalValueOf,
    currentPortfolio_run_congr h, buildFactTickerPrices_congr K h]

theorem buildFactDailyAccountValue_congr (w : Warehouse Id) :
    buildFactDailyAccountValue K dd run w = buildFactDailyAccountValue K dd' run w := by
  simp only [buildFactDailyAccountValue, queryFactDailyAccountValue_congr K h]

theorem queryTotalValue_congr (w : Warehouse Id) :
    queryTotalValue K dd run w = queryTotalValue K dd' run w := by
  funext isIncremental
  simp only [queryTotalValue, totalValueOf, currentPortfolio_run_congr h,
    buildFactTickerPrices_congr K h]

theorem completes_congr {w : Warehouse Id} :
    Completes K dd run w ↔ Completes K dd' run w := by
  have hprices := buildFactTickerPrices_congr K h w
  have hquantity := buildFactDailyTickersQuantity_congr K h w
  have hvalue := buildFactDailyAccountValue_congr K h w
  constructor
  · rintro ⟨h₁, h₂, h₃, h₄⟩
    rw [hprices] at h₂
    rw [hquantity] at h₃
    rw [hvalue] at h₄
    exact ⟨h₁, h₂, h₃, h₄⟩
  · rintro ⟨h₁, h₂, h₃, h₄⟩
    rw [← hprices] at h₂
    rw [← hquantity] at h₃
    rw [← hvalue] at h₄
    exact ⟨h₁, h₂, h₃, h₄⟩

/-- Of `dim_date`, a run reads the rows of the dates that occur. -/
theorem dbtRun_congr (w : Warehouse Id) : dbtRun K dd run w = dbtRun K dd' run w := by
  simp only [dbtRun, queryFactTickerPrices_congr K h, queryFactDailyTickersQuantity_congr K h,
    queryFactDailyAccountValue_congr K h]

end Congr

theorem warehouseAfter_congr {dd dd' : List DimDate} {runs : ℕ → DbtRun}
    (h : ∀ n, SameDates dd dd' (runs n)) (n : ℕ) :
    warehouseAfter K dd runs n = warehouseAfter K dd' runs n := by
  induction n with
  | zero => rfl
  | succ n ih => rw [warehouseAfter_succ, warehouseAfter_succ, ih, dbtRun_congr K (h n)]

/-- All ingestion dates lie between two dates. -/
def DbtRun.DatesIn (run : DbtRun) (start stop : Date) : Prop :=
  ∀ date ∈ run.sources.dates, start ≤ date ∧ date ≤ stop

instance (run : DbtRun) (start stop : Date) : Decidable (run.DatesIn start stop) :=
  inferInstanceAs (Decidable (∀ date ∈ run.sources.dates, start ≤ date ∧ date ≤ stop))

/-- A run over a few dates needs a few rows of `dim_date`.  A concrete run is
evaluated over these, and `dbtRun_congr` carries the result over to the
generated dimension. -/
theorem sameDates_dimDate {start stop : Date} {run : DbtRun} (h : run.DatesIn start stop)
    (hstart : firstDate ≤ start) (hstop : stop ≤ lastDate) :
    SameDates dimDate (dateDim start stop) run := by
  intro date hdate
  obtain ⟨hlo, hhi⟩ := h date hdate
  exact filter_dimDate hstart hlo hhi hstop

end BinanceElt
