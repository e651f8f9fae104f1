import BinanceElt.Models.Run

/-!
# Runs of `fact_ticker_prices` on its own

What a sequence of runs leaves in `fact_ticker_prices` when every run brings
its own source table, dimensions and clock.  The runs of the project are the
ones whose dimension is built from the sources of the run.

## Main results

* `mem_pricesAfter` — a stored row was contributed by a source row of one of the
  runs.
* `factTickerPrices_warehouseAfter` — the runs of the project.
-/

namespace BinanceElt

open Sql (Date Timestamp QueryError)

/-- What one run of the model reads.  The dimensions are given here, whatever
builds made them, so that the results cover runs of the one model on its own as
well. -/
structure PriceRun (Id : Type) extends RunContext where
  tickerPriceChange : List TickerPriceChange
  dimTickers : List (DimTickers Id)
  dimDate : List DimDate
  fullRefresh : Bool

variable {Id : Type} [DecidableEq Id] (K : SurrogateKey Id)

section Runs

variable (run : PriceRun Id)

omit [DecidableEq Id] in
/-- What the statement of the run gives: its rows, or the error that aborts
it. -/
def PriceRun.query (isIncremental : Bool) : Except QueryError (List (FactTickerPrices Id)) :=
  selectFactTickerPrices K run.tickerPriceChange run.dimTickers run.dimDate run.toRunContext
    isIncremental

/-- The table after the run; one that fails leaves it as it was.  A run fails
when the statement is aborted, by `TIMESTAMP_MILLIS`, or when the merge finds
two rows for a stored one. -/
def PriceRun.tableAfter (target : Option (List (FactTickerPrices Id))) :
    Option (List (FactTickerPrices Id)) :=
  Sql.tableAfter (fun r => r.id) target run.fullRefresh (run.query K)

/-- The table after the first `n` of a sequence of runs. -/
def pricesAfter (runs : ℕ → PriceRun Id) (n : ℕ) : Option (List (FactTickerPrices Id)) :=
  Sql.stateAfter (PriceRun.tableAfter K) runs none n

theorem pricesAfter_succ (runs : ℕ → PriceRun Id) (n : ℕ) :
    pricesAfter K runs (n + 1) = (runs n).tableAfter K (pricesAfter K runs n) := rfl

end Runs

omit [DecidableEq Id] in
/-- The row is what a source row contributes to the run. -/
def PriceRun.Contributes (run : PriceRun Id) (r : FactTickerPrices Id) : Prop :=
  ∃ tp ∈ run.tickerPriceChange, ∃ t ∈ run.dimTickers, ∃ d ∈ run.dimDate,
    Joins tp t d ∧ r = factTickerPricesRow K run.toRunContext tp t d

omit [DecidableEq Id] in
theorem PriceRun.contributes_of_mem_query {run : PriceRun Id} {isIncremental : Bool}
    {rows : List (FactTickerPrices Id)} (h : run.query K isIncremental = .ok rows)
    {r : FactTickerPrices Id} (hr : r ∈ rows) : run.Contributes K r := by
  obtain ⟨-, rfl⟩ := (selectFactTickerPrices_eq_ok_iff K).mp h
  obtain ⟨tp, htp, t, ht, d, hd, hjoin, -, hrow⟩ := (mem_factTickerPrices K).mp hr
  exact ⟨tp, htp, t, ht, d, hd, hjoin, hrow⟩

/-- Every stored row was contributed to one of the runs. -/
theorem mem_pricesAfter (runs : ℕ → PriceRun Id) (n : ℕ) :
    ∀ prices, pricesAfter K runs n = some prices → ∀ r ∈ prices,
      ∃ m < n, (runs m).Contributes K r := by
  induction n with
  | zero => exact fun prices hprices => by cases hprices
  | succ n ih =>
      refine Sql.forall_mem_tableAfter (fun source hsource r hr => ?_)
        fun stored hstored r hr => ?_
      · exact ⟨n, n.lt_succ_self, PriceRun.contributes_of_mem_query K hsource hr⟩
      · obtain ⟨m, hm, hrow⟩ := ih stored hstored r hr
        exact ⟨m, hm.trans n.lt_succ_self, hrow⟩

/-! ## The runs of the project -/

omit [DecidableEq Id] in
/-- The run of the model in a run of the project that has built `dt`. -/
def DbtRun.priceRun (run : DbtRun) (dt : List (DimTickers Id)) (dd : List DimDate) :
    PriceRun Id where
  toRunContext := run.toRunContext
  tickerPriceChange := run.sources.tickerPriceChange
  dimTickers := dt
  dimDate := dd
  fullRefresh := run.fullRefresh

/-- Where every run builds its dimension, the project runs the model on it. -/
theorem factTickerPrices_warehouseAfter {dd : List DimDate} {runs : ℕ → DbtRun}
    {dts : ℕ → List (DimTickers Id)} (hdts : ∀ n, buildDimTickers K (runs n) = .ok (dts n))
    (n : ℕ) : (warehouseAfter K dd runs n).factTickerPrices =
      pricesAfter K (fun m => (runs m).priceRun (dts m) dd) n := by
  induction n with
  | zero => rfl
  | succ n ih =>
      have hquery : queryFactTickerPrices K dd (runs n) =
          ((runs n).priceRun (dts n) dd).query K := by
        funext isIncremental
        rw [queryFactTickerPrices, hdts n]
        rfl
      rw [warehouseAfter_succ, pricesAfter_succ, ← ih, dbtRun, hquery]
      rfl

end BinanceElt
