import BinanceElt.Models.History
import BinanceElt.Sql.RowOrder

/-!
# The warehouse and the order of the rows

BigQuery promises no row order, neither of the sources nor of the tables a run
has built.  The models depend on none: sources, seed and date dimension that are
listed in another order give the same tables, up to the order of their rows,
after every run of every sequence of runs.

## Main results

* `dimTickers_sameRows`, `factTickerPrices_perm`, `currentPortfolio_perm`,
  `totalValueOf_perm` — the queries.
* `dbtRun_perm` — one run.
* `warehouseAfter_perm` — every sequence of runs.
-/

namespace BinanceElt

open Sql (Date Timestamp QueryError SameRows SameTable)

variable {Id : Type} (K : SurrogateKey Id)

/-! ## The same rows in another order -/

structure Sources.SameRows (s s' : Sources) : Prop where
  tickerPrices : s.tickerPrices.Perm s'.tickerPrices
  tickerPriceChange : s.tickerPriceChange.Perm s'.tickerPriceChange
  accountSnaphsot : s.accountSnaphsot.Perm s'.accountSnaphsot

/-- Two runs of the same moment that see the same rows, in whatever order. -/
structure DbtRun.SameRows (run run' : DbtRun) : Prop where
  context : run.toRunContext = run'.toRunContext
  sources : run.sources.SameRows run'.sources
  nameMapping : run.nameMapping.Perm run'.nameMapping
  fullRefresh : run.fullRefresh = run'.fullRefresh

structure Warehouse.SameRows (w w' : Warehouse Id) : Prop where
  dimTickers : SameTable w.dimTickers w'.dimTickers
  factTickerPrices : SameTable w.factTickerPrices w'.factTickerPrices
  factDailyTickersQuantity : SameTable w.factDailyTickersQuantity w'.factDailyTickersQuantity
  factDailyAccountValue : SameTable w.factDailyAccountValue w'.factDailyAccountValue

/-! ## The queries -/

section Queries

theorem dimTickers_sameRows {src src' : List TickerPrices} {nm nm' : List NameMapping}
    (hsrc : src.Perm src') (hnm : nm.Perm nm') (ctx : RunContext) :
    SameRows (dimTickers K src nm ctx) (dimTickers K src' nm' ctx) := by
  have hjoin : SameRows (tickerNamesJoin src nm) (tickerNamesJoin src' nm') :=
    (Sql.sameRows_mapM hsrc).bind fun _ _ _ _ hrows => .ok (Sql.leftJoin_perm _ hrows hnm)
  have hnames : SameRows (tickerNames src nm) (tickerNames src' nm') := by
    refine hjoin.bind fun _ _ _ _ hrows => .ok (Sql.map_groupBy_perm hrows fun k as bs h => ?_)
    have hmin : (as.map fun r => r.1.1.timestamp).min? = (bs.map fun r => r.1.1.timestamp).min? :=
      Sql.min?_congr fun _ => (h.map _).mem_iff
    rw [hmin]
  exact hnames.bind fun _ _ _ _ hrows => .ok (hrows.map _)

variable {dt dt' : List (DimTickers Id)} {dd dd' : List DimDate} {ctx : RunContext}
  {isIncremental : Bool}

theorem factTickerPrices_perm {src src' : List TickerPriceChange} (hsrc : src.Perm src')
    (hdt : dt.Perm dt') (hdd : dd.Perm dd') :
    (factTickerPrices K src dt dd ctx isIncremental).Perm
      (factTickerPrices K src' dt' dd' ctx isIncremental) :=
  (((Sql.innerJoin_perm _ (Sql.innerJoin_perm _ hsrc hdt) hdd).filter _).map _).map _

/-- The same rows are read, so that both statements are aborted or neither is;
the error is the same for every row outside the range, whichever comes first. -/
theorem selectFactTickerPrices_sameRows {src src' : List TickerPriceChange}
    (hsrc : src.Perm src') (hdt : dt.Perm dt') (hdd : dd.Perm dd') :
    SameRows (selectFactTickerPrices K src dt dd ctx isIncremental)
      (selectFactTickerPrices K src' dt' dd' ctx isIncremental) := by
  have hread : ∀ tp, tp ∈ readRows src dt dd ctx isIncremental ↔
      tp ∈ readRows src' dt' dd' ctx isIncremental := by
    simp only [mem_readRows, hsrc.mem_iff, hdt.mem_iff, hdd.mem_iff, implies_true]
  simp only [selectFactTickerPrices, hread]
  split
  · exact .ok (factTickerPrices_perm K hsrc hdt hdd)
  · exact .error _ _

variable [DecidableEq Id] {src src' : List AccountSnaphsot}

theorem currentPortfolio_perm (ctx : RunContext) (isIncremental : Bool) (hsrc : src.Perm src')
    (hdt : dt.Perm dt') (hdd : dd.Perm dd') :
    (currentPortfolio src dt dd ctx isIncremental).Perm
      (currentPortfolio src' dt' dd' ctx isIncremental) := by
  have hrows : (portfolioRows src dt dd ctx isIncremental).Perm
      (portfolioRows src' dt' dd' ctx isIncremental) :=
    (Sql.innerJoin_perm _ (Sql.innerJoin_perm _ hsrc hdt) hdd).filter _
  refine Sql.map_groupBy_perm hrows fun k as bs h => ?_
  simp only [Sql.avg_perm (h.map fun r => r.1.1.free), Sql.avg_perm (h.map fun r => r.1.1.locked)]

theorem factDailyTickersQuantity_sameRows (hsrc : src.Perm src') (hdt : dt.Perm dt')
    (hdd : dd.Perm dd') :
    SameRows (factDailyTickersQuantity K src dt dd ctx isIncremental)
      (factDailyTickersQuantity K src' dt' dd' ctx isIncremental) := by
  have hlag := Sql.lagOver_perm (currentPortfolio_perm ctx isIncremental hsrc hdt hdd)
    nodup_currentPortfolio
  exact (Sql.sameRows_mapM hlag).bind fun _ _ _ _ hrows => .ok (hrows.map _)

theorem totalValue_perm {avgs avgs' : List (AvgDailyTickerPrices Id)}
    {portfolio portfolio' : List (CurrentPortfolio Id)} (havgs : avgs.Perm avgs')
    (hportfolio : portfolio.Perm portfolio') :
    (totalValue (tickerPortflioValues avgs portfolio)).Perm
      (totalValue (tickerPortflioValues avgs' portfolio')) := by
  have hvalues : (tickerPortflioValues avgs portfolio).Perm
      (tickerPortflioValues avgs' portfolio') := (Sql.innerJoin_perm _ havgs hportfolio).map _
  refine Sql.map_groupBy_perm hvalues fun k as bs h => ?_
  simp only [Sql.sum_perm (h.map TickerPortflioValues.usdValue)]

theorem totalValueOf_perm {prices prices' : List (FactTickerPrices Id)} (hsrc : src.Perm src')
    (hdt : dt.Perm dt') (hdd : dd.Perm dd') (hprices : prices.Perm prices') :
    (totalValueOf src dt dd prices ctx isIncremental).Perm
      (totalValueOf src' dt' dd' prices' ctx isIncremental) := by
  refine totalValue_perm ?_ (currentPortfolio_perm ctx isIncremental hsrc hdt hdd)
  refine Sql.map_groupBy_perm (hprices.filter _) fun k as bs h => ?_
  simp only [Sql.avg_perm (h.map fun r => r.price)]

theorem factDailyAccountValue_sameRows {prices prices' : List (FactTickerPrices Id)}
    (hsrc : src.Perm src') (hdt : dt.Perm dt') (hdd : dd.Perm dd')
    (hprices : prices.Perm prices') :
    SameRows (factDailyAccountValue K src dt dd prices ctx isIncremental)
      (factDailyAccountValue K src' dt' dd' prices' ctx isIncremental) := by
  have hlag : (Sql.lagOver (fun _ => ()) TotalValue.dateId
      (totalValueOf src dt dd prices ctx isIncremental)).Perm
      (Sql.lagOver (fun _ => ()) TotalValue.dateId
        (totalValueOf src' dt' dd' prices' ctx isIncremental)) := by
    refine Sql.lagOver_perm (totalValueOf_perm hsrc hdt hdd hprices) ?_
    exact Sql.nodup_map_of_imp nodup_totalValueOf fun _ _ _ _ h => (Prod.mk.inj h).2
  exact (Sql.sameRows_mapM hlag).bind fun _ _ _ _ hrows => .ok (hrows.map _)

end Queries

/-! ## Runs -/

section Runs

variable [DecidableEq Id] {dd dd' : List DimDate} (hdd : dd.Perm dd')

section Run

variable {run run' : DbtRun} {w w' : Warehouse Id} (h : run.SameRows run')
include h

omit [DecidableEq Id] in
theorem buildDimTickers_perm : SameRows (buildDimTickers K run) (buildDimTickers K run') := by
  rw [buildDimTickers, buildDimTickers, h.context]
  exact dimTickers_sameRows K h.sources.tickerPrices h.nameMapping _

include hdd

omit [DecidableEq Id] in
theorem queryFactTickerPrices_perm (mode : Bool) :
    SameRows (queryFactTickerPrices K dd run mode) (queryFactTickerPrices K dd' run' mode) := by
  rw [queryFactTickerPrices, queryFactTickerPrices, h.context]
  exact (buildDimTickers_perm K h).bind fun _ _ _ _ hdt =>
    selectFactTickerPrices_sameRows K h.sources.tickerPriceChange hdt hdd

theorem queryFactDailyTickersQuantity_perm (mode : Bool) :
    SameRows (queryFactDailyTickersQuantity K dd run mode)
      (queryFactDailyTickersQuantity K dd' run' mode) := by
  rw [queryFactDailyTickersQuantity, queryFactDailyTickersQuantity, h.context]
  exact (buildDimTickers_perm K h).bind fun _ _ _ _ hdt =>
    factDailyTickersQuantity_sameRows K h.sources.accountSnaphsot hdt hdd

variable (hw : w.SameRows w')
include hw

theorem buildFactTickerPrices_perm :
    SameRows (buildFactTickerPrices K dd run w) (buildFactTickerPrices K dd' run' w') := by
  rw [buildFactTickerPrices, buildFactTickerPrices, h.fullRefresh]
  exact Sql.materialize_sameRows hw.factTickerPrices (queryFactTickerPrices_perm K hdd h)

theorem queryFactDailyAccountValue_perm (mode : Bool) :
    SameRows (queryFactDailyAccountValue K dd run w mode)
      (queryFactDailyAccountValue K dd' run' w' mode) := by
  rw [queryFactDailyAccountValue, queryFactDailyAccountValue, h.context]
  refine (buildDimTickers_perm K h).bind fun _ _ _ _ hdt => ?_
  exact (buildFactTickerPrices_perm K hdd h hw).bind fun _ _ _ _ hprices =>
    factDailyAccountValue_sameRows K h.sources.accountSnaphsot hdt hdd hprices

/-- A run leaves the same tables, and completes in both cases or in none. -/
theorem dbtRun_perm :
    (dbtRun K dd run w).SameRows (dbtRun K dd' run' w') ∧
      (Completes K dd run w ↔ Completes K dd' run' w') := by
  have hdt := buildDimTickers_perm K h
  have hvalue := queryFactDailyAccountValue_perm K hdd h hw
  refine ⟨⟨?_, ?_, ?_, ?_⟩, ?_⟩
  · show SameTable ((buildDimTickers K run).toOption.or w.dimTickers)
      ((buildDimTickers K run').toOption.or w'.dimTickers)
    generalize buildDimTickers K run = x at hdt
    generalize buildDimTickers K run' = y at hdt
    cases hdt with
    | ok hperm => exact .some hperm
    | error e e' => exact hw.dimTickers
  · rw [dbtRun, dbtRun, h.fullRefresh]
    exact Sql.tableAfter_perm hw.factTickerPrices (queryFactTickerPrices_perm K hdd h)
  · rw [dbtRun, dbtRun, h.fullRefresh]
    exact Sql.tableAfter_perm hw.factDailyTickersQuantity
      (queryFactDailyTickersQuantity_perm K hdd h)
  · rw [dbtRun, dbtRun, h.fullRefresh]
    exact Sql.tableAfter_perm hw.factDailyAccountValue hvalue
  · have hprices := buildFactTickerPrices_perm K hdd h hw
    have hquantities : SameRows (buildFactDailyTickersQuantity K dd run w)
        (buildFactDailyTickersQuantity K dd' run' w') := by
      rw [buildFactDailyTickersQuantity, buildFactDailyTickersQuantity, h.fullRefresh]
      exact Sql.materialize_sameRows hw.factDailyTickersQuantity
        (queryFactDailyTickersQuantity_perm K hdd h)
    have hvalues : SameRows (buildFactDailyAccountValue K dd run w)
        (buildFactDailyAccountValue K dd' run' w') := by
      rw [buildFactDailyAccountValue, buildFactDailyAccountValue, h.fullRefresh]
      exact Sql.materialize_sameRows hw.factDailyAccountValue hvalue
    constructor
    · rintro ⟨h₁, h₂, h₃, h₄⟩
      exact ⟨hdt.exists_ok_iff.mp h₁, hprices.exists_ok_iff.mp h₂,
        hquantities.exists_ok_iff.mp h₃, hvalues.exists_ok_iff.mp h₄⟩
    · rintro ⟨h₁, h₂, h₃, h₄⟩
      exact ⟨hdt.exists_ok_iff.mpr h₁, hprices.exists_ok_iff.mpr h₂,
        hquantities.exists_ok_iff.mpr h₃, hvalues.exists_ok_iff.mpr h₄⟩

end Run

/-- However the rows of the sources, the seed and `dim_date` are listed from run
to run, the tables have the same rows after every run, and the same runs
complete.

This is over exact rationals: `Sql.sum_perm` and `Sql.avg_perm` hold because
addition is associative, which that of `FLOAT64` is not.  What the theorem
excludes is any other way for an order to be seen: a window without a total
order, a group that picks one of its rows, a merge that lets one of two rows
win. -/
theorem warehouseAfter_perm (hdd : dd.Perm dd') {runs runs' : ℕ → DbtRun}
    (hruns : ∀ m, (runs m).SameRows (runs' m)) (n : ℕ) :
    (warehouseAfter K dd runs n).SameRows (warehouseAfter K dd' runs' n) ∧
      (Completes K dd (runs n) (warehouseAfter K dd runs n) ↔
        Completes K dd' (runs' n) (warehouseAfter K dd' runs' n)) := by
  have hw : (warehouseAfter K dd runs n).SameRows (warehouseAfter K dd' runs' n) := by
    induction n with
    | zero => exact ⟨.none, .none, .none, .none⟩
    | succ n ih => exact (dbtRun_perm K hdd (hruns n) ih).1
  exact ⟨hw, (dbtRun_perm K hdd (hruns n) hw).2⟩

end Runs

/-- The run of 2024-05-01 with these balances. -/
def runWithBalances (snapshots : List AccountSnaphsot) : DbtRun :=
  { firstDay with sources := { firstDay.sources with accountSnaphsot := snapshots } }

theorem sameRows_runWithBalances {snapshots snapshots' : List AccountSnaphsot}
    (h : snapshots.Perm snapshots') :
    (runWithBalances snapshots).SameRows (runWithBalances snapshots') :=
  ⟨rfl, ⟨.refl _, .refl _, h⟩, .refl _, rfl⟩

/-- Two balances of 2024-05-01. -/
def twoBalances : List AccountSnaphsot :=
  [⟨some "BTC", some 1, some 0, Sql.midnight 19844⟩,
    ⟨some "BTC", some 3, some 0, Sql.midnight 19844 + 1⟩]

/-- The balances and `dim_date` the other way round. -/
theorem warehouseAfter_perm_twoBalances :
    (warehouseAfter listing (dateDim 19844 19845) (fun _ => runWithBalances twoBalances)
        1).SameRows
      (warehouseAfter listing (dateDim 19844 19845).reverse
        (fun _ => runWithBalances twoBalances.reverse) 1) :=
  (warehouseAfter_perm listing (List.reverse_perm _).symm
    (fun _ => sameRows_runWithBalances (List.reverse_perm _).symm) 1).1

end BinanceElt
