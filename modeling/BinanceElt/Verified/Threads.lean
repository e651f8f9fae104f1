import BinanceElt.Models.StoppedRun
import BinanceElt.Service.TaskGraph

/-!
# Builds on several threads

`dbt run` works on the four models with the threads of `profiles.yml`: a model is
started when the models it refers to are built, its query reads the tables as
they are when it is evaluated, and the models that refer to a failed one are
skipped.  `dbtRun` computes the tables in one go, and `stoppedRun` those of a run
that builds some of the models.

## Main results

* `isSolution_dbtRun` — `dbtRun` solves the equations of the models.
* `dbtRun_of_schedule` — whatever the threads do, they end with the tables of
  `dbtRun`, and all models succeed exactly when `Completes` says so.
* `stoppedRun_of_schedule` — whatever fails from outside, and wherever the run breaks
  off, it leaves the tables of `stoppedRun`.
-/

namespace BinanceElt

open Sql (Date Timestamp QueryError)
open Service (TaskGraph)
open Service.TaskGraph

/-! ## The graph of the project -/

/-- `threads` of `profiles.yml`. -/
def threads : ℕ := 4

variable {Id : Type} [DecidableEq Id] (K : SurrogateKey Id) (dd : List DimDate)

section Graph

variable (run : DbtRun)

/-- The build of a model from the tables as they are; a query that refers to a
missing table fails.  This is what a thread does when it evaluates a model,
whatever the other threads have done by then. -/
def Model.build : (m : Model) → ((m : Model) → m.Table Id) → Option (m.Table Id)
  | .dimTickers, _ => (buildDimTickers K run).toOption.map some
  | .factTickerPrices, tables =>
      Option.bind (tables .dimTickers) fun dt =>
        (Sql.materialize (fun r => r.id) (tables .factTickerPrices) run.fullRefresh
          (selectFactTickerPrices K run.sources.tickerPriceChange dt dd
            run.toRunContext)).toOption.map some
  | .factDailyTickersQuantity, tables =>
      Option.bind (tables .dimTickers) fun dt =>
        (Sql.materialize (fun r => r.id) (tables .factDailyTickersQuantity) run.fullRefresh
          (BinanceElt.factDailyTickersQuantity K run.sources.accountSnaphsot dt dd
            run.toRunContext)).toOption.map some
  | .factDailyAccountValue, tables =>
      Option.bind (tables .dimTickers) fun dt =>
        Option.bind (tables .factTickerPrices) fun prices =>
          (Sql.materialize (fun r => r.id) (tables .factDailyAccountValue) run.fullRefresh
            (BinanceElt.factDailyAccountValue K run.sources.accountSnaphsot dt dd prices
              run.toRunContext)).toOption.map some

/-- The longest chain of references below a model. -/
def Model.rank : Model → ℕ
  | .dimTickers => 0
  | .factTickerPrices | .factDailyTickersQuantity => 1
  | .factDailyAccountValue => 2

def modelGraph : TaskGraph Model fun m => m.Table Id where
  deps := Model.refs
  build := Model.build K dd run
  build_congr m tables tables' hown hrefs := by
    cases m with
    | dimTickers => rfl
    | factTickerPrices | factDailyTickersQuantity =>
        simp only [Model.build, hown, hrefs .dimTickers (by decide)]
    | factDailyAccountValue =>
        simp only [Model.build, hown, hrefs .dimTickers (by decide),
          hrefs .factTickerPrices (by decide)]
  rank := Model.rank
  rank_lt := by decide

end Graph

/-! ## `dbtRun` is the solution -/

section Solution

variable (run : DbtRun) (w : Warehouse Id)

section Read

variable {run} {dt : List (DimTickers Id)} (hdt : buildDimTickers K run = .ok dt)
include hdt

omit [DecidableEq Id] in
private theorem queryFactTickerPrices_of_ok : queryFactTickerPrices K dd run =
    selectFactTickerPrices K run.sources.tickerPriceChange dt dd run.toRunContext := by
  funext isIncremental
  simp only [queryFactTickerPrices, hdt, bind, Except.bind]

private theorem queryFactDailyTickersQuantity_of_ok : queryFactDailyTickersQuantity K dd run =
    factDailyTickersQuantity K run.sources.accountSnaphsot dt dd run.toRunContext := by
  funext isIncremental
  simp only [queryFactDailyTickersQuantity, hdt, bind, Except.bind]

private theorem queryFactDailyAccountValue_of_ok {prices : List (FactTickerPrices Id)}
    (hprices : buildFactTickerPrices K dd run w = .ok prices) :
    queryFactDailyAccountValue K dd run w =
      factDailyAccountValue K run.sources.accountSnaphsot dt dd prices run.toRunContext := by
  funext isIncremental
  simp only [queryFactDailyAccountValue, hdt, hprices, bind, Except.bind]

end Read

/-- The tables a model is built from: the new ones, and its own old one. -/
def newTables (m : Model) : (m : Model) → m.Table Id :=
  Function.update (fun m => (modelResults K dd run w m).getD (w.tables m)) m (w.tables m)

private theorem newTable_dimTickers {m : Model} (hm : m ≠ .dimTickers)
    {dt : List (DimTickers Id)} (hdt : buildDimTickers K run = .ok dt) :
    newTables K dd run w m .dimTickers = some dt := by
  rw [newTables, Function.update_of_ne hm.symm, modelResults, hdt]
  rfl

private theorem newTable_factTickerPrices {prices : List (FactTickerPrices Id)}
    (hprices : buildFactTickerPrices K dd run w = .ok prices) :
    newTables K dd run w .factDailyAccountValue .factTickerPrices = some prices := by
  rw [newTables, Function.update_of_ne (by decide), modelResults, hprices]
  rfl

private theorem newTable_self (m : Model) : newTables K dd run w m m = w.tables m :=
  Function.update_self _ _ _

/-- Built from the new tables of the models it refers to, a model is what
`dbtRun` makes of it. -/
theorem isSolution_dbtRun :
    IsSolution (modelGraph K dd run) w.tables (modelResults K dd run w) := by
  intro m
  by_cases hrefs : ∀ ref ∈ m.refs, (modelResults K dd run w ref).isSome
  · refine Eq.trans ?_ (if_pos hrefs).symm
    show _ = Model.build K dd run m (newTables K dd run w m)
    cases m with
    | dimTickers => rfl
    | factTickerPrices =>
        obtain ⟨dt, hdt⟩ := isSome_toOption_iff.mp (hrefs .dimTickers (by decide))
        have hread := newTable_dimTickers K dd run w (m := .factTickerPrices) (by decide) hdt
        simp only [modelResults, Model.build, buildFactTickerPrices,
          queryFactTickerPrices_of_ok K dd hdt, hread, newTable_self, Option.bind_some,
          Warehouse.tables]
    | factDailyTickersQuantity =>
        obtain ⟨dt, hdt⟩ := isSome_toOption_iff.mp (hrefs .dimTickers (by decide))
        have hread := newTable_dimTickers K dd run w (m := .factDailyTickersQuantity) (by decide)
          hdt
        simp only [modelResults, Model.build, buildFactDailyTickersQuantity,
          queryFactDailyTickersQuantity_of_ok K dd hdt, hread, newTable_self,
          Option.bind_some, Warehouse.tables]
    | factDailyAccountValue =>
        obtain ⟨dt, hdt⟩ := isSome_toOption_iff.mp (hrefs .dimTickers (by decide))
        obtain ⟨prices, hprices⟩ := isSome_toOption_iff.mp (hrefs .factTickerPrices (by decide))
        have hread := newTable_dimTickers K dd run w (m := .factDailyAccountValue) (by decide) hdt
        have hread' := newTable_factTickerPrices K dd run w hprices
        simp only [modelResults, Model.build, buildFactDailyAccountValue,
          queryFactDailyAccountValue_of_ok K dd w hdt hprices, hread, hread',
          newTable_self, Option.bind_some, Warehouse.tables]
  · refine Eq.trans ?_ (if_neg hrefs).symm
    push Not at hrefs
    obtain ⟨ref, href, hnone⟩ := hrefs
    by_contra hsome
    exact hnone (isSome_modelResults_of_refs K dd run w href
      (Option.isSome_iff_ne_none.mpr hsome))

end Solution

/-! ## Every schedule -/

section Schedules

variable {run : DbtRun} {w : Warehouse Id} {threads n : ℕ} {s : State fun m => Model.Table Id m}

/-- However the threads take turns, after at most twelve steps they are through,
and have left the tables of `dbtRun`; no table is ever seen in another state
than before and after the run.

`Steps` starts a model when those it refers to have succeeded and a thread is
free, evaluates its query against the tables at that time, and stores the result
later.  `hthreads` lets the first model start; the profile has four threads. -/
theorem dbtRun_of_schedule (hthreads : 0 < threads)
    (h : Steps (modelGraph K dd run) threads n (State.initial w.tables) s) :
    n ≤ 12 ∧
      (∀ m, s.tables m = w.tables m ∨ s.tables m = (dbtRun K dd run w).tables m) ∧
      ((∃ s', Step (modelGraph K dd run) threads s s') ∨
        (s.tables = (dbtRun K dd run w).tables ∧
          ((∀ m, s.status m = .succeeded) ↔ Completes K dd run w))) := by
  obtain ⟨hagrees, hfault⟩ := agrees_of_steps (isSolution_dbtRun K dd run w) h
  refine ⟨steps_le h, fun m => ?_, ?_⟩
  · rcases hagrees.table_cases m with ⟨-, hresult⟩ | ⟨-, hold⟩
    · exact .inr (by rw [tables_dbtRun, hresult, Option.getD_some])
    · exact .inl hold
  · by_cases hcomplete : s.Complete
    · refine .inr ⟨funext fun m => ?_, ?_⟩
      · rw [tables_dbtRun, (hagrees.complete hfault hcomplete m).1]
      · rw [completes_iff_modelResults]
        exact forall_congr' fun m => (hagrees.complete hfault hcomplete m).2
    · exact .inl (exists_step hthreads hcomplete)

/-- The models that have succeeded. -/
def succeededModels (s : State fun m => Model.Table Id m) : Finset Model :=
  Finset.univ.filter fun m => (s.status m).isSucceeded = true

omit [DecidableEq Id] in
theorem mem_succeededModels {m : Model} :
    m ∈ succeededModels s ↔ s.status m = .succeeded := by
  rw [succeededModels, Finset.mem_filter, Status.isSucceeded_iff]
  exact and_iff_right (Finset.mem_univ m)

end Schedules

/-- The first run on the threads of the profile. -/
theorem dbtRun_of_schedule_firstDay :
    ∃ n s, State.Complete s ∧ n ≤ 12 ∧ (∀ m, s.status m = .succeeded) ∧
      s.tables = (dbtRun listing (dateDim 19844 19844) firstDay Warehouse.empty).tables := by
  have hthreads : 0 < threads := by decide
  obtain ⟨n, s, hsteps, hcomplete⟩ :=
    exists_complete (g := modelGraph listing (dateDim 19844 19844) firstDay) hthreads
      (State.initial Warehouse.empty.tables)
  obtain ⟨hn, -, ⟨s', hstep⟩ | ⟨htables, hstatus⟩⟩ :=
    dbtRun_of_schedule listing (dateDim 19844 19844) hthreads hsteps
  · exact absurd hstep hcomplete.not_step
  · exact ⟨n, s, hcomplete, hn, hstatus.mpr (by decide +kernel), htables⟩

end BinanceElt
