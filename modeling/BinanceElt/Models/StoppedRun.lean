import BinanceElt.Models.History
import Mathlib.Data.Finset.Basic
import Mathlib.Data.Fintype.Defs

/-!
# Runs that stop

`dbtRun` is a run of `dbt` in which a model fails only when its query does.  A build can
also fail for a reason outside its query, such as a time-out of its job or a reply of the
warehouse, and the whole run can be killed.  In either case some of the models have been
built, the tables of the others are the old ones, and a model that was built was built
from models that were built before it.

## Main results

* `tables_stoppedRun` — the table of each model after a run that stopped.
* `canStop_results`, `stoppedRun_results` — a run in which nothing but queries fails is
  one that stops after the models that have results.
* `canStop_univ_iff` — a run that stops after all models is one that completes.
-/

namespace BinanceElt

open Sql (Date Timestamp QueryError)

/-! ## The models -/

/-- The models a scheduled run builds. -/
inductive Model where
  | dimTickers
  | factTickerPrices
  | factDailyTickersQuantity
  | factDailyAccountValue
deriving DecidableEq

instance : Fintype Model where
  elems := {.dimTickers, .factTickerPrices, .factDailyTickersQuantity, .factDailyAccountValue}
  complete m := by cases m <;> decide

/-- The models it refers to, `dim_date` left out. -/
def Model.refs : Model → List Model
  | .dimTickers => []
  | .factTickerPrices => [.dimTickers]
  | .factDailyTickersQuantity => [.dimTickers]
  | .factDailyAccountValue => [.factTickerPrices, .dimTickers]

/-- The table of a model; `none` before its first build. -/
def Model.Table (Id : Type) : Model → Type
  | .dimTickers => Option (List (DimTickers Id))
  | .factTickerPrices => Option (List (FactTickerPrices Id))
  | .factDailyTickersQuantity => Option (List (FactDailyTickersQuantity Id))
  | .factDailyAccountValue => Option (List (FactDailyAccountValue Id))

def Warehouse.tables {Id : Type} (w : Warehouse Id) : (m : Model) → m.Table Id
  | .dimTickers => w.dimTickers
  | .factTickerPrices => w.factTickerPrices
  | .factDailyTickersQuantity => w.factDailyTickersQuantity
  | .factDailyAccountValue => w.factDailyAccountValue

variable {Id : Type} [DecidableEq Id] (K : SurrogateKey Id) (dd : List DimDate)

/-! ## What the models leave -/

section Results

variable (run : DbtRun) (w : Warehouse Id)

/-- What the models of a run leave: the tables of the models that are built,
each from the tables of this run, and nothing for a model that fails or is
skipped. -/
def modelResults : (m : Model) → Option (m.Table Id)
  | .dimTickers => (buildDimTickers K run).toOption.map some
  | .factTickerPrices => (buildFactTickerPrices K dd run w).toOption.map some
  | .factDailyTickersQuantity => (buildFactDailyTickersQuantity K dd run w).toOption.map some
  | .factDailyAccountValue => (buildFactDailyAccountValue K dd run w).toOption.map some

theorem isSome_toOption_iff {α : Type} {x : Except QueryError α} :
    (x.toOption.map some).isSome ↔ ∃ a, x = .ok a := by
  cases x <;> simp [Except.toOption]

/-- A build reads its query, whatever mode it is in. -/
private theorem exists_query_of_build {α : Type} {key : α → Id} {target : Option (List α)}
    {fullRefresh : Bool} {query : Bool → Except QueryError (List α)}
    (h : ∃ rows, Sql.materialize key target fullRefresh query = .ok rows) :
    ∃ mode source, query mode = .ok source := by
  obtain ⟨rows, hrows⟩ := h
  obtain ⟨source, hquery, -⟩ := Sql.materialize_eq_ok_iff.mp hrows
  exact ⟨_, source, hquery⟩

/-- What a built model refers to is built. -/
theorem isSome_modelResults_of_refs {m ref : Model} (href : ref ∈ m.refs)
    (h : (modelResults K dd run w m).isSome) : (modelResults K dd run w ref).isSome := by
  cases m with
  | dimTickers => cases href
  | factTickerPrices =>
      obtain rfl := List.mem_singleton.mp href
      obtain ⟨_, _, hquery⟩ := exists_query_of_build (isSome_toOption_iff.mp h)
      obtain ⟨dt, hdt, -⟩ := (queryFactTickerPrices_eq_ok_iff K).mp hquery
      exact isSome_toOption_iff.mpr ⟨dt, hdt⟩
  | factDailyTickersQuantity =>
      obtain rfl := List.mem_singleton.mp href
      obtain ⟨_, _, hquery⟩ := exists_query_of_build (isSome_toOption_iff.mp h)
      obtain ⟨dt, hdt, -⟩ := (queryFactDailyTickersQuantity_eq_ok_iff K).mp hquery
      exact isSome_toOption_iff.mpr ⟨dt, hdt⟩
  | factDailyAccountValue =>
      obtain ⟨_, _, hquery⟩ := exists_query_of_build (isSome_toOption_iff.mp h)
      obtain ⟨dt, hdt, prices, hprices, -⟩ := (queryFactDailyAccountValue_eq_ok_iff K).mp hquery
      rcases List.mem_pair.mp href with rfl | rfl
      · exact isSome_toOption_iff.mpr ⟨prices, hprices⟩
      · exact isSome_toOption_iff.mpr ⟨dt, hdt⟩

/-- `dbtRun` stores the results, and keeps the table of a model without one. -/
theorem tables_dbtRun (m : Model) :
    (dbtRun K dd run w).tables m = (modelResults K dd run w m).getD (w.tables m) := by
  have hor : ∀ {α : Type} (x : Except QueryError α) (old : Option α),
      x.toOption.or old = (x.toOption.map some).getD old := by
    rintro α (e | a) old <;> rfl
  cases m <;> exact hor _ _

theorem completes_iff_modelResults :
    Completes K dd run w ↔ ∀ m, (modelResults K dd run w m).isSome := by
  constructor
  · rintro ⟨h₁, h₂, h₃, h₄⟩ m
    cases m <;> exact isSome_toOption_iff.mpr ‹_›
  · intro h
    exact ⟨isSome_toOption_iff.mp (h .dimTickers), isSome_toOption_iff.mp (h .factTickerPrices),
      isSome_toOption_iff.mp (h .factDailyTickersQuantity),
      isSome_toOption_iff.mp (h .factDailyAccountValue)⟩

end Results

/-! ## A run that stops -/

section Stopped

variable (built : Finset Model) (run : DbtRun) (w : Warehouse Id)

/-- What `dbt run` leaves when it has built these models and then, for whatever
reason, none of the others: their tables are those of the whole run, all other
tables are the old ones. -/
def stoppedRun : Warehouse Id where
  dimTickers := if .dimTickers ∈ built then (dbtRun K dd run w).dimTickers else w.dimTickers
  factTickerPrices :=
    if .factTickerPrices ∈ built then (dbtRun K dd run w).factTickerPrices
    else w.factTickerPrices
  factDailyTickersQuantity :=
    if .factDailyTickersQuantity ∈ built then (dbtRun K dd run w).factDailyTickersQuantity
    else w.factDailyTickersQuantity
  factDailyAccountValue :=
    if .factDailyAccountValue ∈ built then (dbtRun K dd run w).factDailyAccountValue
    else w.factDailyAccountValue

/-- `dbt run` can stop after these models: the query of each of them succeeds,
and the models it refers to are among them, since `dbt` starts a model after
these. -/
structure CanStop : Prop where
  refs : ∀ m ∈ built, ∀ ref ∈ m.refs, ref ∈ built
  isSome : ∀ m ∈ built, (modelResults K dd run w m).isSome

theorem tables_stoppedRun (m : Model) : (stoppedRun K dd built run w).tables m =
    if m ∈ built then (dbtRun K dd run w).tables m else w.tables m := by
  cases m <;> rfl

/-- Nothing was built. -/
theorem stoppedRun_empty : stoppedRun K dd ∅ run w = w := by
  simp [stoppedRun]

/-- Everything was built. -/
theorem stoppedRun_univ : stoppedRun K dd Finset.univ run w = dbtRun K dd run w := by
  simp [stoppedRun]

/-- A run can stop after all models exactly when it completes. -/
theorem canStop_univ_iff : CanStop K dd Finset.univ run w ↔ Completes K dd run w := by
  rw [completes_iff_modelResults]
  exact ⟨fun h m => h.isSome m (Finset.mem_univ m),
    fun h => ⟨fun _ _ ref _ => Finset.mem_univ ref, fun m _ => h m⟩⟩

/-- A run that would complete can stop after any models that have what they
refer to. -/
theorem Completes.canStop {built : Finset Model} {run : DbtRun} {w : Warehouse Id}
    (h : Completes K dd run w) (hrefs : ∀ m ∈ built, ∀ ref ∈ m.refs, ref ∈ built) :
    CanStop K dd built run w where
  refs := hrefs
  isSome m _ := (completes_iff_modelResults K dd run w).mp h m

/-- The models that have results can be built. -/
theorem canStop_results : CanStop K dd (Finset.univ.filter fun m =>
    (modelResults K dd run w m).isSome = true) run w where
  refs _ hm ref href := Finset.mem_filter.mpr ⟨Finset.mem_univ ref,
    isSome_modelResults_of_refs K dd run w href (Finset.mem_filter.mp hm).2⟩
  isSome _ hm := (Finset.mem_filter.mp hm).2

omit [DecidableEq Id] in
/-- The warehouse is its tables. -/
theorem Warehouse.ext_tables {w w' : Warehouse Id} (h : ∀ m, w.tables m = w'.tables m) :
    w = w' := by
  obtain ⟨_, _, _, _⟩ := w
  obtain ⟨_, _, _, _⟩ := w'
  obtain rfl := h .dimTickers
  obtain rfl := h .factTickerPrices
  obtain rfl := h .factDailyTickersQuantity
  obtain rfl := h .factDailyAccountValue
  rfl

/-- When these are built, it is as if no build had failed for a reason of its
own. -/
theorem stoppedRun_results : stoppedRun K dd (Finset.univ.filter fun m =>
    (modelResults K dd run w m).isSome = true) run w = dbtRun K dd run w := by
  refine Warehouse.ext_tables fun m => ?_
  rw [tables_stoppedRun]
  split
  · rfl
  · next hnot =>
      rw [tables_dbtRun, Option.not_isSome_iff_eq_none.mp fun h =>
        hnot (Finset.mem_filter.mpr ⟨Finset.mem_univ m, h⟩), Option.getD_none]

end Stopped

end BinanceElt
