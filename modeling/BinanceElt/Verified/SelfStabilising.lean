import BinanceElt.Verified.DistinctDays
import BinanceElt.Verified.ReferentialIntegrity
import BinanceElt.Verified.RowOrder

/-!
# Self-stabilisation

The script runs every day and rebuilds all tables on Sundays.  Whatever the warehouse
holds to begin with, after a week it is what the executions since the last Sunday have
made of an empty one: rows that were lost, left over or edited do not outlive the next
full refresh.

## Main results

* `dbtRun_eq_of_fullRefresh` — a completed full refresh does not depend on the warehouse.
* `sound_after_sunday` — after a Sunday the tables fit together.
* `stateAfter_eq_since_sunday` — the warehouse of daily executions after a week.
-/

namespace BinanceElt

open Sql (Date)

variable {Id : Type} [DecidableEq Id] (K : SurrogateKey Id) {dd : List DimDate}

/-! ## Full refreshes -/

section FullRefresh

variable {run : DbtRun} (h : run.fullRefresh = true) (w w' : Warehouse Id)
include h

theorem buildFactTickerPrices_eq_of_fullRefresh :
    buildFactTickerPrices K dd run w = buildFactTickerPrices K dd run w' := by
  rw [buildFactTickerPrices, buildFactTickerPrices, h, Sql.materialize_of_fullRefresh,
    Sql.materialize_of_fullRefresh]

theorem buildFactDailyTickersQuantity_eq_of_fullRefresh :
    buildFactDailyTickersQuantity K dd run w = buildFactDailyTickersQuantity K dd run w' := by
  rw [buildFactDailyTickersQuantity, buildFactDailyTickersQuantity, h,
    Sql.materialize_of_fullRefresh, Sql.materialize_of_fullRefresh]

/-- The values are computed from prices that do not depend on the warehouse
either. -/
theorem buildFactDailyAccountValue_eq_of_fullRefresh :
    buildFactDailyAccountValue K dd run w = buildFactDailyAccountValue K dd run w' := by
  rw [buildFactDailyAccountValue, buildFactDailyAccountValue, h,
    Sql.materialize_of_fullRefresh, Sql.materialize_of_fullRefresh, queryFactDailyAccountValue,
    queryFactDailyAccountValue, buildFactTickerPrices_eq_of_fullRefresh K h w w']

/-- A completed full refresh leaves the same warehouse wherever it starts. -/
theorem dbtRun_eq_of_fullRefresh (hcomplete : Completes K dd run w) :
    dbtRun K dd run w = dbtRun K dd run w' := by
  obtain ⟨⟨dt, hdims⟩, ⟨prices, hprices⟩, ⟨quantities, hquantities⟩, ⟨values, hvalues⟩⟩ :=
    hcomplete
  rw [dbtRun_of_ok K dd hdims hprices hquantities hvalues]
  rw [buildFactTickerPrices_eq_of_fullRefresh K h w w'] at hprices
  rw [buildFactDailyTickersQuantity_eq_of_fullRefresh K h w w'] at hquantities
  rw [buildFactDailyAccountValue_eq_of_fullRefresh K h w w'] at hvalues
  rw [dbtRun_of_ok K dd hdims hprices hquantities hvalues]

end FullRefresh

/-! ## What a full refresh establishes -/

/-- The tables fit together: the values are those of the stored quantities at
the stored prices, a day has one value and a ticker one quantity a day, and the
tickers of the facts are known. -/
structure Sound (w : Warehouse Id) : Prop where
  complete : ∃ dims prices quantities values,
    w = ⟨some dims, some prices, some quantities, some values⟩
  values : ∀ prices quantities values, w.factTickerPrices = some prices →
    w.factDailyTickersQuantity = some quantities → w.factDailyAccountValue = some values →
    ∀ ctx, (values.map fun r => r.toTotalValue).Perm
      (totalValue (tickerPortflioValues (avgDailyTickerPrices prices ctx false)
        (quantities.map fun r => r.toCurrentPortfolio)))
  distinctDays : DistinctDays w
  distinctQuantities : ∀ quantities, w.factDailyTickersQuantity = some quantities →
    (quantities.map fun r => (r.symbolId, r.dateId)).Nodup
  references : ReferentialIntegrity w

section Sound

variable {run : DbtRun} {w : Warehouse Id}

/-- A completed full refresh leaves tables that fit together, wherever it
starts: every table is replaced by the output of its query, over the dimension
and the prices of the same run. -/
theorem sound_of_fullRefresh (hdd : IsDateDim dd) (hfull : run.fullRefresh = true)
    (hcomplete : Completes K dd run w) : Sound (dbtRun K dd run w) := by
  obtain ⟨⟨dt, hdims⟩, ⟨prices, hprices⟩, ⟨quantities, hquantities⟩, ⟨values, hvalues⟩⟩ :=
    hcomplete
  have hpriceQuery : queryFactTickerPrices K dd run false = .ok prices := by
    rwa [buildFactTickerPrices, hfull, Sql.materialize_of_fullRefresh] at hprices
  have hquantityQuery : queryFactDailyTickersQuantity K dd run false = .ok quantities := by
    rwa [buildFactDailyTickersQuantity, hfull, Sql.materialize_of_fullRefresh] at hquantities
  have hvalueQuery : queryFactDailyAccountValue K dd run w false = .ok values := by
    rwa [buildFactDailyAccountValue, hfull, Sql.materialize_of_fullRefresh] at hvalues
  obtain ⟨dt', hdims', hquantityRows⟩ :=
    (queryFactDailyTickersQuantity_eq_ok_iff K).mp hquantityQuery
  obtain rfl := Except.ok.inj (hdims'.symm.trans hdims)
  obtain ⟨dt'', hdims'', prices', hprices', hvalueRows⟩ :=
    (queryFactDailyAccountValue_eq_ok_iff K).mp hvalueQuery
  obtain rfl := Except.ok.inj (hdims''.symm.trans hdims)
  obtain rfl := Except.ok.inj (hprices'.symm.trans hprices)
  rw [dbtRun_of_ok K dd hdims hprices hquantities hvalues]
  refine ⟨⟨_, _, _, _, rfl⟩, ?_, ?_, ?_, ?_⟩
  · rintro _ _ _ ⟨⟩ ⟨⟩ ⟨⟩ ctx
    refine (map_factDailyAccountValue_perm K hvalueRows).trans ?_
    exact totalValue_perm (.refl _) (map_factDailyTickersQuantity_perm K hquantityRows).symm
  · rintro _ ⟨⟩
    exact nodup_factDailyAccountValue K hvalueRows
  · rintro _ ⟨⟩
    exact nodup_factDailyTickersQuantity K hquantityRows
  · intro i hi
    refine ⟨_, rfl, (count_id_eq_one_iff K hdims i).mpr ?_⟩
    rcases hi with ⟨_, ⟨⟩, r, hr, rfl⟩ | ⟨_, ⟨⟩, r, hr, rfl⟩
    · exact symbolId_of_queryFactTickerPrices K hdims hpriceQuery hr
    · exact symbolId_of_queryFactDailyTickersQuantity K hdd hdims hquantityQuery hr

end Sound

/-! ## Daily executions -/

section Daily

variable {execs : ℕ → Execution}

/-- There is an execution every day.  The trigger of the task is daily; an
execution that fails still counts. -/
def Daily (execs : ℕ → Execution) : Prop := ∀ n, (execs (n + 1)).today = (execs n).today + 1

theorem Daily.today_eq (h : Daily execs) (n : ℕ) : (execs n).today = (execs 0).today + n := by
  induction n with
  | zero => simp
  | succ n ih =>
      rw [h n, ih]
      push_cast
      ring

/-- One of the last seven executions was on a Sunday. -/
theorem Daily.exists_sunday (h : Daily execs) {n : ℕ} (hn : 7 ≤ n) :
    ∃ s < n, n ≤ s + 7 ∧ Sql.isoWeekday (execs s).today = 7 := by
  have hweekday : ∀ d : ℤ, ∃ s : ℕ, s < n ∧ n ≤ s + 7 ∧ (d + s + 3) % 7 = 6 := fun d =>
    ⟨(n - 1 - (d + n + 3) % 7).toNat, by omega, by omega, by omega⟩
  obtain ⟨s, hs, hweek, hsunday⟩ := hweekday (execs 0).today
  refine ⟨s, hs, hweek, ?_⟩
  rw [Sql.isoWeekday, h.today_eq s, hsunday]
  rfl

/-- Whatever the warehouse was and whatever the executions before have left,
after a Sunday's execution its tables fit together.

`hbuilds` asks that the models of this execution can be built from nothing,
which is what its `--full-refresh` does.  `w` is any warehouse, also one that no
run could have made. -/
theorem sound_after_sunday {n : ℕ} (hsunday : Sql.isoWeekday (execs n).today = 7)
    (hbuilds : Completes K dimDate (execs n).run Warehouse.empty) (w : Warehouse Id) :
    Sound (Sql.stateAfter (dbtRun K dimDate) (fun m => (execs m).run) w (n + 1)) := by
  have hfull : (execs n).run.fullRefresh = true := by
    rw [Execution.run, hsunday]
    rfl
  rw [Sql.stateAfter, ← dbtRun_eq_of_fullRefresh K hfull Warehouse.empty _ hbuilds]
  exact sound_of_fullRefresh K isDateDim_dimDate hfull hbuilds

/-- When the full refreshes complete, a warehouse that the script has maintained
for a week, whatever it was before, is what the executions since the last Sunday
make of an empty one.

`hdaily` says that there is one execution a day, so that one of seven falls on a
Sunday.  The executions between two Sundays may fail in any of their models:
they do the same to the one warehouse as to the other. -/
theorem stateAfter_eq_since_sunday (hdaily : Daily execs) {n : ℕ} (hn : 7 ≤ n)
    (hbuilds : ∀ m < n, Sql.isoWeekday (execs m).today = 7 →
      Completes K dimDate (execs m).run Warehouse.empty)
    (w : Warehouse Id) :
    ∃ s < n, n ≤ s + 7 ∧ Sql.isoWeekday (execs s).today = 7 ∧
      Sql.stateAfter (dbtRun K dimDate) (fun m => (execs m).run) w n =
        warehouseAfterExecutions K (fun m => execs (s + m)) (n - s) := by
  obtain ⟨s, hs, hweek, hsunday⟩ := hdaily.exists_sunday hn
  have hfull : (execs s).run.fullRefresh = true := by
    rw [Execution.run, hsunday]
    rfl
  have hbuilt := hbuilds s hs hsunday
  refine ⟨s, hs, hweek, hsunday, ?_⟩
  obtain ⟨k, rfl⟩ := Nat.exists_eq_add_of_lt hs
  rw [Nat.add_assoc, Sql.stateAfter_add, Nat.add_sub_cancel_left, warehouseAfterExecutions,
    warehouseAfter, Nat.add_comm k 1, Sql.stateAfter_add, Sql.stateAfter_add _ _ Warehouse.empty]
  have hone : ∀ init, Sql.stateAfter (dbtRun K dimDate) (fun m => (execs (s + m)).run) init 1 =
      dbtRun K dimDate (execs s).run init := fun _ => rfl
  rw [hone, hone, dbtRun_eq_of_fullRefresh K hfull _ _ hbuilt]

end Daily

/-! ## A warehouse with a row of nothing -/

/-- The day's execution, from Wednesday 2024-05-01 on. -/
def dailyExecution (n : ℕ) : Execution where
  sources := firstDay.sources
  seed := firstDay.nameMapping
  today := 19844 + n
  now := Sql.midnight (19844 + n)

/-- A value of a day without data, which only a full refresh removes. -/
def editedWarehouse : Warehouse (List ℤ) where
  dimTickers := none
  factTickerPrices := none
  factDailyTickersQuantity := none
  factDailyAccountValue := some [⟨⟨⟨20200101, some 7⟩, 0, 0⟩, [], Sql.midnight 18262⟩]

private theorem completes_dailyExecution {m : ℕ} (hm : m < 7)
    (hsunday : Sql.isoWeekday (dailyExecution m).today = 7) :
    Completes listing dimDate (dailyExecution m).run Warehouse.empty := by
  have hall : ∀ m < 7, Sql.isoWeekday (dailyExecution m).today = 7 →
      Completes listing (dateDim 19844 19844) (dailyExecution m).run Warehouse.empty := by
    decide +kernel
  have hdates : (dailyExecution m).run.DatesIn 19844 19844 :=
    show firstDay.DatesIn 19844 19844 by decide
  rw [completes_congr listing (sameDates_dimDate hdates (by decide) (by decide))]
  exact hall m hm hsunday

/-- After Sunday 2024-05-05 the value without data is gone. -/
theorem sound_after_sunday_edited :
    Sound (Sql.stateAfter (dbtRun listing dimDate) (fun m => (dailyExecution m).run)
      editedWarehouse 5) :=
  sound_after_sunday listing (by decide) (completes_dailyExecution (by decide) (by decide)) _

theorem stateAfter_eq_since_sunday_edited :
    ∃ s < 7, 7 ≤ s + 7 ∧ Sql.isoWeekday (dailyExecution s).today = 7 ∧
      Sql.stateAfter (dbtRun listing dimDate) (fun m => (dailyExecution m).run)
          editedWarehouse 7 =
        warehouseAfterExecutions listing (fun m => dailyExecution (s + m)) (7 - s) := by
  refine stateAfter_eq_since_sunday listing (fun n => ?_) le_rfl
    (fun m hm hsunday => completes_dailyExecution hm hsunday) _
  show (19844 : ℤ) + (n + 1 : ℕ) = 19844 + n + 1
  push_cast
  ring

end BinanceElt
