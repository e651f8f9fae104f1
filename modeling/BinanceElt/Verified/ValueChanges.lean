import BinanceElt.Models.History
import BinanceElt.Models.SurrogateKey
import BinanceElt.Models.Valuation

/-!
# The change columns of `fact_daily_account_value`

`lag` sees the days of one output, the table keeps days of many.  A row is
right when the day before it in the output it was written with has the value
of the day before it in the table.

Here the value `W d` of a day never changes, so that every day has one row and
a run replaces exactly the days it computes.

## Main results

* `stepsThrough_of_query` — the rows of one output step from their previous day
  in this output.
* `consistent_dbtRun_iff` — when one run keeps the change columns right.
* `consistent_iff_keepsNeighbours` — the same over a sequence of runs.
* `not_consistent_windowStart` — a change that is overwritten by zero.
-/

namespace BinanceElt

open Sql (Date Timestamp QueryError)

/-! ## Rows and the values they step from -/

section Rows

variable {Id : Type} (W : ℤ → ℚ)

/-- The change columns of a row are those of a step from the row before it. -/
def ShowsChange (r : FactDailyAccountValue Id) : Option (FactDailyAccountValue Id) → Prop
  | none => r.priceChange = 0 ∧ r.percentageChange = 0
  | some u => ∃ x y, r.walletValue = some x ∧ u.walletValue = some y ∧
      r.priceChange = x - y ∧ r.percentageChange = Sql.roundTo 2 ((x - y) / y * 100)

/-- Every row of the table shows the change since the row before it.  The row
before is looked up among all rows of the table, whichever runs have written
them. -/
def Consistent (w : Warehouse Id) : Prop :=
  ∀ rows, w.factDailyAccountValue = some rows → ∀ r ∈ rows, ∀ p,
    Sql.IsPrevious (fun r => r.dateId) rows r p → ShowsChange r p

/-- The value a day steps from: that of the day before, or its own. -/
def baseValue (d : ℤ) (p : Option ℤ) : ℚ := (p.map W).getD (W d)

/-- The row shows the value of its day and a step from `y`. -/
structure StepsFrom (r : FactDailyAccountValue Id) (y : ℚ) : Prop where
  walletValue : r.walletValue = some (W r.dateId)
  ne_zero : W r.dateId ≠ 0
  priceChange : r.priceChange = W r.dateId - y
  percentageChange : r.percentageChange = Sql.roundTo 2 ((W r.dateId - y) / y * 100)

variable {W} {rows : List (FactDailyAccountValue Id)}

theorem StepsFrom.unique {r : FactDailyAccountValue Id} {y z : ℚ} (h : StepsFrom W r y)
    (h' : StepsFrom W r z) : y = z := by
  have := h.priceChange.symm.trans h'.priceChange
  linarith

/-- A row that steps from `y` shows a change exactly from rows worth `y`. -/
theorem showsChange_iff {r : FactDailyAccountValue Id} {y : ℚ} (h : StepsFrom W r y)
    {p : Option (FactDailyAccountValue Id)}
    (hp : ∀ u, p = some u → u.walletValue = some (W u.dateId)) :
    ShowsChange r p ↔ y = baseValue W r.dateId (p.map fun u => u.dateId) := by
  cases p with
  | none =>
      simp only [ShowsChange, h.priceChange, h.percentageChange, baseValue, Option.map_none,
        Option.getD_none]
      constructor
      · rintro ⟨hchange, -⟩
        linarith
      · rintro rfl
        simp
  | some u =>
      simp only [ShowsChange, h.walletValue, hp u rfl, h.priceChange, h.percentageChange,
        baseValue, Option.map_some, Option.getD_some]
      constructor
      · rintro ⟨x, z, hx, hz, hchange, -⟩
        obtain rfl := Option.some.inj hx
        obtain rfl := Option.some.inj hz
        linarith
      · rintro rfl
        exact ⟨_, _, rfl, rfl, rfl, rfl⟩

/-- Rows step from the value of the day before them in `days`. -/
def StepsThrough (W : ℤ → ℚ) (days : List ℤ) (r : FactDailyAccountValue Id) : Prop :=
  ∀ p, Sql.IsPrevious id days r.dateId p → StepsFrom W r (baseValue W r.dateId p)

/-- A table of such rows is right when they step through its own days. -/
theorem consistent_rows_iff (hrows : ∀ r ∈ rows, ∃ y, StepsFrom W r y) :
    (∀ r ∈ rows, ∀ p, Sql.IsPrevious (fun r => r.dateId) rows r p → ShowsChange r p) ↔
      ∀ r ∈ rows, StepsThrough W (rows.map fun r => r.dateId) r := by
  have hvalue : ∀ {p : Option (FactDailyAccountValue Id)} {r : FactDailyAccountValue Id},
      Sql.IsPrevious (fun r => r.dateId) rows r p →
        ∀ u, p = some u → u.walletValue = some (W u.dateId) := by
    rintro p r hp u rfl
    obtain ⟨y, hy⟩ := hrows u hp.1
    exact hy.walletValue
  constructor
  · intro h r hr q hq
    obtain ⟨y, hy⟩ := hrows r hr
    obtain ⟨p, hp⟩ := Sql.exists_isPrevious (fun r => r.dateId) rows r
    have hpq : p.map (fun u => u.dateId) = q :=
      Sql.IsPrevious.unique (fun _ _ _ _ => id) hp.map_ord hq
    rwa [← hpq, ← (showsChange_iff hy (hvalue hp)).mp (h r hr p hp)]
  · intro h r hr p hp
    exact (showsChange_iff (h r hr _ hp.map_ord) (hvalue hp)).mpr rfl

end Rows

/-! ## The rows of one output -/

section Query

variable {Id : Type} [DecidableEq Id] (K : SurrogateKey Id) {W : ℤ → ℚ}
  {src : List AccountSnaphsot} {dt : List (DimTickers Id)} {dd : List DimDate}
  {prices : List (FactTickerPrices Id)} {ctx : RunContext} {isIncremental : Bool}

/-- Every day is computed with the value `W` gives it, and that is not zero. -/
def ValuesAre (W : ℤ → ℚ) (totals : List TotalValue) : Prop :=
  ∀ v ∈ totals, v.walletValue = some (W v.dateId) ∧ W v.dateId ≠ 0

variable (hW : ValuesAre W (totalValueOf src dt dd prices ctx isIncremental))
include hW

/-- Values have two decimals. -/
theorem ValuesAre.isGrid {v : TotalValue}
    (hv : v ∈ totalValueOf src dt dd prices ctx isIncremental) :
    Sql.IsGrid 2 (W v.dateId) :=
  isGrid_walletValue hv (hW v hv).1

/-- Without a zero value the query succeeds. -/
theorem exists_factDailyAccountValue_of_ne_zero :
    ∃ rows, factDailyAccountValue K src dt dd prices ctx isIncremental = .ok rows := by
  refine (exists_factDailyAccountValue_iff K).mpr fun v hv u hu => ?_
  cases u with
  | none => exact ⟨_, totalValueChangeRow_eq_ok_iff.mpr ⟨0, by simp, rfl⟩⟩
  | some u =>
      obtain ⟨hux, hne⟩ := hW u hu.1
      have hok : percentageChange v.walletValue ((some u).bind TotalValue.walletValue) =
          .ok (Sql.roundTo 2 ((W v.dateId - W u.dateId) / W u.dateId * 100)) := by
        rw [(hW v hv).1, Option.bind_some, hux, percentageChange_some hne]
      exact ⟨_, totalValueChangeRow_eq_ok_iff.mpr ⟨_, hok, rfl⟩⟩

/-- Every row steps from the value of the previous day of the output. -/
theorem stepsThrough_of_query {rows : List (FactDailyAccountValue Id)}
    (h : factDailyAccountValue K src dt dd prices ctx isIncremental = .ok rows)
    {r : FactDailyAccountValue Id} (hr : r ∈ rows) :
    StepsThrough W (rows.map fun r => r.dateId) r := by
  obtain ⟨v, hv, u, hu, c, hc, rfl⟩ := (mem_factDailyAccountValue K h).mp hr
  obtain ⟨percentage, hpercentage, rfl⟩ := totalValueChangeRow_eq_ok_iff.mp hc
  obtain ⟨hvalue, hne⟩ := hW v hv
  have hdays : ∀ d, d ∈ (totalValueOf src dt dd prices ctx isIncremental).map
      TotalValue.dateId ↔ d ∈ rows.map fun r => r.dateId := by
    intro d
    have hperm := (map_factDailyAccountValue_perm K h).map TotalValue.dateId
    rw [List.map_map] at hperm
    exact hperm.mem_iff.symm
  intro p hp
  obtain rfl : u.map TotalValue.dateId = p :=
    Sql.IsPrevious.unique (fun _ _ _ _ => id) (hu.map_ord.congr hdays) hp
  rw [hvalue] at hpercentage
  cases u with
  | none =>
      have hzero : (0 : ℚ) = percentage := by simpa using hpercentage
      exact ⟨hvalue, hne, by simp [factDailyAccountValueRow, baseValue],
        by simp [factDailyAccountValueRow, baseValue, ← hzero]⟩
  | some u =>
      obtain ⟨hux, hune⟩ := hW u hu.1
      have hchange : valueChange v.walletValue (some (W u.dateId)) =
          W v.dateId - W u.dateId := by
        rw [hvalue, valueChange_of_isGrid (hW.isGrid hv) (hW.isGrid hu.1)]
      rw [Option.bind_some, hux, percentageChange_some hune] at hpercentage
      refine ⟨hvalue, hne, ?_, (Except.ok.inj hpercentage).symm⟩
      simpa [factDailyAccountValueRow, baseValue, hux] using hchange

end Query

/-! ## One merge -/

section Merge

variable {Id : Type} [DecidableEq Id] (K : SurrogateKey Id) {W : ℤ → ℚ}

/-- Replacing the rows of the computed days leaves every day with the value it
steps from.  A computed day steps from its neighbour in the output, and must
have one of the same value in the table; a day that is kept must not get a
neighbour of another value. -/
structure KeepsSteps (W : ℤ → ℚ) (before output : List ℤ) : Prop where
  computed : ∀ d ∈ output, ∀ p q, Sql.IsPrevious id output d p →
    Sql.IsPrevious id (before ++ output) d q → baseValue W d p = baseValue W d q
  kept : ∀ d ∈ before, d ∉ output → ∀ p q, Sql.IsPrevious id before d p →
    Sql.IsPrevious id (before ++ output) d q → baseValue W d p = baseValue W d q

theorem KeepsSteps.congr {before output output' : List ℤ}
    (hdays : ∀ d, d ∈ output ↔ d ∈ output') (h : KeepsSteps W before output) :
    KeepsSteps W before output' := by
  have hall : ∀ d, d ∈ before ++ output' ↔ d ∈ before ++ output := by
    intro d
    rw [List.mem_append, List.mem_append, hdays d]
  constructor
  · intro d hd p q hp hq
    exact h.computed d ((hdays d).mpr hd) p q (hp.congr fun d => (hdays d).symm)
      (hq.congr hall)
  · intro d hd hnew p q hp hq
    exact h.kept d hd (fun hd' => hnew ((hdays d).mp hd')) p q hp (hq.congr hall)

/-- After a merge every row steps through the days of the table exactly when no
day has lost the value it steps from.  `hid` says that ids stand for days here,
which is the case when no day changes its value. -/
theorem stepsThrough_merge_iff {stored source merged : List (FactDailyAccountValue Id)}
    (hid : ∀ r ∈ stored, ∀ s ∈ source, (s.id = r.id ↔ s.dateId = r.dateId))
    (hstored : ∀ r ∈ stored, StepsThrough W (stored.map fun r => r.dateId) r)
    (hsource : ∀ r ∈ source, StepsThrough W (source.map fun r => r.dateId) r)
    (hmerge : Sql.merge (fun r => r.id) stored source = .ok merged) :
    (∀ r ∈ merged, StepsThrough W (merged.map fun r => r.dateId) r) ↔
      KeepsSteps W (stored.map fun r => r.dateId) (source.map fun r => r.dateId) := by
  have hdays : ∀ d, d ∈ merged.map (fun r => r.dateId) ↔
      d ∈ (stored.map fun r => r.dateId) ++ source.map fun r => r.dateId := by
    intro d
    rw [List.mem_append, List.mem_map, List.mem_map, List.mem_map, or_comm]
    exact Sql.exists_mem_of_merge_iff hmerge fun r hr s hs => (hid r hr s hs).mp
  -- a stored row is kept when its day is not computed
  have hkept : ∀ r ∈ stored, r.dateId ∉ (source.map fun r => r.dateId) ↔
      ∀ s ∈ source, s.id ≠ r.id := by
    intro r hr
    simp only [List.mem_map, not_exists, not_and]
    exact forall₂_congr fun s hs => not_congr (hid r hr s hs).symm
  constructor
  · intro h
    constructor
    · intro d hd p q hp hq
      obtain ⟨r, hr, rfl⟩ := List.mem_map.mp hd
      exact (hsource r hr p hp).unique (h r ((Sql.mem_of_merge hmerge).mpr (.inl hr)) q
        (hq.congr fun d => (hdays d).symm))
    · intro d hd hnew p q hp hq
      obtain ⟨r, hr, rfl⟩ := List.mem_map.mp hd
      have hmem := (Sql.mem_of_merge hmerge).mpr (.inr ⟨hr, (hkept r hr).mp hnew⟩)
      exact (hstored r hr p hp).unique (h r hmem q (hq.congr fun d => (hdays d).symm))
  · intro h r hr q hq
    have hq' := hq.congr hdays
    rcases (Sql.mem_of_merge hmerge).mp hr with hr | ⟨hr, hnone⟩
    · obtain ⟨p, hp⟩ := Sql.exists_isPrevious id (source.map fun r => r.dateId) r.dateId
      rw [← h.computed _ (List.mem_map_of_mem hr) p q hp hq']
      exact hsource r hr p hp
    · obtain ⟨p, hp⟩ := Sql.exists_isPrevious id (stored.map fun r => r.dateId) r.dateId
      rw [← h.kept _ (List.mem_map_of_mem hr) ((hkept r hr).mpr hnone) p q hp hq']
      exact hstored r hr p hp

end Merge

/-! ## One run -/

section Step

variable {Id : Type} [DecidableEq Id] (K : SurrogateKey Id) (W : ℤ → ℚ)

/-- Every day a run computes is worth what `W` says, and that is not zero. -/
def StableValues (run : DbtRun) (w : Warehouse Id) : Prop :=
  ∀ totals, queryTotalValue K dimDate run w
    (Sql.isIncremental w.factDailyAccountValue run.fullRefresh) = .ok totals →
    ValuesAre W totals

/-- An incremental run leaves every day with the value it steps from: a day of
the window steps from the same value in the output as in the table, and a stored
day outside it gets no neighbour of another value. -/
def KeepsNeighbours (run : DbtRun) (w : Warehouse Id) : Prop :=
  ∀ stored dt prices, run.fullRefresh = false → w.factDailyAccountValue = some stored →
    buildDimTickers K run = .ok dt → buildFactTickerPrices K dimDate run w = .ok prices →
    KeepsSteps W (stored.map fun r => r.dateId)
      (valuedDays run.sources.accountSnaphsot dt prices run.toRunContext true dimDate)

/-- The stored rows show the value of their day and a step from some value. -/
def ValueSteps (w : Warehouse Id) : Prop :=
  ∀ rows, w.factDailyAccountValue = some rows → ∀ r ∈ rows, ∃ y, StepsFrom W r y

variable {W} {run : DbtRun} {w : Warehouse Id} {dt : List (DimTickers Id)}
  {prices : List (FactTickerPrices Id)}

theorem StableValues.valuesAre (h : StableValues K W run w)
    (hdt : buildDimTickers K run = .ok dt)
    (hprices : buildFactTickerPrices K dimDate run w = .ok prices) :
    ValuesAre W (totalValueOf run.sources.accountSnaphsot dt dimDate prices run.toRunContext
      (Sql.isIncremental w.factDailyAccountValue run.fullRefresh)) :=
  h _ ((queryTotalValue_eq_ok_iff K).mpr ⟨dt, hdt, prices, hprices, rfl⟩)

/-- With stable values the model is built whenever its sources are. -/
theorem StableValues.exists_build (h : StableValues K W run w)
    (hdt : buildDimTickers K run = .ok dt)
    (hprices : buildFactTickerPrices K dimDate run w = .ok prices) :
    ∃ rows, buildFactDailyAccountValue K dimDate run w = .ok rows := by
  obtain ⟨rows, hrows⟩ :=
    exists_factDailyAccountValue_of_ne_zero K (h.valuesAre K hdt hprices)
  exact Sql.exists_materialize ((queryFactDailyAccountValue_eq_ok_iff K).mpr
    ⟨dt, hdt, prices, hprices, hrows⟩) (nodup_factDailyAccountValue_id K hrows)

theorem valueSteps_dbtRun (h : StableValues K W run w) (hw : ValueSteps W w) :
    ValueSteps W (dbtRun K dimDate run w) := by
  refine Sql.forall_mem_tableAfter (fun source hquery r hr => ?_) hw
  obtain ⟨dt, hdt, prices, hprices, hrows⟩ :=
    (queryFactDailyAccountValue_eq_ok_iff K).mp hquery
  obtain ⟨p, hp⟩ := Sql.exists_isPrevious id (source.map fun r => r.dateId) r.dateId
  exact ⟨_, stepsThrough_of_query K (h.valuesAre K hdt hprices) hrows hr p hp⟩

/-- One run keeps the change columns right exactly when it leaves every day with
the value it steps from.  `hkeyed` and `hsteps` are invariants of all runs, and
`hconsistent` is what the runs before have achieved. -/
theorem consistent_dbtRun_iff (h : StableValues K W run w) (hkeyed : ValueKeyed K w)
    (hsteps : ValueSteps W w) (hconsistent : Consistent w) :
    Consistent (dbtRun K dimDate run w) ↔ KeepsNeighbours K W run w := by
  have hsteps' := valueSteps_dbtRun K h hsteps
  rcases Sql.tableAfter_cases (fun r => r.id) w.factDailyAccountValue run.fullRefresh
    (queryFactDailyAccountValue K dimDate run w) with ⟨hfail, hafter⟩ |
      ⟨source, hmode, hquery, hafter⟩ |
      ⟨stored, source, merged, hmode, hstored, hquery, hmerge, hafter⟩
  · refine iff_of_true (fun rows hrows => hconsistent rows (hafter.symm.trans hrows)) ?_
    intro stored dt prices _ _ hdt hprices
    obtain ⟨rows, hrows⟩ := h.exists_build K hdt hprices
    exact absurd hrows (hfail rows)
  · refine iff_of_true (fun rows hrows => ?_) fun stored _ _ hfull hstored => ?_
    · obtain ⟨dt, hdt, prices, hprices, hsource⟩ :=
        (queryFactDailyAccountValue_eq_ok_iff K).mp hquery
      obtain rfl := Option.some.inj (hafter.symm.trans hrows)
      refine (consistent_rows_iff (hsteps' source hafter)).mpr fun r hr => ?_
      exact stepsThrough_of_query K (hmode ▸ h.valuesAre K hdt hprices) hsource hr
    · simp [Sql.isIncremental, hstored, hfull] at hmode
  · obtain ⟨dt, hdt, prices, hprices, hsource⟩ :=
      (queryFactDailyAccountValue_eq_ok_iff K).mp hquery
    have hfull : run.fullRefresh = false := by
      simpa [Sql.isIncremental, hstored] using hmode
    have hvalues := hmode ▸ h.valuesAre K hdt hprices
    have hid : ∀ r ∈ stored, ∀ s ∈ source, (s.id = r.id ↔ s.dateId = r.dateId) := by
      intro r hr s hs
      rw [hkeyed stored hstored r hr, factDailyAccountValue_id K hsource hs, valueId_inj]
      refine and_iff_left_of_imp fun hday => ?_
      obtain ⟨y, hy⟩ := hsteps stored hstored r hr
      obtain ⟨p, hp⟩ := Sql.exists_isPrevious id (source.map fun r => r.dateId) s.dateId
      rw [hy.walletValue, (stepsThrough_of_query K hvalues hsource hs p hp).walletValue, hday]
    have hsteps_stored := (consistent_rows_iff (hsteps stored hstored)).mp
      (hconsistent stored hstored)
    have hmerged := stepsThrough_merge_iff hid hsteps_stored
      (fun r hr => stepsThrough_of_query K hvalues hsource hr) hmerge
    have hdays : ∀ d, d ∈ source.map (fun r => r.dateId) ↔
        d ∈ valuedDays run.sources.accountSnaphsot dt prices run.toRunContext true dimDate :=
      fun d => mem_dateId_iff K isDateDim_dimDate hdt hsource
    constructor
    · intro hafterConsistent stored' dt' prices' _ hstored' hdt' hprices'
      obtain rfl := Option.some.inj (hstored.symm.trans hstored')
      obtain rfl := Except.ok.inj (hdt.symm.trans hdt')
      obtain rfl := Except.ok.inj (hprices.symm.trans hprices')
      exact (hmerged.mp ((consistent_rows_iff (hsteps' merged hafter)).mp
        (hafterConsistent merged hafter))).congr hdays
    · intro hkeeps rows hrows
      obtain rfl := Option.some.inj (hafter.symm.trans hrows)
      refine (consistent_rows_iff (hsteps' merged hafter)).mpr (hmerged.mpr ?_)
      exact (hkeeps stored dt prices hfull hstored hdt hprices).congr fun d => (hdays d).symm

end Step

/-! ## Sequences of runs -/

section Runs

variable {Id : Type} [DecidableEq Id] (K : SurrogateKey Id) {W : ℤ → ℚ}
  {runs : ℕ → DbtRun}

theorem valueSteps_warehouseAfter {n : ℕ}
    (h : ∀ m < n, StableValues K W (runs m) (warehouseAfter K dimDate runs m)) :
    ValueSteps W (warehouseAfter K dimDate runs n) := by
  induction n with
  | zero => exact fun rows hrows => by cases hrows
  | succ n ih =>
      exact valueSteps_dbtRun K (h n n.lt_succ_self) (ih fun m hm => h m (hm.trans n.lt_succ_self))

/-- When no day ever changes its value, the change columns are right after every
run exactly when every incremental run leaves the days with the values they step
from.

`W` is the value of each day and `h` says that every run computes a day with
this value, and that it is not zero; then a day has one row and no query divides
by zero.  A run computes the steps within its window only.  It can be wrong at
the first day of the window, which has no row before it there, and at a stored
day that gets a new neighbour; `KeepsNeighbours` compares the values on both
sides of these. -/
theorem consistent_iff_keepsNeighbours (n : ℕ)
    (h : ∀ m < n, StableValues K W (runs m) (warehouseAfter K dimDate runs m)) :
    (∀ m ≤ n, Consistent (warehouseAfter K dimDate runs m)) ↔
      ∀ m < n, KeepsNeighbours K W (runs m) (warehouseAfter K dimDate runs m) := by
  refine Sql.forall_le_iff_forall_lt (fun rows hrows => by cases hrows) fun m hm hc => ?_
  exact consistent_dbtRun_iff K (h m hm) (valueKeyed_warehouseAfter K)
    (valueSteps_warehouseAfter K fun k hk => h k (hk.trans hm)) hc

end Runs

/-! ## The first day of a window -/

/-- What the runs of 2024-05-01 and 2024-05-03 see.  The figures of a day are
those of the 24 hours before, so that in the second run the prices of the last
of April lie before the window. -/
def windowStartRun (today : Date) : DbtRun where
  currentDate := today
  currentTimestamp := Sql.midnight today
  daysToIngest := daysToIngest
  sources :=
    { tickerPrices := [⟨some "BTCUSDT", Sql.midnight 19843⟩]
      tickerPriceChange :=
        [TickerPriceChange.ofPrices "BTCUSDT" 50000 50000 1714348800000 (Sql.midnight 19843),
          TickerPriceChange.ofPrices "BTCUSDT" 60000 60000 1714435200000
            (Sql.midnight 19844)]
      accountSnaphsot :=
        [⟨some "BTC", some 1, some 0, Sql.midnight 19843⟩,
          ⟨some "BTC", some 1, some 0, Sql.midnight 19844⟩] }
  nameMapping := [⟨some "Bitcoin", some "BTC"⟩]
  fullRefresh := false

def windowStart : ℕ → DbtRun := (windowStartRun 19844).thenRepeat (windowStartRun 19846)

/-- What the two days are worth. -/
def windowStartValue (d : ℤ) : ℚ := if d = 20240430 then 50000 else 60000

private theorem sameDates_windowStart :
    ∀ n, SameDates dimDate (dateDim 19843 19844) (windowStart n) :=
  forall_thenRepeat (sameDates_dimDate (by decide) (by decide) (by decide))
    (sameDates_dimDate (by decide) (by decide) (by decide))

private theorem stableValues_windowStart : ∀ m < 2, StableValues listing windowStartValue
    (windowStart m) (warehouseAfter listing dimDate windowStart m) := by
  have htotals : ∀ m < 2, queryTotalValue listing (dateDim 19843 19844) (windowStart m)
      (warehouseAfter listing (dateDim 19843 19844) windowStart m)
      (Sql.isIncremental (warehouseAfter listing (dateDim 19843 19844) windowStart
        m).factDailyAccountValue (windowStart m).fullRefresh) =
      .ok (if m = 0 then [⟨20240430, some 50000⟩, ⟨20240501, some 60000⟩]
        else [⟨20240501, some 60000⟩]) := by
    decide +kernel
  intro m hm totals hquery
  rw [queryTotalValue_congr listing (sameDates_windowStart m),
    warehouseAfter_congr listing sameDates_windowStart, htotals m hm] at hquery
  obtain rfl := Except.ok.inj hquery
  unfold ValuesAre
  revert m
  decide +kernel

theorem consistent_iff_keepsNeighbours_windowStart :
    (∀ m ≤ 2, Consistent (warehouseAfter listing dimDate windowStart m)) ↔
      ∀ m < 2, KeepsNeighbours listing windowStartValue (windowStart m)
        (warehouseAfter listing dimDate windowStart m) :=
  consistent_iff_keepsNeighbours listing 2 stableValues_windowStart

private theorem table_windowStart :
    (warehouseAfter listing (dateDim 19843 19844) windowStart 2).factDailyAccountValue.map
      (fun rows => rows.map fun r => (r.dateId, r.walletValue, r.priceChange)) =
      some [(20240430, some 50000, 0), (20240501, some 60000, 0)] := by
  decide +kernel

/-- The run of 2024-05-03 overwrites the change of 2024-05-01 by zero. -/
theorem not_consistent_windowStart :
    History windowStart ∧ (∀ m < 2, StableValues listing windowStartValue (windowStart m)
        (warehouseAfter listing dimDate windowStart m)) ∧
      ¬ Consistent (warehouseAfter listing dimDate windowStart 2) := by
  refine ⟨history_thenRepeat (Sources.Extends.refl _) (by decide), stableValues_windowStart,
    fun hconsistent => ?_⟩
  rw [warehouseAfter_congr listing sameDates_windowStart] at hconsistent
  obtain ⟨rows, hrows, htable⟩ := Option.map_eq_some_iff.mp table_windowStart
  obtain ⟨april, _, rfl, hapril, htable⟩ := List.map_eq_cons_iff.mp htable
  obtain ⟨may, _, rfl, hmay, htable⟩ := List.map_eq_cons_iff.mp htable
  obtain rfl := List.map_eq_nil_iff.mp htable
  simp only [Prod.mk.injEq] at hapril hmay
  have hprevious : Sql.IsPrevious (fun r => r.dateId) [april, may] may (some april) := by
    refine ⟨by simp, by simp [hapril, hmay], fun r hr hlt => ?_⟩
    rcases List.mem_pair.mp hr with rfl | rfl
    · exact le_rfl
    · exact absurd hlt (lt_irrefl _)
  obtain ⟨x, y, hx, hy, hchange, -⟩ := hconsistent _ hrows may (by simp) _ hprevious
  rw [hmay.2.1] at hx
  rw [hapril.2.1] at hy
  rw [hmay.2.2, ← Option.some.inj hx, ← Option.some.inj hy] at hchange
  norm_num at hchange

end BinanceElt
