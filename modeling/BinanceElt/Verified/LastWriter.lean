import BinanceElt.Models.History
import BinanceElt.Sql.Provenance

/-!
# Where the rows of the facts come from

After any sequence of runs a fact holds the rows whose ids were last written with
them: by a run that no later full refresh followed, nor a later run with the same
id in its output.  The output of an incremental run is of the days of its window,
and the day is part of every id, so that the rows of a day that all runs have
left behind do not change any more until a full refresh.

## Main results

* `stored_iff_lastWrite` — the rows of the three facts after every run.
* `closedDay_unchanged` — the rows of a day before the window stay as they are.
-/

namespace BinanceElt

open Sql (Date Timestamp QueryError)

variable {Id : Type} [DecidableEq Id] (K : SurrogateKey Id)

/-! ## The last writer -/

section LastWrite

variable (dd : List DimDate) (runs : ℕ → DbtRun)

/-- `fact_ticker_prices` and its queries along a sequence of runs. -/
def LastPrice : ℕ → FactTickerPrices Id → Prop :=
  Sql.LastWrite (fun r => r.id) (fun k => (warehouseAfter K dd runs k).factTickerPrices)
    (fun k => (runs k).fullRefresh) fun k => queryFactTickerPrices K dd (runs k)

def LastQuantity : ℕ → FactDailyTickersQuantity Id → Prop :=
  Sql.LastWrite (fun r => r.id) (fun k => (warehouseAfter K dd runs k).factDailyTickersQuantity)
    (fun k => (runs k).fullRefresh) fun k => queryFactDailyTickersQuantity K dd (runs k)

def LastValue : ℕ → FactDailyAccountValue Id → Prop :=
  Sql.LastWrite (fun r => r.id) (fun k => (warehouseAfter K dd runs k).factDailyAccountValue)
    (fun k => (runs k).fullRefresh)
    fun k => queryFactDailyAccountValue K dd (runs k) (warehouseAfter K dd runs k)

/-- What the facts hold after some runs is what was written last.

A row is in a table exactly when one of the runs computed it and no later run
has written its id again or replaced the table; `LastPrice`, `LastQuantity` and
`LastValue` say this for the three facts.  The runs may fail as they like, in
any model, and the sources may change between them. -/
theorem stored_iff_lastWrite (n : ℕ) :
    (∀ r, Sql.Contains (warehouseAfter K dd runs n).factTickerPrices r ↔
        LastPrice K dd runs n r) ∧
      (∀ r, Sql.Contains (warehouseAfter K dd runs n).factDailyTickersQuantity r ↔
        LastQuantity K dd runs n r) ∧
      ∀ r, Sql.Contains (warehouseAfter K dd runs n).factDailyAccountValue r ↔
        LastValue K dd runs n r :=
  ⟨Sql.contains_iff_lastWrite (fun k => (warehouseAfter K dd runs k).factTickerPrices) rfl
      (fun _ => rfl) n,
    Sql.contains_iff_lastWrite (fun k => (warehouseAfter K dd runs k).factDailyTickersQuantity) rfl
      (fun _ => rfl) n,
    Sql.contains_iff_lastWrite (fun k => (warehouseAfter K dd runs k).factDailyAccountValue) rfl
      (fun _ => rfl) n⟩

end LastWrite

/-! ## The days of an incremental output -/

section Window

variable {K} {dd : List DimDate} (hdd : IsDateDim dd) {run : DbtRun} {w : Warehouse Id}
include hdd

/-- A date id of the window of a run. -/
def DbtRun.InWindow (run : DbtRun) (dateId : ℤ) : Prop :=
  ∃ date, dateId = Sql.formatYmd date ∧ run.currentDate - run.daysToIngest ≤ date

omit [DecidableEq Id] hdd in
theorem DbtRun.InWindow.ne {dateId : ℤ} (h : run.InWindow dateId) {day : Date}
    (hday : day < run.currentDate - run.daysToIngest) : dateId ≠ Sql.formatYmd day := by
  obtain ⟨date, rfl, hdate⟩ := h
  exact fun heq => absurd (Sql.formatYmd_injective heq) (ne_of_gt (hday.trans_le hdate))

omit [DecidableEq Id] in
private theorem inWindow_of_ingests {d : DimDate} (hd : d ∈ dd)
    (hin : run.ingests true (some d.fullDate) = true) : run.InWindow d.id := by
  obtain ⟨date, hdate, hle⟩ := (run.toRunContext.ingests_incremental _).mp hin
  exact ⟨date, by rw [hdd.id_eq hd, Option.some.inj hdate], hle⟩

omit [DecidableEq Id] in
theorem inWindow_factTickerPrices {rows : List (FactTickerPrices Id)}
    (h : queryFactTickerPrices K dd run true = .ok rows) {r : FactTickerPrices Id}
    (hr : r ∈ rows) : run.InWindow r.dateId := by
  obtain ⟨dt, -, -, rfl⟩ := (queryFactTickerPrices_eq_ok_iff K).mp h
  obtain ⟨tp, -, t, -, d, hd, hjoin, hin, rfl⟩ := (mem_factTickerPrices K).mp hr
  exact inWindow_of_ingests hdd hd (hjoin.date ▸ hin)

theorem inWindow_currentPortfolio {src : List AccountSnaphsot} {dt : List (DimTickers Id)}
    {p : CurrentPortfolio Id} (hp : p ∈ currentPortfolio src dt dd run.toRunContext true) :
    run.InWindow p.dateId := by
  obtain ⟨g, hg, rfl⟩ := List.mem_map.mp hp
  obtain ⟨⟨r, hr, hkey⟩, -⟩ := Sql.mem_groupBy.mp hg
  obtain ⟨hjoin, hkeep⟩ := List.mem_filter.mp hr
  obtain ⟨-, hd, hdate⟩ := Sql.mem_innerJoin.mp hjoin
  have hin := (Bool.and_eq_true_iff.mp hkeep).2
  rw [← of_decide_eq_true hdate] at hin
  show run.InWindow g.1.2
  rw [← hkey]
  exact inWindow_of_ingests hdd hd hin

theorem inWindow_factDailyTickersQuantity {rows : List (FactDailyTickersQuantity Id)}
    (h : queryFactDailyTickersQuantity K dd run true = .ok rows)
    {r : FactDailyTickersQuantity Id} (hr : r ∈ rows) : run.InWindow r.dateId := by
  obtain ⟨dt, -, hrows⟩ := (queryFactDailyTickersQuantity_eq_ok_iff K).mp h
  exact inWindow_currentPortfolio hdd ((map_factDailyTickersQuantity_perm K hrows).mem_iff.mp
    (List.mem_map_of_mem hr))

theorem inWindow_factDailyAccountValue {rows : List (FactDailyAccountValue Id)}
    (h : queryFactDailyAccountValue K dd run w true = .ok rows)
    {r : FactDailyAccountValue Id} (hr : r ∈ rows) : run.InWindow r.dateId := by
  obtain ⟨dt, -, prices, -, hrows⟩ := (queryFactDailyAccountValue_eq_ok_iff K).mp h
  have htotal := (map_factDailyAccountValue_perm K hrows).mem_iff.mp (List.mem_map_of_mem hr)
  obtain ⟨⟨x, hx, hdate⟩, -⟩ := mem_totalValue.mp htotal
  obtain ⟨⟨f, c⟩, hjoin, rfl⟩ := List.mem_map.mp hx
  exact hdate ▸ inWindow_currentPortfolio hdd (Sql.mem_innerJoin.mp hjoin).2.1

end Window

/-! ## Closed days -/

section Closed

variable {dd : List DimDate} {runs : ℕ → DbtRun} {m n : ℕ} {day : Date}

/-- No run from `m` to `n` is a full refresh or has the day in its window.  The
day may be in the sources still; nothing reads it. -/
def ClosedDay (runs : ℕ → DbtRun) (m n : ℕ) (day : Date) : Prop :=
  ∀ k, m ≤ k → k < n → (runs k).fullRefresh = false ∧
    day < (runs k).currentDate - (runs k).daysToIngest

/-- The table is still there, with the same rows of this kind in the same
order. -/
def Unchanged {α : Type} (p : α → Bool) (old new : Option (List α)) : Prop :=
  ∀ stored, old = some stored → ∃ rows, new = some rows ∧ rows.filter p = stored.filter p

/-- The rows of a closed day, in all three facts, are those that were there when
it was closed.

`h` is about the runs only: none of them is a full refresh, and the day lies
before the window of each.  Not even the order of the rows changes, and a row
that the merge could only reach through a clash of ids is covered too: the day
is part of what every id hashes. -/
theorem closedDay_unchanged (hdd : IsDateDim dd) (hmn : m ≤ n) (h : ClosedDay runs m n day) :
    Unchanged (fun r => decide (r.dateId = Sql.formatYmd day))
        (warehouseAfter K dd runs m).factTickerPrices
        (warehouseAfter K dd runs n).factTickerPrices ∧
      Unchanged (fun r => decide (r.dateId = Sql.formatYmd day))
        (warehouseAfter K dd runs m).factDailyTickersQuantity
        (warehouseAfter K dd runs n).factDailyTickersQuantity ∧
      Unchanged (fun r => decide (r.dateId = Sql.formatYmd day))
        (warehouseAfter K dd runs m).factDailyAccountValue
        (warehouseAfter K dd runs n).factDailyAccountValue := by
  have hfull : ∀ k, m ≤ k → k < n → (runs k).fullRefresh = false := fun k hmk hkn =>
    (h k hmk hkn).1
  refine ⟨fun stored hstored => ?_, fun stored hstored => ?_, fun stored hstored => ?_⟩
  · refine Sql.filter_table_eq (fun k => (warehouseAfter K dd runs k).factTickerPrices)
      (fun _ => rfl) hmn hfull
      (fun k hmk hkn source hquery s hs => ?_) hstored
    have hne := (inWindow_factTickerPrices hdd hquery hs).ne (h k hmk hkn).2
    refine ⟨decide_eq_false hne, fun t hcontains hday hid => hne ?_⟩
    obtain ⟨rows, hrows, ht⟩ := hcontains
    obtain ⟨dt, -, -, rfl⟩ := (queryFactTickerPrices_eq_ok_iff K).mp hquery
    obtain ⟨tp, -, t', -, d, -, -, -, rfl⟩ := (mem_factTickerPrices K).mp hs
    have hkeyed := congrArg RecentDataWithId.id (pricesKeyed_warehouseAfter K rows hrows t ht)
    rw [hkeyed] at hid
    simp only [factTickerPricesRow, recentDataWithId, SurrogateKey.eq_iff, List.cons.injEq,
      KeyField.int.injEq] at hid
    exact hid.2.1.trans (of_decide_eq_true hday)
  · refine Sql.filter_table_eq (fun k => (warehouseAfter K dd runs k).factDailyTickersQuantity)
      (fun _ => rfl) hmn hfull (fun k hmk hkn source hquery s hs => ?_) hstored
    have hne := (inWindow_factDailyTickersQuantity hdd hquery hs).ne (h k hmk hkn).2
    refine ⟨decide_eq_false hne, fun t hcontains hday hid => hne ?_⟩
    obtain ⟨rows, hrows, ht⟩ := hcontains
    obtain ⟨dt, -, hsource⟩ := (queryFactDailyTickersQuantity_eq_ok_iff K).mp hquery
    rw [factDailyTickersQuantity_id K hsource hs,
      quantityKeyed_warehouseAfter K rows hrows t ht] at hid
    simp only [quantityId, SurrogateKey.eq_iff, List.cons.injEq, KeyField.int.injEq] at hid
    exact hid.2.1.trans (of_decide_eq_true hday)
  · refine Sql.filter_table_eq (fun k => (warehouseAfter K dd runs k).factDailyAccountValue)
      (fun _ => rfl) hmn hfull (fun k hmk hkn source hquery s hs => ?_) hstored
    have hne := (inWindow_factDailyAccountValue hdd hquery hs).ne (h k hmk hkn).2
    refine ⟨decide_eq_false hne, fun t hcontains hday hid => hne ?_⟩
    obtain ⟨rows, hrows, ht⟩ := hcontains
    obtain ⟨dt, -, prices, -, hsource⟩ := (queryFactDailyAccountValue_eq_ok_iff K).mp hquery
    rw [factDailyAccountValue_id K hsource hs, valueKeyed_warehouseAfter K rows hrows t ht,
      valueId_inj] at hid
    exact hid.1.trans (of_decide_eq_true hday)

end Closed

/-- 2024-05-01 is closed for the runs of 2024-05-07. -/
def closedRuns : ℕ → DbtRun := firstDay.thenRepeat (laterDay 19850)

theorem closedDay_unchanged_firstDay :
    Unchanged (fun r => decide (r.dateId = Sql.formatYmd 19844))
        (warehouseAfter listing (dateDim 19844 19850) closedRuns 1).factTickerPrices
        (warehouseAfter listing (dateDim 19844 19850) closedRuns 3).factTickerPrices ∧
      Unchanged (fun r => decide (r.dateId = Sql.formatYmd 19844))
        (warehouseAfter listing (dateDim 19844 19850) closedRuns 1).factDailyTickersQuantity
        (warehouseAfter listing (dateDim 19844 19850) closedRuns 3).factDailyTickersQuantity ∧
      Unchanged (fun r => decide (r.dateId = Sql.formatYmd 19844))
        (warehouseAfter listing (dateDim 19844 19850) closedRuns 1).factDailyAccountValue
        (warehouseAfter listing (dateDim 19844 19850) closedRuns 3).factDailyAccountValue := by
  have hclosed : ClosedDay closedRuns 1 3 19844 := by
    intro k hk _
    obtain ⟨k, rfl⟩ := Nat.exists_eq_succ_of_ne_zero (Nat.one_le_iff_ne_zero.mp hk)
    exact ⟨rfl, show (19844 : ℤ) < 19850 - 3 by decide⟩
  exact closedDay_unchanged listing (isDateDim_dateDim _ _) (by decide) hclosed

end BinanceElt
