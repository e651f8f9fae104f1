import BinanceElt.Models.PriceRuns

/-!
# The unique key of `fact_ticker_prices`

`unique_key` makes dbt merge on the id; nothing checks that the ids of one
query are distinct, and the query keeps every copy of a row that is delivered
twice.  Copies are inserted by the run that first sees them, and from then on
every incremental run that still reads them presents `MERGE` with two rows for
one stored row.

A run whose statement is aborted, by a time outside the range of
`TIMESTAMP_MILLIS`, presents nothing and stores nothing: it leaves the table,
and with it the mode of the next run, as they were.

## Main results

* `honoursKey_iff` — the key is honoured as long as no run that builds reads two
  rows with the same symbol, ingestion date, rounded mid price and open time.
* `not_honoursKey_deliveredTwice` — one row, delivered twice.
-/

namespace BinanceElt

open Sql (Date Timestamp QueryError)

variable {Id : Type} [DecidableEq Id] (K : SurrogateKey Id)

/-- After each of the first `n` runs ids are distinct, and no incremental one of
them computed two rows with the id of one stored row.  A run whose statement is
aborted computes nothing. -/
structure HonoursKey (runs : ℕ → PriceRun Id) (n : ℕ) : Prop where
  nodup_id : ∀ m ≤ n, ∀ rows, pricesAfter K runs m = some rows →
    (rows.map fun r => r.id).Nodup
  match_le_one : ∀ m < n, ∀ stored, pricesAfter K runs m = some stored →
    (runs m).fullRefresh = false → ∀ source, (runs m).query K true = .ok source →
      ∀ t ∈ stored, (source.filter fun s => s.id = t.id).length ≤ 1

section Runs

omit [DecidableEq Id] in
/-- The source rows the run reads. -/
def PriceRun.readRows (run : PriceRun Id) (isIncremental : Bool) : List TickerPriceChange :=
  BinanceElt.readRows run.tickerPriceChange run.dimTickers run.dimDate run.toRunContext
    isIncremental

omit [DecidableEq Id] in
/-- A run that builds, if it does, reads no two source rows with the same
symbol, ingestion date, rounded mid price and open time. -/
def PriceRun.RepeatsNoKey (run : PriceRun Id) (isIncremental : Bool) : Prop :=
  (∀ tp ∈ run.readRows isIncremental, tp.InRange) →
    ((run.readRows isIncremental).map sourceKey).Nodup

omit [DecidableEq Id] in
theorem PriceRun.repeatsNoKey_iff {run : PriceRun Id} {isIncremental : Bool}
    (hdt : (run.dimTickers.map DimTickers.id).Nodup)
    (hdd : (run.dimDate.map DimDate.id).Nodup) :
    run.RepeatsNoKey isIncremental ↔ ∀ source, run.query K isIncremental = .ok source →
      (source.map fun r => r.id).Nodup := by
  have hnodup : ((factTickerPrices K run.tickerPriceChange run.dimTickers run.dimDate
      run.toRunContext isIncremental).map fun r => r.id).Nodup ↔
        ((run.readRows isIncremental).map sourceKey).Nodup :=
    nodup_factTickerPrices_id_iff K hdt hdd
  constructor
  · intro h source hquery
    obtain ⟨hrange, rfl⟩ := (selectFactTickerPrices_eq_ok_iff K).mp hquery
    exact hnodup.mpr (h hrange)
  · exact fun h hrange => hnodup.mp
      (h _ ((selectFactTickerPrices_eq_ok_iff K).mpr ⟨hrange, rfl⟩))

variable (runs : ℕ → PriceRun Id) (hdt : ∀ n, ((runs n).dimTickers.map DimTickers.id).Nodup)
  (hdd : ∀ n, ((runs n).dimDate.map DimDate.id).Nodup)
include hdt hdd

/-- One more run honours the key when it repeats no source key. -/
theorem honoursKey_succ_iff {n : ℕ} (h : HonoursKey K runs n) :
    HonoursKey K runs (n + 1) ↔ (runs n).RepeatsNoKey
      (Sql.isIncremental (pricesAfter K runs n) (runs n).fullRefresh) := by
  have hrun := Sql.nodup_tableAfter_iff (fun r : FactTickerPrices Id => r.id)
    (runs n).fullRefresh ((runs n).query K) (h.nodup_id n le_rfl)
  rw [PriceRun.repeatsNoKey_iff K (hdt n) (hdd n)]
  refine Iff.trans ⟨fun hnext => ?_, fun hnext => ?_⟩ hrun
  · exact ⟨hnext.nodup_id (n + 1) le_rfl, hnext.match_le_one n n.lt_succ_self⟩
  · constructor
    · intro m hm
      rcases Nat.le_succ_iff.mp hm with hm | rfl
      · exact h.nodup_id m hm
      · exact hnext.1
    · intro m hm
      rcases Nat.lt_succ_iff_lt_or_eq.mp hm with hm | rfl
      · exact h.match_le_one m hm
      · exact hnext.2

/-- The first `n` runs honour the key exactly when none of them that builds
reads two source rows with the same symbol, ingestion date, rounded mid price
and open time.

`hdt` and `hdd` say that the dimensions of every run have unique ids.  Which
rows a run reads depends on its mode, and the mode on whether an earlier run has
stored a table; a run that is aborted by `TIMESTAMP_MILLIS` may read what it
likes. -/
theorem honoursKey_iff (n : ℕ) :
    HonoursKey K runs n ↔ ∀ m < n, (runs m).RepeatsNoKey
      (Sql.isIncremental (pricesAfter K runs m) (runs m).fullRefresh) := by
  induction n with
  | zero =>
      refine iff_of_true ⟨fun m hm rows hrows => ?_, fun m hm => absurd hm m.not_lt_zero⟩
        fun m hm => absurd hm m.not_lt_zero
      obtain rfl := Nat.le_zero.mp hm
      cases hrows
  | succ n ih =>
      constructor
      · intro h m hm
        have hn : HonoursKey K runs n :=
          ⟨fun k hk => h.nodup_id k (hk.trans n.le_succ),
            fun k hk => h.match_le_one k (hk.trans n.lt_succ_self)⟩
        rcases Nat.lt_succ_iff_lt_or_eq.mp hm with hm | rfl
        · exact ih.mp hn m hm
        · exact (honoursKey_succ_iff K runs hdt hdd hn).mp h
      · intro h
        refine (honoursKey_succ_iff K runs hdt hdd (ih.mpr fun m hm => ?_)).mpr (h n n.lt_succ_self)
        exact h m (hm.trans n.lt_succ_self)

end Runs

/-! ## One row, delivered twice -/

/-- A run that finds the same ticker data ingested at each of these times. -/
def deliveries (times : List Timestamp) : PriceRun (List ℤ) where
  currentDate := 19844
  currentTimestamp := Sql.midnight 19845
  daysToIngest := daysToIngest
  tickerPriceChange := times.map fun time =>
    TickerPriceChange.ofPrices "BTCUSDT" 60000 50000 1714435200000 time
  dimTickers := [⟨[1], some "BTCUSDT", some "BTC", "Bitcoin", some (Sql.midnight 19844),
    Sql.midnight 19845⟩]
  dimDate := dateDim 19844 19844
  fullRefresh := false

/-- One delivery, then a minute later another one. -/
def deliveredOnce : PriceRun (List ℤ) := deliveries [Sql.midnight 19844]

def deliveredTwice : PriceRun (List ℤ) :=
  deliveries [Sql.midnight 19844, Sql.midnight 19844 + 60000000]

theorem honoursKey_iff_deliveredOnce : HonoursKey listing (fun _ => deliveredOnce) 2 := by
  have hkeys : ∀ isIncremental, ((deliveredOnce.readRows isIncremental).map sourceKey).Nodup := by
    intro isIncremental
    cases isIncremental <;> decide +kernel
  exact (honoursKey_iff listing (fun _ => deliveredOnce) (fun _ => List.nodup_singleton _)
    (fun _ => (isDateDim_dateDim _ _).nodup_id) 2).mpr fun _ _ _ => hkeys _

/-- The first run stores the two copies under one id, and the next one, which is
not aborted either, finds two rows for each of them. -/
theorem not_honoursKey_deliveredTwice :
    (deliveredTwice.dimTickers.map DimTickers.id).Nodup ∧
      (deliveredTwice.dimDate.map DimDate.id).Nodup ∧
      ∃ rows, pricesAfter listing (fun _ => deliveredTwice) 1 = some rows ∧
        ¬ (rows.map fun r => r.id).Nodup ∧
        ∃ source, deliveredTwice.query listing true = .ok source ∧
          ∃ t ∈ rows, 1 < (source.filter fun s => s.id = t.id).length := by
  refine ⟨List.nodup_singleton _, (isDateDim_dateDim _ _).nodup_id, ?_⟩
  decide +kernel

end BinanceElt
