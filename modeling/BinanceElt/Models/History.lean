import BinanceElt.Models.Run

/-!
# Histories of runs

What the sequences of runs of interest have in common: append-only sources,
dates that do not decrease, ticker ids that later runs keep, and the source rows
some window has covered.  `run_dbt.sh` loads the seed before every run and asks
for a full refresh on Sundays.

## Main results

* `History.extends_of_le` — what a later run of a history sees.
* `stableIds_of_append` — prices appended in time order change no ticker id.
* `covered_succ` — what one more run covers.
-/

namespace BinanceElt

open Sql (Date Timestamp QueryError)

variable {Id : Type} (K : SurrogateKey Id)

/-! ## Append-only sources -/

/-- The runs see append-only sources, on dates that do not decrease.  Nothing is
said about how often they run, about their seeds, or about which of them
succeed. -/
structure History (runs : ℕ → DbtRun) : Prop where
  extends_succ : ∀ n, (runs (n + 1)).sources.Extends (runs n).sources
  currentDate_le_succ : ∀ n, (runs n).currentDate ≤ (runs (n + 1)).currentDate

namespace History

variable {runs : ℕ → DbtRun} (h : History runs) {m n : ℕ}
include h

theorem extends_of_le (hmn : m ≤ n) : (runs n).sources.Extends (runs m).sources := by
  induction n, hmn using Nat.le_induction with
  | base => exact Sources.Extends.refl _
  | succ n _ ih => exact (h.extends_succ n).trans ih

theorem mem_tickerPriceChange (hmn : m ≤ n) {tp : TickerPriceChange}
    (htp : tp ∈ (runs m).sources.tickerPriceChange) :
    tp ∈ (runs n).sources.tickerPriceChange :=
  (h.extends_of_le hmn).tickerPriceChange.subset htp

end History

/-- A build of `dim_tickers` that a later run completes, an earlier one does:
the query fails at a short symbol only, and an earlier run sees no other symbols
than the later one. -/
theorem History.exists_buildDimTickers {runs : ℕ → DbtRun} (h : History runs) {m n : ℕ}
    (hmn : m ≤ n) {dt : List (DimTickers Id)}
    (hdt : buildDimTickers K (runs n) = .ok dt) :
    ∃ dt', buildDimTickers K (runs m) = .ok dt' := by
  refine (exists_dimTickers_iff K).mpr fun tp htp => ?_
  exact (exists_dimTickers_iff K).mp ⟨dt, hdt⟩ tp
    ((h.extends_of_le hmn).tickerPrices.subset htp)

/-! ## Covered rows and stable ids -/

/-- A row with this ingestion date was visible to one of the runs up to `n`, in
the window of that run; a first build and a full refresh have no window.  A row
that arrives later than `days_to_ingest` days after its date is covered by a
full refresh only. -/
def Covered (runs : ℕ → DbtRun) (n : ℕ) (date : Date) (visible : Sources → Prop) : Prop :=
  ∃ k ≤ n, visible (runs k).sources ∧ (k = 0 ∨ (runs k).fullRefresh = true ∨
    (runs k).currentDate - (runs k).daysToIngest ≤ date)

/-- The ids of `dim_tickers` are not changed by what a later run sees: every
ticker of the earlier build is in the later one, under the same name and with
the same first timestamp. -/
def StableIds (earlier later : DbtRun) : Prop :=
  ∀ dt dt', buildDimTickers K earlier = .ok dt → buildDimTickers K later = .ok dt' →
    ∀ t ∈ dt, ∃ t' ∈ dt', t'.id = t.id

/-- Under a fixed mapping, prices that are appended in time order change no id.
This is how the ingest function and an unchanged seed file give `StableIds`. -/
theorem stableIds_of_append {earlier later : DbtRun} {new : List TickerPrices}
    (hprices : later.sources.tickerPrices = earlier.sources.tickerPrices ++ new)
    (hle : ∀ a ∈ earlier.sources.tickerPrices, ∀ b ∈ new, a.timestamp ≤ b.timestamp)
    (hmapping : later.nameMapping = earlier.nameMapping) : StableIds K earlier later := by
  intro dt dt' hdt hdt' t ht
  obtain ⟨-, -, hname, -⟩ := (mem_dimTickers K hdt).mp ht
  rw [buildDimTickers, hprices] at hdt'
  exact exists_id_dimTickers_append K hdt hdt' hle ht (hmapping ▸ hname)

theorem stableIds_of_eq {earlier later : DbtRun}
    (hprices : later.sources.tickerPrices = earlier.sources.tickerPrices)
    (hmapping : later.nameMapping = earlier.nameMapping) : StableIds K earlier later :=
  stableIds_of_append K (by rw [hprices, List.append_nil]) (by simp) hmapping

section Covered

variable {runs : ℕ → DbtRun} {n : ℕ} {date : Date} {visible : Sources → Prop}

theorem covered_zero : Covered runs 0 date visible ↔ visible (runs 0).sources := by
  constructor
  · rintro ⟨k, hk, hvisible, -⟩
    rwa [Nat.le_zero.mp hk] at hvisible
  · exact fun hvisible => ⟨0, le_rfl, hvisible, .inl rfl⟩

/-- A run covers what it sees in its window. -/
theorem covered_succ : Covered runs (n + 1) date visible ↔
    Covered runs n date visible ∨ (visible (runs (n + 1)).sources ∧
      ((runs (n + 1)).fullRefresh = true ∨
        (runs (n + 1)).currentDate - (runs (n + 1)).daysToIngest ≤ date)) := by
  constructor
  · rintro ⟨k, hk, hvisible, hwindow⟩
    rcases Nat.le_succ_iff.mp hk with hk | rfl
    · exact .inl ⟨k, hk, hvisible, hwindow⟩
    · exact .inr ⟨hvisible, hwindow.resolve_left (Nat.succ_ne_zero n)⟩
  · rintro (⟨k, hk, hvisible, hwindow⟩ | ⟨hvisible, hwindow⟩)
    · exact ⟨k, hk.trans n.le_succ, hvisible, hwindow⟩
    · exact ⟨n + 1, le_rfl, hvisible, .inr hwindow⟩

end Covered

theorem StableIds.refl (run : DbtRun) : StableIds K run run := by
  intro dt dt' hdt hdt' t ht
  obtain rfl := Except.ok.inj (hdt.symm.trans hdt')
  exact ⟨t, ht, rfl⟩

/-! ## Two kinds of runs -/

/-- A first run, and a later one that is repeated from then on. -/
def DbtRun.thenRepeat (first later : DbtRun) : ℕ → DbtRun
  | 0 => first
  | _ + 1 => later

theorem history_thenRepeat {first later : DbtRun}
    (hsources : later.sources.Extends first.sources)
    (hdate : first.currentDate ≤ later.currentDate) :
    History (first.thenRepeat later) where
  extends_succ
    | 0 => hsources
    | _ + 1 => Sources.Extends.refl _
  currentDate_le_succ
    | 0 => hdate
    | _ + 1 => le_refl later.currentDate

theorem forall_thenRepeat {first later : DbtRun} {P : DbtRun → Prop} (hfirst : P first)
    (hlater : P later) : ∀ n, P (first.thenRepeat later n)
  | 0 => hfirst
  | _ + 1 => hlater

/-- A full refresh with one price and one balance of 2024-05-01. -/
def firstDay : DbtRun where
  currentDate := 19844
  currentTimestamp := Sql.midnight 19844
  daysToIngest := daysToIngest
  sources :=
    { tickerPrices := [⟨some "BTCUSDT", Sql.midnight 19844⟩]
      tickerPriceChange :=
        [TickerPriceChange.ofPrices "BTCUSDT" 60000 50000 1714435200000 (Sql.midnight 19844)]
      accountSnaphsot := [⟨some "BTC", some 1, some 0, Sql.midnight 19844⟩] }
  nameMapping := [⟨some "Bitcoin", some "BTC"⟩]
  fullRefresh := true

/-- A run over the same sources on a later day that is no Sunday. -/
def laterDay (today : Date) : DbtRun :=
  { firstDay with currentDate := today, fullRefresh := false }

/-! ## `run_dbt.sh` -/

/-- What one execution of the script finds: the sources, the seed file and the
clock.  The date decides about the full refresh, and `now` is what
`current_timestamp` returns. -/
structure Execution where
  sources : Sources
  seed : List NameMapping
  today : Date
  now : Timestamp

/-- The run the script starts after `dbt seed`. -/
def Execution.run (e : Execution) : DbtRun where
  currentDate := e.today
  currentTimestamp := e.now
  daysToIngest := daysToIngest
  sources := e.sources
  nameMapping := e.seed
  fullRefresh := Sql.isoWeekday e.today == 7

end BinanceElt
