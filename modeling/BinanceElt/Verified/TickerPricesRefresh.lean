import BinanceElt.Models.History
import BinanceElt.Models.SurrogateKey

/-!
# Incremental maintenance of `fact_ticker_prices`

The model maps source rows to table rows one by one, and the key of a row tells
which source row it comes from.  A merge is then a union, and the table holds
the rows of the source rows that some window has covered.

## Main results

* `exists_row_factTickerPrices_iff` — the rows a run computes, over the
  dimension of a later run.
* `tracks_dbtRun` — one run adds the source rows of its window.
* `factTickerPrices_perm_recomputed` — when every visible row was covered, the
  table is what a full refresh would build.
-/

namespace BinanceElt

open Sql (Date Timestamp QueryError)

variable {Id : Type} (K : SurrogateKey Id)

/-- `row` is what the source row `tp` contributes over the dimension `dt`. -/
def Contributes (dt : List (DimTickers Id)) (tp : TickerPriceChange)
    (row : RecentDataWithId Id) : Prop :=
  ∃ t ∈ dt, ∃ d ∈ dimDate, Joins tp t d ∧ row = recentDataWithId K (recentDataRow tp t d)

/-- The table holds, each once, the rows of the source rows in `S`. -/
structure Tracks (dt : List (DimTickers Id)) (S : TickerPriceChange → Prop)
    (table : List (FactTickerPrices Id)) : Prop where
  nodup_id : (table.map fun r => r.id).Nodup
  exists_row_iff : ∀ row, (∃ r ∈ table, r.toRecentDataWithId = row) ↔
    ∃ tp, S tp ∧ Contributes K dt tp row

/-! ## Rows and their ids -/

section Rows

variable {dt : List (DimTickers Id)} {src : List TickerPriceChange}

/-- Rows with one id come from one source row, and are the same. -/
theorem Contributes.eq_of_id_eq (hdt : (dt.map DimTickers.id).Nodup)
    (hkeys : (src.map sourceKey).Nodup) {tp tp' : TickerPriceChange}
    {row row' : RecentDataWithId Id} (h : Contributes K dt tp row)
    (h' : Contributes K dt tp' row') (htp : tp ∈ src) (htp' : tp' ∈ src)
    (hid : row.id = row'.id) : row = row' := by
  obtain ⟨t, ht, d, hd, hjoin, rfl⟩ := h
  obtain ⟨t', ht', d', hd', hjoin', rfl⟩ := h'
  obtain ⟨rfl, rfl, hkey⟩ := factTickerPrices_key_inj K hdt isDateDim_dimDate.nodup_id ht ht' hd hd'
    hjoin hjoin' hid
  rw [List.inj_on_of_nodup_map hkeys htp htp' hkey]

/-- Two tables that track the same source rows differ in `updated_timestamp`
only. -/
theorem Tracks.perm {S : TickerPriceChange → Prop}
    {table table' : List (FactTickerPrices Id)} (h : Tracks K dt S table)
    (h' : Tracks K dt S table') :
    (table.map FactTickerPrices.toRecentDataWithId).Perm
      (table'.map FactTickerPrices.toRecentDataWithId) := by
  have hnodup : ∀ {rows : List (FactTickerPrices Id)}, (rows.map fun r => r.id).Nodup →
      (rows.map FactTickerPrices.toRecentDataWithId).Nodup := fun hids =>
    Sql.nodup_map_of_imp hids fun _ _ _ _ heq => congrArg RecentDataWithId.id heq
  refine (List.perm_ext_iff_of_nodup (hnodup h.nodup_id) (hnodup h'.nodup_id)).mpr
    fun row => ?_
  rw [List.mem_map, List.mem_map, h.exists_row_iff, h'.exists_row_iff]

end Rows

/-! ## One run -/

section Step

variable {run later : DbtRun} {dt dt' : List (DimTickers Id)}

/-- Every symbol a run sees a price of is in the dimension it builds.  The
function asks for the same symbols in both requests, but at different times. -/
def SymbolsPresent (run : DbtRun) : Prop :=
  ∀ tp ∈ run.sources.tickerPriceChange,
    ∃ p ∈ run.sources.tickerPrices, p.symbol = tp.symbol

instance : DecidablePred SymbolsPresent := fun run =>
  inferInstanceAs (Decidable (∀ tp ∈ run.sources.tickerPriceChange,
    ∃ p ∈ run.sources.tickerPrices, p.symbol = tp.symbol))

/-- What a row contributes is the same over the dimension of a later run.
`hsymbols` says that the earlier dimension has the ticker already, `hids` that
it has its id, and `hunique` that the later dimension has no second one for the
symbol. -/
theorem contributes_iff_of_stableIds (hdt : buildDimTickers K run = .ok dt)
    (hdt' : buildDimTickers K later = .ok dt')
    (hunique : UniqueAbbreviations later.nameMapping) (hids : StableIds K run later)
    (hsymbols : SymbolsPresent run) {tp : TickerPriceChange}
    (htp : tp ∈ run.sources.tickerPriceChange) {row : RecentDataWithId Id} :
    Contributes K dt tp row ↔ Contributes K dt' tp row := by
  -- the rows of a ticker in the two dimensions have the same id
  have hrow : ∀ {t t' : DimTickers Id} {d : DimDate}, t.id = t'.id →
      recentDataWithId K (recentDataRow tp t d) =
        recentDataWithId K (recentDataRow tp t' d) := by
    intro t t' d hid
    simp only [recentDataRow, hid]
  constructor
  · rintro ⟨t, ht, d, hd, hjoin, rfl⟩
    obtain ⟨t', ht', hid⟩ := hids dt dt' hdt hdt' t ht
    obtain ⟨hsym, -⟩ := dimTickers_id_inj K hdt' hdt ht' ht hid
    refine ⟨t', ht', d, hd, ⟨?_, hjoin.date⟩, hrow hid.symm⟩
    rw [hsym]
    exact hjoin.symbol
  · rintro ⟨t', ht', d, hd, hjoin, rfl⟩
    obtain ⟨p, hp, hptp⟩ := hsymbols tp htp
    obtain ⟨t, ht, htp'⟩ := exists_symbol_dimTickers K hdt hp
    obtain ⟨t'', ht'', hid⟩ := hids dt dt' hdt hdt' t ht
    obtain ⟨hsym, -⟩ := dimTickers_id_inj K hdt' hdt ht'' ht hid
    obtain ⟨s, hs, hts⟩ := hjoin.symbol
    have htsym : t.symbol = some s := htp'.trans (hptp.trans hs)
    obtain rfl : t'' = t' := dimTickers_symbol_inj K hdt' hunique ht'' ht'
      (by rw [hsym, htsym, hts])
    exact ⟨t, ht, d, hd, ⟨⟨s, hs, htsym⟩, hjoin.date⟩, hrow hid⟩

/-- The rows a run computes, over the dimension of a later run. -/
theorem exists_row_factTickerPrices_iff (hdt : buildDimTickers K run = .ok dt)
    (hdt' : buildDimTickers K later = .ok dt')
    (hunique : UniqueAbbreviations later.nameMapping) (hids : StableIds K run later)
    (hsymbols : SymbolsPresent run) {isIncremental : Bool} (row : RecentDataWithId Id) :
    (∃ r ∈ factTickerPrices K run.sources.tickerPriceChange dt dimDate run.toRunContext
        isIncremental, r.toRecentDataWithId = row) ↔
      ∃ tp, (tp ∈ run.sources.tickerPriceChange ∧
        run.ingests isIncremental (some (Sql.extractDate tp.timestamp)) = true) ∧
        Contributes K dt' tp row := by
  constructor
  · rintro ⟨r, hr, rfl⟩
    obtain ⟨tp, htp, t, ht, d, hd, hjoin, hin, rfl⟩ := (mem_factTickerPrices K).mp hr
    exact ⟨tp, ⟨htp, hin⟩, (contributes_iff_of_stableIds K hdt hdt' hunique hids hsymbols
      htp).mp ⟨t, ht, d, hd, hjoin, rfl⟩⟩
  · rintro ⟨tp, ⟨htp, hin⟩, hcontr⟩
    obtain ⟨t, ht, d, hd, hjoin, rfl⟩ :=
      (contributes_iff_of_stableIds K hdt hdt' hunique hids hsymbols htp).mpr hcontr
    exact ⟨_, (mem_factTickerPrices K).mpr ⟨tp, htp, t, ht, d, hd, hjoin, hin, rfl⟩, rfl⟩

/-- A run reads no row outside the range of `TIMESTAMP_MILLIS` when a later one
that sees the same rows does not contribute any. -/
theorem inRange_of_readRows (hdt : buildDimTickers K run = .ok dt)
    (hdt' : buildDimTickers K later = .ok dt')
    (hunique : UniqueAbbreviations later.nameMapping) (hids : StableIds K run later)
    (hsymbols : SymbolsPresent run)
    (hvisible : run.sources.tickerPriceChange <+: later.sources.tickerPriceChange)
    (hrange : ∀ tp ∈ later.sources.tickerPriceChange, (∃ row, Contributes K dt' tp row) →
      tp.InRange) {isIncremental : Bool} :
    ∀ tp ∈ readRows run.sources.tickerPriceChange dt dimDate run.toRunContext isIncremental,
      tp.InRange := by
  intro tp hread
  obtain ⟨htp, ⟨t, ht, d, hd, hjoin⟩, -⟩ := mem_readRows.mp hread
  have hcontr : Contributes K dt tp (recentDataWithId K (recentDataRow tp t d)) :=
    ⟨t, ht, d, hd, hjoin, rfl⟩
  exact hrange tp (hvisible.subset htp)
    ⟨_, (contributes_iff_of_stableIds K hdt hdt' hunique hids hsymbols htp).mp hcontr⟩

variable [DecidableEq Id]

/-- An incremental run adds the source rows of its window to those the table
tracks; a full one starts again.

The rows are those over the dimension `dt'` of one later run, the same for all
steps, which `hids` and `hsymbols` make those over the dimension of the run
itself.  `hrange` keeps the statement from being aborted; `hkeys` makes a row
that is computed again replace the stored one, and no other. -/
theorem tracks_dbtRun (hdt : buildDimTickers K run = .ok dt)
    (hdt' : buildDimTickers K later = .ok dt')
    (hunique : UniqueAbbreviations later.nameMapping) (hids : StableIds K run later)
    (hsymbols : SymbolsPresent run)
    (hkeys : (later.sources.tickerPriceChange.map sourceKey).Nodup)
    (hvisible : run.sources.tickerPriceChange <+: later.sources.tickerPriceChange)
    (hrange : ∀ tp ∈ later.sources.tickerPriceChange, (∃ row, Contributes K dt' tp row) →
      tp.InRange)
    {S : TickerPriceChange → Prop} (hS : ∀ tp, S tp → tp ∈ later.sources.tickerPriceChange)
    {w : Warehouse Id} (hw : ∀ stored, w.factTickerPrices = some stored →
      Tracks K dt' S stored) {isIncremental : Bool}
    (hmode : Sql.isIncremental w.factTickerPrices run.fullRefresh = isIncremental) :
    ∃ table, (dbtRun K dimDate run w).factTickerPrices = some table ∧
      Tracks K dt' (fun tp => (isIncremental = true ∧ S tp) ∨
        (tp ∈ run.sources.tickerPriceChange ∧
          run.ingests isIncremental (some (Sql.extractDate tp.timestamp)) = true)) table := by
  have hquery : queryFactTickerPrices K dimDate run isIncremental =
      .ok (factTickerPrices K run.sources.tickerPriceChange dt dimDate run.toRunContext
        isIncremental) :=
    (queryFactTickerPrices_eq_ok_iff K).mpr ⟨dt, hdt,
      inRange_of_readRows K hdt hdt' hunique hids hsymbols hvisible hrange, rfl⟩
  have hnodup : ((factTickerPrices K run.sources.tickerPriceChange dt dimDate
      run.toRunContext isIncremental).map fun r => r.id).Nodup :=
    nodup_factTickerPrices_id K (hkeys.sublist (hvisible.sublist.map _))
      (nodup_dimTickers_id K hdt) isDateDim_dimDate.nodup_id
  have hrows : ∀ row, (∃ r ∈ factTickerPrices K run.sources.tickerPriceChange dt dimDate
        run.toRunContext isIncremental, r.toRecentDataWithId = row) ↔
      ∃ tp, (tp ∈ run.sources.tickerPriceChange ∧
        run.ingests isIncremental (some (Sql.extractDate tp.timestamp)) = true) ∧
        Contributes K dt' tp row :=
    exists_row_factTickerPrices_iff K hdt hdt' hunique hids hsymbols
  have hbuilt : ∃ table, buildFactTickerPrices K dimDate run w = .ok table :=
    Sql.exists_materialize (by rw [hmode]; exact hquery) hnodup
  obtain ⟨table, htable⟩ := hbuilt
  refine ⟨table, Sql.tableAfter_of_ok htable, ?_⟩
  obtain ⟨source, hsource, hcase⟩ := Sql.materialize_eq_ok_iff.mp htable
  rw [hmode] at hsource hcase
  obtain rfl := Except.ok.inj (hquery.symm.trans hsource)
  rcases hcase with ⟨hfull, rfl⟩ | ⟨hincr, stored, hstored, hmerge⟩
  · refine ⟨hnodup, fun row => (hrows row).trans (exists_congr fun tp => ?_)⟩
    simp [hfull]
  · have htracks := hw stored hstored
    -- a row of the output and a stored row with its id are the same
    have hsame : ∀ r ∈ stored, ∀ s ∈ factTickerPrices K run.sources.tickerPriceChange dt
        dimDate run.toRunContext isIncremental, s.id = r.id →
          s.toRecentDataWithId = r.toRecentDataWithId := by
      intro r hr s hs hid
      obtain ⟨tp, htp, hcontr⟩ := (htracks.exists_row_iff _).mp ⟨r, hr, rfl⟩
      obtain ⟨tp', ⟨htp', -⟩, hcontr'⟩ := (hrows _).mp ⟨s, hs, rfl⟩
      exact hcontr'.eq_of_id_eq K (nodup_dimTickers_id K hdt') hkeys hcontr
        (hvisible.subset htp') (hS tp htp) hid
    refine ⟨Sql.nodup_of_merge hmerge htracks.nodup_id hnodup, fun row => ?_⟩
    rw [Sql.exists_mem_of_merge_iff hmerge hsame, hrows, htracks.exists_row_iff,
      ← exists_or]
    refine exists_congr fun tp => ?_
    simp only [hincr, true_and, or_and_right]
    exact or_comm

end Step

/-! ## Sequences of runs -/

variable [DecidableEq Id] {runs : ℕ → DbtRun} {n : ℕ}

/-- The source rows the first runs have covered. -/
def CoveredPrice (runs : ℕ → DbtRun) (n : ℕ) (tp : TickerPriceChange) : Prop :=
  Covered runs n (Sql.extractDate tp.timestamp) fun s => tp ∈ s.tickerPriceChange

theorem coveredPrice_mem (h : History runs) {tp : TickerPriceChange}
    (htp : CoveredPrice runs n tp) : tp ∈ (runs n).sources.tickerPriceChange := by
  obtain ⟨k, hk, hvisible, -⟩ := htp
  exact h.mem_tickerPriceChange hk hvisible

/-- After every run the table tracks the rows covered so far.  The induction is
on the runs up to `n`, whose dimension all rows are taken over; `hrange` is
about rows that are read only, as others cannot abort a run. -/
theorem tracks_warehouseAfter (h : History runs) {dt : List (DimTickers Id)}
    (hdt : buildDimTickers K (runs n) = .ok dt)
    (hunique : UniqueAbbreviations (runs n).nameMapping)
    (hids : ∀ m ≤ n, StableIds K (runs m) (runs n))
    (hsymbols : ∀ m ≤ n, SymbolsPresent (runs m))
    (hkeys : ((runs n).sources.tickerPriceChange.map sourceKey).Nodup)
    (hrange : ∀ tp ∈ (runs n).sources.tickerPriceChange, (∃ row, Contributes K dt tp row) →
      tp.InRange) :
    ∀ m ≤ n, ∃ table, (warehouseAfter K dimDate runs (m + 1)).factTickerPrices = some table ∧
      Tracks K dt (CoveredPrice runs m) table := by
  intro m
  induction m with
  | zero =>
      intro hm
      obtain ⟨dm, hdm⟩ := h.exists_buildDimTickers K hm hdt
      obtain ⟨table, htable, htracks⟩ := tracks_dbtRun K hdm hdt hunique (hids 0 hm)
        (hsymbols 0 hm) hkeys (h.extends_of_le hm).tickerPriceChange hrange
        (S := fun _ => False) (fun _ => False.elim) (w := Warehouse.empty)
        (fun stored hstored => by cases hstored) rfl
      refine ⟨table, htable, ?_⟩
      convert htracks using 1
      funext tp
      simp [CoveredPrice, covered_zero, Sql.isIncremental, Warehouse.empty]
  | succ m ih =>
      intro hm
      obtain ⟨stored, hstored, htracks⟩ := ih (m.le_succ.trans hm)
      obtain ⟨dm, hdm⟩ := h.exists_buildDimTickers K hm hdt
      obtain ⟨table, htable, htracks'⟩ := tracks_dbtRun K hdm hdt hunique (hids _ hm)
        (hsymbols _ hm) hkeys (h.extends_of_le hm).tickerPriceChange hrange
        (S := CoveredPrice runs m)
        (fun tp htp => h.mem_tickerPriceChange (m.le_succ.trans hm) (coveredPrice_mem h htp))
        (w := warehouseAfter K dimDate runs (m + 1)) (fun stored' hstored' => by
          rwa [← Option.some.inj (hstored.symm.trans hstored')]) rfl
      refine ⟨table, htable, ?_⟩
      convert htracks' using 1
      funext tp
      rw [CoveredPrice, covered_succ, hstored, eq_iff_iff]
      cases hfull : (runs (m + 1)).fullRefresh with
      | false => simp [Sql.isIncremental, CoveredPrice]
      | true =>
          -- a full refresh covers again what was covered before
          have hseen : Covered runs m (Sql.extractDate tp.timestamp)
                (fun s => tp ∈ s.tickerPriceChange) →
              tp ∈ (runs (m + 1)).sources.tickerPriceChange :=
            fun htp => h.mem_tickerPriceChange m.le_succ (coveredPrice_mem h htp)
          simpa [Sql.isIncremental] using hseen

/-- When every visible source row was covered by some run, the table is, up to
`updated_timestamp`, the output of the non-incremental query.

`hrecomputed` is that output, on what run `n` sees.  `hunique`, `hids` and
`hsymbols` make every run join a price with one row of the dimension, and with
the same one; `hkeys` keeps two prices from having one id, and `hcovered` is the
coverage.  The proof carries `Tracks` along the runs: the table holds each
covered row once. -/
theorem factTickerPrices_perm_recomputed (h : History runs)
    {recomputed : List (FactTickerPrices Id)}
    (hrecomputed : queryFactTickerPrices K dimDate (runs n) false = .ok recomputed)
    (hunique : UniqueAbbreviations (runs n).nameMapping)
    (hids : ∀ m < n, StableIds K (runs m) (runs n))
    (hsymbols : ∀ m ≤ n, SymbolsPresent (runs m))
    (hkeys : ((runs n).sources.tickerPriceChange.map sourceKey).Nodup)
    (hcovered : ∀ tp ∈ (runs n).sources.tickerPriceChange, CoveredPrice runs n tp) :
    ∃ table, (warehouseAfter K dimDate runs (n + 1)).factTickerPrices = some table ∧
      (table.map FactTickerPrices.toRecentDataWithId).Perm
        (recomputed.map FactTickerPrices.toRecentDataWithId) := by
  obtain ⟨dt, hdt, hread, rfl⟩ := (queryFactTickerPrices_eq_ok_iff K).mp hrecomputed
  -- the recomputation reads every row that contributes, so that no run has failed on one
  have hrange : ∀ tp ∈ (runs n).sources.tickerPriceChange, (∃ row, Contributes K dt tp row) →
      tp.InRange := by
    rintro tp htp ⟨row, t, ht, d, hd, hjoin, -⟩
    exact hread tp (mem_readRows.mpr ⟨htp, ⟨t, ht, d, hd, hjoin⟩, rfl⟩)
  have hids' : ∀ m ≤ n, StableIds K (runs m) (runs n) := fun m hm =>
    hm.lt_or_eq.elim (hids m) fun heq => heq ▸ StableIds.refl K _
  obtain ⟨table, htable, htracks⟩ :=
    tracks_warehouseAfter K h hdt hunique hids' hsymbols hkeys hrange n le_rfl
  refine ⟨table, htable, htracks.perm K ⟨?_, fun row => ?_⟩⟩
  · exact nodup_factTickerPrices_id K hkeys (nodup_dimTickers_id K hdt) isDateDim_dimDate.nodup_id
  · rw [exists_row_factTickerPrices_iff K hdt hdt hunique (hids' n le_rfl)
      (hsymbols n le_rfl)]
    refine exists_congr fun tp => and_congr_left fun _ => ?_
    simp only [RunContext.ingests_full, and_true]
    exact ⟨hcovered tp, coveredPrice_mem h⟩

/-- What the runs of 2024-05-01 and 2024-05-02 see; the second one finds new
prices. -/
def nextDayRun (today : Date) (new : List TickerPriceChange) : DbtRun where
  currentDate := today
  currentTimestamp := Sql.midnight today
  daysToIngest := daysToIngest
  sources :=
    { tickerPrices := [⟨some "BTCUSDT", Sql.midnight 19844⟩]
      tickerPriceChange :=
        TickerPriceChange.ofPrices "BTCUSDT" 60000 50000 1714435200000
          (Sql.midnight 19844 + 1) :: new
      accountSnaphsot := [] }
  nameMapping := [⟨some "Bitcoin", some "BTC"⟩]
  fullRefresh := false

def nextDay : ℕ → DbtRun :=
  (nextDayRun 19844 []).thenRepeat <| nextDayRun 19845
    [TickerPriceChange.ofPrices "BTCUSDT" 62000 52000 1714521600000 (Sql.midnight 19845 + 1)]

theorem factTickerPrices_perm_recomputed_nextDay :
    ∃ recomputed, queryFactTickerPrices listing dimDate (nextDay 1) false = .ok recomputed ∧
      ∃ table, (warehouseAfter listing dimDate nextDay 2).factTickerPrices = some table ∧
        (table.map FactTickerPrices.toRecentDataWithId).Perm
          (recomputed.map FactTickerPrices.toRecentDataWithId) := by
  have hdim : ∃ dt, buildDimTickers listing (nextDay 1) = .ok dt :=
    (exists_dimTickers_iff listing).mpr (by decide)
  obtain ⟨dt, hdt⟩ := hdim
  have hrange : ∀ tp ∈ (nextDay 1).sources.tickerPriceChange, tp.InRange := by decide
  have hquery : ∃ recomputed,
      queryFactTickerPrices listing dimDate (nextDay 1) false = .ok recomputed :=
    ⟨_, (queryFactTickerPrices_eq_ok_iff listing).mpr ⟨dt, hdt,
      fun tp htp => hrange tp (mem_readRows.mp htp).1, rfl⟩⟩
  obtain ⟨recomputed, hrecomputed⟩ := hquery
  have hwindow : ∀ tp ∈ (nextDay 1).sources.tickerPriceChange,
      (nextDay 1).currentDate - (nextDay 1).daysToIngest ≤ Sql.extractDate tp.timestamp := by
    decide
  have hhistory : History nextDay :=
    history_thenRepeat ⟨List.prefix_refl _, ⟨_, rfl⟩, List.prefix_refl _⟩ (by decide)
  have hsymbols : ∀ m, SymbolsPresent (nextDay m) := forall_thenRepeat (by decide) (by decide)
  have hids : ∀ m < 1, StableIds listing (nextDay m) (nextDay 1) := by
    intro m hm
    obtain rfl := Nat.lt_one_iff.mp hm
    exact stableIds_of_append listing (List.append_nil _).symm (by simp) rfl
  exact ⟨recomputed, hrecomputed, factTickerPrices_perm_recomputed listing hhistory
    hrecomputed (by decide) hids (fun m _ => hsymbols m) (by decide +kernel)
    fun tp htp => ⟨1, le_rfl, htp, .inr (.inr (hwindow tp htp))⟩⟩

end BinanceElt
