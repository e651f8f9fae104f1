import BinanceElt.Models.History
import BinanceElt.Models.SurrogateKey
import BinanceElt.Verified.QuantityMerge

/-!
# Incremental maintenance of `fact_daily_tickers_quantity`

The query filters the snapshots before it averages and before `lag`.  In an
incremental run the first day of the window therefore has no previous day, and
its change columns are overwritten by zeros; and a day whose average changes
gets a second key.

## Main results

* `undisturbedFrom_iff` — what a run disturbs, in terms of the snapshots.
* `recomputed_iff_undisturbed` — over a sequence of runs the table agrees with
  recomputing it exactly when no incremental run meets one of the two defects.
* `not_recomputed_doubled` — a change that is overwritten by zero.
-/

namespace BinanceElt

open Sql (Date Timestamp QueryError)

variable {Id : Type} [DecidableEq Id] (K : SurrogateKey Id)

/-! ## Portfolios of two runs -/

section Portfolio

variable {src : List AccountSnaphsot} {dt : List (DimTickers Id)} {ctx : RunContext}

/-- What a query returns. -/
theorem holds_of_query {isIncremental : Bool} {rows : List (FactDailyTickersQuantity Id)}
    (h : factDailyTickersQuantity K src dt dimDate ctx isIncremental = .ok rows) :
    Holds K (currentPortfolio src dt dimDate ctx isIncremental) rows where
  exists_row_iff c := by
    constructor
    · rintro ⟨r, hr, rfl⟩
      obtain ⟨p, hp, q, hq, c, hc, rfl⟩ := (mem_factDailyTickersQuantity K h).mp hr
      exact ⟨p, hp, q, hq, hc⟩
    · rintro ⟨p, hp, q, hq, hc⟩
      exact ⟨_, (mem_factDailyTickersQuantity K h).mpr ⟨p, hp, q, hq, c, hc, rfl⟩, rfl⟩
  id_eq _ hr := factDailyTickersQuantity_id K h hr

theorem hasChanges_of_query {isIncremental : Bool}
    {rows : List (FactDailyTickersQuantity Id)}
    (h : factDailyTickersQuantity K src dt dimDate ctx isIncremental = .ok rows) :
    HasChanges (currentPortfolio src dt dimDate ctx isIncremental) :=
  (exists_factDailyTickersQuantity_iff K).mp ⟨rows, h⟩

/-- The portfolio of an incremental run is the part of the full one from the
first day of the window on. -/
theorem mem_fromDay_currentPortfolio (hdt : (dt.map DimTickers.id).Nodup)
    {p : CurrentPortfolio Id} :
    p ∈ currentPortfolio src dt dimDate ctx true ↔
      p ∈ fromDay (Sql.formatYmd (ctx.currentDate - ctx.daysToIngest))
        (currentPortfolio src dt dimDate ctx false) := by
  have hday : ∀ d ∈ dimDate, (ctx.ingests true (some d.fullDate) = true ↔
      Sql.formatYmd (ctx.currentDate - ctx.daysToIngest) ≤ d.id) := by
    intro d hd
    rw [isDateDim_dimDate.id_eq hd, Sql.formatYmd_le_iff]
    simp
  rw [fromDay, List.mem_filter, mem_currentPortfolio hdt isDateDim_dimDate,
    mem_currentPortfolio hdt isDateDim_dimDate, decide_eq_true_eq]
  constructor
  · rintro ⟨t, ht, d, hd, hin, hne, rfl⟩
    exact ⟨⟨t, ht, d, hd, rfl, hne, rfl⟩, (hday d hd).mp hin⟩
  · rintro ⟨⟨t, ht, d, hd, -, hne, rfl⟩, hbound⟩
    exact ⟨t, ht, d, hd, (hday d hd).mpr hbound, hne, rfl⟩

/-- The last day with holdings before a day, in the full portfolio. -/
theorem isLagDay_some_iff (hdt : (dt.map DimTickers.id).Nodup) {t : DimTickers Id}
    (ht : t ∈ dt) {d d' : DimDate} (hd : d ∈ dimDate) (hd' : d' ∈ dimDate)
    (hne : holdings src t.symbolShort d'.fullDate ≠ []) (x : Option ℚ) :
    IsLagDay (currentPortfolio src dt dimDate ctx false) ⟨t.id, d.id, x⟩
        (some ⟨t.id, d'.id, quantityOn src t.symbolShort d'.fullDate⟩) ↔
      d'.fullDate < d.fullDate ∧ ∀ e ∈ dimDate, d'.fullDate < e.fullDate →
        e.fullDate < d.fullDate → holdings src t.symbolShort e.fullDate = [] := by
  have hmem : ∀ e ∈ dimDate, holdings src t.symbolShort e.fullDate ≠ [] →
      (⟨t.id, e.id, quantityOn src t.symbolShort e.fullDate⟩ : CurrentPortfolio Id) ∈
        (currentPortfolio src dt dimDate ctx false).filter fun p => p.symbolId = t.id :=
    fun e he hheld => List.mem_filter.mpr ⟨(mem_currentPortfolio hdt isDateDim_dimDate).mpr
      ⟨t, ht, e, he, rfl, hheld, rfl⟩, by simp⟩
  constructor
  · rintro ⟨-, hlt, hmax⟩
    refine ⟨(isDateDim_dimDate.id_lt_id_iff hd' hd).mp hlt, fun e he hlow hhigh => ?_⟩
    by_contra hheld
    have hle : e.id ≤ d'.id := hmax _ (hmem e he hheld)
      ((isDateDim_dimDate.id_lt_id_iff he hd).mpr hhigh)
    exact absurd hlow (not_lt_of_ge ((isDateDim_dimDate.id_le_id_iff he hd').mp hle))
  · rintro ⟨hlt, hnone⟩
    refine ⟨hmem d' hd' hne, (isDateDim_dimDate.id_lt_id_iff hd' hd).mpr hlt,
      fun p hp hpd => ?_⟩
    obtain ⟨hp, hsym⟩ := List.mem_filter.mp hp
    obtain ⟨t', ht', e, he, -, hheld, rfl⟩ :=
      (mem_currentPortfolio hdt isDateDim_dimDate).mp hp
    obtain rfl : t' = t := List.inj_on_of_nodup_map hdt ht' ht (of_decide_eq_true hsym)
    by_contra hgt
    exact hheld (hnone e he ((isDateDim_dimDate.id_lt_id_iff hd' he).mp (not_le.mp hgt))
      ((isDateDim_dimDate.id_lt_id_iff he hd).mp hpd))

end Portfolio

/-- A run leaves the stored rows as a full query would compute them: the days of
its window that were stored before keep their quantity, and the first day of its
window steps by less than two decimals show from the last day before.

The condition is on the snapshots of the run and of the one before, not on what
the queries compute: `quantityOn` is the mean of a day, and `IsSmallStep` a
bound on two such means. -/
structure Undisturbed (earlier run : DbtRun) : Prop where
  quantity : ∀ dt, buildDimTickers K run = .ok dt → ∀ t ∈ dt, ∀ d ∈ dimDate,
    run.currentDate - run.daysToIngest ≤ d.fullDate →
    holdings earlier.sources.accountSnaphsot t.symbolShort d.fullDate ≠ [] →
    quantityOn earlier.sources.accountSnaphsot t.symbolShort d.fullDate =
      quantityOn run.sources.accountSnaphsot t.symbolShort d.fullDate
  firstDay : ∀ dt, buildDimTickers K run = .ok dt → ∀ t ∈ dt,
    ∀ d ∈ dimDate, ∀ d' ∈ dimDate,
    run.currentDate - run.daysToIngest ≤ d.fullDate →
    d'.fullDate < run.currentDate - run.daysToIngest →
    holdings run.sources.accountSnaphsot t.symbolShort d.fullDate ≠ [] →
    holdings run.sources.accountSnaphsot t.symbolShort d'.fullDate ≠ [] →
    (∀ e ∈ dimDate, d'.fullDate < e.fullDate → e.fullDate < d.fullDate →
      holdings run.sources.accountSnaphsot t.symbolShort e.fullDate = []) →
    IsSmallStep (quantityOn run.sources.accountSnaphsot t.symbolShort d.fullDate)
      (quantityOn run.sources.accountSnaphsot t.symbolShort d'.fullDate)

section TwoRuns

variable {earlier run : DbtRun} {dt dt' : List (DimTickers Id)}
  {new : List AccountSnaphsot}

theorem holdings_append (src new : List AccountSnaphsot) (asset : Option String)
    (date : Date) :
    holdings (src ++ new) asset date = holdings src asset date ++ holdings new asset date :=
  List.filter_append ..

/-- Snapshots of the window add nothing to the days before it. -/
theorem holdings_eq_nil_of_lt {bound date : Date}
    (hnew : ∀ a ∈ new, bound ≤ Sql.extractDate a.timestamp) (hdate : date < bound)
    (asset : Option String) : holdings new asset date = [] := by
  rw [holdings, List.filter_eq_nil_iff]
  intro a ha hheld
  simp only [Bool.and_eq_true, decide_eq_true_eq] at hheld
  have := hnew a ha
  rw [← hheld.2.1] at this
  exact absurd hdate (not_lt_of_ge this)

variable (hdt : buildDimTickers K earlier = .ok dt) (hdt' : buildDimTickers K run = .ok dt')
  (hids : StableIds K earlier run) (hids' : StableIds K run earlier)
  (hsrc : run.sources.accountSnaphsot = earlier.sources.accountSnaphsot ++ new)
include hdt hdt' hids hids' hsrc

/-- Below the window the two portfolios agree. -/
theorem mem_portfolio_of_lt
    (hnew : ∀ a ∈ new, run.currentDate - run.daysToIngest ≤ Sql.extractDate a.timestamp)
    {p : CurrentPortfolio Id}
    (hp : p.dateId < Sql.formatYmd (run.currentDate - run.daysToIngest)) :
    p ∈ currentPortfolio earlier.sources.accountSnaphsot dt dimDate earlier.toRunContext false ↔
      p ∈ currentPortfolio run.sources.accountSnaphsot dt' dimDate run.toRunContext false := by
  have hheld : ∀ d ∈ dimDate, d.id = p.dateId → ∀ asset,
      holdings run.sources.accountSnaphsot asset d.fullDate =
        holdings earlier.sources.accountSnaphsot asset d.fullDate := by
    intro d hd hday asset
    rw [← hday, isDateDim_dimDate.id_eq hd, Sql.formatYmd_lt_iff] at hp
    rw [hsrc, holdings_append, holdings_eq_nil_of_lt hnew hp, List.append_nil]
  rw [mem_currentPortfolio (nodup_dimTickers_id K hdt) isDateDim_dimDate,
    mem_currentPortfolio (nodup_dimTickers_id K hdt') isDateDim_dimDate]
  constructor
  · rintro ⟨t, ht, d, hd, -, hne, rfl⟩
    obtain ⟨t', ht', hid⟩ := hids dt dt' hdt hdt' t ht
    obtain ⟨-, hshort, -⟩ := dimTickers_id_inj K hdt' hdt ht' ht hid
    have hsame := hheld d hd rfl t.symbolShort
    refine ⟨t', ht', d, hd, rfl, by rwa [hshort, hsame], ?_⟩
    rw [hid, hshort, quantityOn, quantityOn, hsame]
  · rintro ⟨t', ht', d, hd, -, hne, rfl⟩
    obtain ⟨t, ht, hid⟩ := hids' dt' dt hdt' hdt t' ht'
    obtain ⟨-, hshort, -⟩ := dimTickers_id_inj K hdt hdt' ht ht' hid
    have hsame := hheld d hd rfl t'.symbolShort
    refine ⟨t, ht, d, hd, rfl, by rwa [hshort, ← hsame], ?_⟩
    rw [hid, hshort, quantityOn, quantityOn, hsame]

/-- The condition on the portfolios, read off the snapshots. -/
theorem undisturbedFrom_iff :
    UndisturbedFrom (Sql.formatYmd (run.currentDate - run.daysToIngest))
        (currentPortfolio earlier.sources.accountSnaphsot dt dimDate earlier.toRunContext
          false)
        (currentPortfolio run.sources.accountSnaphsot dt' dimDate run.toRunContext false) ↔
      Undisturbed K earlier run := by
  have hn := nodup_dimTickers_id K hdt
  have hn' := nodup_dimTickers_id K hdt'
  have hday : ∀ d ∈ dimDate, (Sql.formatYmd (run.currentDate - run.daysToIngest) ≤ d.id ↔
      run.currentDate - run.daysToIngest ≤ d.fullDate) := by
    intro d hd
    rw [isDateDim_dimDate.id_eq hd, Sql.formatYmd_le_iff]
  constructor
  · refine fun h => ⟨fun dt'' hdt'' t' ht' d hd hbound hne => ?_,
      fun dt'' hdt'' t' ht' d hd d' hd' hbound hbound' hne hne' hnone => ?_⟩
    · obtain rfl := Except.ok.inj (hdt'.symm.trans hdt'')
      obtain ⟨t, ht, hid⟩ := hids' dt' dt hdt' hdt t' ht'
      obtain ⟨-, hshort, -⟩ := dimTickers_id_inj K hdt hdt' ht ht' hid
      rw [← hshort] at hne ⊢
      have hold := (mem_currentPortfolio hn isDateDim_dimDate).mpr
        ⟨t, ht, d, hd, earlier.ingests_full _, hne, rfl⟩
      obtain ⟨t'', ht'', e, he, -, -, heq⟩ := (mem_currentPortfolio hn' isDateDim_dimDate).mp
        (h.quantity _ hold ((hday d hd).mpr hbound))
      obtain ⟨hid', hday', hquantity⟩ := CurrentPortfolio.mk.inj heq
      obtain rfl : t'' = t' := List.inj_on_of_nodup_map hn' ht'' ht' (hid'.symm.trans hid)
      obtain rfl : d = e := isDateDim_dimDate.eq_of_id_eq hd he hday'
      rw [hquantity, hshort]
    · obtain rfl := Except.ok.inj (hdt'.symm.trans hdt'')
      have hmem : ∀ e ∈ dimDate,
          holdings run.sources.accountSnaphsot t'.symbolShort e.fullDate ≠ [] →
          ⟨t'.id, e.id, quantityOn run.sources.accountSnaphsot t'.symbolShort e.fullDate⟩ ∈
            currentPortfolio run.sources.accountSnaphsot dt' dimDate run.toRunContext false :=
        fun e he hheld => (mem_currentPortfolio hn' isDateDim_dimDate).mpr
          ⟨t', ht', e, he, run.ingests_full _, hheld, rfl⟩
      refine h.firstDay _ (hmem d hd hne) _ (hmem d' hd' hne') ((hday d hd).mpr hbound)
        (not_le.mp fun hle => not_le_of_gt hbound' ((hday d' hd').mp hle))
        ((isLagDay_some_iff hn' ht' hd hd' hne' _).mpr ⟨hbound'.trans_le hbound, hnone⟩)
  · refine fun h => ⟨fun p hp hbound => ?_, fun p hp q hq hbound hbound' hlag => ?_⟩
    · obtain ⟨t, ht, d, hd, -, hne, rfl⟩ := (mem_currentPortfolio hn isDateDim_dimDate).mp hp
      obtain ⟨t', ht', hid⟩ := hids dt dt' hdt hdt' t ht
      obtain ⟨-, hshort, -⟩ := dimTickers_id_inj K hdt' hdt ht' ht hid
      have hquantity := h.quantity dt' hdt' t' ht' d hd ((hday d hd).mp hbound)
        (by rwa [hshort])
      refine (mem_currentPortfolio hn' isDateDim_dimDate).mpr ⟨t', ht', d, hd, rfl, ?_, ?_⟩
      · rw [hsrc, holdings_append, hshort]
        simp [hne]
      · rw [hid, ← hquantity, hshort]
    · obtain ⟨t', ht', d, hd, -, hne, rfl⟩ :=
        (mem_currentPortfolio hn' isDateDim_dimDate).mp hp
      obtain ⟨t'', ht'', d', hd', -, hne', rfl⟩ :=
        (mem_currentPortfolio hn' isDateDim_dimDate).mp hq
      obtain rfl : t'' = t' := List.inj_on_of_nodup_map hn' ht'' ht'
        (of_decide_eq_true (List.mem_filter.mp hlag.1).2)
      obtain ⟨-, hnone⟩ := (isLagDay_some_iff hn' ht' hd hd' hne' _).mp hlag
      exact h.firstDay dt' hdt' t'' ht' d hd d' hd' ((hday d hd).mp hbound)
        (not_le.mp fun hle => not_le_of_gt hbound' ((hday d' hd').mpr hle)) hne hne' hnone

end TwoRuns

/-! ## Sequences of runs -/

section Runs

variable {runs : ℕ → DbtRun} {n : ℕ}

/-- Every snapshot a run sees was covered by the run or an earlier one.  Rows
are told apart by their position: the source has no key. -/
def CoveredSnapshots (runs : ℕ → DbtRun) (n : ℕ) : Prop :=
  ∀ i a, (runs n).sources.accountSnaphsot[i]? = some a →
    Covered runs n (Sql.extractDate a.timestamp) fun s => i < s.accountSnaphsot.length

/-- After run `n` the table has the rows a full query returns on the sources as
they are, up to ids and `updated_timestamp`. -/
def Recomputed (runs : ℕ → DbtRun) (n : ℕ) : Prop :=
  ∃ table full,
    (warehouseAfter K dimDate runs (n + 1)).factDailyTickersQuantity = some table ∧
    queryFactDailyTickersQuantity K dimDate (runs n) false = .ok full ∧
    ∀ c, (∃ r ∈ table, r.toChange = c) ↔ ∃ r ∈ full, r.toChange = c

/-- The condition of one run of a sequence; a full run needs none. -/
def UndisturbedAt (runs : ℕ → DbtRun) : ℕ → Prop
  | 0 => True
  | n + 1 => (runs (n + 1)).fullRefresh = false → Undisturbed K (runs n) (runs (n + 1))

omit [DecidableEq Id] in
/-- What an incremental run has covered besides its window, the run before had
covered; so the new snapshots lie in the window. -/
theorem CoveredSnapshots.of_succ (h : History runs)
    (hdays : ∀ m, (runs m).daysToIngest = (runs 0).daysToIngest)
    (hincr : (runs (n + 1)).fullRefresh = false) (hcovered : CoveredSnapshots runs (n + 1)) :
    CoveredSnapshots runs n ∧ ∃ new,
      (runs (n + 1)).sources.accountSnaphsot = (runs n).sources.accountSnaphsot ++ new ∧
      ∀ a ∈ new, (runs (n + 1)).currentDate - (runs (n + 1)).daysToIngest ≤
        Sql.extractDate a.timestamp := by
  obtain ⟨new, hnew⟩ := (h.extends_succ n).accountSnaphsot
  refine ⟨fun i a hi => ?_, new, hnew.symm, fun a ha => ?_⟩
  · obtain ⟨hlt, -⟩ := List.getElem?_eq_some_iff.mp hi
    have hi' : (runs (n + 1)).sources.accountSnaphsot[i]? = some a := by
      rw [← hnew, List.getElem?_append_left hlt, hi]
    rcases covered_succ.mp (hcovered i a hi') with hbefore | ⟨-, hfull | hwindow⟩
    · exact hbefore
    · simp [hincr] at hfull
    · refine ⟨n, le_rfl, hlt, .inr (.inr (le_trans ?_ hwindow))⟩
      rw [hdays n, hdays (n + 1)]
      exact sub_le_sub_right (h.currentDate_le_succ n) _
  · obtain ⟨j, hj⟩ := List.getElem?_of_mem ha
    have hi : (runs (n + 1)).sources.accountSnaphsot[
        (runs n).sources.accountSnaphsot.length + j]? = some a := by
      rw [← hnew, List.getElem?_append_right (Nat.le_add_right _ _), Nat.add_sub_cancel_left, hj]
    rcases covered_succ.mp (hcovered _ a hi) with ⟨k, hk, hvisible, -⟩ | ⟨-, hfull | hwindow⟩
    · have hlen := (h.extends_of_le hk).accountSnaphsot.length_le
      omega
    · simp [hincr] at hfull
    · exact hwindow

/-- A full run recomputes the table. -/
theorem recomputed_of_full (hfull : n = 0 ∨ (runs n).fullRefresh = true)
    (hbuilt : ∃ rows, buildFactDailyTickersQuantity K dimDate (runs n)
      (warehouseAfter K dimDate runs n) = .ok rows) : Recomputed K runs n := by
  obtain ⟨rows, hrows⟩ := hbuilt
  have hmode : Sql.isIncremental
      (warehouseAfter K dimDate runs n).factDailyTickersQuantity (runs n).fullRefresh = false := by
    rcases hfull with rfl | hfull
    · rfl
    · simp [Sql.isIncremental, hfull]
  obtain ⟨source, hquery, hcase⟩ := Sql.materialize_eq_ok_iff.mp hrows
  rw [hmode] at hquery hcase
  rcases hcase with ⟨-, rfl⟩ | ⟨hincr, -⟩
  · exact ⟨rows, rows, Sql.tableAfter_of_ok hrows, hquery, fun _ => Iff.rfl⟩
  · cases hincr

/-- One incremental run over a recomputed table.  The table before it agrees
with the old portfolio, the new snapshots lie in the window by
`CoveredSnapshots.of_succ`, and `merge_eq_recomputed_iff` compares the two
portfolios. -/
theorem recomputed_succ_iff (h : History runs)
    (hdays : ∀ m, (runs m).daysToIngest = (runs 0).daysToIngest)
    (hids : ∀ k m, StableIds K (runs k) (runs m))
    (hincr : (runs (n + 1)).fullRefresh = false) (hcovered : CoveredSnapshots runs (n + 1))
    (hbefore : Recomputed K runs n)
    (hbuilt : ∃ rows, buildFactDailyTickersQuantity K dimDate (runs (n + 1))
      (warehouseAfter K dimDate runs (n + 1)) = .ok rows) :
    Recomputed K runs (n + 1) ↔ Undisturbed K (runs n) (runs (n + 1)) := by
  obtain ⟨-, new, hsrc, hnew⟩ := hcovered.of_succ h hdays hincr
  obtain ⟨stored, full, hstored, hfull, hagree⟩ := hbefore
  obtain ⟨dt, hdt, hfull⟩ := (queryFactDailyTickersQuantity_eq_ok_iff K).mp hfull
  obtain ⟨merged, hmerged⟩ := hbuilt
  obtain ⟨source, hquery, hcase⟩ := Sql.materialize_eq_ok_iff.mp hmerged
  have hmode : Sql.isIncremental
      (warehouseAfter K dimDate runs (n + 1)).factDailyTickersQuantity
      (runs (n + 1)).fullRefresh = true := by
    simp [Sql.isIncremental, hstored, hincr]
  rw [hmode] at hquery hcase
  obtain ⟨dt', hdt', hsource⟩ := (queryFactDailyTickersQuantity_eq_ok_iff K).mp hquery
  have hmerge : Sql.merge (fun r => r.id) stored source = .ok merged := by
    rcases hcase with ⟨hfalse, -⟩ | ⟨-, stored', hstored', hmerge⟩
    · cases hfalse
    · rwa [Option.some.inj (hstored.symm.trans hstored')]
  have hwindow : ∀ p, p ∈ currentPortfolio (runs (n + 1)).sources.accountSnaphsot dt' dimDate
        (runs (n + 1)).toRunContext true ↔
      p ∈ fromDay (Sql.formatYmd ((runs (n + 1)).currentDate - (runs (n + 1)).daysToIngest))
        (currentPortfolio (runs (n + 1)).sources.accountSnaphsot dt' dimDate
          (runs (n + 1)).toRunContext false) :=
    fun p => mem_fromDay_currentPortfolio (nodup_dimTickers_id K hdt')
  have hstoredHolds : Holds K (currentPortfolio (runs n).sources.accountSnaphsot dt dimDate
      (runs n).toRunContext false) stored :=
    ⟨fun c => (hagree c).trans ((holds_of_query K hfull).exists_row_iff c),
      quantityKeyed_warehouseAfter K stored hstored⟩
  rw [← undisturbedFrom_iff K hdt hdt' (hids _ _) (hids _ _) hsrc,
    ← merge_eq_recomputed_iff K nodup_currentPortfolio
      (fun p hp => mem_portfolio_of_lt K hdt hdt' (hids _ _) (hids _ _) hsrc hnew hp)
      (hasChanges_of_query K hfull) hstoredHolds
      ((hasChanges_of_query K hsource).congr hwindow)
      ((holds_of_query K hsource).congr K hwindow) hmerge]
  have hafter : (warehouseAfter K dimDate runs (n + 2)).factDailyTickersQuantity =
      some merged := Sql.tableAfter_of_ok hmerged
  constructor
  · rintro ⟨table, full', htable, hfull', hagree'⟩
    obtain rfl := Option.some.inj (hafter.symm.trans htable)
    obtain ⟨dt'', hdt'', hfull'⟩ := (queryFactDailyTickersQuantity_eq_ok_iff K).mp hfull'
    obtain rfl := Except.ok.inj (hdt'.symm.trans hdt'')
    exact ⟨hasChanges_of_query K hfull',
      fun c => (hagree' c).trans ((holds_of_query K hfull').exists_row_iff c)⟩
  · rintro ⟨hchanges, hagree'⟩
    obtain ⟨full', hfull'⟩ := (exists_factDailyTickersQuantity_iff K).mpr hchanges
    exact ⟨merged, full', hafter,
      (queryFactDailyTickersQuantity_eq_ok_iff K).mpr ⟨dt', hdt', hfull'⟩,
      fun c => (hagree' c).trans ((holds_of_query K hfull').exists_row_iff c).symm⟩

/-- Over a history with fixed ids and a fixed number of days, the table agrees
with recomputing it after every run that leaves nothing uncovered, exactly when
no such run disturbs what is stored.

`h` says that snapshots are only appended and that the dates of the runs do not
decrease; `hids` that all runs know the tickers by the same ids.  `hdays` is the
one `days_to_ingest` of the project, without which the window of a later run
could begin before that of an earlier one.  `hbuilt` says that every run up to
`N` builds the table: of a run that fails there is no table to compare, and a
run before it would have covered rows that it never stored. -/
theorem recomputed_iff_undisturbed (h : History runs)
    (hdays : ∀ m, (runs m).daysToIngest = (runs 0).daysToIngest)
    (hids : ∀ k m, StableIds K (runs k) (runs m)) (N : ℕ)
    (hbuilt : ∀ n ≤ N, ∃ rows, buildFactDailyTickersQuantity K dimDate (runs n)
      (warehouseAfter K dimDate runs n) = .ok rows) :
    (∀ n ≤ N, CoveredSnapshots runs n → Recomputed K runs n) ↔
      ∀ n ≤ N, CoveredSnapshots runs n → UndisturbedAt K runs n := by
  constructor
  · intro hrecomputed n hn hcovered
    cases n with
    | zero => trivial
    | succ n =>
        intro hincr
        have hbefore := hrecomputed n (n.le_succ.trans hn)
          (hcovered.of_succ h hdays hincr).1
        exact (recomputed_succ_iff K h hdays hids hincr hcovered hbefore (hbuilt _ hn)).mp
          (hrecomputed _ hn hcovered)
  · intro hundisturbed n
    induction n with
    | zero => exact fun hn _ => recomputed_of_full K (.inl rfl) (hbuilt 0 hn)
    | succ n ih =>
        intro hn hcovered
        cases hmode : (runs (n + 1)).fullRefresh with
        | true => exact recomputed_of_full K (.inr hmode) (hbuilt _ hn)
        | false =>
            have hbefore := ih (n.le_succ.trans hn) (hcovered.of_succ h hdays hmode).1
            exact (recomputed_succ_iff K h hdays hids hmode hcovered hbefore
              (hbuilt _ hn)).mpr (hundisturbed _ hn hcovered hmode)

end Runs

/-! ## A change before the window -/

/-- What the runs of 2024-05-01 and 2024-05-04 see: the holdings doubled from
the last of April to the first of May, and did not change since. -/
def doubledRun (today : Date) (new : List AccountSnaphsot) : DbtRun where
  currentDate := today
  currentTimestamp := Sql.midnight today
  daysToIngest := daysToIngest
  sources :=
    { tickerPrices := [⟨some "BTCUSDT", Sql.midnight 19843⟩]
      tickerPriceChange := []
      accountSnaphsot :=
        [⟨some "BTC", some 1, some 0, Sql.midnight 19843⟩,
          ⟨some "BTC", some 2, some 0, Sql.midnight 19844⟩] ++ new }
  nameMapping := [⟨some "Bitcoin", some "BTC"⟩]
  fullRefresh := false

def doubled : ℕ → DbtRun :=
  (doubledRun 19844 []).thenRepeat <|
    doubledRun 19847 [⟨some "BTC", some 2, some 0, Sql.midnight 19847⟩]

private def dailyChanges (rows : List (FactDailyTickersQuantity (List ℤ))) :
    List (ℤ × Option ℚ × ℚ) :=
  rows.map fun r => (r.dateId, r.quantity, r.quantityChange)

private theorem table_doubled :
    (warehouseAfter listing (dateDim 19843 19847) doubled 2).factDailyTickersQuantity.map
      dailyChanges =
      some [(20240430, some 1, 0), (20240501, some 2, 0), (20240504, some 2, 0)] := by
  decide +kernel

private theorem query_doubled :
    (queryFactDailyTickersQuantity listing (dateDim 19843 19847) (doubled 1) false).map
      dailyChanges =
      .ok [(20240430, some 1, 0), (20240501, some 2, 1), (20240504, some 2, 0)] := by
  decide +kernel

private theorem history_doubled : History doubled :=
  history_thenRepeat ⟨List.prefix_refl _, List.prefix_refl _, ⟨_, rfl⟩⟩ (by decide)

private theorem daysToIngest_doubled :
    ∀ n, (doubled n).daysToIngest = (doubled 0).daysToIngest :=
  forall_thenRepeat (P := fun run => run.daysToIngest = _) rfl rfl

private theorem stableIds_doubled : ∀ k m, StableIds listing (doubled k) (doubled m) :=
  forall_thenRepeat (P := fun run => ∀ m, StableIds listing run (doubled m))
    (forall_thenRepeat (stableIds_of_eq _ rfl rfl) (stableIds_of_eq _ rfl rfl))
    (forall_thenRepeat (stableIds_of_eq _ rfl rfl) (stableIds_of_eq _ rfl rfl))

private theorem sameDates_doubled :
    ∀ n, SameDates dimDate (dateDim 19843 19847) (doubled n) :=
  forall_thenRepeat (sameDates_dimDate (by decide) (by decide) (by decide))
    (sameDates_dimDate (by decide) (by decide) (by decide))

theorem recomputed_iff_undisturbed_doubled :
    (∀ n ≤ 1, CoveredSnapshots doubled n → Recomputed listing doubled n) ↔
      ∀ n ≤ 1, CoveredSnapshots doubled n → UndisturbedAt listing doubled n := by
  have hbuilt : ∀ n ≤ 1, ∃ rows, buildFactDailyTickersQuantity listing
      (dateDim 19843 19847) (doubled n)
      (warehouseAfter listing (dateDim 19843 19847) doubled n) = .ok rows := by
    decide +kernel
  refine recomputed_iff_undisturbed listing history_doubled daysToIngest_doubled
    stableIds_doubled 1 fun n hn => ?_
  rw [buildFactDailyTickersQuantity_congr listing (sameDates_doubled n),
    warehouseAfter_congr listing sameDates_doubled]
  exact hbuilt n hn

private theorem coveredSnapshots_doubled : CoveredSnapshots doubled 1 := by
  intro i a hi
  match i, hi with
  | 0, _ => exact ⟨0, by decide, by decide, .inl rfl⟩
  | 1, _ => exact ⟨0, by decide, by decide, .inl rfl⟩
  | 2, hi =>
      obtain rfl := Option.some.inj hi
      exact ⟨1, le_rfl, by decide, .inr (.inr (by decide))⟩

/-- The run of 2024-05-04 overwrites the change of 2024-05-01 by zero. -/
theorem not_recomputed_doubled :
    History doubled ∧ (∀ n, (doubled n).daysToIngest = (doubled 0).daysToIngest) ∧
      (∀ k m, StableIds listing (doubled k) (doubled m)) ∧ CoveredSnapshots doubled 1 ∧
      ¬ Recomputed listing doubled 1 := by
  refine ⟨history_doubled, daysToIngest_doubled, stableIds_doubled,
    coveredSnapshots_doubled, ?_⟩
  rintro ⟨table, full, htable, hfull, hagree⟩
  have htable' := table_doubled
  rw [← warehouseAfter_congr listing sameDates_doubled, htable] at htable'
  have hfull' := query_doubled
  rw [← queryFactDailyTickersQuantity_congr listing (sameDates_doubled 1), hfull] at hfull'
  have hchange : (20240501, some 2, 1) ∈ dailyChanges full := by
    rw [Except.ok.inj hfull']
    decide
  obtain ⟨r, hr, hrow⟩ := List.mem_map.mp hchange
  obtain ⟨r', hr', hsame⟩ := (hagree _).mpr ⟨r, hr, rfl⟩
  have hstored : (20240501, some 2, 1) ∈ dailyChanges table := by
    rw [← hrow, ← hsame]
    exact List.mem_map_of_mem hr'
  rw [Option.some.inj htable'] at hstored
  revert hstored
  decide

end BinanceElt
