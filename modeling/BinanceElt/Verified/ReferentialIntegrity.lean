import BinanceElt.Models.History
import BinanceElt.Models.SurrogateKey

/-!
# Referential integrity

The id of a ticker is hashed from its full name, which the seed may change.
`dim_tickers` is rebuilt by every execution of the script, while an incremental
execution keeps the rows of the facts that it does not replace, with the id
the ticker had before.

## Main results

* `referenced_dbtRun_iff` — the ticker ids the facts hold after a run.
* `exists_id_iff_mappedName` — a ticker keeps its id when it keeps its name.
* `referentialIntegrity_iff` — every stored id is that of a ticker after every
  execution exactly when no incremental one renames a ticker with facts.
* `not_referentialIntegrity_renamed` — a seed edit that leaves orphans.
-/

namespace BinanceElt

open Sql (Date Timestamp QueryError)

variable {Id : Type} [DecidableEq Id] (K : SurrogateKey Id)

/-- A fact table holds a row of this ticker. -/
def Referenced (w : Warehouse Id) (i : Id) : Prop :=
  (∃ rows, w.factTickerPrices = some rows ∧ ∃ r ∈ rows, r.symbolId = i) ∨
    ∃ rows, w.factDailyTickersQuantity = some rows ∧ ∃ r ∈ rows, r.symbolId = i

/-- Every ticker id of the facts is the id of exactly one row of `dim_tickers`.
The account values have no ticker, and are not concerned. -/
def ReferentialIntegrity (w : Warehouse Id) : Prop :=
  ∀ i, Referenced w i →
    ∃ dims, w.dimTickers = some dims ∧ (dims.map DimTickers.id).count i = 1

theorem ReferentialIntegrity.exists_ticker {w : Warehouse Id} (h : ReferentialIntegrity w)
    {i : Id} (hi : Referenced w i) :
    ∃ dims, w.dimTickers = some dims ∧ ∃ t ∈ dims, t.id = i := by
  obtain ⟨dims, hdims, hcount⟩ := h i hi
  exact ⟨dims, hdims, List.mem_map.mp (List.count_pos_iff.mp (Nat.one_pos.trans_eq hcount.symm))⟩

/-- An incremental execution keeps the names of the tickers that have facts.  It
is one on a day other than Sunday; the names are those of the stored dimension,
and the new ones are looked up in the seed. -/
def KeepsNames (e : Execution) (w : Warehouse Id) : Prop :=
  Sql.isoWeekday e.today ≠ 7 → ∀ dims, w.dimTickers = some dims → ∀ t ∈ dims,
    Referenced w t.id → mappedName e.seed t.symbolShort = t.fullName

/-- The prices of the later sources follow those of the earlier ones. -/
def Sources.AppendsInOrder (later earlier : Sources) : Prop :=
  ∃ new, later.tickerPrices = earlier.tickerPrices ++ new ∧
    ∀ a ∈ earlier.tickerPrices, ∀ b ∈ new, a.timestamp ≤ b.timestamp

/-! ## The ids a run leaves in the facts -/

section Step

variable {dd : List DimDate} {run : DbtRun} {w : Warehouse Id} {dt : List (DimTickers Id)}
  {isIncremental : Bool}

omit [DecidableEq Id] in
/-- The query of `fact_ticker_prices` writes ids of `dim_tickers`. -/
theorem symbolId_of_queryFactTickerPrices (hdt : buildDimTickers K run = .ok dt)
    {rows : List (FactTickerPrices Id)}
    (h : queryFactTickerPrices K dd run isIncremental = .ok rows)
    {r : FactTickerPrices Id} (hr : r ∈ rows) : ∃ t ∈ dt, t.id = r.symbolId := by
  obtain ⟨dt', hdt', -, rfl⟩ := (queryFactTickerPrices_eq_ok_iff K).mp h
  obtain rfl := Except.ok.inj (hdt'.symm.trans hdt)
  obtain ⟨tp, -, t, ht, d, -, -, -, rfl⟩ := (mem_factTickerPrices K).mp hr
  exact ⟨t, ht, rfl⟩

/-- The query of `fact_daily_tickers_quantity` writes ids of `dim_tickers`. -/
theorem symbolId_of_queryFactDailyTickersQuantity (hdd : IsDateDim dd)
    (hdt : buildDimTickers K run = .ok dt) {rows : List (FactDailyTickersQuantity Id)}
    (h : queryFactDailyTickersQuantity K dd run isIncremental = .ok rows)
    {r : FactDailyTickersQuantity Id} (hr : r ∈ rows) : ∃ t ∈ dt, t.id = r.symbolId := by
  obtain ⟨dt', hdt', hrows⟩ := (queryFactDailyTickersQuantity_eq_ok_iff K).mp h
  obtain rfl := Except.ok.inj (hdt'.symm.trans hdt)
  obtain ⟨p, hp, q, -, c, hc, rfl⟩ := (mem_factDailyTickersQuantity K hrows).mp hr
  obtain ⟨percentage, -, rfl⟩ := changeRow_eq_ok_iff.mp hc
  obtain ⟨t, ht, d, -, -, -, rfl⟩ :=
    (mem_currentPortfolio (nodup_dimTickers_id K hdt) hdd).mp hp
  exact ⟨t, ht, rfl⟩

omit [DecidableEq Id] in
/-- An id of `fact_ticker_prices` determines its ticker. -/
theorem symbolId_of_priceId (hkeyed : PricesKeyed K w)
    {stored source : List (FactTickerPrices Id)} (hstored : w.factTickerPrices = some stored)
    (hsource : queryFactTickerPrices K dd run isIncremental = .ok source)
    {t s : FactTickerPrices Id} (ht : t ∈ stored) (hs : s ∈ source) (hid : s.id = t.id) :
    s.symbolId = t.symbolId := by
  obtain ⟨dt, -, -, rfl⟩ := (queryFactTickerPrices_eq_ok_iff K).mp hsource
  obtain ⟨tp, -, t', -, d, -, -, -, rfl⟩ := (mem_factTickerPrices K).mp hs
  have hkey := congrArg RecentDataWithId.id (hkeyed stored hstored t ht)
  rw [hkey] at hid
  simp only [factTickerPricesRow, recentDataWithId, SurrogateKey.eq_iff, List.cons.injEq,
    KeyField.id.injEq] at hid
  exact hid.1

/-- An id of `fact_daily_tickers_quantity` determines its ticker. -/
theorem symbolId_of_quantityId (hkeyed : QuantityKeyed K w)
    {stored source : List (FactDailyTickersQuantity Id)}
    (hstored : w.factDailyTickersQuantity = some stored)
    (hsource : queryFactDailyTickersQuantity K dd run isIncremental = .ok source)
    {t s : FactDailyTickersQuantity Id} (ht : t ∈ stored) (hs : s ∈ source)
    (hid : s.id = t.id) : s.symbolId = t.symbolId := by
  obtain ⟨dt, -, hrows⟩ := (queryFactDailyTickersQuantity_eq_ok_iff K).mp hsource
  rw [hkeyed stored hstored t ht, factDailyTickersQuantity_id K hrows hs] at hid
  simp only [quantityId, SurrogateKey.eq_iff, List.cons.injEq, KeyField.id.injEq] at hid
  exact hid.1

/-- After a run the facts hold ids of the new `dim_tickers` and, when the run is
incremental, every id they held before.  A merge may replace a stored row, but
by one with the same id, which `hprices` and `hquantity` say is of the same
ticker. -/
theorem referenced_dbtRun_iff (hdd : IsDateDim dd) (hprices : PricesKeyed K w)
    (hquantity : QuantityKeyed K w) (h : Completes K dd run w)
    (hdt : buildDimTickers K run = .ok dt) :
    ∃ fresh : Id → Prop, (∀ i, fresh i → ∃ t ∈ dt, t.id = i) ∧ ∀ i,
      Referenced (dbtRun K dd run w) i ↔
        fresh i ∨ (run.fullRefresh = false ∧ Referenced w i) := by
  obtain ⟨prices, hbuiltPrices⟩ := h.factTickerPrices
  obtain ⟨quantities, hbuiltQuantities⟩ := h.factDailyTickersQuantity
  obtain ⟨priceRows, hpriceRows, hpriceIds⟩ :=
    Sql.exists_mem_of_materialize_iff (g := fun r => r.symbolId) hbuiltPrices
      fun stored source hstored hsource t ht s hs =>
        symbolId_of_priceId K hprices hstored hsource ht hs
  obtain ⟨quantityRows, hquantityRows, hquantityIds⟩ :=
    Sql.exists_mem_of_materialize_iff (g := fun r => r.symbolId) hbuiltQuantities
      fun stored source hstored hsource t ht s hs =>
        symbolId_of_quantityId K hquantity hstored hsource ht hs
  have hafterPrices : (dbtRun K dd run w).factTickerPrices = some prices :=
    Sql.tableAfter_of_ok hbuiltPrices
  have hafterQuantities : (dbtRun K dd run w).factDailyTickersQuantity = some quantities :=
    Sql.tableAfter_of_ok hbuiltQuantities
  refine ⟨fun i => (∃ r ∈ priceRows, r.symbolId = i) ∨ ∃ r ∈ quantityRows, r.symbolId = i,
    ?_, fun i => ?_⟩
  · rintro i (⟨r, hr, rfl⟩ | ⟨r, hr, rfl⟩)
    · exact symbolId_of_queryFactTickerPrices K hdt hpriceRows hr
    · exact symbolId_of_queryFactDailyTickersQuantity K hdd hdt hquantityRows hr
  · simp only [Referenced, hafterPrices, hafterQuantities, Option.some.injEq,
      exists_eq_left', hpriceIds i, hquantityIds i, and_or_left]
    exact or_or_or_comm

end Step

/-! ## Ids across seeds -/

section Ids

variable {earlier later : DbtRun} {dt dt' : List (DimTickers Id)}

omit [DecidableEq Id] in
/-- With its prices appended in time order, a ticker is found again under its id
exactly when the new seed gives it the name it had.  The symbol is still there,
and its first timestamp is the one it had. -/
theorem exists_id_iff_mappedName (hdt : buildDimTickers K earlier = .ok dt)
    (hdt' : buildDimTickers K later = .ok dt')
    (happend : later.sources.AppendsInOrder earlier.sources)
    (hunique : UniqueAbbreviations later.nameMapping) {t : DimTickers Id} (ht : t ∈ dt) :
    (∃ t' ∈ dt', t'.id = t.id) ↔
      mappedName later.nameMapping t.symbolShort = t.fullName := by
  constructor
  · rintro ⟨t', ht', hid⟩
    obtain ⟨-, hshort, hname, -⟩ := dimTickers_id_inj K hdt' hdt ht' ht hid
    obtain ⟨-, -, hmaps, -⟩ := (mem_dimTickers K hdt').mp ht'
    rw [← hshort, ← hname]
    exact ((mapsTo_iff_of_unique hunique).mp hmaps).symm
  · intro hname
    obtain ⟨new, hprices, hle⟩ := happend
    rw [buildDimTickers, hprices] at hdt'
    exact exists_id_dimTickers_append K hdt hdt' hle ht
      ((mapsTo_iff_of_unique hunique).mpr hname.symm)

/-- An id that occurs in `dim_tickers` occurs once. -/
theorem count_id_eq_one_iff (hdt : buildDimTickers K later = .ok dt) (i : Id) :
    (dt.map DimTickers.id).count i = 1 ↔ ∃ t ∈ dt, t.id = i := by
  rw [← List.mem_map]
  constructor
  · intro hcount
    exact List.count_pos_iff.mp (by omega)
  · exact List.count_eq_one_of_mem (nodup_dimTickers_id K hdt)

end Ids

/-! ## One execution -/

section Execution

variable {prev e : Execution} {w : Warehouse Id}

/-- One execution keeps the references intact exactly when it is a full refresh
or keeps the names of the tickers with facts.

`hdims` says that the stored dimension is the one of the execution before, whose
sources `happend` compares with those of this one; before the first execution
there is none. -/
theorem referentialIntegrity_dbtRun_iff (hprices : PricesKeyed K w)
    (hquantity : QuantityKeyed K w)
    (hdims : ∀ dims, w.dimTickers = some dims → buildDimTickers K prev.run = .ok dims)
    (happend : e.sources.AppendsInOrder prev.sources)
    (hunique : UniqueAbbreviations e.seed) (h : Completes K dimDate e.run w)
    (hintact : ReferentialIntegrity w) :
    ReferentialIntegrity (dbtRun K dimDate e.run w) ↔ KeepsNames e w := by
  obtain ⟨dt, hdt⟩ := h.dimTickers
  obtain ⟨fresh, hfresh, hreferenced⟩ :=
    referenced_dbtRun_iff K isDateDim_dimDate hprices hquantity h hdt
  have hafter : (dbtRun K dimDate e.run w).dimTickers = some dt := by
    simp [dbtRun, hdt, Except.toOption]
  have hmode : e.run.fullRefresh = false ↔ Sql.isoWeekday e.today ≠ 7 := by
    simp [Execution.run]
  simp only [ReferentialIntegrity, hreferenced, hafter, Option.some.injEq, exists_eq_left',
    count_id_eq_one_iff K hdt, hmode]
  constructor
  · intro hall hday dims hstored t ht hfacts
    exact (exists_id_iff_mappedName K (hdims dims hstored) hdt happend hunique ht).mp
      (hall t.id (.inr ⟨hday, hfacts⟩))
  · rintro hkeeps i (hi | ⟨hday, hfacts⟩)
    · exact hfresh i hi
    · obtain ⟨dims, hstored, t, ht, rfl⟩ := hintact.exists_ticker hfacts
      exact (exists_id_iff_mappedName K (hdims dims hstored) hdt happend hunique ht).mpr
        (hkeeps hday dims hstored t ht hfacts)

end Execution

/-! ## Sequences of executions -/

/-- The warehouse after the first `n` executions of the script. -/
def warehouseAfterExecutions (execs : ℕ → Execution) (n : ℕ) : Warehouse Id :=
  warehouseAfter K dimDate (fun m => (execs m).run) n

/-- After a completed execution `dim_tickers` is the one it built. -/
theorem dimTickers_warehouseAfterExecutions {execs : ℕ → Execution} {n : ℕ}
    (h : Completes K dimDate (execs n).run (warehouseAfterExecutions K execs n))
    {dims : List (DimTickers Id)}
    (hdims : (warehouseAfterExecutions K execs (n + 1)).dimTickers = some dims) :
    buildDimTickers K (execs n).run = .ok dims := by
  obtain ⟨dt, hdt⟩ := h.dimTickers
  rw [warehouseAfterExecutions, warehouseAfter_succ] at hdims
  simp only [dbtRun, hdt, Except.toOption, Option.some_or, Option.some.injEq] at hdims
  rw [hdt, hdims]

/-- The references are intact after every execution exactly when no incremental
execution renames a ticker with facts.

The id of a ticker hashes its name and its first timestamp.  `happend` keeps the
timestamp: later prices are not dated before earlier ones.  `hunique` gives each
ticker one row, and `hcompletes` leaves out executions in which a model is not
built, after which the dimension and the facts are of different executions.
What remains is the name, which the seed file may change. -/
theorem referentialIntegrity_iff (execs : ℕ → Execution) (n : ℕ)
    (happend : ∀ m, (execs (m + 1)).sources.AppendsInOrder (execs m).sources)
    (hunique : ∀ m, UniqueAbbreviations (execs m).seed)
    (hcompletes : ∀ m < n,
      Completes K dimDate (execs m).run (warehouseAfterExecutions K execs m)) :
    (∀ m ≤ n, ReferentialIntegrity (warehouseAfterExecutions K execs m)) ↔
      ∀ m < n, KeepsNames (execs m) (warehouseAfterExecutions K execs m) := by
  have hinit : ∀ i, ¬ Referenced (Warehouse.empty : Warehouse Id) i := by
    rintro i (⟨rows, hrows, -⟩ | ⟨rows, hrows, -⟩) <;> cases hrows
  refine Sql.forall_le_iff_forall_lt (fun i hi => absurd hi (hinit i)) fun m hm hintact => ?_
  have hcomplete := hcompletes m hm
  cases m with
  | zero =>
      have happend₀ : (execs 0).sources.AppendsInOrder (execs 0).sources := ⟨[], by simp⟩
      exact referentialIntegrity_dbtRun_iff K (pricesKeyed_warehouseAfter K)
        (quantityKeyed_warehouseAfter K) (fun dims hdims => by cases hdims) happend₀
        (hunique 0) hcomplete hintact
  | succ m =>
      exact referentialIntegrity_dbtRun_iff K (pricesKeyed_warehouseAfter K)
        (quantityKeyed_warehouseAfter K)
        (fun dims => dimTickers_warehouseAfterExecutions K
          (hcompletes m (m.lt_succ_self.trans hm)))
        (happend m) (hunique _) hcomplete hintact

/-! ## A renamed ticker -/

/-- What the executions of Wednesday 2024-05-01 and Thursday 2024-05-02 find;
only the seed differs. -/
def renamedExecution (today : Date) (bitcoin : String) : Execution where
  sources :=
    { tickerPrices := [⟨some "BTCUSDT", Sql.midnight 19844⟩]
      tickerPriceChange :=
        [TickerPriceChange.ofPrices "BTCUSDT" 60000 50000 1714435200000
          (Sql.midnight 19844 + 1)]
      accountSnaphsot := [⟨some "BTC", some 1, some 0, Sql.midnight 19844 + 2⟩] }
  seed := [⟨some bitcoin, some "BTC"⟩]
  today := today
  now := Sql.midnight today

def renamed : ℕ → Execution
  | 0 => renamedExecution 19844 "Bitcoin"
  | _ + 1 => renamedExecution 19845 "Bitcoin (BTC)"

private theorem forall_renamed {P : Execution → Prop}
    (hfirst : P (renamedExecution 19844 "Bitcoin"))
    (hlater : P (renamedExecution 19845 "Bitcoin (BTC)")) : ∀ n, P (renamed n)
  | 0 => hfirst
  | _ + 1 => hlater

private theorem appendsInOrder_renamed (m : ℕ) :
    (renamed (m + 1)).sources.AppendsInOrder (renamed m).sources := by
  have hsources : ∀ n, (renamed n).sources = (renamed 0).sources :=
    forall_renamed (P := fun e => e.sources = _) rfl rfl
  rw [hsources (m + 1), hsources m]
  exact ⟨[], (List.append_nil _).symm, by simp⟩

private theorem sameDates_renamed :
    ∀ n, SameDates dimDate (dateDim 19844 19844) (renamed n).run :=
  forall_renamed (P := fun e => SameDates dimDate (dateDim 19844 19844) e.run)
    (sameDates_dimDate (by decide) (by decide) (by decide))
    (sameDates_dimDate (by decide) (by decide) (by decide))

private theorem warehouseAfterExecutions_renamed (n : ℕ) :
    warehouseAfterExecutions listing renamed n =
      warehouseAfter listing (dateDim 19844 19844) (fun m => (renamed m).run) n :=
  warehouseAfter_congr listing sameDates_renamed n

private theorem completes_renamed : ∀ m < 2, Completes listing dimDate (renamed m).run
    (warehouseAfterExecutions listing renamed m) := by
  have hcompletes : ∀ m < 2, Completes listing (dateDim 19844 19844) (renamed m).run
      (warehouseAfter listing (dateDim 19844 19844) (fun m => (renamed m).run) m) := by
    decide +kernel
  intro m hm
  rw [warehouseAfterExecutions_renamed, completes_congr listing (sameDates_renamed m)]
  exact hcompletes m hm

theorem referentialIntegrity_iff_renamed :
    (∀ m ≤ 2, ReferentialIntegrity (warehouseAfterExecutions listing renamed m)) ↔
      ∀ m < 2, KeepsNames (renamed m) (warehouseAfterExecutions listing renamed m) :=
  referentialIntegrity_iff listing renamed 2 appendsInOrder_renamed
    (forall_renamed (P := fun e => UniqueAbbreviations e.seed) (by decide) (by decide))
    completes_renamed

/-- Which ids of `fact_ticker_prices` are those of a ticker. -/
private theorem known_renamed :
    ((warehouseAfter listing (dateDim 19844 19844) (fun m => (renamed m).run)
      2).factTickerPrices.bind fun rows =>
        (warehouseAfter listing (dateDim 19844 19844) (fun m => (renamed m).run)
          2).dimTickers.map fun dims =>
            rows.map fun r => decide (∃ t ∈ dims, t.id = r.symbolId)) =
      some [false, true] := by
  decide +kernel

/-- The price of 2024-05-01 keeps the id of a ticker that is gone. -/
theorem not_referentialIntegrity_renamed :
    (∀ m, (renamed (m + 1)).sources.AppendsInOrder (renamed m).sources) ∧
      (∀ m, UniqueAbbreviations (renamed m).seed) ∧
      (∀ m < 2, Completes listing dimDate (renamed m).run
        (warehouseAfterExecutions listing renamed m)) ∧
      ¬ ReferentialIntegrity (warehouseAfterExecutions listing renamed 2) := by
  refine ⟨appendsInOrder_renamed,
    forall_renamed (P := fun e => UniqueAbbreviations e.seed) (by decide) (by decide),
    completes_renamed, fun hintact => ?_⟩
  rw [warehouseAfterExecutions_renamed] at hintact
  obtain ⟨rows, hrows, hknown⟩ := Option.bind_eq_some_iff.mp known_renamed
  obtain ⟨dims, hdims, hknown⟩ := Option.map_eq_some_iff.mp hknown
  obtain ⟨orphan, _, rfl, horphan, -⟩ := List.map_eq_cons_iff.mp hknown
  obtain ⟨dims', hdims', hticker⟩ :=
    hintact.exists_ticker (.inl ⟨_, hrows, orphan, List.mem_cons_self, rfl⟩)
  obtain rfl := Option.some.inj (hdims.symm.trans hdims')
  exact of_decide_eq_false horphan hticker

end BinanceElt
