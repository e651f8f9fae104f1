import BinanceElt.Models.FactDailyTickersQuantity
import BinanceElt.Models.SurrogateKey

/-!
# The daily quantity of a ticker

`current_portfolio` leaves out the snapshots without a positive balance before
it averages.  Of non-negative balances, every group that is left has a positive
quantity, so that no change is divided by zero; but a day's quantity is the mean
balance of the snapshots that show one, not of all snapshots of the day.

## Main results

* `quantity_never_zero` — the query succeeds, in either mode.
* `storesMeanBalance_iff` — the stored quantity, and when it is the mean balance
  of the whole day.
* `not_storesMeanBalance_sold` — a day on which the asset is sold.
-/

namespace BinanceElt

open Sql (Date Timestamp QueryError)

variable {Id : Type} [DecidableEq Id] (K : SurrogateKey Id)

/-! ## No zero denominator -/

section Denominators

omit [DecidableEq Id] in
/-- A row that steps from a positive quantity does not fail. -/
private theorem exists_changeRow {p : CurrentPortfolio Id} {q : Option (CurrentPortfolio Id)}
    (hp : ∃ x, p.quantity = some x ∧ 0 < x)
    (hq : ∀ y, q.bind CurrentPortfolio.quantity = some y → 0 < y) :
    ∃ c, changeRow (p, q) = .ok c := by
  obtain ⟨x, hx, -⟩ := hp
  have hne : q.bind CurrentPortfolio.quantity ≠ some 0 := fun hzero => lt_irrefl _ (hq 0 hzero)
  obtain ⟨percentage, hpercentage⟩ := exists_percentageChange_iff.mpr hne
  rw [← hx] at hpercentage
  exact ⟨_, changeRow_eq_ok_iff.mpr ⟨percentage, hpercentage, rfl⟩⟩

variable {src : List AccountSnaphsot} (hbalances : NonnegBalances src)
  (dt : List (DimTickers Id)) (dd : List DimDate) (ctx : RunContext) (isIncremental : Bool)
include hbalances

/-- Every previous day has a positive quantity. -/
private theorem pos_lag {p : CurrentPortfolio Id} {q : Option (CurrentPortfolio Id)}
    (hq : IsLagDay (currentPortfolio src dt dd ctx isIncremental) p q) {y : ℚ}
    (hy : q.bind CurrentPortfolio.quantity = some y) : 0 < y := by
  cases q with
  | none => simp at hy
  | some q =>
      obtain ⟨x, hx, hpos⟩ := pos_quantity_currentPortfolio hbalances hq.mem
      rw [Option.bind_some, hx] at hy
      exact Option.some.inj hy ▸ hpos

/-- The query succeeds. -/
theorem exists_factDailyTickersQuantity :
    ∃ rows, factDailyTickersQuantity K src dt dd ctx isIncremental = .ok rows :=
  (exists_factDailyTickersQuantity_iff K).mpr fun _ hp _ hq =>
    exists_changeRow (pos_quantity_currentPortfolio hbalances hp)
      fun _ hy => pos_lag hbalances dt dd ctx isIncremental hq hy

/-- Of non-negative balances, whatever the dimensions and the window, every
group has a positive quantity, every quantity `lag` returns is positive, and the
query does not divide by zero.

The filter of `current_portfolio` drops every snapshot in which both balances
are zero, before the averages are taken.  A group therefore has a row with a
positive balance, and `hbalances` keeps the other rows from making up for it; a
negative balance could. -/
theorem quantity_never_zero :
    (∀ p ∈ currentPortfolio src dt dd ctx isIncremental,
      ∃ q, p.quantity = some q ∧ 0 < q) ∧
    (∀ r ∈ Sql.lagOver CurrentPortfolio.symbolId CurrentPortfolio.dateId
        (currentPortfolio src dt dd ctx isIncremental),
      ∀ y, r.2.bind CurrentPortfolio.quantity = some y → 0 < y) ∧
    ∃ rows, factDailyTickersQuantity K src dt dd ctx isIncremental = .ok rows := by
  refine ⟨fun p hp => pos_quantity_currentPortfolio hbalances hp, fun r hr y hy => ?_,
    exists_factDailyTickersQuantity K hbalances dt dd ctx isIncremental⟩
  obtain ⟨-, hlag⟩ := (Sql.mem_lagOver nodup_currentPortfolio).mp hr
  exact pos_lag hbalances dt dd ctx isIncremental hlag hy

end Denominators

/-! ## The mean balance of a day -/

/-- The snapshots of an asset on a day. -/
def snapshotsOn (src : List AccountSnaphsot) (asset : String) (date : Date) :
    List AccountSnaphsot :=
  src.filter fun a => a.asset = some asset ∧ Sql.extractDate a.timestamp = date

/-- The table holds the mean of these balances for a ticker and a day. -/
def StoresMeanOf (balances : List ℚ) (rows : List (FactDailyTickersQuantity Id))
    (t : DimTickers Id) (d : DimDate) : Prop :=
  ∃ r ∈ rows, r.symbolId = t.id ∧ r.dateId = d.id ∧ r.quantity = some (Sql.mean balances)

section MeanBalance

variable {src : List AccountSnaphsot} {dt : List (DimTickers Id)} {dd : List DimDate}
  {ctx : RunContext} {rows : List (FactDailyTickersQuantity Id)} {asset : String} {date : Date}

/-- The balances that count are the positive ones of the day. -/
theorem map_balance_holdings (hbalances : NonnegBalances src) :
    (holdings src (some asset) date).map AccountSnaphsot.balance =
      ((snapshotsOn src asset date).map AccountSnaphsot.balance).filter fun x => 0 < x := by
  rw [List.filter_map]
  refine congrArg _ ?_
  rw [snapshotsOn, List.filter_filter]
  refine List.filter_congr fun a ha => ?_
  have hpositive := hbalances.isPositive_iff_balance ha
  rw [Bool.eq_iff_iff]
  simp only [Bool.and_eq_true, Sql.holds_eq, decide_eq_true_eq, Option.some.injEq,
    Function.comp_apply, hpositive]
  constructor
  · rintro ⟨⟨_, hasset, rfl⟩, hdate, hpos⟩
    exact ⟨hpos, hasset, hdate.symm⟩
  · rintro ⟨hpos, hasset, hdate⟩
    exact ⟨⟨asset, hasset, rfl⟩, hdate.symm, hpos⟩

variable (hdt : (dt.map DimTickers.id).Nodup) (hdd : IsDateDim dd)
  (h : factDailyTickersQuantity K src dt dd ctx false = .ok rows)
include hdt hdd h

/-- The quantity a full refresh stores for a ticker and a day. -/
theorem storesMeanOf_iff (hbalances : NonnegBalances src) {t : DimTickers Id} {d : DimDate}
    (ht : t ∈ dt) (hd : d ∈ dd) (hne : holdings src t.symbolShort d.fullDate ≠ [])
    (balances : List ℚ) :
    StoresMeanOf balances rows t d ↔
      Sql.mean ((holdings src t.symbolShort d.fullDate).map AccountSnaphsot.balance) =
        Sql.mean balances := by
  have hrows := map_factDailyTickersQuantity_perm K h
  have hquantity := quantityOn_eq_mean_balance hbalances hne
  have hmem : (⟨t.id, d.id, quantityOn src t.symbolShort d.fullDate⟩ : CurrentPortfolio Id) ∈
      currentPortfolio src dt dd ctx false :=
    (mem_currentPortfolio hdt hdd).mpr ⟨t, ht, d, hd, rfl, hne, rfl⟩
  constructor
  · rintro ⟨r, hr, hsymbol, hdate, hstored⟩
    have hrow : r.toCurrentPortfolio = ⟨t.id, d.id, quantityOn src t.symbolShort d.fullDate⟩ :=
      List.inj_on_of_nodup_map nodup_currentPortfolio
        (hrows.mem_iff.mp (List.mem_map_of_mem hr)) hmem (Prod.ext hsymbol hdate)
    have hvalue : r.quantity = quantityOn src t.symbolShort d.fullDate :=
      congrArg CurrentPortfolio.quantity hrow
    rw [hstored, hquantity] at hvalue
    exact (Option.some.inj hvalue).symm
  · intro hmean
    obtain ⟨r, hr, hrow⟩ := List.mem_map.mp (hrows.mem_iff.mpr hmem)
    refine ⟨r, hr, congrArg CurrentPortfolio.symbolId hrow,
      congrArg CurrentPortfolio.dateId hrow, ?_⟩
    rw [← hmean, ← hquantity]
    exact congrArg CurrentPortfolio.quantity hrow

end MeanBalance

/-- A full refresh stores, for every ticker and day with a positive balance of
its asset, the mean of the positive balances of the day; that is the mean of all
balances of the day exactly when no snapshot of the asset shows zero.

`hdt` and `ht` pick the one row of the dimension with its id, `hasset` names the
asset it stands for, and `hheld` that there is a row to speak of.  Means are
those of exact rationals. -/
theorem storesMeanBalance_iff {src : List AccountSnaphsot} (hbalances : NonnegBalances src)
    {dt : List (DimTickers Id)} (hdt : (dt.map DimTickers.id).Nodup) (ctx : RunContext)
    {t : DimTickers Id} (ht : t ∈ dt) {asset : String} (hasset : t.symbolShort = some asset)
    {d : DimDate} (hd : d ∈ dimDate)
    (hheld : ∃ a ∈ snapshotsOn src asset d.fullDate, 0 < a.balance) :
    ∃ rows, factDailyTickersQuantity K src dt dimDate ctx false = .ok rows ∧
      StoresMeanOf (((snapshotsOn src asset d.fullDate).map AccountSnaphsot.balance).filter
        fun x => 0 < x) rows t d ∧
      (StoresMeanOf ((snapshotsOn src asset d.fullDate).map AccountSnaphsot.balance) rows t d ↔
        ∀ a ∈ snapshotsOn src asset d.fullDate, 0 < a.balance) := by
  obtain ⟨rows, hrows⟩ := exists_factDailyTickersQuantity K hbalances dt dimDate ctx false
  obtain ⟨held, hmem, hpos⟩ := hheld
  have hnonneg : ∀ x ∈ (snapshotsOn src asset d.fullDate).map AccountSnaphsot.balance, 0 ≤ x := by
    intro x hx
    obtain ⟨a, ha, rfl⟩ := List.mem_map.mp hx
    exact hbalances.balance_nonneg (List.mem_of_mem_filter ha)
  have hne : holdings src t.symbolShort d.fullDate ≠ [] := by
    rw [hasset, ne_eq, ← List.map_eq_nil_iff (f := AccountSnaphsot.balance),
      map_balance_holdings hbalances]
    exact List.ne_nil_of_mem (List.mem_filter.mpr
      ⟨List.mem_map_of_mem hmem, decide_eq_true hpos⟩)
  have hstores := storesMeanOf_iff K hdt isDateDim_dimDate hrows hbalances ht hd hne
  rw [hasset, map_balance_holdings hbalances] at hstores
  refine ⟨rows, hrows, (hstores _).mpr rfl, ?_⟩
  rw [hstores, Sql.mean_filter_pos_eq_iff hnonneg
    ⟨held.balance, List.mem_map_of_mem hmem, hpos⟩, List.forall_mem_map]

/-! ## A day on which the asset is sold -/

def soldTicker : DimTickers (List ℤ) :=
  ⟨[1], some "BTCUSDT", some "BTC", "Bitcoin", some (Sql.midnight 19844),
    Sql.midnight 19845⟩

/-- One bitcoin in the first snapshot of 2024-05-01, none in the second. -/
def soldSnapshots : List AccountSnaphsot :=
  [⟨some "BTC", some 1, some 0, Sql.midnight 19844⟩,
    ⟨some "BTC", some 0, some 0, Sql.midnight 19844 + 43200000000⟩]

def soldContext : RunContext := ⟨19845, Sql.midnight 19845, daysToIngest⟩

private theorem nonnegBalances_sold : NonnegBalances soldSnapshots := by
  decide +kernel

/-- The day of the sale and the next one, on which two bitcoins are held. -/
def twoDaySnapshots : List AccountSnaphsot :=
  soldSnapshots ++ [⟨some "BTC", some 2, some 0, Sql.midnight 19845⟩]

/-- The second day has the first one before it, whose quantity is a
denominator. -/
theorem quantity_never_zero_twoDays :
    ((∀ p ∈ currentPortfolio twoDaySnapshots [soldTicker] (dateDim 19844 19845) soldContext true,
        ∃ q, p.quantity = some q ∧ 0 < q) ∧
      (∀ r ∈ Sql.lagOver CurrentPortfolio.symbolId CurrentPortfolio.dateId
          (currentPortfolio twoDaySnapshots [soldTicker] (dateDim 19844 19845) soldContext true),
        ∀ y, r.2.bind CurrentPortfolio.quantity = some y → 0 < y) ∧
      ∃ rows, factDailyTickersQuantity listing twoDaySnapshots [soldTicker]
        (dateDim 19844 19845) soldContext true = .ok rows) ∧
    ∃ r ∈ Sql.lagOver CurrentPortfolio.symbolId CurrentPortfolio.dateId
        (currentPortfolio twoDaySnapshots [soldTicker] (dateDim 19844 19845) soldContext true),
      r.1.quantity = some 2 ∧ r.2.bind CurrentPortfolio.quantity = some 1 := by
  refine ⟨?_, by decide +kernel⟩
  exact quantity_never_zero listing (by decide +kernel) [soldTicker] (dateDim 19844 19845)
    soldContext true

private theorem nodup_sold : ([soldTicker].map DimTickers.id).Nodup :=
  List.nodup_singleton _

private theorem ofDate_mem_dimDate_sold : DimDate.ofDate 19844 ∈ dimDate :=
  List.mem_map_of_mem (Sql.mem_generateDateArray.mpr (by decide))

private theorem held_sold : ∃ a ∈ snapshotsOn soldSnapshots "BTC" 19844, 0 < a.balance := by
  decide +kernel

theorem storesMeanBalance_iff_sold :
    ∃ rows, factDailyTickersQuantity listing soldSnapshots [soldTicker] dimDate soldContext
        false = .ok rows ∧
      StoresMeanOf (((snapshotsOn soldSnapshots "BTC" 19844).map
        AccountSnaphsot.balance).filter fun x => 0 < x) rows soldTicker
        (DimDate.ofDate 19844) ∧
      (StoresMeanOf ((snapshotsOn soldSnapshots "BTC" 19844).map AccountSnaphsot.balance)
          rows soldTicker (DimDate.ofDate 19844) ↔
        ∀ a ∈ snapshotsOn soldSnapshots "BTC" 19844, 0 < a.balance) :=
  storesMeanBalance_iff listing nonnegBalances_sold nodup_sold soldContext
    List.mem_cons_self rfl ofDate_mem_dimDate_sold held_sold

/-- The stored quantity of the day is 1, the mean balance is 1/2. -/
theorem not_storesMeanBalance_sold :
    NonnegBalances soldSnapshots ∧ ([soldTicker].map DimTickers.id).Nodup ∧
      (∃ a ∈ snapshotsOn soldSnapshots "BTC" 19844, 0 < a.balance) ∧
      ∃ rows, factDailyTickersQuantity listing soldSnapshots [soldTicker] dimDate soldContext
          false = .ok rows ∧
        ¬ StoresMeanOf ((snapshotsOn soldSnapshots "BTC" 19844).map AccountSnaphsot.balance)
          rows soldTicker (DimDate.ofDate 19844) := by
  obtain ⟨rows, hrows⟩ := exists_factDailyTickersQuantity listing nonnegBalances_sold
    [soldTicker] dimDate soldContext false
  refine ⟨nonnegBalances_sold, nodup_sold, held_sold, rows, hrows, ?_⟩
  rw [storesMeanOf_iff listing nodup_sold isDateDim_dimDate hrows nonnegBalances_sold
    List.mem_cons_self ofDate_mem_dimDate_sold (by decide +kernel)]
  decide +kernel

end BinanceElt
