import BinanceElt.Models.DimDate
import BinanceElt.Models.DimTickers

/-!
# The common table expression `current_portfolio`

`fact_daily_tickers_quantity` and `fact_daily_account_value` open with the same
common table expression: the holdings of every ticker and day, averaged over
the snapshots of the day that show a positive balance.  Both also derive their
change columns from `lag` with the same pair of expressions.

## Main results

* `mem_currentPortfolio` — a ticker has a row on a day exactly when the day has
  a positive-balance snapshot of its asset, and the quantity is a function of
  these snapshots.
* `nodup_currentPortfolio` — one row per ticker and day.
* `pos_quantity_currentPortfolio` — of non-negative balances, every row has a
  positive quantity.
* `isSmallStep_iff` — when both change columns are zero.
-/

namespace BinanceElt

open Sql (Date Timestamp QueryError)

/-! ## The query -/

structure CurrentPortfolio (Id : Type) where
  symbolId : Id
  dateId : ℤ
  quantity : Option ℚ
deriving DecidableEq, Repr

/-- `a.free > 0.0 or a.locked > 0.0`.  A null balance is not positive, but does
not keep the other one from being so. -/
def AccountSnaphsot.isPositive (a : AccountSnaphsot) : Bool :=
  Sql.holds (Sql.or (Sql.gt a.free 0) (Sql.gt a.locked 0))

variable {Id : Type} [DecidableEq Id]

/-- The joined rows the query keeps: a snapshot with a ticker of its asset and
the date of its ingestion, once for every such ticker. -/
def portfolioRows (src : List AccountSnaphsot) (dt : List (DimTickers Id))
    (dd : List DimDate) (ctx : RunContext) (isIncremental : Bool) :
    List ((AccountSnaphsot × DimTickers Id) × DimDate) :=
  let joined := Sql.innerJoin
    (Sql.innerJoin src dt fun a t => Sql.holds (Sql.eq a.asset t.symbolShort)) dd
    fun r d => decide (d.fullDate = Sql.extractDate r.1.timestamp)
  joined.filter fun r => r.1.1.isPositive &&
    ctx.ingests isIncremental (some (Sql.extractDate r.1.1.timestamp))

def currentPortfolio (src : List AccountSnaphsot) (dt : List (DimTickers Id))
    (dd : List DimDate) (ctx : RunContext) (isIncremental : Bool) :
    List (CurrentPortfolio Id) :=
  (Sql.groupBy (fun r => (r.1.2.id, r.2.id))
      (portfolioRows src dt dd ctx isIncremental)).map fun g =>
    { symbolId := g.1.1
      dateId := g.1.2
      quantity := Sql.add (Sql.avg (g.2.map fun r => r.1.1.free))
        (Sql.avg (g.2.map fun r => r.1.1.locked)) }

/-- `coalesce(round(x - lag(x), 2), 0.0)`.  A row without a row before it shows
0, and so does a step from or to a null. -/
def valueChange (x lag : Option ℚ) : ℚ := (Sql.round 2 (Sql.sub x lag)).getD 0

/-- `coalesce(round((x - lag(x)) / lag(x) * 100, 2), 0.0)`.  A `lag` of zero
aborts the query, whereas no `lag` at all gives 0. -/
def percentageChange (x lag : Option ℚ) : Except QueryError ℚ := do
  let ratio ← Sql.div (Sql.sub x lag) lag
  return (Sql.round 2 (Sql.mul ratio (some 100))).getD 0

/-! ## The change columns -/

@[simp] theorem valueChange_none (x : Option ℚ) : valueChange x none = 0 := by
  cases x <;> rfl

@[simp] theorem percentageChange_none (x : Option ℚ) :
    percentageChange x none = .ok 0 := by
  cases x <;> rfl

/-- The percentage fails exactly on a zero denominator. -/
theorem percentageChange_some {x y : ℚ} (hy : y ≠ 0) :
    percentageChange (some x) (some y) = .ok (Sql.roundTo 2 ((x - y) / y * 100)) := by
  simp [percentageChange, Sql.div, Sql.sub, Sql.mul, Sql.round, hy, bind, Except.bind,
    pure, Except.pure]

theorem percentageChange_zero (x : ℚ) :
    percentageChange (some x) (some 0) = .error .divisionByZero := by
  simp [percentageChange, Sql.div, Sql.sub, bind, Except.bind]

theorem exists_percentageChange_iff {x : ℚ} {lag : Option ℚ} :
    (∃ percentage, percentageChange (some x) lag = .ok percentage) ↔ lag ≠ some 0 := by
  cases lag with
  | none => simp
  | some y =>
      by_cases hy : y = 0
      · simp [hy, percentageChange_zero]
      · simp [hy, percentageChange_some hy]

/-- The difference of two values with two decimals is not rounded. -/
theorem valueChange_of_isGrid {x y : ℚ} (hx : Sql.IsGrid 2 x) (hy : Sql.IsGrid 2 y) :
    valueChange (some x) (some y) = x - y :=
  Sql.roundTo_of_isGrid (hx.sub hy)

/-- A step from `lag` to `x` that two decimals do not show, neither as a
difference nor as a percentage. -/
def IsSmallStep (x lag : Option ℚ) : Prop :=
  ∀ a b, x = some a → lag = some b →
    b ≠ 0 ∧ |a - b| < 1 / 200 ∧ |(a - b) / b * 100| < 1 / 200

/-- Only small steps leave zero in both change columns. -/
theorem isSmallStep_iff {x lag : Option ℚ} :
    IsSmallStep x lag ↔ valueChange x lag = 0 ∧ percentageChange x lag = .ok 0 := by
  have hround : ∀ y, Sql.roundTo 2 y = 0 ↔ |y| < 1 / 200 := by
    intro y
    rw [Sql.roundTo_eq_zero_iff_abs]
    norm_num
  match x, lag with
  | none, none => simp [IsSmallStep]
  | some a, none => simp [IsSmallStep]
  | none, some b =>
      simp [IsSmallStep, valueChange, percentageChange, Sql.sub, Sql.div, Sql.mul, Sql.round,
        bind, Except.bind, pure, Except.pure]
  | some a, some b =>
      have hvalue : valueChange (some a) (some b) = Sql.roundTo 2 (a - b) := rfl
      simp only [IsSmallStep, Option.some.injEq, hvalue, hround]
      by_cases hb : b = 0
      · simp [hb, percentageChange_zero]
      · rw [percentageChange_some hb, Except.ok.injEq, hround]
        simp [hb]

/-! ## The rows -/

section Rows

variable {src : List AccountSnaphsot} {dt : List (DimTickers Id)}
  {dd : List DimDate} {ctx : RunContext} {isIncremental : Bool}

/-- The positive-balance snapshots of an asset on a day. -/
def holdings (src : List AccountSnaphsot) (asset : Option String) (date : Date) :
    List AccountSnaphsot :=
  src.filter fun a => Sql.holds (Sql.eq a.asset asset) &&
    (decide (date = Sql.extractDate a.timestamp) && a.isPositive)

/-- The quantity of an asset on a day. -/
def quantityOn (src : List AccountSnaphsot) (asset : Option String) (date : Date) :
    Option ℚ :=
  Sql.add (Sql.avg ((holdings src asset date).map AccountSnaphsot.free))
    (Sql.avg ((holdings src asset date).map AccountSnaphsot.locked))

omit [DecidableEq Id] in
/-- Only an asset that is named has snapshots. -/
theorem exists_asset_of_holdings_ne_nil {asset : Option String} {date : Date}
    (hne : holdings src asset date ≠ []) : ∃ s, asset = some s := by
  obtain ⟨a, ha⟩ := List.exists_mem_of_ne_nil _ hne
  obtain ⟨s, -, hs⟩ := (Sql.holds_eq _ _).mp (Bool.and_eq_true_iff.mp (List.mem_filter.mp ha).2).1
  exact ⟨s, hs⟩

/-- Of `dim_date`, the rows of the ingestion dates matter. -/
theorem currentPortfolio_congr {dd' : List DimDate}
    (h : ∀ a ∈ src, dd.filter (fun d => d.fullDate = Sql.extractDate a.timestamp) =
      dd'.filter fun d => d.fullDate = Sql.extractDate a.timestamp) :
    currentPortfolio src dt dd ctx isIncremental =
      currentPortfolio src dt dd' ctx isIncremental := by
  rw [currentPortfolio, portfolioRows, Sql.innerJoin_congr fun r hr =>
    h r.1 (Sql.mem_innerJoin.mp hr).1]
  rfl

omit [DecidableEq Id] in
/-- The rows of the group of a ticker and a day are its holdings.  `isT` and
`isD` may be any tests that pick this ticker and this day, so that the lemma
serves groups by id and by day alike; `hin` says that the day is in the window,
and no row of the day is dropped. -/
theorem map_filter_portfolioRows {t : DimTickers Id} {d : DimDate}
    (isT : DimTickers Id → Bool) (isD : DimDate → Bool)
    (hdt : dt.Nodup) (hdd : dd.Nodup) (ht : t ∈ dt) (hd : d ∈ dd)
    (hisT : ∀ t' ∈ dt, isT t' = true ↔ t' = t)
    (hisD : ∀ d' ∈ dd, isD d' = true ↔ d' = d)
    (hin : ctx.ingests isIncremental (some d.fullDate) = true) :
    ((portfolioRows src dt dd ctx isIncremental).filter fun r =>
        isT r.1.2 && isD r.2).map (fun r => r.1.1) =
      holdings src t.symbolShort d.fullDate := by
  have hrows : ∀ r : (AccountSnaphsot × DimTickers Id) × DimDate,
      (isT r.1.2 && isD r.2 && (r.1.1.isPositive &&
          ctx.ingests isIncremental (some (Sql.extractDate r.1.1.timestamp)))) =
        (isD r.2 && (isT r.1.2 && (r.1.1.isPositive &&
          ctx.ingests isIncremental (some (Sql.extractDate r.1.1.timestamp))))) := by
    intro r
    cases isT r.1.2 <;> cases isD r.2 <;> simp
  rw [portfolioRows, List.filter_filter]
  simp only [hrows]
  rw [Sql.map_fst_fst_filter_innerJoin hdt ht hisT hdd hd hisD fun a : AccountSnaphsot =>
    a.isPositive && ctx.ingests isIncremental (some (Sql.extractDate a.timestamp))]
  refine List.filter_congr fun a _ => ?_
  by_cases hdate : d.fullDate = Sql.extractDate a.timestamp
  · simp [hdate, hdate ▸ hin]
  · simp [hdate]

/-- A ticker has a row on a day of the window exactly when the day has a
positive-balance snapshot of its asset. -/
theorem mem_currentPortfolio (hdt : (dt.map DimTickers.id).Nodup) (hdd : IsDateDim dd)
    {p : CurrentPortfolio Id} :
    p ∈ currentPortfolio src dt dd ctx isIncremental ↔
      ∃ t ∈ dt, ∃ d ∈ dd, ctx.ingests isIncremental (some d.fullDate) = true ∧
        holdings src t.symbolShort d.fullDate ≠ [] ∧
        p = ⟨t.id, d.id, quantityOn src t.symbolShort d.fullDate⟩ := by
  have hgroup : ∀ t ∈ dt, ∀ d ∈ dd, ctx.ingests isIncremental (some d.fullDate) = true →
      ((portfolioRows src dt dd ctx isIncremental).filter fun r =>
        (r.1.2.id, r.2.id) = (t.id, d.id)).map (fun r => r.1.1) =
        holdings src t.symbolShort d.fullDate := by
    intro t ht d hd hin
    rw [← map_filter_portfolioRows (fun t' => decide (t'.id = t.id))
      (fun d' => decide (d'.id = d.id)) (List.Nodup.of_map _ hdt)
      (List.Nodup.of_map _ hdd.nodup) ht hd (Sql.decide_key_eq_iff hdt ht)
      (Sql.decide_key_eq_iff hdd.nodup_id hd) hin]
    congr 2
    funext r
    rw [Bool.eq_iff_iff]
    simp
  have hquantity : ∀ t ∈ dt, ∀ d ∈ dd,
      ctx.ingests isIncremental (some d.fullDate) = true →
      Sql.add (Sql.avg (((portfolioRows src dt dd ctx isIncremental).filter fun r =>
          (r.1.2.id, r.2.id) = (t.id, d.id)).map fun r => r.1.1.free))
        (Sql.avg (((portfolioRows src dt dd ctx isIncremental).filter fun r =>
          (r.1.2.id, r.2.id) = (t.id, d.id)).map fun r => r.1.1.locked)) =
        quantityOn src t.symbolShort d.fullDate := by
    intro t ht d hd hin
    rw [quantityOn, ← hgroup t ht d hd hin, List.map_map, List.map_map]
    rfl
  simp only [currentPortfolio, List.mem_map]
  constructor
  · rintro ⟨g, hg, rfl⟩
    obtain ⟨⟨r, hr, hkey⟩, hrows⟩ := Sql.mem_groupBy.mp hg
    obtain ⟨⟨a, t⟩, d⟩ := r
    have hr' := hr
    simp only [portfolioRows, List.mem_filter, Sql.mem_innerJoin, Bool.and_eq_true,
      decide_eq_true_eq] at hr'
    obtain ⟨⟨⟨ha, ht, -⟩, hd, hdate⟩, hpos, hin⟩ := hr'
    rw [← hdate] at hin
    refine ⟨t, ht, d, hd, hin, ?_, ?_⟩
    · rw [← hgroup t ht d hd hin]
      refine List.ne_nil_of_mem (a := a) (List.mem_map.mpr ⟨((a, t), d), ?_, rfl⟩)
      exact List.mem_filter.mpr ⟨hr, by simp⟩
    · rw [hrows, ← hkey]
      simp only [hquantity t ht d hd hin]
  · rintro ⟨t, ht, d, hd, hin, hne, rfl⟩
    rw [← hgroup t ht d hd hin] at hne
    obtain ⟨a, ha⟩ := List.exists_mem_of_ne_nil _ hne
    obtain ⟨r, hr, -⟩ := List.mem_map.mp ha
    obtain ⟨hr, hkey⟩ := List.mem_filter.mp hr
    refine ⟨_, Sql.mk_mem_groupBy hr (of_decide_eq_true hkey), ?_⟩
    simp only [hquantity t ht d hd hin]

/-- Every row is of a date of `dim_date`. -/
theorem exists_dateId_of_mem_currentPortfolio {p : CurrentPortfolio Id}
    (hp : p ∈ currentPortfolio src dt dd ctx isIncremental) : ∃ d ∈ dd, d.id = p.dateId := by
  obtain ⟨g, hg, rfl⟩ := List.mem_map.mp hp
  obtain ⟨⟨r, hr, hkey⟩, -⟩ := Sql.mem_groupBy.mp hg
  exact ⟨r.2, (Sql.mem_innerJoin.mp (List.mem_of_mem_filter hr)).2.1, congrArg Prod.snd hkey⟩

/-- One row per ticker and day. -/
theorem nodup_currentPortfolio :
    ((currentPortfolio src dt dd ctx isIncremental).map fun p =>
      (p.symbolId, p.dateId)).Nodup := by
  rw [currentPortfolio, List.map_map]
  exact Sql.nodup_groupBy

end Rows

/-! ## Non-negative balances -/

/-- Balances are neither null nor negative.  The columns are nullable, and
Binance reports amounts, which are not below zero. -/
def NonnegBalances (src : List AccountSnaphsot) : Prop :=
  ∀ a ∈ src, Sql.Nonneg a.free ∧ Sql.Nonneg a.locked

instance (src : List AccountSnaphsot) : Decidable (NonnegBalances src) :=
  inferInstanceAs (Decidable (∀ a ∈ src, Sql.Nonneg a.free ∧ Sql.Nonneg a.locked))

section Nonneg

variable {src : List AccountSnaphsot} {dt : List (DimTickers Id)}
  {dd : List DimDate} {ctx : RunContext} {isIncremental : Bool}

theorem AccountSnaphsot.isPositive_iff (a : AccountSnaphsot) :
    a.isPositive = true ↔ 0 < a.free.getD 0 ∨ 0 < a.locked.getD 0 := by
  simp only [AccountSnaphsot.isPositive, Sql.holds_or, Sql.holds_gt]
  cases a.free <;> cases a.locked <;> simp

/-- The balance of a snapshot. -/
def AccountSnaphsot.balance (a : AccountSnaphsot) : ℚ := a.free.getD 0 + a.locked.getD 0

/-- The average of one column plus the average of the other is the mean
balance. -/
theorem add_avg_eq_mean_balance {rows : List AccountSnaphsot} (hne : rows ≠ [])
    (hrows : NonnegBalances rows) :
    Sql.add (Sql.avg (rows.map AccountSnaphsot.free)) (Sql.avg (rows.map AccountSnaphsot.locked)) =
      some (Sql.mean (rows.map AccountSnaphsot.balance)) := by
  rw [Sql.avg_map_of_ne_none hne fun a ha => (hrows a ha).1.ne_none,
    Sql.avg_map_of_ne_none hne fun a ha => (hrows a ha).2.ne_none]
  exact congrArg some (Sql.mean_map_add rows _ _)

theorem NonnegBalances.balance_nonneg (h : NonnegBalances src) {a : AccountSnaphsot}
    (ha : a ∈ src) : 0 ≤ a.balance :=
  add_nonneg (h a ha).1.getD_nonneg (h a ha).2.getD_nonneg

/-- The positive-balance rows are those whose balance is positive. -/
theorem NonnegBalances.isPositive_iff_balance (h : NonnegBalances src) {a : AccountSnaphsot}
    (ha : a ∈ src) : a.isPositive = true ↔ 0 < a.balance := by
  have hfree := (h a ha).1.getD_nonneg
  have hlocked := (h a ha).2.getD_nonneg
  rw [a.isPositive_iff, AccountSnaphsot.balance]
  constructor
  · rintro (hpos | hpos) <;> linarith
  · intro hpos
    by_contra hnone
    push Not at hnone
    linarith [hnone.1, hnone.2]

variable (hbalances : NonnegBalances src)
include hbalances

omit [DecidableEq Id] in
theorem quantityOn_eq_mean_balance {asset : Option String} {date : Date}
    (hne : holdings src asset date ≠ []) :
    quantityOn src asset date =
      some (Sql.mean ((holdings src asset date).map AccountSnaphsot.balance)) :=
  add_avg_eq_mean_balance hne fun a ha => hbalances a (List.mem_of_mem_filter ha)

omit [DecidableEq Id] in
theorem nonneg_quantityOn {asset : Option String} {date : Date}
    (hne : holdings src asset date ≠ []) : Sql.Nonneg (quantityOn src asset date) := by
  refine ⟨_, quantityOn_eq_mean_balance hbalances hne, Sql.mean_nonneg fun x hx => ?_⟩
  obtain ⟨a, ha, rfl⟩ := List.mem_map.mp hx
  exact hbalances.balance_nonneg (List.mem_of_mem_filter ha)

/-- Every group has a positive quantity, whatever the dimensions it is reached
through. -/
theorem pos_quantity_currentPortfolio {p : CurrentPortfolio Id}
    (hp : p ∈ currentPortfolio src dt dd ctx isIncremental) :
    ∃ q, p.quantity = some q ∧ 0 < q := by
  obtain ⟨g, hg, rfl⟩ := List.mem_map.mp hp
  let snapshots := g.2.map fun r => r.1.1
  have hmem : ∀ a ∈ snapshots, a ∈ src ∧ a.isPositive = true := by
    intro a ha
    obtain ⟨r, hr, rfl⟩ := List.mem_map.mp ha
    obtain ⟨hr, hkeep⟩ := List.mem_filter.mp ((Sql.mem_of_mem_groupBy hg).mp hr).1
    exact ⟨(Sql.mem_innerJoin.mp (Sql.mem_innerJoin.mp hr).1).1,
      (Bool.and_eq_true_iff.mp hkeep).1⟩
  have hne : snapshots ≠ [] := by simpa [snapshots] using Sql.groupBy_ne_nil hg
  have hquantity := add_avg_eq_mean_balance hne fun a ha => hbalances a (hmem a ha).1
  rw [List.map_map, List.map_map] at hquantity
  refine ⟨_, hquantity, ?_⟩
  -- one positive balance makes the mean positive
  obtain ⟨a, ha⟩ := List.exists_mem_of_ne_nil _ hne
  refine Sql.mean_pos (fun x hx => ?_) (List.mem_map_of_mem ha)
    ((hbalances.isPositive_iff_balance (hmem a ha).1).mp (hmem a ha).2)
  obtain ⟨b, hb, rfl⟩ := List.mem_map.mp hx
  exact hbalances.balance_nonneg (hmem b hb).1

end Nonneg

end BinanceElt
