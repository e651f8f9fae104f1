import BinanceElt.Models.CurrentPortfolio
import BinanceElt.Sql.Window

/-!
# `fact_daily_tickers_quantity`

The daily quantity of every ticker with its change since the ticker's previous
day *in the query output*: in incremental mode the filter on the ingestion date
is applied before `lag`, so the first day of the window has no previous day.

## Main results

* `mem_factDailyTickersQuantity` — the rows of the query.
* `exists_factDailyTickersQuantity_iff` — when it does not divide by zero.
* `nodup_factDailyTickersQuantity` — one row, hence one id, per ticker and day.
* `changes_of_isPrevious` — the change columns of a row step from the ticker's
  previous row.
-/

namespace BinanceElt

open Sql (Date Timestamp QueryError)

/-! ## The query -/

/-- A row of `change`. -/
structure Change (Id : Type) extends CurrentPortfolio Id where
  quantityChange : ℚ
  percentageChange : ℚ
deriving DecidableEq, Repr

/-- A row of the table. -/
structure FactDailyTickersQuantity (Id : Type) extends Change Id where
  id : Id
  updatedTimestamp : Timestamp
deriving DecidableEq, Repr

variable {Id : Type}

/-- The select list of `change`, for a row and its `lag` row. -/
def changeRow (r : CurrentPortfolio Id × Option (CurrentPortfolio Id)) :
    Except QueryError (Change Id) := do
  let lag := r.2.bind CurrentPortfolio.quantity
  let percentage ← BinanceElt.percentageChange r.1.quantity lag
  return { toCurrentPortfolio := r.1
           quantityChange := valueChange r.1.quantity lag
           percentageChange := percentage }

variable [DecidableEq Id]

def change (portfolio : List (CurrentPortfolio Id)) :
    Except QueryError (List (Change Id)) :=
  (Sql.lagOver CurrentPortfolio.symbolId CurrentPortfolio.dateId portfolio).mapM changeRow

variable (K : SurrogateKey Id)

omit [DecidableEq Id] in
/-- The id of the table.  The quantity is one of the hashed fields, so that a
day whose quantity has changed gets a row beside the old one. -/
def quantityId (symbolId : Id) (dateId : ℤ) (quantity : Option ℚ) : Id :=
  K.generateSurrogateKey [.id symbolId, .int dateId, .ofOption .number quantity]

omit [DecidableEq Id] in
/-- The select list of the final step. -/
def factDailyTickersQuantityRow (ctx : RunContext) (c : Change Id) :
    FactDailyTickersQuantity Id where
  toChange := c
  id := quantityId K c.symbolId c.dateId c.quantity
  updatedTimestamp := ctx.currentTimestamp

def factDailyTickersQuantity (src : List AccountSnaphsot) (dt : List (DimTickers Id))
    (dd : List DimDate) (ctx : RunContext) (isIncremental : Bool) :
    Except QueryError (List (FactDailyTickersQuantity Id)) := do
  let rows ← change (currentPortfolio src dt dd ctx isIncremental)
  return rows.map (factDailyTickersQuantityRow K ctx)

/-! ## The rows -/

omit [DecidableEq Id] in
theorem changeRow_eq_ok_iff {p : CurrentPortfolio Id} {q : Option (CurrentPortfolio Id)}
    {c : Change Id} :
    changeRow (p, q) = .ok c ↔ ∃ percentage,
      percentageChange p.quantity (q.bind CurrentPortfolio.quantity) = .ok percentage ∧
      c = ⟨p, valueChange p.quantity (q.bind CurrentPortfolio.quantity), percentage⟩ := by
  simp only [changeRow, Sql.bind_eq_ok_iff, Sql.pure_eq_ok_iff]
  refine exists_congr fun percentage => and_congr_right fun _ => ?_
  exact ⟨fun h => h.symm, fun h => h.symm⟩

section Rows

variable {src : List AccountSnaphsot} {dt : List (DimTickers Id)}
  {dd : List DimDate} {ctx : RunContext} {isIncremental : Bool}
  {rows : List (FactDailyTickersQuantity Id)}

/-- The previous day of a ticker among the rows of a portfolio. -/
abbrev IsLagDay (portfolio : List (CurrentPortfolio Id)) (p : CurrentPortfolio Id)
    (q : Option (CurrentPortfolio Id)) : Prop :=
  Sql.IsPrevious CurrentPortfolio.dateId
    (portfolio.filter fun p' => p'.symbolId = p.symbolId) p q

theorem IsLagDay.mem {portfolio : List (CurrentPortfolio Id)}
    {p q : CurrentPortfolio Id} (h : IsLagDay portfolio p (some q)) : q ∈ portfolio :=
  (List.mem_filter.mp h.1).1

/-- A day has one previous day. -/
theorem IsLagDay.unique {portfolio : List (CurrentPortfolio Id)}
    (hkeys : (portfolio.map fun p => (p.symbolId, p.dateId)).Nodup)
    {p : CurrentPortfolio Id} {q q' : Option (CurrentPortfolio Id)}
    (h : IsLagDay portfolio p q) (h' : IsLagDay portfolio p q') : q = q' := by
  refine Sql.IsPrevious.unique (fun r hr r' hr' hdate => ?_) h h'
  obtain ⟨hr, hsym⟩ := List.mem_filter.mp hr
  obtain ⟨hr', hsym'⟩ := List.mem_filter.mp hr'
  exact List.inj_on_of_nodup_map hkeys hr hr' (Prod.ext
    ((of_decide_eq_true hsym).trans (of_decide_eq_true hsym').symm) hdate)

theorem mem_factDailyTickersQuantity
    (h : factDailyTickersQuantity K src dt dd ctx isIncremental = .ok rows)
    {r : FactDailyTickersQuantity Id} :
    r ∈ rows ↔ ∃ p ∈ currentPortfolio src dt dd ctx isIncremental, ∃ q,
      IsLagDay (currentPortfolio src dt dd ctx isIncremental) p q ∧
      ∃ c, changeRow (p, q) = .ok c ∧ r = factDailyTickersQuantityRow K ctx c := by
  obtain ⟨changes, hchange, rfl⟩ := Sql.select_eq_ok_iff.mp h
  rw [List.mem_map]
  constructor
  · rintro ⟨c, hc, rfl⟩
    obtain ⟨p, hp, q, hq, hrow⟩ :=
      (Sql.mem_mapM_lagOver nodup_currentPortfolio hchange).mp hc
    exact ⟨p, hp, q, hq, c, hrow, rfl⟩
  · rintro ⟨p, hp, q, hq, c, hrow, rfl⟩
    exact ⟨c, (Sql.mem_mapM_lagOver nodup_currentPortfolio hchange).mpr
      ⟨p, hp, q, hq, hrow⟩, rfl⟩

/-- The query succeeds when no row divides by zero. -/
theorem exists_factDailyTickersQuantity_iff :
    (∃ rows, factDailyTickersQuantity K src dt dd ctx isIncremental = .ok rows) ↔
      ∀ p ∈ currentPortfolio src dt dd ctx isIncremental, ∀ q,
        IsLagDay (currentPortfolio src dt dd ctx isIncremental) p q →
        ∃ c, changeRow (p, q) = .ok c := by
  rw [← Sql.exists_mapM_lagOver_iff nodup_currentPortfolio]
  exact Sql.exists_select_eq_ok_iff

/-- The rows show the holdings, each once. -/
theorem map_factDailyTickersQuantity_perm
    (h : factDailyTickersQuantity K src dt dd ctx isIncremental = .ok rows) :
    (rows.map fun r => r.toCurrentPortfolio).Perm
      (currentPortfolio src dt dd ctx isIncremental) := by
  obtain ⟨changes, hchange, rfl⟩ := Sql.select_eq_ok_iff.mp h
  rw [List.map_map]
  have hperm := Sql.map_mapM_lagOver_perm (g := Change.toCurrentPortfolio) (k := id)
    hchange fun p q c hc => by
      obtain ⟨percentage, -, rfl⟩ := changeRow_eq_ok_iff.mp hc
      rfl
  rwa [List.map_id] at hperm

/-- One row per ticker and day. -/
theorem nodup_factDailyTickersQuantity
    (h : factDailyTickersQuantity K src dt dd ctx isIncremental = .ok rows) :
    (rows.map fun r => (r.symbolId, r.dateId)).Nodup := by
  have hperm := (map_factDailyTickersQuantity_perm K h).map fun p => (p.symbolId, p.dateId)
  rw [List.map_map] at hperm
  exact hperm.nodup_iff.mpr nodup_currentPortfolio

/-- The change columns of a row step from the previous row of its ticker. -/
theorem changes_of_isPrevious
    (h : factDailyTickersQuantity K src dt dd ctx isIncremental = .ok rows)
    {r : FactDailyTickersQuantity Id} (hr : r ∈ rows) {u : Option (FactDailyTickersQuantity Id)}
    (hu : Sql.IsPrevious (fun s => s.dateId) (rows.filter fun s => s.symbolId = r.symbolId) r u) :
    r.quantityChange = valueChange r.quantity (u.bind fun s => s.quantity) ∧
      percentageChange r.quantity (u.bind fun s => s.quantity) = .ok r.percentageChange := by
  obtain ⟨p, -, q, hq, c, hc, rfl⟩ := (mem_factDailyTickersQuantity K h).mp hr
  obtain ⟨percentage, hpercentage, rfl⟩ := changeRow_eq_ok_iff.mp hc
  -- the previous row shows the previous day of the portfolio
  have hlag : IsLagDay (currentPortfolio src dt dd ctx isIncremental) p
      (u.map fun s => s.toCurrentPortfolio) := by
    have hmap : Sql.IsPrevious CurrentPortfolio.dateId
        ((rows.filter fun s => s.symbolId = p.symbolId).map fun s => s.toCurrentPortfolio) p
        (u.map fun s => s.toCurrentPortfolio) :=
      Sql.IsPrevious.map (f := fun s : FactDailyTickersQuantity Id => s.toCurrentPortfolio) hu
    refine hmap.congr fun b => ?_
    rw [List.mem_filter, ← (map_factDailyTickersQuantity_perm K h).mem_iff, List.mem_map,
      List.mem_map]
    constructor
    · rintro ⟨s, hs, rfl⟩
      exact ⟨⟨s, (List.mem_filter.mp hs).1, rfl⟩, (List.mem_filter.mp hs).2⟩
    · rintro ⟨⟨s, hs, rfl⟩, hsym⟩
      exact ⟨s, List.mem_filter.mpr ⟨hs, hsym⟩, rfl⟩
  have hquantity : (u.bind fun s => s.quantity) = q.bind CurrentPortfolio.quantity := by
    rw [← hlag.unique nodup_currentPortfolio hq]
    cases u <;> rfl
  rw [hquantity]
  exact ⟨rfl, hpercentage⟩

/-- Every row carries the id of its ticker, day and quantity. -/
theorem factDailyTickersQuantity_id
    (h : factDailyTickersQuantity K src dt dd ctx isIncremental = .ok rows)
    {r : FactDailyTickersQuantity Id} (hr : r ∈ rows) :
    r.id = quantityId K r.symbolId r.dateId r.quantity := by
  obtain ⟨_, -, _, -, c, -, rfl⟩ := (mem_factDailyTickersQuantity K h).mp hr
  rfl

/-- Rows of one run share an id only if they are the same ticker and day. -/
theorem nodup_factDailyTickersQuantity_id
    (h : factDailyTickersQuantity K src dt dd ctx isIncremental = .ok rows) :
    (rows.map fun r => r.id).Nodup := by
  refine Sql.nodup_map_of_imp (nodup_factDailyTickersQuantity K h) fun r hr r' hr' hid => ?_
  rw [factDailyTickersQuantity_id K h hr, factDailyTickersQuantity_id K h hr'] at hid
  simp only [quantityId, SurrogateKey.eq_iff, List.cons.injEq, KeyField.id.injEq,
    KeyField.int.injEq] at hid
  exact Prod.ext hid.1 hid.2.1

end Rows

end BinanceElt
