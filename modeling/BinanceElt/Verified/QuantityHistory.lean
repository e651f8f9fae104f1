import BinanceElt.Models.FactDailyTickersQuantity
import BinanceElt.Models.SurrogateKey
import BinanceElt.Verified.DailyQuantity

/-!
# The history of a ticker in `fact_daily_tickers_quantity`

After a full refresh the rows of a ticker form one chain of days, each stepping
from the day before it.  The changes along the chain are rounded one by one
while the quantities are not, so that the rounding errors add up: the sum of the
changes is off by up to half a cent for every day but the first.

The chain of a ticker depends on the snapshots of its asset only, and on those
up to a day for the rows up to that day.

## Main results

* `abs_changesUpTo_sub_le` — how far the changes are from the net change.
* `not_abs_changesUpTo_sub_le_drift` — two changes that both round to zero.
* `tickerHistory_perm` — two snapshot tables that agree on an asset up to a day.
-/

namespace BinanceElt

open Sql (Date Timestamp QueryError)

variable {Id : Type} [DecidableEq Id] (K : SurrogateKey Id)

/-! ## The chain of a ticker -/

section Chain

/-- The rows of a ticker. -/
def tickerRows (rows : List (FactDailyTickersQuantity Id)) (symbolId : Id) :
    List (FactDailyTickersQuantity Id) :=
  rows.filter fun s => s.symbolId = symbolId

/-- The first row of a ticker. -/
def IsFirstRow (rows : List (FactDailyTickersQuantity Id)) (symbolId : Id)
    (first : FactDailyTickersQuantity Id) : Prop :=
  first ∈ tickerRows rows symbolId ∧ ∀ s ∈ tickerRows rows symbolId, first.dateId ≤ s.dateId

instance (rows : List (FactDailyTickersQuantity Id)) (symbolId : Id)
    (first : FactDailyTickersQuantity Id) : Decidable (IsFirstRow rows symbolId first) :=
  inferInstanceAs (Decidable (_ ∧ _))

/-- The rows of the ticker of `r` before `r`. -/
def earlierRows (rows : List (FactDailyTickersQuantity Id)) (r : FactDailyTickersQuantity Id) :
    List (FactDailyTickersQuantity Id) :=
  (tickerRows rows r.symbolId).filter fun s => s.dateId < r.dateId

/-- The sum of `quantity_change` over the rows of the ticker of `r` up to
`r`. -/
def changesUpTo (rows : List (FactDailyTickersQuantity Id))
    (r : FactDailyTickersQuantity Id) : ℚ :=
  (((tickerRows rows r.symbolId).filter fun s => s.dateId ≤ r.dateId).map
    fun s => s.quantityChange).sum

variable {src : List AccountSnaphsot} {dt : List (DimTickers Id)} {dd : List DimDate}
  {ctx : RunContext} {isIncremental : Bool} {rows : List (FactDailyTickersQuantity Id)}
  (h : factDailyTickersQuantity K src dt dd ctx isIncremental = .ok rows)
include h

theorem nodup_dateId_tickerRows (symbolId : Id) :
    ((tickerRows rows symbolId).map fun s => s.dateId).Nodup := by
  have hfilter : ((tickerRows rows symbolId).map fun s => (s.symbolId, s.dateId)).Nodup :=
    (nodup_factDailyTickersQuantity K h).sublist (List.filter_sublist.map _)
  refine Sql.nodup_map_of_imp hfilter fun s hs s' hs' hdate => ?_
  have hsymbol := of_decide_eq_true (List.mem_filter.mp hs).2
  have hsymbol' := of_decide_eq_true (List.mem_filter.mp hs').2
  exact Prod.ext (hsymbol.trans hsymbol'.symm) hdate

/-- The change columns of a row step from the previous row of the chain. -/
theorem changes_tickerRows {symbolId : Id} {r : FactDailyTickersQuantity Id}
    (hr : r ∈ tickerRows rows symbolId) {u : Option (FactDailyTickersQuantity Id)}
    (hu : Sql.IsPrevious (fun s => s.dateId) (tickerRows rows symbolId) r u) :
    r.quantityChange = valueChange r.quantity (u.bind fun s => s.quantity) := by
  obtain ⟨hmem, hsymbol⟩ := List.mem_filter.mp hr
  obtain rfl := of_decide_eq_true hsymbol
  exact (changes_of_isPrevious K h hmem hu).1

variable (hbalances : NonnegBalances src)
include hbalances

theorem exists_quantity {r : FactDailyTickersQuantity Id} (hr : r ∈ rows) :
    ∃ x, r.quantity = some x := by
  obtain ⟨x, hx, -⟩ := pos_quantity_currentPortfolio hbalances
    ((map_factDailyTickersQuantity_perm K h).mem_iff.mp (List.mem_map_of_mem hr))
  exact ⟨x, hx⟩

/-- Every change is off by half a cent at most. -/
theorem abs_quantityChange_sub_le {symbolId : Id} {r u : FactDailyTickersQuantity Id}
    (hr : r ∈ tickerRows rows symbolId)
    (hu : Sql.IsPrevious (fun s => s.dateId) (tickerRows rows symbolId) r (some u)) :
    |r.quantityChange - (r.quantity.getD 0 - u.quantity.getD 0)| ≤ 1 / 200 := by
  obtain ⟨x, hx⟩ := exists_quantity K h hbalances (List.mem_of_mem_filter hr)
  obtain ⟨y, hy⟩ := exists_quantity K h hbalances (List.mem_of_mem_filter hu.1)
  have hround := Sql.abs_roundTo_sub_le 2 (x - y)
  have hchange : r.quantityChange = Sql.roundTo 2 (x - y) := by
    rw [changes_tickerRows K h hr hu, hx, Option.bind_some, hy]
    rfl
  rw [hchange, hx, hy, Option.getD_some, Option.getD_some]
  exact hround.trans_eq (by norm_num)

end Chain

/-! ## The sum of the changes -/

/-- After a full refresh, the changes of a ticker up to a day are within half a
cent, for each earlier row, of the quantity gained since its first day.

A change is rounded to two decimals while quantities are stored as they are, so
that every step may be off by 0.005, and the errors add up.  The first row shows
no change, and has no error. -/
theorem abs_changesUpTo_sub_le {src : List AccountSnaphsot} (hbalances : NonnegBalances src)
    (dt : List (DimTickers Id)) (dd : List DimDate) (ctx : RunContext) :
    ∃ rows, factDailyTickersQuantity K src dt dd ctx false = .ok rows ∧
      ∀ r ∈ rows, ∃ first, IsFirstRow rows r.symbolId first ∧
        ∃ x x₀, r.quantity = some x ∧ first.quantity = some x₀ ∧
          |changesUpTo rows r - (x - x₀)| ≤ (earlierRows rows r).length * (1 / 200) := by
  obtain ⟨rows, h⟩ := exists_factDailyTickersQuantity K hbalances dt dd ctx false
  refine ⟨rows, h, fun r hr => ?_⟩
  have hrow : r ∈ tickerRows rows r.symbolId :=
    List.mem_filter.mpr ⟨hr, decide_eq_true rfl⟩
  obtain ⟨first, hfirst, hnone⟩ := Sql.exists_isPrevious_none (fun s => s.dateId) hrow
  obtain ⟨x, hx⟩ := exists_quantity K h hbalances hr
  obtain ⟨x₀, hx₀⟩ := exists_quantity K h hbalances (List.mem_of_mem_filter hfirst)
  refine ⟨first, ⟨hfirst, hnone⟩, x, x₀, hx, hx₀, ?_⟩
  have hzero : first.quantityChange = 0 := by
    rw [changes_tickerRows K h hfirst hnone, Option.bind_none, valueChange_none]
  have hsum := Sql.abs_sum_change_sub_le (nodup_dateId_tickerRows K h r.symbolId)
    (fun s => s.quantity.getD 0) ⟨hfirst, hnone⟩ hzero hrow
    fun b hb _ p hp => abs_quantityChange_sub_le K h hbalances hb hp
  simp only [hx, hx₀, Option.getD_some] at hsum
  exact hsum

/-! ## Two changes that round to zero -/

def driftTicker : DimTickers (List ℤ) :=
  ⟨[1], some "BTCUSDT", some "BTC", "Bitcoin", some (Sql.midnight 19844),
    Sql.midnight 19847⟩

/-- Four thousandths of a bitcoin are bought on 2024-05-02 and on 2024-05-03. -/
def driftSnapshots : List AccountSnaphsot :=
  [⟨some "BTC", some 1, some 0, Sql.midnight 19844⟩,
    ⟨some "BTC", some (1 + 4 / 1000), some 0, Sql.midnight 19845⟩,
    ⟨some "BTC", some (1 + 8 / 1000), some 0, Sql.midnight 19846⟩]

def driftContext : RunContext := ⟨19847, Sql.midnight 19847, daysToIngest⟩

private theorem nonnegBalances_drift : NonnegBalances driftSnapshots := by
  decide +kernel

theorem abs_changesUpTo_sub_le_drift :
    ∃ rows, factDailyTickersQuantity listing driftSnapshots [driftTicker] dimDate
        driftContext false = .ok rows ∧
      ∀ r ∈ rows, ∃ first, IsFirstRow rows r.symbolId first ∧
        ∃ x x₀, r.quantity = some x ∧ first.quantity = some x₀ ∧
          |changesUpTo rows r - (x - x₀)| ≤ (earlierRows rows r).length * (1 / 200) :=
  abs_changesUpTo_sub_le listing nonnegBalances_drift [driftTicker] dimDate driftContext

/-- On the third day the changes add up to 0, the quantity has grown by
0.008. -/
theorem not_abs_changesUpTo_sub_le_drift :
    NonnegBalances driftSnapshots ∧
      ∃ rows, factDailyTickersQuantity listing driftSnapshots [driftTicker] dimDate
          driftContext false = .ok rows ∧
        ∃ r ∈ rows, ∃ first ∈ rows, IsFirstRow rows r.symbolId first ∧
          1 / 200 < |changesUpTo rows r - (r.quantity.getD 0 - first.quantity.getD 0)| := by
  refine ⟨nonnegBalances_drift, ?_⟩
  have hdates : ∀ a ∈ driftSnapshots, 19844 ≤ Sql.extractDate a.timestamp ∧
      Sql.extractDate a.timestamp ≤ 19846 := by decide
  rw [factDailyTickersQuantity, currentPortfolio_congr fun a ha => filter_dimDate (by decide)
    (hdates a ha).1 (hdates a ha).2 (by decide)]
  decide +kernel

/-! ## Two snapshot tables -/

/-- The snapshots of an asset up to a day, all of them, including those without
a balance. -/
def historyOf (src : List AccountSnaphsot) (asset : Option String) (date : Date) :
    List AccountSnaphsot :=
  src.filter fun a => Sql.holds (Sql.eq a.asset asset) &&
    decide (Sql.extractDate a.timestamp ≤ date)

section Isolation

variable {src src' : List AccountSnaphsot} {dt : List (DimTickers Id)} {dd : List DimDate}
  {ctx ctx' : RunContext} {t : DimTickers Id} {date : Date}

/-- The holdings of a day are part of the history up to a later one. -/
theorem holdings_eq_filter_historyOf (src : List AccountSnaphsot) (asset : Option String)
    {day : Date} (hday : day ≤ date) :
    holdings src asset day = (historyOf src asset date).filter fun a =>
      decide (day = Sql.extractDate a.timestamp) && a.isPositive := by
  rw [holdings, historyOf, List.filter_filter]
  refine List.filter_congr fun a _ => ?_
  by_cases hdate : day = Sql.extractDate a.timestamp
  · simp [← hdate, hday, Bool.and_comm]
  · simp [hdate]

variable (hsame : (historyOf src t.symbolShort date).Perm (historyOf src' t.symbolShort date))
include hsame

omit [DecidableEq Id] in
theorem holdings_perm {day : Date} (hday : day ≤ date) :
    (holdings src t.symbolShort day).Perm (holdings src' t.symbolShort day) := by
  rw [holdings_eq_filter_historyOf src _ hday, holdings_eq_filter_historyOf src' _ hday]
  exact hsame.filter _

omit [DecidableEq Id] in
theorem quantityOn_eq {day : Date} (hday : day ≤ date) :
    quantityOn src t.symbolShort day = quantityOn src' t.symbolShort day := by
  have hperm := holdings_perm hsame hday
  rw [quantityOn, quantityOn, Sql.avg_perm (hperm.map _), Sql.avg_perm (hperm.map _)]

variable (hdt : (dt.map DimTickers.id).Nodup) (hdd : IsDateDim dd) (ht : t ∈ dt)
include hdt hdd ht

/-- The two portfolios have the same rows of the ticker up to the day. -/
theorem mem_currentPortfolio_of_history {p : CurrentPortfolio Id}
    (hsymbol : p.symbolId = t.id) (hdate : p.dateId ≤ Sql.formatYmd date)
    (hp : p ∈ currentPortfolio src dt dd ctx false) :
    p ∈ currentPortfolio src' dt dd ctx' false := by
  obtain ⟨t', ht', d, hd, -, hne, rfl⟩ := (mem_currentPortfolio hdt hdd).mp hp
  obtain rfl : t' = t := List.inj_on_of_nodup_map hdt ht' ht hsymbol
  rw [hdd.id_eq hd, Sql.formatYmd_le_iff] at hdate
  refine (mem_currentPortfolio hdt hdd).mpr ⟨t', ht', d, hd, rfl, fun hnil => hne ?_, ?_⟩
  · have hperm := holdings_perm hsame hdate
    rw [hnil] at hperm
    exact hperm.eq_nil
  · rw [quantityOn_eq hsame hdate]

/-- What one query stores for the ticker up to the day, the other stores too.
The row before it, which its change columns step from, is of the same ticker and
an earlier day, and so in both portfolios. -/
theorem exists_row_of_history {rows rows' : List (FactDailyTickersQuantity Id)}
    (h : factDailyTickersQuantity K src dt dd ctx false = .ok rows)
    (h' : factDailyTickersQuantity K src' dt dd ctx' false = .ok rows')
    {r : FactDailyTickersQuantity Id} (hr : r ∈ rows) (hsymbol : r.symbolId = t.id)
    (hdate : r.dateId ≤ Sql.formatYmd date) :
    ∃ r' ∈ rows', (r'.id, r'.toChange) = (r.id, r.toChange) := by
  obtain ⟨p, hp, q, hq, c, hc, rfl⟩ := (mem_factDailyTickersQuantity K h).mp hr
  obtain ⟨percentage, -, hchange⟩ := changeRow_eq_ok_iff.mp hc
  obtain rfl : c.toCurrentPortfolio = p := by rw [hchange]
  -- the two portfolios agree before the row, so that it has the same previous row
  have hagree : ∀ b : CurrentPortfolio Id, b.dateId < c.dateId →
      (b ∈ (currentPortfolio src dt dd ctx false).filter (fun b => b.symbolId = c.symbolId) ↔
        b ∈ (currentPortfolio src' dt dd ctx' false).filter fun b =>
          b.symbolId = c.symbolId) := by
    intro b hb
    rw [List.mem_filter, List.mem_filter, decide_eq_true_eq]
    refine and_congr_left fun hbc => ?_
    have hbt : b.symbolId = t.id := hbc.trans hsymbol
    have hbd : b.dateId ≤ Sql.formatYmd date := hb.le.trans hdate
    exact ⟨mem_currentPortfolio_of_history hsame hdt hdd ht hbt hbd,
      mem_currentPortfolio_of_history hsame.symm hdt hdd ht hbt hbd⟩
  refine ⟨factDailyTickersQuantityRow K ctx' c, (mem_factDailyTickersQuantity K h').mpr
    ⟨c.toCurrentPortfolio, ?_, q, hq.congr_lt hagree, c, hc, rfl⟩, rfl⟩
  exact mem_currentPortfolio_of_history hsame hdt hdd ht hsymbol hdate hp

end Isolation

/-- Two snapshot tables that hold the same rows of the asset of a ticker up to a
day lead to the same rows of this ticker up to that day, whatever else they
hold: the full refreshes agree on everything but `updated_timestamp`.

`hsame` compares the rows as a multiset, in any order, and `hdt` keeps rows of
another ticker from passing for rows of this one.  `h` and `h'` say that both
queries succeed: another ticker can make either of them divide by zero, and then
there is nothing to compare. -/
theorem tickerHistory_perm {src src' : List AccountSnaphsot} {dt : List (DimTickers Id)}
    {ctx ctx' : RunContext} (hdt : (dt.map DimTickers.id).Nodup) {t : DimTickers Id}
    (ht : t ∈ dt) (date : Date)
    (hsame : (historyOf src t.symbolShort date).Perm (historyOf src' t.symbolShort date))
    {rows rows' : List (FactDailyTickersQuantity Id)}
    (h : factDailyTickersQuantity K src dt dimDate ctx false = .ok rows)
    (h' : factDailyTickersQuantity K src' dt dimDate ctx' false = .ok rows') :
    (((tickerRows rows t.id).filter fun r => r.dateId ≤ Sql.formatYmd date).map
        fun r => (r.id, r.toChange)).Perm
      (((tickerRows rows' t.id).filter fun r => r.dateId ≤ Sql.formatYmd date).map
        fun r => (r.id, r.toChange)) := by
  have hnodup : ∀ {src : List AccountSnaphsot} {ctx : RunContext}
      {rows : List (FactDailyTickersQuantity Id)},
      factDailyTickersQuantity K src dt dimDate ctx false = .ok rows →
      (((tickerRows rows t.id).filter fun r => r.dateId ≤ Sql.formatYmd date).map
        fun r => (r.id, r.toChange)).Nodup := by
    intro src ctx rows h
    have hdates := (nodup_dateId_tickerRows K h t.id).sublist
      ((List.filter_sublist (p := fun r => decide (r.dateId ≤ Sql.formatYmd date))).map _)
    exact Sql.nodup_map_of_imp hdates fun r _ s _ heq =>
      congrArg (fun x : Id × Change Id => x.2.dateId) heq
  have hmem : ∀ {src src' : List AccountSnaphsot} {ctx ctx' : RunContext}
      {rows rows' : List (FactDailyTickersQuantity Id)},
      (historyOf src t.symbolShort date).Perm (historyOf src' t.symbolShort date) →
      factDailyTickersQuantity K src dt dimDate ctx false = .ok rows →
      factDailyTickersQuantity K src' dt dimDate ctx' false = .ok rows' →
      ∀ x ∈ ((tickerRows rows t.id).filter fun r => r.dateId ≤ Sql.formatYmd date).map
        (fun r => (r.id, r.toChange)),
      x ∈ ((tickerRows rows' t.id).filter fun r => r.dateId ≤ Sql.formatYmd date).map
        fun r => (r.id, r.toChange) := by
    intro src src' ctx ctx' rows rows' hsame h h' x hx
    obtain ⟨r, hr, rfl⟩ := List.mem_map.mp hx
    obtain ⟨hr, hdate⟩ := List.mem_filter.mp hr
    obtain ⟨hr, hsymbol⟩ := List.mem_filter.mp hr
    rw [decide_eq_true_eq] at hdate hsymbol
    obtain ⟨r', hr', heq⟩ :=
      exists_row_of_history K hsame hdt isDateDim_dimDate ht h h' hr hsymbol hdate
    have hchange : r'.toChange = r.toChange := congrArg Prod.snd heq
    refine List.mem_map.mpr ⟨r', List.mem_filter.mpr ⟨List.mem_filter.mpr ⟨hr', ?_⟩, ?_⟩, heq⟩
    · rw [decide_eq_true_eq, hchange, hsymbol]
    · rw [decide_eq_true_eq, hchange]
      exact hdate
  exact (List.perm_ext_iff_of_nodup (hnodup h) (hnodup h')).mpr fun x =>
    ⟨hmem hsame h h' x, hmem hsame.symm h' h x⟩

/-- The same bitcoins, with another asset and a later day. -/
def driftSnapshotsLater : List AccountSnaphsot :=
  ⟨some "ETH", some 5, some 1, Sql.midnight 19844⟩ ::
    driftSnapshots ++ [⟨some "BTC", some 3, some 0, Sql.midnight 19847⟩]

private theorem nonnegBalances_driftLater : NonnegBalances driftSnapshotsLater := by
  decide +kernel

theorem tickerHistory_perm_drift :
    ∃ rows rows', factDailyTickersQuantity listing driftSnapshots [driftTicker] dimDate
          driftContext false = .ok rows ∧
        factDailyTickersQuantity listing driftSnapshotsLater [driftTicker] dimDate
          ⟨19848, Sql.midnight 19848, daysToIngest⟩ false = .ok rows' ∧
      (((tickerRows rows driftTicker.id).filter fun r =>
          r.dateId ≤ Sql.formatYmd 19846).map fun r => (r.id, r.toChange)).Perm
        (((tickerRows rows' driftTicker.id).filter fun r =>
          r.dateId ≤ Sql.formatYmd 19846).map fun r => (r.id, r.toChange)) := by
  obtain ⟨rows, h⟩ := exists_factDailyTickersQuantity listing nonnegBalances_drift
    [driftTicker] dimDate driftContext false
  obtain ⟨rows', h'⟩ := exists_factDailyTickersQuantity listing nonnegBalances_driftLater
    [driftTicker] dimDate ⟨19848, Sql.midnight 19848, daysToIngest⟩ false
  refine ⟨rows, rows', h, h', ?_⟩
  have hdt : ([driftTicker].map DimTickers.id).Nodup := List.nodup_singleton _
  exact tickerHistory_perm listing hdt List.mem_cons_self 19846 (.of_eq (by decide +kernel)) h h'

end BinanceElt
