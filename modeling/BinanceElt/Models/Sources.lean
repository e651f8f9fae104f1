import BinanceElt.Sql.Calendar
import BinanceElt.Sql.Numeric

/-!
# Source tables and run parameters

The three tables the ingest function appends to, the `name_mapping` seed, and
what a run of the project reads besides them.

The columns follow `schemas.py`: everything but `timestamp` is nullable.  The
columns no model reads (`id` of the sources, `price` of `ticker_prices`,
`quoteVolume` of `ticker_price_change`) are left out.

A `FLOAT64` is a rational number, and the arithmetic on it is exact: the sums and
averages of the models do not depend on the order in which they are added up, and
nothing overflows.
-/

namespace BinanceElt

open Sql (Date Timestamp)

/-! ## Sources -/

/-- A row of `ticker_prices`. -/
structure TickerPrices where
  symbol : Option String
  timestamp : Timestamp
deriving DecidableEq, Repr

/-- A row of `ticker_price_change`. -/
structure TickerPriceChange where
  symbol : Option String
  priceChange : Option ℚ
  priceChangePercent : Option ℚ
  weightedAvgPrice : Option ℚ
  prevClosePrice : Option ℚ
  lastPrice : Option ℚ
  lastQty : Option ℚ
  bidPrice : Option ℚ
  bidQty : Option ℚ
  askPrice : Option ℚ
  askQty : Option ℚ
  openPrice : Option ℚ
  highPrice : Option ℚ
  lowPrice : Option ℚ
  volume : Option ℚ
  openTime : Option ℤ
  closeTime : Option ℤ
  firstId : Option ℤ
  lastId : Option ℤ
  count : Option ℤ
  timestamp : Timestamp
deriving DecidableEq, Repr

/-- A row with these prices and no other figures. -/
def TickerPriceChange.ofPrices (symbol : String) (high low : ℚ) (openTime : ℤ)
    (timestamp : Timestamp) : TickerPriceChange where
  symbol := some symbol
  priceChange := none
  priceChangePercent := none
  weightedAvgPrice := none
  prevClosePrice := none
  lastPrice := none
  lastQty := none
  bidPrice := none
  bidQty := none
  askPrice := none
  askQty := none
  openPrice := none
  highPrice := some high
  lowPrice := some low
  volume := none
  openTime := some openTime
  closeTime := none
  firstId := none
  lastId := none
  count := none
  timestamp := timestamp

/-- A row of `account_snaphsot`. -/
structure AccountSnaphsot where
  asset : Option String
  free : Option ℚ
  locked : Option ℚ
  timestamp : Timestamp
deriving DecidableEq, Repr

/-- A row of the `name_mapping` seed. -/
structure NameMapping where
  fullName : Option String
  abbreviation : Option String
deriving DecidableEq, Repr

/-- The source tables as one run sees them. -/
structure Sources where
  tickerPrices : List TickerPrices
  tickerPriceChange : List TickerPriceChange
  accountSnaphsot : List AccountSnaphsot

/-- The ingest function only appends: a later run sees every row an earlier one
saw, followed by new ones.  A row of the source tables is never changed or
deleted. -/
structure Sources.Extends (later earlier : Sources) : Prop where
  tickerPrices : earlier.tickerPrices <+: later.tickerPrices
  tickerPriceChange : earlier.tickerPriceChange <+: later.tickerPriceChange
  accountSnaphsot : earlier.accountSnaphsot <+: later.accountSnaphsot

theorem Sources.Extends.refl (s : Sources) : s.Extends s :=
  ⟨⟨[], by simp⟩, ⟨[], by simp⟩, ⟨[], by simp⟩⟩

theorem Sources.Extends.trans {s t u : Sources} (htu : u.Extends t)
    (hst : t.Extends s) : u.Extends s :=
  ⟨hst.tickerPrices.trans htu.tickerPrices,
    hst.tickerPriceChange.trans htu.tickerPriceChange,
    hst.accountSnaphsot.trans htu.accountSnaphsot⟩

/-! ## What a run reads besides the tables -/

/-- `current_date`, `current_timestamp` and `var('days_to_ingest')`. -/
structure RunContext where
  currentDate : Date
  currentTimestamp : Timestamp
  daysToIngest : ℤ

/-- `vars.days_to_ingest` of `dbt_project.yml`. -/
def daysToIngest : ℤ := 3

/-- The condition the models put between `{% if is_incremental() %}` and
`{% endif %}`: the date is at most `days_to_ingest` days ago.  The difference
`current_date - days_to_ingest` is that of integers; the error BigQuery raises
when it is no `DATE`, for a variable of more than 700,000 days, is left out. -/
def RunContext.ingests (ctx : RunContext) (isIncremental : Bool)
    (date : Option Date) : Bool :=
  !isIncremental || Sql.holds (Sql.ge date (ctx.currentDate - ctx.daysToIngest))

@[simp] theorem RunContext.ingests_full (ctx : RunContext) (date : Option Date) :
    ctx.ingests false date = true := rfl

@[simp] theorem RunContext.ingests_incremental (ctx : RunContext)
    (date : Option Date) :
    ctx.ingests true date = true ↔
      ∃ d, date = some d ∧ ctx.currentDate - ctx.daysToIngest ≤ d := by
  simp [RunContext.ingests]

/-- A date of the window is read in either mode. -/
theorem RunContext.ingests_of_le (ctx : RunContext) {date : Date}
    (h : ctx.currentDate - ctx.daysToIngest ≤ date) (isIncremental : Bool) :
    ctx.ingests isIncremental (some date) = true := by
  cases isIncremental with
  | false => rfl
  | true => exact (ctx.ingests_incremental _).mpr ⟨date, rfl, h⟩

end BinanceElt
