import BinanceElt.Models.FactDailyAccountValue
import BinanceElt.Models.FactDailyTickersQuantity
import BinanceElt.Sql.Text

/-!
# The text of a surrogate key

`dbt_utils.generate_surrogate_key` casts the listed fields to strings, with a fixed text for
a null, joins the strings with `-` and hashes the result.  The models list their fields
under `SurrogateKey`, which keeps only that different fields give different keys; this
module writes the hashed text down, and the values each model lists as a structure.

## Main results

* `tickerId_eq`, `recentDataWithId_id`, `quantityId_eq`, `valueId_eq` — the ids of the
  models are keys of these field lists.
* `exists_tickerKey`, `exists_priceKey`, `exists_quantityKey`, `exists_valueKey` — the rows
  the models compute list values of these types.
-/

namespace BinanceElt

open Sql (Timestamp)

/-! ## The macro -/

/-- `to_hex(md5(…))`: 32 lower-case hexadecimal digits. -/
@[ext] structure HexId where
  text : List Char
  length_text : text.length = 32
  isHex : ∀ c ∈ text, c.isDigit = true ∨ 'a' ≤ c ∧ c ≤ 'f'
deriving DecidableEq, Repr

/-- A digit, a sign, the decimal point or the mark of an exponent. -/
def IsNumberChar (c : Char) : Prop := c.isDigit = true ∨ c ∈ ['+', '-', '.', 'e', 'E']

instance (c : Char) : Decidable (IsNumberChar c) := instDecidableOr

/-- `CAST(q AS STRING)` of a number, and the fraction of a second in that of a
timestamp.  The exact format of either is left open: all that matters is that
different values are written differently, in characters of their kind. -/
structure Casts where
  number : ℚ → List Char
  number_injective : Function.Injective number
  isNumberChar_of_mem : ∀ q, ∀ c ∈ number q, IsNumberChar c
  fraction : Sql.FractionText

/-- Whole numbers are written in decimal; another one by its numerator and
denominator. -/
def ratText (q : ℚ) : List Char :=
  Sql.intText q.num ++ if q.den = 1 then [] else 'e' :: Nat.toDigits 10 q.den

theorem isNumberChar_of_mem_intText {n : ℤ} {c : Char} (hc : c ∈ Sql.intText n) :
    IsNumberChar c := by
  rcases Sql.isDigit_of_mem_intText hc with hdigit | rfl
  · exact .inl hdigit
  · decide

theorem ratText_injective : Function.Injective ratText := by
  intro p q h
  have hmark : ∀ n : ℤ, ∀ c ∈ Sql.intText n, c ≠ 'e' := by
    intro n c hc heq
    rcases Sql.isDigit_of_mem_intText hc with hdigit | hsign
    · rw [heq] at hdigit
      exact absurd hdigit (by decide)
    · rw [heq] at hsign
      exact absurd hsign (by decide)
  have hne : ∀ (m n : ℤ) (ds : List Char), Sql.intText m ≠ Sql.intText n ++ 'e' :: ds := by
    intro m n ds heq
    exact hmark m 'e' (by simp [heq]) rfl
  unfold ratText at h
  split at h <;> split at h
  · next hp hq =>
      rw [List.append_nil, List.append_nil] at h
      exact Rat.ext (Sql.intText_inj h) (hp.trans hq.symm)
  · rw [List.append_nil] at h
    exact absurd h (hne _ _ _)
  · rw [List.append_nil] at h
    exact absurd h.symm (hne _ _ _)
  · obtain ⟨hnum, -, hden⟩ := Sql.append_cons_inj_of_forall (hmark p.num) (hmark q.num)
      (by simp) (by simp) h
    exact Rat.ext (Sql.intText_inj hnum) (Sql.toDigits_inj hden)

/-- Casts that can be evaluated.  They write a fraction in a way BigQuery does
not, and serve the examples only. -/
def plainCasts : Casts where
  number := ratText
  number_injective := ratText_injective
  isNumberChar_of_mem q c hc := by
    rcases List.mem_append.mp hc with hc | hc
    · exact isNumberChar_of_mem_intText hc
    · split at hc
      · cases hc
      · rcases List.mem_cons.mp hc with rfl | hc
        · decide
        · exact .inl (Nat.isDigit_of_mem_toDigits (by decide) (by decide) hc)
  fraction := Sql.sixDigits

/-- `_dbt_utils_surrogate_key_null_`. -/
def nullText : List Char := "_dbt_utils_surrogate_key_null_".toList

variable (C : Casts)

/-- `coalesce(cast(field as string), '_dbt_utils_surrogate_key_null_')`. -/
def KeyField.castText : KeyField HexId → List Char
  | .null => nullText
  | .text s => s.toList
  | .id i => i.text
  | .int n => Sql.intText n
  | .number q => C.number q
  | .timestamp ts => Sql.timestampText C.fraction ts

/-- The casts, joined with `-`. -/
def joinedText (fields : List (KeyField HexId)) : List Char :=
  ['-'].intercalate (fields.map (KeyField.castText C))

def hashedText (fields : List (KeyField HexId)) : String := String.ofList (joinedText C fields)

/-- `dbt_utils.generate_surrogate_key`. -/
def generateSurrogateKey (md5 : String → HexId) (fields : List (KeyField HexId)) : HexId :=
  md5 (hashedText C fields)

theorem joinedText_singleton (f : KeyField HexId) : joinedText C [f] = f.castText C :=
  List.intercalate_singleton

theorem joinedText_cons_cons (f g : KeyField HexId) (fields : List (KeyField HexId)) :
    joinedText C (f :: g :: fields) = f.castText C ++ '-' :: joinedText C (g :: fields) := by
  simp only [joinedText, List.map_cons, List.intercalate_cons_cons, List.append_assoc,
    List.singleton_append]

/-! ## The listed fields -/

section Fields

variable {Id : Type}

/-- `['symbol', 'full_name', 'start_timestamp']`. -/
def tickerFields (symbol : Option String) (fullName : String)
    (startTimestamp : Option Timestamp) : List (KeyField Id) :=
  [.ofOption .text symbol, .text fullName, .ofOption .timestamp startTimestamp]

/-- `['symbol_id', 'date_id', 'price', 'open_time']`. -/
def priceFields (symbolId : Id) (dateId : ℤ) (price : Option ℚ)
    (openTime : Option Timestamp) : List (KeyField Id) :=
  [.id symbolId, .int dateId, .ofOption .number price, .ofOption .timestamp openTime]

/-- `['symbol_id', 'date_id', 'quantity']`. -/
def quantityFields (symbolId : Id) (dateId : ℤ) (quantity : Option ℚ) : List (KeyField Id) :=
  [.id symbolId, .int dateId, .ofOption .number quantity]

/-- `['date_id', 'wallet_value']`. -/
def valueFields (dateId : ℤ) (walletValue : Option ℚ) : List (KeyField Id) :=
  [.int dateId, .ofOption .number walletValue]

variable (K : SurrogateKey Id)

theorem tickerId_eq (symbol : Option String) (fullName : String)
    (startTimestamp : Option Timestamp) :
    tickerId K symbol fullName startTimestamp =
      K.generateSurrogateKey (tickerFields symbol fullName startTimestamp) := rfl

theorem recentDataWithId_id (r : RecentData Id) :
    (recentDataWithId K r).id =
      K.generateSurrogateKey (priceFields r.symbolId r.dateId r.price r.openTime) := rfl

theorem quantityId_eq (symbolId : Id) (dateId : ℤ) (quantity : Option ℚ) :
    quantityId K symbolId dateId quantity =
      K.generateSurrogateKey (quantityFields symbolId dateId quantity) := rfl

theorem valueId_eq (dateId : ℤ) (walletValue : Option ℚ) :
    valueId K dateId walletValue =
      K.generateSurrogateKey (valueFields dateId walletValue) := rfl

@[simp] theorem priceFields_inj {i i' : Id} {n n' : ℤ} {p p' : Option ℚ}
    {ts ts' : Option Timestamp} :
    priceFields i n p ts = priceFields i' n' p' ts' ↔ i = i' ∧ n = n' ∧ p = p' ∧ ts = ts' := by
  simp [priceFields]

@[simp] theorem quantityFields_inj {i i' : Id} {n n' : ℤ} {q q' : Option ℚ} :
    quantityFields i n q = quantityFields i' n' q' ↔ i = i' ∧ n = n' ∧ q = q' := by
  simp [quantityFields]

@[simp] theorem tickerFields_inj {s s' : Option String} {name name' : String}
    {ts ts' : Option Timestamp} :
    (tickerFields s name ts : List (KeyField Id)) = tickerFields s' name' ts' ↔
      s = s' ∧ name = name' ∧ ts = ts' := by
  simp [tickerFields]

@[simp] theorem valueFields_inj {n n' : ℤ} {v v' : Option ℚ} :
    (valueFields n v : List (KeyField Id)) = valueFields n' v' ↔ n = n' ∧ v = v' := by
  simp [valueFields]

end Fields

/-! ## The values the models list -/

/-- A number of eight digits, as `FORMAT_DATE('%Y%m%d')` prints. -/
def IsDateId (n : ℤ) : Prop := 10000000 ≤ n ∧ n ≤ 99999999

instance (n : ℤ) : Decidable (IsDateId n) := instDecidableAnd

/-- The values `dim_tickers` lists.  A full name may be any text. -/
@[ext] structure TickerKey where
  symbol : String
  fullName : String
  startTimestamp : Timestamp
  dash_notMem : '-' ∉ symbol.toList
  isTimestamp : Sql.IsTimestamp startTimestamp

/-- The values `fact_ticker_prices` lists. -/
@[ext] structure PriceKey where
  symbolId : HexId
  dateId : ℤ
  price : Option ℚ
  openTime : Option Timestamp
  isDateId : IsDateId dateId
  isTimestamp : ∀ ts, openTime = some ts → Sql.IsTimestamp ts

/-- The values `fact_daily_tickers_quantity` lists. -/
@[ext] structure QuantityKey where
  symbolId : HexId
  dateId : ℤ
  quantity : Option ℚ
  isDateId : IsDateId dateId

/-- The values `fact_daily_account_value` lists. -/
@[ext] structure ValueKey where
  dateId : ℤ
  walletValue : Option ℚ
  isDateId : IsDateId dateId

def TickerKey.fields (k : TickerKey) : List (KeyField HexId) :=
  tickerFields (some k.symbol) k.fullName (some k.startTimestamp)

def PriceKey.fields (k : PriceKey) : List (KeyField HexId) :=
  priceFields k.symbolId k.dateId k.price k.openTime

def QuantityKey.fields (k : QuantityKey) : List (KeyField HexId) :=
  quantityFields k.symbolId k.dateId k.quantity

def ValueKey.fields (k : ValueKey) : List (KeyField HexId) :=
  valueFields k.dateId k.walletValue

/-! ## The rows the models compute -/

section Rows

theorem isDateId_of_mem_dimDate {d : DimDate} (hd : d ∈ dimDate) : IsDateId d.id := by
  obtain ⟨date, hdate, rfl⟩ := List.mem_map.mp hd
  obtain ⟨hfirst, hlast⟩ := Sql.mem_generateDateArray.mp hdate
  have hmin : (20140101 : ℤ) ≤ Sql.formatYmd date := Sql.formatYmd_le_iff.mpr hfirst
  have hmax : Sql.formatYmd date ≤ (20500101 : ℤ) := Sql.formatYmd_le_iff.mpr hlast
  exact ⟨le_trans (by decide) hmin, le_trans hmax (by decide)⟩

variable {Id : Type} {K : SurrogateKey Id} {dt : List (DimTickers Id)} {ctx : RunContext}
  {isIncremental : Bool}

/-- Rows of `dim_tickers` list a `TickerKey`, unless their symbol is null.
`hts` and `hdash` are what the columns hold: timestamps of BigQuery, and symbols
of Binance, which have no `-`. -/
theorem exists_tickerKey {prices : List TickerPrices} {nm : List NameMapping}
    (h : dimTickers K prices nm ctx = .ok dt)
    (hts : ∀ tp ∈ prices, Sql.IsTimestamp tp.timestamp)
    (hdash : ∀ tp ∈ prices, ∀ s, tp.symbol = some s → '-' ∉ s.toList) {r : DimTickers Id}
    (hr : r ∈ dt) (hsymbol : r.symbol ≠ none) :
    ∃ k : TickerKey, k.fields = tickerFields r.symbol r.fullName r.startTimestamp := by
  obtain ⟨hrow, -, -, hstart, -, -⟩ := (mem_dimTickers K h).mp hr
  obtain ⟨symbol, hsymbol⟩ := Option.ne_none_iff_exists'.mp hsymbol
  obtain ⟨ts, hfirst⟩ := exists_firstTimestamp hrow
  obtain ⟨⟨tp, htp, htpsymbol, rfl⟩, -⟩ := firstTimestamp_eq_some_iff.mp hfirst
  have hnodash : '-' ∉ symbol.toList := hdash tp htp symbol (htpsymbol.trans hsymbol)
  refine ⟨⟨symbol, r.fullName, tp.timestamp, hnodash, hts tp htp⟩, ?_⟩
  rw [hsymbol, hstart, hfirst]
  rfl

theorem factTickerPrices_id {changes : List TickerPriceChange} {dd : List DimDate}
    {r : FactTickerPrices Id} (hr : r ∈ factTickerPrices K changes dt dd ctx isIncremental) :
    r.id = K.generateSurrogateKey (priceFields r.symbolId r.dateId r.price r.openTime) := by
  obtain ⟨tp, -, t, -, d, -, -, -, rfl⟩ := (mem_factTickerPrices K).mp hr
  exact recentDataWithId_id K (recentDataRow tp t d)

variable (render : Id → HexId)

/-- Rows of `fact_ticker_prices` list a `PriceKey`, however the ids of the
tickers read. -/
theorem exists_priceKey {changes : List TickerPriceChange}
    (hts : ∀ tp ∈ changes, ∀ ms, tp.openTime = some ms → Sql.IsTimestamp (Sql.timestampMillis ms))
    {r : FactTickerPrices Id}
    (hr : r ∈ factTickerPrices K changes dt dimDate ctx isIncremental) :
    ∃ k : PriceKey, k.fields = priceFields (render r.symbolId) r.dateId r.price r.openTime := by
  obtain ⟨tp, htp, t, -, d, hd, -, -, rfl⟩ := (mem_factTickerPrices K).mp hr
  have hopen : ∀ ts, tp.openTime.map Sql.timestampMillis = some ts → Sql.IsTimestamp ts := by
    intro ts hsome
    obtain ⟨ms, hms, rfl⟩ := Option.map_eq_some_iff.mp hsome
    exact hts tp htp ms hms
  exact ⟨⟨render t.id, d.id, midPrice tp, _, isDateId_of_mem_dimDate hd, hopen⟩, rfl⟩

/-- Rows of `fact_daily_tickers_quantity` list a `QuantityKey`. -/
theorem exists_quantityKey [DecidableEq Id] {snapshots : List AccountSnaphsot}
    {rows : List (FactDailyTickersQuantity Id)}
    (h : factDailyTickersQuantity K snapshots dt dimDate ctx isIncremental = .ok rows)
    {r : FactDailyTickersQuantity Id} (hr : r ∈ rows) :
    ∃ k : QuantityKey, k.fields = quantityFields (render r.symbolId) r.dateId r.quantity := by
  have hp := (map_factDailyTickersQuantity_perm K h).mem_iff.mp (List.mem_map_of_mem hr)
  obtain ⟨d, hd, hdate⟩ := exists_dateId_of_mem_currentPortfolio hp
  have hdateId : IsDateId r.dateId := hdate ▸ isDateId_of_mem_dimDate hd
  exact ⟨⟨render r.symbolId, r.dateId, r.quantity, hdateId⟩, rfl⟩

/-- Rows of `fact_daily_account_value` list a `ValueKey`. -/
theorem exists_valueKey [DecidableEq Id] {snapshots : List AccountSnaphsot}
    {prices : List (FactTickerPrices Id)} {rows : List (FactDailyAccountValue Id)}
    (h : factDailyAccountValue K snapshots dt dimDate prices ctx isIncremental = .ok rows)
    {r : FactDailyAccountValue Id} (hr : r ∈ rows) :
    ∃ k : ValueKey, k.fields = valueFields r.dateId r.walletValue := by
  have hv := (map_factDailyAccountValue_perm K h).mem_iff.mp (List.mem_map_of_mem hr)
  obtain ⟨d, hd, hdate⟩ := exists_dateId_of_mem_totalValueOf hv
  have hdateId : IsDateId r.dateId := hdate ▸ isDateId_of_mem_dimDate hd
  exact ⟨⟨r.dateId, r.walletValue, hdateId⟩, rfl⟩

end Rows

end BinanceElt
