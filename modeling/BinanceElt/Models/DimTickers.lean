import BinanceElt.Models.Sources
import BinanceElt.Models.SurrogateKey
import Mathlib.Data.List.Basic
import Mathlib.Order.Bounds.Basic

/-!
# `dim_tickers`

The ticker dimension is rebuilt as a table on every run: one row per symbol
and full name, with the timestamp of its first price.  The short symbol is the
symbol without its last four characters (the quote currency), and `LEFT`
aborts the query on a symbol that is shorter.

## Main results

* `mem_dimTickers` — the rows, one for each symbol and each name it maps to.
* `nodup_dimTickers_id` — ids are distinct.
* `dimTickers_symbol_inj` — with unique abbreviations, one row per symbol.
-/

namespace BinanceElt

open Sql (Date Timestamp QueryError)

/-! ## The query -/

/-- `LEFT(s, n)`, which raises for a negative `n` and returns all of a text that
is not longer than `n`. -/
def left (s : String) (n : ℤ) : Except QueryError String :=
  if n < 0 then .error .negativeLength
  else .ok (String.ofList (s.toList.take n.toNat))

/-- `left(symbol, length(symbol) - 4)`: a symbol without its quote currency,
were that always four characters long.  A shorter symbol makes the length
negative, and the query fails. -/
def symbolShort : Option String → Except QueryError (Option String)
  | none => .ok none
  | some s => (left s (s.length - 4)).map some

/-- A row of the common table expression `ticker_names`. -/
structure TickerNames where
  symbol : Option String
  symbolShort : Option String
  fullName : String
  startTimestamp : Option Timestamp
deriving DecidableEq, Repr

/-- `coalesce(nm.full_name, 'N/A')` of a left-joined mapping row. -/
def fullNameOrNA (nm : Option NameMapping) : String :=
  (nm.bind NameMapping.fullName).getD "N/A"

/-- A price row with its short symbol. -/
def withSymbolShort (tp : TickerPrices) :
    Except QueryError (TickerPrices × Option String) := do
  let short ← symbolShort tp.symbol
  return (tp, short)

/-- `ticker_prices` left-joined to the seed on the short symbol: a price occurs
once for every mapping row of its abbreviation, and once without one when there
is none. -/
def tickerNamesJoin (src : List TickerPrices) (nm : List NameMapping) :
    Except QueryError (List ((TickerPrices × Option String) × Option NameMapping)) := do
  let rows ← src.mapM withSymbolShort
  return Sql.leftJoin rows nm fun r m => Sql.holds (Sql.eq r.2 m.abbreviation)

def tickerNames (src : List TickerPrices) (nm : List NameMapping) :
    Except QueryError (List TickerNames) := do
  let joined ← tickerNamesJoin src nm
  return (Sql.groupBy (fun r => (r.1.1.symbol, r.1.2, fullNameOrNA r.2)) joined).map
    fun g =>
      { symbol := g.1.1
        symbolShort := g.1.2.1
        fullName := g.1.2.2
        startTimestamp := (g.2.map fun r => r.1.1.timestamp).min? }

structure DimTickers (Id : Type) where
  id : Id
  symbol : Option String
  symbolShort : Option String
  fullName : String
  startTimestamp : Option Timestamp
  updatedTimestamp : Timestamp
deriving DecidableEq, Repr

variable {Id : Type} (K : SurrogateKey Id)

/-- The id of `dim_tickers`.  It hashes the name and the first timestamp
along with the symbol, so that a ticker gets another id when either of them
changes. -/
def tickerId (symbol : Option String) (fullName : String)
    (startTimestamp : Option Timestamp) : Id :=
  K.generateSurrogateKey
    [.ofOption .text symbol, .text fullName, .ofOption .timestamp startTimestamp]

/-- The select list of the final step. -/
def dimTickersRow (ctx : RunContext) (t : TickerNames) : DimTickers Id where
  id := tickerId K t.symbol t.fullName t.startTimestamp
  symbol := t.symbol
  symbolShort := t.symbolShort
  fullName := t.fullName
  startTimestamp := t.startTimestamp
  updatedTimestamp := ctx.currentTimestamp

def dimTickers (src : List TickerPrices) (nm : List NameMapping)
    (ctx : RunContext) : Except QueryError (List (DimTickers Id)) := do
  let names ← tickerNames src nm
  return names.map (dimTickersRow K ctx)

/-! ## Short symbols -/

/-- The short symbol where `LEFT` succeeds. -/
def shortSymbol (s : String) : String := String.ofList (s.toList.take (s.length - 4))

/-- `LEFT` accepts a symbol that is null or has four characters. -/
def Splittable (symbol : Option String) : Prop := ∀ s, symbol = some s → 4 ≤ s.length

instance : (symbol : Option String) → Decidable (Splittable symbol)
  | none => .isTrue fun _ h => by cases h
  | some s => decidable_of_iff (4 ≤ s.length) (by simp [Splittable])

theorem symbolShort_eq_ok_iff {o short : Option String} :
    symbolShort o = .ok short ↔ Splittable o ∧ short = o.map shortSymbol := by
  cases o with
  | none => simp [symbolShort, Splittable, eq_comm]
  | some s =>
      simp only [symbolShort, left, Splittable, Option.some.injEq, forall_eq',
        Option.map_some]
      by_cases hlen : 4 ≤ s.length
      · rw [if_neg (by omega), show ((s.length : ℤ) - 4).toNat = s.length - 4 by omega]
        simp [Except.map, shortSymbol, hlen, eq_comm]
      · rw [if_pos (by omega)]
        simp [Except.map, hlen]

theorem withSymbolShort_eq_ok_iff (tp : TickerPrices)
    (r : TickerPrices × Option String) :
    withSymbolShort tp = .ok r ↔
      Splittable tp.symbol ∧ r = (tp, tp.symbol.map shortSymbol) := by
  simp only [withSymbolShort, Sql.bind_eq_ok_iff, Sql.pure_eq_ok_iff,
    symbolShort_eq_ok_iff]
  constructor
  · rintro ⟨short, ⟨hsplit, rfl⟩, rfl⟩
    exact ⟨hsplit, rfl⟩
  · rintro ⟨hsplit, rfl⟩
    exact ⟨_, ⟨hsplit, rfl⟩, rfl⟩

/-- Symbols that end in the same quote currency are told apart by their short
symbols. -/
theorem shortSymbol_append {short quote : String} (h : quote.length = 4) :
    shortSymbol (short ++ quote) = short := by
  unfold shortSymbol
  rw [String.length_append, h, Nat.add_sub_cancel, String.toList_append,
    ← String.length_toList, List.take_left, String.ofList_toList]

/-! ## The rows -/

section Rows

variable {src : List TickerPrices} {nm : List NameMapping} {ctx : RunContext}
  {dt : List (DimTickers Id)}

/-- The names a short symbol maps to: those of the mapping rows with this
abbreviation, or `N/A` when there is none. -/
def mapsTo (nm : List NameMapping) (short : Option String) (name : String) : Prop :=
  (∃ m ∈ nm, ∃ a, short = some a ∧ m.abbreviation = some a ∧
      name = m.fullName.getD "N/A") ∨
    ((∀ m ∈ nm, ∀ a, short = some a → m.abbreviation ≠ some a) ∧ name = "N/A")

theorem tickerNamesJoin_eq_ok_iff
    {joined : List ((TickerPrices × Option String) × Option NameMapping)} :
    tickerNamesJoin src nm = .ok joined ↔
      (∀ tp ∈ src, Splittable tp.symbol) ∧
      joined = Sql.leftJoin (src.map fun tp => (tp, tp.symbol.map shortSymbol)) nm
        fun r m => Sql.holds (Sql.eq r.2 m.abbreviation) := by
  simp only [tickerNamesJoin, Sql.bind_eq_ok_iff, Sql.pure_eq_ok_iff,
    Sql.mapM_eq_ok_iff_map withSymbolShort_eq_ok_iff]
  constructor
  · rintro ⟨rows, ⟨hsplit, rfl⟩, rfl⟩
    exact ⟨hsplit, rfl⟩
  · rintro ⟨hsplit, rfl⟩
    exact ⟨_, ⟨hsplit, rfl⟩, rfl⟩

/-- The timestamp of the first price of a symbol. -/
def firstTimestamp (src : List TickerPrices) (symbol : Option String) :
    Option Timestamp :=
  ((src.filter fun tp => tp.symbol = symbol).map TickerPrices.timestamp).min?

theorem firstTimestamp_eq_some_iff {symbol : Option String} {ts : Timestamp} :
    firstTimestamp src symbol = some ts ↔
      IsLeast {t | ∃ tp ∈ src, tp.symbol = symbol ∧ tp.timestamp = t} ts := by
  have hmem : ∀ t, (∃ tp ∈ src, tp.symbol = symbol ∧ tp.timestamp = t) ↔
      t ∈ (src.filter fun tp => tp.symbol = symbol).map TickerPrices.timestamp := by
    intro t
    simp only [List.mem_map, List.mem_filter, decide_eq_true_eq, and_assoc]
  rw [firstTimestamp, List.min?_eq_some_iff, IsLeast, lowerBounds]
  simp only [Set.mem_ofPred_eq, hmem]

theorem exists_firstTimestamp {symbol : Option String} (h : ∃ tp ∈ src, tp.symbol = symbol) :
    ∃ ts, firstTimestamp src symbol = some ts := by
  obtain ⟨tp, htp, hsymbol⟩ := h
  refine Option.ne_none_iff_exists'.mp fun hnone => ?_
  rw [firstTimestamp, List.min?_eq_none_iff, List.map_eq_nil_iff,
    List.filter_eq_nil_iff] at hnone
  exact hnone tp htp (decide_eq_true hsymbol)

/-- Further prices, none of them before the first one of the symbol, do not
change its timestamp.  `hrows` compares the tables as sets of rows, since a
later build may list them in another order. -/
theorem firstTimestamp_extend {src' new : List TickerPrices} {symbol : Option String}
    (hrows : ∀ tp, tp ∈ src' ↔ tp ∈ src ∨ tp ∈ new)
    (hsymbol : ∃ tp ∈ src, tp.symbol = symbol)
    (hnew : ∀ b ∈ new, b.symbol = symbol →
      ∃ a ∈ src, a.symbol = symbol ∧ a.timestamp ≤ b.timestamp) :
    firstTimestamp src' symbol = firstTimestamp src symbol := by
  obtain ⟨ts, hts⟩ := exists_firstTimestamp hsymbol
  rw [hts, firstTimestamp_eq_some_iff]
  obtain ⟨⟨first, hfirst, hsym, rfl⟩, hmin⟩ := firstTimestamp_eq_some_iff.mp hts
  refine ⟨⟨first, (hrows first).mpr (.inl hfirst), hsym, rfl⟩, ?_⟩
  rintro _ ⟨b, hb, hbsym, rfl⟩
  rcases (hrows b).mp hb with hb | hb
  · exact hmin ⟨b, hb, hbsym, rfl⟩
  · obtain ⟨a, ha, hasym, hle⟩ := hnew b hb hbsym
    exact le_trans (hmin ⟨a, ha, hasym, rfl⟩) hle

/-- A row of the join pairs a price with a name its short symbol maps to. -/
theorem mem_tickerNamesJoin
    {joined : List ((TickerPrices × Option String) × Option NameMapping)}
    (h : tickerNamesJoin src nm = .ok joined) {tp : TickerPrices} {name : String} :
    (∃ r ∈ joined, r.1.1 = tp ∧ fullNameOrNA r.2 = name) ↔
      tp ∈ src ∧ mapsTo nm (tp.symbol.map shortSymbol) name := by
  obtain ⟨-, rfl⟩ := tickerNamesJoin_eq_ok_iff.mp h
  constructor
  · rintro ⟨⟨⟨tp', short⟩, m⟩, hr, rfl, rfl⟩
    obtain ⟨hmem, hcase⟩ := Sql.mem_leftJoin.mp hr
    obtain ⟨tp'', htp, heq⟩ := List.mem_map.mp hmem
    obtain ⟨rfl, rfl⟩ := Prod.mk.inj heq
    refine ⟨htp, ?_⟩
    rcases hcase with ⟨m, hm, hon, rfl⟩ | ⟨hnone, rfl⟩
    · obtain ⟨a, hshort, habbr⟩ := (Sql.holds_eq _ _).mp hon
      exact .inl ⟨m, hm, a, hshort, habbr, rfl⟩
    · refine .inr ⟨fun m hm a hshort habbr => ?_, rfl⟩
      have hon := (Sql.holds_eq _ _).mpr ⟨a, hshort, habbr⟩
      exact absurd hon (by rw [hnone m hm]; simp)
  · rintro ⟨htp, hname⟩
    have hmem : (tp, tp.symbol.map shortSymbol) ∈
        src.map fun tp => (tp, tp.symbol.map shortSymbol) := List.mem_map_of_mem htp
    rcases hname with ⟨m, hm, a, hshort, habbr, rfl⟩ | ⟨hnone, rfl⟩
    · refine ⟨((tp, tp.symbol.map shortSymbol), some m),
        Sql.mem_leftJoin.mpr ⟨hmem, .inl ⟨m, hm, ?_, rfl⟩⟩, rfl, rfl⟩
      exact (Sql.holds_eq _ _).mpr ⟨a, hshort, habbr⟩
    · refine ⟨((tp, tp.symbol.map shortSymbol), none),
        Sql.mem_leftJoin.mpr ⟨hmem, .inr ⟨fun m hm => ?_, rfl⟩⟩, rfl, rfl⟩
      rw [Bool.eq_false_iff]
      intro hon
      obtain ⟨a, hshort, habbr⟩ := (Sql.holds_eq _ _).mp hon
      exact hnone m hm a hshort habbr

/-- The rows of `ticker_names`: one for each symbol and each name it maps to. -/
theorem mem_tickerNames {names : List TickerNames}
    (h : tickerNames src nm = .ok names) {t : TickerNames} :
    t ∈ names ↔ (∃ tp ∈ src, tp.symbol = t.symbol) ∧
      t.symbolShort = t.symbol.map shortSymbol ∧
      mapsTo nm t.symbolShort t.fullName ∧
      t.startTimestamp = firstTimestamp src t.symbol := by
  obtain ⟨joined, hjoin, rfl⟩ := Sql.select_eq_ok_iff.mp h
  have hshort : ∀ r ∈ joined, r.1.2 = r.1.1.symbol.map shortSymbol := by
    intro r hr
    obtain ⟨-, rfl⟩ := tickerNamesJoin_eq_ok_iff.mp hjoin
    obtain ⟨hmem, -⟩ := Sql.mem_leftJoin.mp hr
    obtain ⟨tp, -, heq⟩ := List.mem_map.mp hmem
    rw [← heq]
  -- the timestamps of a group are those of its symbol
  have hstart : ∀ symbol name, mapsTo nm (symbol.map shortSymbol) name →
      ((joined.filter fun r =>
        (r.1.1.symbol, r.1.2, fullNameOrNA r.2) =
          (symbol, symbol.map shortSymbol, name)).map fun r => r.1.1.timestamp).min? =
        firstTimestamp src symbol := by
    intro symbol name hname
    refine Sql.min?_congr fun ts => ?_
    simp only [List.mem_map, List.mem_filter, decide_eq_true_eq, Prod.mk.injEq]
    constructor
    · rintro ⟨r, ⟨hr, hsym, -, -⟩, rfl⟩
      obtain ⟨htp, -⟩ := (mem_tickerNamesJoin hjoin).mp ⟨r, hr, rfl, rfl⟩
      exact ⟨r.1.1, ⟨htp, hsym⟩, rfl⟩
    · rintro ⟨tp, ⟨htp, rfl⟩, rfl⟩
      obtain ⟨r, hr, rfl, rfl⟩ := (mem_tickerNamesJoin hjoin).mpr ⟨htp, hname⟩
      exact ⟨r, ⟨hr, rfl, hshort r hr, rfl⟩, rfl⟩
  simp only [List.mem_map]
  constructor
  · rintro ⟨g, hg, rfl⟩
    obtain ⟨⟨r, hr, hkey⟩, hrows⟩ := Sql.mem_groupBy.mp hg
    obtain ⟨htp, hname⟩ := (mem_tickerNamesJoin hjoin).mp ⟨r, hr, rfl, rfl⟩
    obtain ⟨⟨sym, short, name⟩, rows⟩ := g
    obtain ⟨rfl, rfl, rfl⟩ : r.1.1.symbol = sym ∧ r.1.2 = short ∧
        fullNameOrNA r.2 = name := by simpa using hkey
    rw [← hshort r hr] at hname
    refine ⟨⟨r.1.1, htp, rfl⟩, hshort r hr, hname, ?_⟩
    rw [hshort r hr] at hname
    simp only at hrows
    rw [hrows, hshort r hr]
    exact hstart _ _ hname
  · rintro ⟨⟨tp, htp, hsym⟩, hsh, hname, hts⟩
    rw [hsh] at hname
    rw [← hsym] at hname
    obtain ⟨r, hr, hrtp, hrname⟩ := (mem_tickerNamesJoin hjoin).mpr ⟨htp, hname⟩
    have hkey : (r.1.1.symbol, r.1.2, fullNameOrNA r.2) =
        (t.symbol, t.symbolShort, t.fullName) := by
      simp only [hshort r hr, hrtp, hrname, hsym, hsh]
    refine ⟨_, Sql.mk_mem_groupBy hr hkey, ?_⟩
    rw [hsym] at hname
    have := hstart _ _ hname
    simp only [hsh, this, ← hts]
    rw [← hsh]

end Rows

/-! ## One row per symbol -/

section Unique

variable {src : List TickerPrices} {nm : List NameMapping} {ctx : RunContext}
  {dt : List (DimTickers Id)}

/-- The rows of `dim_tickers`. -/
theorem mem_dimTickers (h : dimTickers K src nm ctx = .ok dt) {r : DimTickers Id} :
    r ∈ dt ↔ (∃ tp ∈ src, tp.symbol = r.symbol) ∧
      r.symbolShort = r.symbol.map shortSymbol ∧
      mapsTo nm r.symbolShort r.fullName ∧
      r.startTimestamp = firstTimestamp src r.symbol ∧
      r.id = tickerId K r.symbol r.fullName r.startTimestamp ∧
      r.updatedTimestamp = ctx.currentTimestamp := by
  obtain ⟨names, hnames, rfl⟩ := Sql.select_eq_ok_iff.mp h
  rw [List.mem_map]
  constructor
  · rintro ⟨t, ht, rfl⟩
    obtain ⟨hsym, hshort, hname, hstart⟩ := (mem_tickerNames hnames).mp ht
    exact ⟨hsym, hshort, hname, hstart, rfl, rfl⟩
  · rintro ⟨hsym, hshort, hname, hstart, hid, hupd⟩
    refine ⟨⟨r.symbol, r.symbolShort, r.fullName, r.startTimestamp⟩,
      (mem_tickerNames hnames).mpr ⟨hsym, hshort, hname, hstart⟩, ?_⟩
    cases r
    simp_all [dimTickersRow]

/-- `dim_tickers` is built unless a symbol is too short for `LEFT`. -/
theorem exists_dimTickers_iff :
    (∃ dt, dimTickers K src nm ctx = .ok dt) ↔ ∀ tp ∈ src, Splittable tp.symbol := by
  simp only [dimTickers, tickerNames, Sql.bind_eq_ok_iff, Sql.pure_eq_ok_iff,
    tickerNamesJoin_eq_ok_iff]
  constructor
  · rintro ⟨_, _, ⟨_, ⟨hsplit, -⟩, -⟩, -⟩
    exact hsplit
  · intro hsplit
    exact ⟨_, _, ⟨_, ⟨hsplit, rfl⟩, rfl⟩, rfl⟩

/-- Ids are distinct, whatever the mapping. -/
theorem nodup_dimTickers_id (h : dimTickers K src nm ctx = .ok dt) :
    (dt.map DimTickers.id).Nodup := by
  have hmem := fun r => mem_dimTickers K h (r := r)
  obtain ⟨names, hnames, rfl⟩ := Sql.select_eq_ok_iff.mp h
  obtain ⟨joined, hjoin, rfl⟩ := Sql.select_eq_ok_iff.mp hnames
  refine Sql.nodup_map_of_imp
    (f := fun r => (r.symbol, r.symbolShort, r.fullName)) ?_ fun r hr r' hr' hid => ?_
  · rw [List.map_map, List.map_map]
    exact Sql.nodup_groupBy
  · obtain ⟨-, hshort, -, -, hr, -⟩ := (hmem r).mp hr
    obtain ⟨-, hshort', -, -, hr', -⟩ := (hmem r').mp hr'
    rw [hr, hr'] at hid
    simp only [tickerId, SurrogateKey.eq_iff, List.cons.injEq,
      KeyField.ofOption_text_inj, KeyField.text.injEq] at hid
    rw [hshort, hshort', hid.1, hid.2.1]

theorem exists_mapsTo (nm : List NameMapping) (short : Option String) :
    ∃ name, mapsTo nm short name := by
  by_cases hmapped : ∃ m ∈ nm, ∃ a, short = some a ∧ m.abbreviation = some a
  · obtain ⟨m, hm, a, hshort, habbr⟩ := hmapped
    exact ⟨_, .inl ⟨m, hm, a, hshort, habbr, rfl⟩⟩
  · exact ⟨_, .inr ⟨fun m hm a hshort habbr => hmapped ⟨m, hm, a, hshort, habbr⟩, rfl⟩⟩

/-- Every symbol of `ticker_prices` has a row. -/
theorem exists_symbol_dimTickers (h : dimTickers K src nm ctx = .ok dt)
    {tp : TickerPrices} (htp : tp ∈ src) : ∃ r ∈ dt, r.symbol = tp.symbol := by
  obtain ⟨name, hname⟩ := exists_mapsTo nm (tp.symbol.map shortSymbol)
  exact ⟨⟨tickerId K tp.symbol name (firstTimestamp src tp.symbol), tp.symbol,
    tp.symbol.map shortSymbol, name, firstTimestamp src tp.symbol, ctx.currentTimestamp⟩,
    (mem_dimTickers K h).mpr ⟨⟨tp, htp, rfl⟩, rfl, hname, rfl, rfl, rfl⟩, rfl⟩

/-- The id tells everything about a ticker but the time of the build, also
across builds.  The short symbol is not hashed, but is computed from the
symbol. -/
theorem dimTickers_id_inj {src' : List TickerPrices} {nm' : List NameMapping}
    {ctx' : RunContext} {dt' : List (DimTickers Id)} (h : dimTickers K src nm ctx = .ok dt)
    (h' : dimTickers K src' nm' ctx' = .ok dt') {r r' : DimTickers Id} (hr : r ∈ dt)
    (hr' : r' ∈ dt') (hid : r.id = r'.id) :
    r.symbol = r'.symbol ∧ r.symbolShort = r'.symbolShort ∧ r.fullName = r'.fullName ∧
      r.startTimestamp = r'.startTimestamp := by
  obtain ⟨-, hshort, -, -, hrid, -⟩ := (mem_dimTickers K h).mp hr
  obtain ⟨-, hshort', -, -, hrid', -⟩ := (mem_dimTickers K h').mp hr'
  rw [hrid, hrid'] at hid
  simp only [tickerId, SurrogateKey.eq_iff, List.cons.injEq, KeyField.ofOption_text_inj,
    KeyField.text.injEq, KeyField.ofOption_timestamp_inj, and_true] at hid
  exact ⟨hid.1, by rw [hshort, hshort', hid.1], hid.2.1, hid.2.2⟩

/-- A ticker keeps its id when later prices arrive and its name stays mapped:
`hle` keeps the first timestamp, and `hname` the name, which are what the id
hashes besides the symbol. -/
theorem exists_id_dimTickers_append {new : List TickerPrices} {nm' : List NameMapping}
    {ctx' : RunContext} {dt' : List (DimTickers Id)} (h : dimTickers K src nm ctx = .ok dt)
    (h' : dimTickers K (src ++ new) nm' ctx' = .ok dt')
    (hle : ∀ a ∈ src, ∀ b ∈ new, a.timestamp ≤ b.timestamp) {r : DimTickers Id}
    (hr : r ∈ dt) (hname : mapsTo nm' r.symbolShort r.fullName) :
    ∃ r' ∈ dt', r'.id = r.id := by
  obtain ⟨⟨tp, htp, hsym⟩, hshort, -, hstart, hid, -⟩ := (mem_dimTickers K h).mp hr
  refine ⟨{ r with updatedTimestamp := ctx'.currentTimestamp }, (mem_dimTickers K h').mpr
    ⟨⟨tp, List.mem_append_left _ htp, hsym⟩, hshort, hname, ?_, hid, rfl⟩, rfl⟩
  rw [firstTimestamp_extend (fun _ => List.mem_append) ⟨tp, htp, hsym⟩
    fun b hb _ => ⟨tp, htp, hsym, hle tp htp b hb⟩]
  exact hstart

/-- No abbreviation is mapped twice, as in the seed file; a ticker would
otherwise get a row for each of its names. -/
def UniqueAbbreviations (nm : List NameMapping) : Prop :=
  (nm.filterMap NameMapping.abbreviation).Nodup

instance (nm : List NameMapping) : Decidable (UniqueAbbreviations nm) :=
  inferInstanceAs (Decidable (nm.filterMap NameMapping.abbreviation).Nodup)

/-- The name a short symbol is given by a mapping of unique abbreviations. -/
def mappedName (nm : List NameMapping) (short : Option String) : String :=
  fullNameOrNA (nm.find? fun m => Sql.holds (Sql.eq short m.abbreviation))

theorem UniqueAbbreviations.eq {nm : List NameMapping} (h : UniqueAbbreviations nm)
    {m m' : NameMapping} {a : String} (hm : m ∈ nm) (hm' : m' ∈ nm)
    (ha : m.abbreviation = some a) (ha' : m'.abbreviation = some a) : m = m' := by
  induction nm with
  | nil => simp at hm
  | cons n nm ih =>
      unfold UniqueAbbreviations at h
      have hin : ∀ {x : NameMapping}, x ∈ nm → x.abbreviation = some a →
          a ∈ nm.filterMap NameMapping.abbreviation :=
        fun hx hxa => List.mem_filterMap.mpr ⟨_, hx, hxa⟩
      cases hn : n.abbreviation with
      | none =>
          rw [List.filterMap_cons_none hn] at h
          rcases List.mem_cons.mp hm with rfl | hm
          · simp [hn] at ha
          rcases List.mem_cons.mp hm' with rfl | hm'
          · simp [hn] at ha'
          exact ih h hm hm'
      | some b =>
          rw [List.filterMap_cons_some hn, List.nodup_cons] at h
          rcases List.mem_cons.mp hm with rfl | htail <;>
            rcases List.mem_cons.mp hm' with rfl | htail'
          · rfl
          · obtain rfl : b = a := Option.some.inj (hn.symm.trans ha)
            exact absurd (hin htail' ha') h.1
          · obtain rfl : b = a := Option.some.inj (hn.symm.trans ha')
            exact absurd (hin htail ha) h.1
          · exact ih h.2 htail htail'

theorem mapsTo_iff_of_unique {nm : List NameMapping} (h : UniqueAbbreviations nm)
    {short : Option String} {name : String} :
    mapsTo nm short name ↔ name = mappedName nm short := by
  unfold mappedName
  cases hfind : nm.find? fun m => Sql.holds (Sql.eq short m.abbreviation) with
  | none =>
      have hnone : ∀ m ∈ nm, ∀ a, short = some a → m.abbreviation ≠ some a := by
        intro m hm a hshort habbr
        exact List.find?_eq_none.mp hfind m hm
          ((Sql.holds_eq _ _).mpr ⟨a, hshort, habbr⟩)
      constructor
      · rintro (⟨m, hm, a, hshort, habbr, -⟩ | ⟨-, rfl⟩)
        · exact absurd habbr (hnone m hm a hshort)
        · rfl
      · rintro rfl
        exact .inr ⟨hnone, rfl⟩
  | some m =>
      have hon := List.find?_some hfind
      obtain ⟨a, hshort, habbr⟩ := (Sql.holds_eq _ _).mp hon
      have hm := List.mem_of_find?_eq_some hfind
      constructor
      · rintro (⟨m', hm', a', hshort', habbr', rfl⟩ | ⟨hnone, -⟩)
        · obtain rfl : a' = a := Option.some.inj (hshort'.symm.trans hshort)
          rw [h.eq hm' hm habbr' habbr]
          rfl
        · exact absurd habbr (hnone m hm a hshort)
      · rintro rfl
        exact .inl ⟨m, hm, a, hshort, habbr, rfl⟩

/-- With unique abbreviations, a symbol has one row.  The grouping is by symbol
and name, and the mapping gives a symbol one name. -/
theorem dimTickers_symbol_inj (h : dimTickers K src nm ctx = .ok dt)
    (hnm : UniqueAbbreviations nm) {r r' : DimTickers Id} (hr : r ∈ dt)
    (hr' : r' ∈ dt) (hsym : r.symbol = r'.symbol) : r = r' := by
  obtain ⟨-, hshort, hname, hstart, hid, hupd⟩ := (mem_dimTickers K h).mp hr
  obtain ⟨-, hshort', hname', hstart', hid', hupd'⟩ := (mem_dimTickers K h).mp hr'
  rw [mapsTo_iff_of_unique hnm] at hname hname'
  cases r
  cases r'
  simp_all

end Unique

end BinanceElt
