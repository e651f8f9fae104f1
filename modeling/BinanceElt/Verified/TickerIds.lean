import BinanceElt.Models.DimTickers
import BinanceElt.Models.SurrogateKey

/-!
# The ticker dimension as `ticker_prices` grows

With a mapping of unique abbreviations the join repeats no price, so that the
grouping leaves one row per symbol.  The id is computed from the symbol, its
name and the timestamp of its first price: prices that come in later, and prices
of new symbols, change neither the rows nor the ids that are there.

## Main results

* `oneRowPerSymbol` — what a build of the dimension holds.
* `dimTickers_grow` — two builds, the second over a table that has grown.
-/

namespace BinanceElt

open Sql (Date Timestamp QueryError)

variable {Id : Type} (K : SurrogateKey Id)

/-! ## One build -/

/-- The name a short symbol has: the mapped one, or `N/A` when none is
mapped. -/
def IsNameOf (nm : List NameMapping) (short : Option String) (name : String) : Prop :=
  (∃ m ∈ nm, ∃ a, short = some a ∧ m.abbreviation = some a ∧ m.fullName = some name) ∨
    ((∀ m ∈ nm, ∀ a, short = some a → m.abbreviation = some a → m.fullName = none) ∧
      name = "N/A")

/-- Every symbol has one row, from its first price on and under its name. -/
structure OneRowPerSymbol (src : List TickerPrices) (nm : List NameMapping)
    (dt : List (DimTickers Id)) : Prop where
  nodup_symbol : (dt.map DimTickers.symbol).Nodup
  symbols : ∀ symbol, symbol ∈ dt.map DimTickers.symbol ↔ ∃ tp ∈ src, tp.symbol = symbol
  startTimestamp : ∀ r ∈ dt, ∃ ts, r.startTimestamp = some ts ∧
    IsLeast {t | ∃ tp ∈ src, tp.symbol = r.symbol ∧ tp.timestamp = t} ts
  fullName : ∀ r ∈ dt, IsNameOf nm (r.symbol.map shortSymbol) r.fullName

section Build

variable {src : List TickerPrices} {nm : List NameMapping} {ctx : RunContext}
  {dt : List (DimTickers Id)} (hunique : UniqueAbbreviations nm)

include hunique in
/-- With unique abbreviations, the name of the join is the mapped one. -/
theorem isNameOf_of_mapsTo {short : Option String} {name : String} (h : mapsTo nm short name) :
    IsNameOf nm short name := by
  rcases h with ⟨m, hm, a, hshort, habbr, rfl⟩ | ⟨hnone, rfl⟩
  · cases hname : m.fullName with
    | some name => exact .inl ⟨m, hm, a, hshort, habbr, hname⟩
    | none =>
        refine .inr ⟨fun m' hm' a' hshort' habbr' => ?_, rfl⟩
        obtain rfl : a = a' := Option.some.inj (hshort.symm.trans hshort')
        rw [hunique.eq hm' hm habbr' habbr, hname]
  · exact .inr ⟨fun m hm a hshort habbr => absurd habbr (hnone m hm a hshort), rfl⟩

include hunique in
theorem oneRowPerSymbol (h : dimTickers K src nm ctx = .ok dt) : OneRowPerSymbol src nm dt where
  nodup_symbol := by
    refine Sql.nodup_map_of_imp (nodup_dimTickers_id K h) fun r hr s hs hsymbol => ?_
    rw [dimTickers_symbol_inj K h hunique hr hs hsymbol]
  symbols := by
    intro symbol
    constructor
    · intro hmem
      obtain ⟨r, hr, rfl⟩ := List.mem_map.mp hmem
      exact ((mem_dimTickers K h).mp hr).1
    · rintro ⟨tp, htp, rfl⟩
      obtain ⟨r, hr, hsymbol⟩ := exists_symbol_dimTickers K h htp
      exact List.mem_map.mpr ⟨r, hr, hsymbol⟩
  startTimestamp := by
    intro r hr
    obtain ⟨hsymbol, -, -, hstart, -⟩ := (mem_dimTickers K h).mp hr
    obtain ⟨ts, hts⟩ := exists_firstTimestamp hsymbol
    exact ⟨ts, hstart.trans hts, firstTimestamp_eq_some_iff.mp hts⟩
  fullName := by
    intro r hr
    obtain ⟨-, hshort, hname, -⟩ := (mem_dimTickers K h).mp hr
    rw [hshort] at hname
    exact isNameOf_of_mapsTo hunique hname

end Build

/-! ## Two builds -/

/-- The table has grown by prices none of which is before the first one of its
symbol; a symbol that is new has no such bound.  Prices of different symbols may
come in any order. -/
def GrowsFrom (later earlier : List TickerPrices) : Prop :=
  ∃ new, later.Perm (earlier ++ new) ∧ ∀ b ∈ new, (∃ a ∈ earlier, a.symbol = b.symbol) →
    ∃ a ∈ earlier, a.symbol = b.symbol ∧ a.timestamp ≤ b.timestamp

/-- The row a later build has for a row of an earlier one. -/
def DimTickers.rebuiltAt (now : Timestamp) (r : DimTickers Id) : DimTickers Id :=
  { r with updatedTimestamp := now }

section Growth

variable {earlier later : List TickerPrices} {nm : List NameMapping} {ctx ctx' : RunContext}
  {dt dt' : List (DimTickers Id)} (hgrow : GrowsFrom later earlier)
include hgrow

theorem GrowsFrom.mem {tp : TickerPrices} (htp : tp ∈ earlier) : tp ∈ later := by
  obtain ⟨new, hperm, -⟩ := hgrow
  exact hperm.mem_iff.mpr (List.mem_append_left _ htp)

theorem GrowsFrom.firstTimestamp_eq {symbol : Option String}
    (hsymbol : ∃ tp ∈ earlier, tp.symbol = symbol) :
    firstTimestamp later symbol = firstTimestamp earlier symbol := by
  obtain ⟨new, hperm, hnew⟩ := hgrow
  have hrows : ∀ tp, tp ∈ later ↔ tp ∈ earlier ∨ tp ∈ new := by
    intro tp
    rw [hperm.mem_iff, List.mem_append]
  refine firstTimestamp_extend hrows hsymbol fun b hb hbsymbol => ?_
  subst hbsymbol
  exact hnew b hb hsymbol

variable (hdt : dimTickers K earlier nm ctx = .ok dt)
  (hdt' : dimTickers K later nm ctx' = .ok dt')
include hdt hdt'

/-- A symbol that was there has the rows it had. -/
theorem rebuiltAt_mem_iff {r : DimTickers Id} (hr : ∃ tp ∈ earlier, tp.symbol = r.symbol) :
    r.rebuiltAt ctx'.currentTimestamp ∈ dt' ↔ r.rebuiltAt ctx.currentTimestamp ∈ dt := by
  rw [mem_dimTickers K hdt', mem_dimTickers K hdt]
  simp only [DimTickers.rebuiltAt, hgrow.firstTimestamp_eq hr, and_true]
  obtain ⟨tp, htp, hsymbol⟩ := hr
  exact and_congr_left fun _ => ⟨fun _ => ⟨tp, htp, hsymbol⟩,
    fun _ => ⟨tp, hgrow.mem htp, hsymbol⟩⟩

end Growth

/-- Over symbols of at least four characters and a mapping of unique
abbreviations, the dimension has one row per symbol; once the table has grown it
has the rows it had, with their ids, and those of the new symbols.

`hsymbols` keeps `LEFT` from failing and gives each price a symbol.
`hunique` keeps the join with the seed from doubling a symbol.  `hgrow` says
that no new price is dated before the first one of its symbol, which is what
keeps the ids. -/
theorem dimTickers_grow {earlier later : List TickerPrices} {nm : List NameMapping}
    (ctx ctx' : RunContext)
    (hsymbols : ∀ tp ∈ later, ∃ s, tp.symbol = some s ∧ 4 ≤ s.length)
    (hunique : UniqueAbbreviations nm) (hgrow : GrowsFrom later earlier) :
    ∃ dt dt', dimTickers K earlier nm ctx = .ok dt ∧ dimTickers K later nm ctx' = .ok dt' ∧
      OneRowPerSymbol earlier nm dt ∧ OneRowPerSymbol later nm dt' ∧
      (∀ r ∈ dt, r.rebuiltAt ctx'.currentTimestamp ∈ dt') ∧
      ∀ r' ∈ dt', (∃ r ∈ dt, r' = r.rebuiltAt ctx'.currentTimestamp) ∨
        ∀ tp ∈ earlier, tp.symbol ≠ r'.symbol := by
  have hsplit : ∀ tp ∈ later, Splittable tp.symbol := by
    intro tp htp s hs
    obtain ⟨s', hs', hlength⟩ := hsymbols tp htp
    rwa [Option.some.inj (hs.symm.trans hs')]
  have hbuild : ∃ dt, dimTickers K earlier nm ctx = .ok dt :=
    (exists_dimTickers_iff K).mpr fun tp htp => hsplit tp (hgrow.mem htp)
  have hbuild' : ∃ dt', dimTickers K later nm ctx' = .ok dt' :=
    (exists_dimTickers_iff K).mpr hsplit
  obtain ⟨dt, hdt⟩ := hbuild
  obtain ⟨dt', hdt'⟩ := hbuild'
  -- every row carries the time of its build
  have hstamp : ∀ r ∈ dt, r.rebuiltAt ctx.currentTimestamp = r := by
    intro r hr
    obtain ⟨-, -, -, -, -, hupdated⟩ := (mem_dimTickers K hdt).mp hr
    rw [DimTickers.rebuiltAt, ← hupdated]
  have hstamp' : ∀ r ∈ dt', r.rebuiltAt ctx'.currentTimestamp = r := by
    intro r hr
    obtain ⟨-, -, -, -, -, hupdated⟩ := (mem_dimTickers K hdt').mp hr
    rw [DimTickers.rebuiltAt, ← hupdated]
  refine ⟨dt, dt', hdt, hdt', oneRowPerSymbol K hunique hdt, oneRowPerSymbol K hunique hdt',
    fun r hr => ?_, fun r' hr' => ?_⟩
  · rw [rebuiltAt_mem_iff K hgrow hdt hdt' ((mem_dimTickers K hdt).mp hr).1, hstamp r hr]
    exact hr
  · by_cases hold : ∃ tp ∈ earlier, tp.symbol = r'.symbol
    · refine .inl ⟨r'.rebuiltAt ctx.currentTimestamp, ?_, (hstamp' r' hr').symm⟩
      rw [← rebuiltAt_mem_iff K hgrow hdt hdt' hold, hstamp' r' hr']
      exact hr'
    · push Not at hold
      exact .inr hold

/-! ## A new symbol and a late price -/

def listedPrices : List TickerPrices := [⟨some "BTCUSDT", Sql.midnight 19844⟩]

/-- A price of another symbol, dated before all others, and a later price. -/
def grownPrices : List TickerPrices :=
  [⟨some "ETHUSDT", Sql.midnight 19843⟩, ⟨some "BTCUSDT", Sql.midnight 19844⟩,
    ⟨some "BTCUSDT", Sql.midnight 19845⟩]

private theorem growsFrom_listed : GrowsFrom grownPrices listedPrices := by
  refine ⟨[⟨some "ETHUSDT", Sql.midnight 19843⟩, ⟨some "BTCUSDT", Sql.midnight 19845⟩],
    ?_, ?_⟩ <;> decide

theorem dimTickers_grow_listed :
    ∃ dt dt', dimTickers listing listedPrices [⟨some "Bitcoin", some "BTC"⟩]
          ⟨19844, Sql.midnight 19844, daysToIngest⟩ = .ok dt ∧
        dimTickers listing grownPrices [⟨some "Bitcoin", some "BTC"⟩]
          ⟨19845, Sql.midnight 19845, daysToIngest⟩ = .ok dt' ∧
      OneRowPerSymbol listedPrices [⟨some "Bitcoin", some "BTC"⟩] dt ∧
      OneRowPerSymbol grownPrices [⟨some "Bitcoin", some "BTC"⟩] dt' ∧
      (∀ r ∈ dt, r.rebuiltAt (Sql.midnight 19845) ∈ dt') ∧
      ∀ r' ∈ dt', (∃ r ∈ dt, r' = r.rebuiltAt (Sql.midnight 19845)) ∨
        ∀ tp ∈ listedPrices, tp.symbol ≠ r'.symbol := by
  have hsymbols : ∀ tp ∈ grownPrices, ∃ s, tp.symbol = some s ∧ 4 ≤ s.length := by
    simp only [grownPrices, List.mem_cons, List.not_mem_nil, or_false, forall_eq_or_imp,
      forall_eq, Option.some.injEq, exists_eq_left']
    decide
  exact dimTickers_grow listing _ _ hsymbols (by decide) growsFrom_listed

end BinanceElt
