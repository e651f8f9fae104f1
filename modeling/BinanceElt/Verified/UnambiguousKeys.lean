import BinanceElt.Models.KeyText

/-!
# Surrogate keys are unambiguous

The fields of a key are joined with `-`, which also stands in timestamps, negative numbers,
exponents and full names: joined texts do not determine the fields in general.  They do for
the four models, each for its own reason.  A symbol ends at the first `-` and an id or a
date behind its 32 or 8 characters; a timestamp is recognised at the end of a text, where a
null is told from it by the last character; and what is left between is one field.

## Main results

* `hashedText_unambiguous` — the hashed text determines the values of a key, so that
  different values get different ids unless the hash collides.
* `dimTickers_id_eq_iff`, `factTickerPrices_id_eq_iff`,
  `factDailyTickersQuantity_id_eq_iff`, `factDailyAccountValue_id_eq_iff` — rows of the
  tables, whose keys are taken to be injective, have the same id exactly when their hashed
  texts are equal.
-/

namespace BinanceElt

open Sql (Timestamp)

/-- Different texts with the same hash. -/
def IsCollision (md5 : String → HexId) (s s' : String) : Prop := s ≠ s' ∧ md5 s = md5 s'

variable (C : Casts) (md5 : String → HexId)

/-- The hashed text determines the listed values, and so does the id, up to a
collision. -/
structure Unambiguous {κ : Type} (fields : κ → List (KeyField HexId)) : Prop where
  injective : Function.Injective fun k => hashedText C (fields k)
  eq_or_isCollision : ∀ k k',
    generateSurrogateKey C md5 (fields k) = generateSurrogateKey C md5 (fields k') →
      k = k' ∨ IsCollision md5 (hashedText C (fields k)) (hashedText C (fields k'))

theorem Unambiguous.of_injective {κ : Type} {fields : κ → List (KeyField HexId)}
    (h : Function.Injective fun k => hashedText C (fields k)) :
    Unambiguous C md5 fields where
  injective := h
  eq_or_isCollision k k' hid := by
    by_cases heq : k = k'
    · exact .inl heq
    · exact .inr ⟨fun htext => heq (h htext), hid⟩

/-! ## One field at a time -/

section Parts

variable {C} {f g : KeyField HexId} {fs gs : List (KeyField HexId)}

/-- An id ends behind its 32 characters. -/
theorem joinedText_id_inj {i i' : HexId}
    (h : joinedText C (.id i :: f :: fs) = joinedText C (.id i' :: g :: gs)) :
    i = i' ∧ joinedText C (f :: fs) = joinedText C (g :: gs) := by
  rw [joinedText_cons_cons, joinedText_cons_cons] at h
  obtain ⟨htext, hrest⟩ :=
    Sql.append_cons_inj_of_length (i.length_text.trans i'.length_text.symm) h
  exact ⟨HexId.ext htext, hrest⟩

/-- And a date behind its 8 digits. -/
theorem joinedText_dateId_inj {n n' : ℤ} (hn : IsDateId n) (hn' : IsDateId n')
    (h : joinedText C (.int n :: f :: fs) = joinedText C (.int n' :: g :: gs)) :
    n = n' ∧ joinedText C (f :: fs) = joinedText C (g :: gs) := by
  have hlength : ∀ m : ℤ, IsDateId m → (Sql.intText m).length = 8 := fun m hm =>
    Sql.length_intText (k := 7) (le_trans (by decide) hm.1) (lt_of_le_of_lt hm.2 (by decide))
  rw [joinedText_cons_cons, joinedText_cons_cons] at h
  obtain ⟨hdate, hrest⟩ :=
    Sql.append_cons_inj_of_length ((hlength n hn).trans (hlength n' hn').symm) h
  exact ⟨Sql.intText_inj hdate, hrest⟩

/-- A symbol ends at the first `-`. -/
theorem joinedText_symbol_inj {s s' : String} (hs : '-' ∉ s.toList) (hs' : '-' ∉ s'.toList)
    (h : joinedText C (.text s :: f :: fs) = joinedText C (.text s' :: g :: gs)) :
    s = s' ∧ joinedText C (f :: fs) = joinedText C (g :: gs) := by
  have hdash : ∀ s : String, '-' ∉ s.toList → ∀ c ∈ s.toList, c ≠ '-' := by
    rintro s hs c hc rfl
    exact hs hc
  rw [joinedText_cons_cons, joinedText_cons_cons] at h
  obtain ⟨htext, -, hrest⟩ :=
    Sql.append_cons_inj_of_forall (hdash s hs) (hdash s' hs') (by simp) (by simp) h
  exact ⟨String.toList_inj.mp htext, hrest⟩

/-- A null ends in `_` and a timestamp in `0`. -/
theorem append_nullText_ne (u u' : List Char) (ts : Timestamp) :
    u ++ nullText ≠ u' ++ Sql.timestampText C.fraction ts := by
  intro h
  have hnull : nullText.getLast? = some '_' := by decide
  have hzero : "+00".toList.getLast? = some '0' := by decide
  have hlast := congrArg List.getLast? h
  rw [Sql.timestampText, ← List.append_assoc, List.getLast?_append, List.getLast?_append, hnull,
    hzero, Option.some_or, Option.some_or] at hlast
  exact absurd (Option.some.inj hlast) (by decide)

/-- A nullable timestamp is recognised at the end of a text. -/
theorem append_castText_timestamp_inj {u u' : List Char} {x y : Option Timestamp}
    (hx : ∀ ts, x = some ts → Sql.IsTimestamp ts) (hy : ∀ ts, y = some ts → Sql.IsTimestamp ts)
    (h : u ++ (KeyField.ofOption .timestamp x).castText C =
      u' ++ (KeyField.ofOption .timestamp y).castText C) : u = u' ∧ x = y := by
  cases x with
  | none =>
      cases y with
      | none => exact ⟨List.append_cancel_right h, rfl⟩
      | some ts => exact absurd h (append_nullText_ne u u' ts)
  | some ts =>
      cases y with
      | none => exact absurd h.symm (append_nullText_ne u' u ts)
      | some ts' =>
          obtain ⟨hu, rfl⟩ :=
            Sql.append_timestampText_inj C.fraction (hx ts rfl) (hy ts' rfl) h
          exact ⟨hu, rfl⟩

/-- So that the field before it is all that is left, whatever characters are in
it. -/
theorem joinedText_timestamp_inj {x y : Option Timestamp}
    (hx : ∀ ts, x = some ts → Sql.IsTimestamp ts) (hy : ∀ ts, y = some ts → Sql.IsTimestamp ts)
    (h : joinedText C [f, .ofOption .timestamp x] = joinedText C [g, .ofOption .timestamp y]) :
    f.castText C = g.castText C ∧ x = y := by
  rw [joinedText_cons_cons, joinedText_cons_cons, joinedText_singleton, joinedText_singleton,
    List.append_cons (f.castText C), List.append_cons (g.castText C)] at h
  obtain ⟨hfront, htimestamp⟩ := append_castText_timestamp_inj hx hy h
  exact ⟨List.append_cancel_right hfront, htimestamp⟩

/-- `_` is in no number. -/
theorem number_ne_nullText (q : ℚ) : C.number q ≠ nullText := by
  intro h
  have hmem : '_' ∈ C.number q := by
    rw [h]
    decide
  exact absurd (C.isNumberChar_of_mem q '_' hmem) (by decide)

/-- A nullable number is determined by its text. -/
theorem castText_number_inj {x y : Option ℚ}
    (h : (KeyField.ofOption .number x).castText C = (KeyField.ofOption .number y).castText C) :
    x = y := by
  cases x with
  | none =>
      cases y with
      | none => rfl
      | some q => exact absurd h.symm (number_ne_nullText q)
  | some p =>
      cases y with
      | none => exact absurd h (number_ne_nullText p)
      | some q => exact congrArg some (C.number_injective h)

end Parts

/-! ## The four models -/

theorem tickerKey_injective : Function.Injective fun k : TickerKey => hashedText C k.fields := by
  intro k k' h
  have hts : ∀ k : TickerKey, ∀ ts, some k.startTimestamp = some ts → Sql.IsTimestamp ts := by
    intro k ts hsome
    rw [← Option.some.inj hsome]
    exact k.isTimestamp
  have hjoined : joinedText C k.fields = joinedText C k'.fields := String.ofList_injective h
  obtain ⟨hsymbol, hrest⟩ := joinedText_symbol_inj k.dash_notMem k'.dash_notMem hjoined
  obtain ⟨hname, hstart⟩ :=
    joinedText_timestamp_inj (x := some k.startTimestamp) (y := some k'.startTimestamp)
      (hts k) (hts k') hrest
  exact TickerKey.ext hsymbol (String.toList_inj.mp hname) (Option.some.inj hstart)

theorem priceKey_injective : Function.Injective fun k : PriceKey => hashedText C k.fields := by
  intro k k' h
  have hjoined : joinedText C k.fields = joinedText C k'.fields := String.ofList_injective h
  obtain ⟨hid, hrest⟩ := joinedText_id_inj hjoined
  obtain ⟨hdate, hrest⟩ := joinedText_dateId_inj k.isDateId k'.isDateId hrest
  obtain ⟨hprice, hopen⟩ := joinedText_timestamp_inj k.isTimestamp k'.isTimestamp hrest
  exact PriceKey.ext hid hdate (castText_number_inj hprice) hopen

theorem quantityKey_injective :
    Function.Injective fun k : QuantityKey => hashedText C k.fields := by
  intro k k' h
  have hjoined : joinedText C k.fields = joinedText C k'.fields := String.ofList_injective h
  obtain ⟨hid, hrest⟩ := joinedText_id_inj hjoined
  obtain ⟨hdate, hrest⟩ := joinedText_dateId_inj k.isDateId k'.isDateId hrest
  rw [joinedText_singleton, joinedText_singleton] at hrest
  exact QuantityKey.ext hid hdate (castText_number_inj hrest)

theorem valueKey_injective : Function.Injective fun k : ValueKey => hashedText C k.fields := by
  intro k k' h
  have hjoined : joinedText C k.fields = joinedText C k'.fields := String.ofList_injective h
  obtain ⟨hdate, hrest⟩ := joinedText_dateId_inj k.isDateId k'.isDateId hjoined
  rw [joinedText_singleton, joinedText_singleton] at hrest
  exact ValueKey.ext hdate (castText_number_inj hrest)

/-- The field lists of the four models are unambiguous.

The macro joins the casts of the fields with `-`, which also stands in dates, in
negative numbers and in names.  That two lists of values never give one text is
shown field by field: a symbol ends at the first `-`, an id and a day have fixed
lengths, and a timestamp is recognised at the end of the text, so that the name
or the number before it is all that is left. -/
theorem hashedText_unambiguous :
    Unambiguous C md5 TickerKey.fields ∧ Unambiguous C md5 PriceKey.fields ∧
      Unambiguous C md5 QuantityKey.fields ∧ Unambiguous C md5 ValueKey.fields :=
  ⟨.of_injective C md5 (tickerKey_injective C), .of_injective C md5 (priceKey_injective C),
    .of_injective C md5 (quantityKey_injective C), .of_injective C md5 (valueKey_injective C)⟩

/-! ### Values that look alike -/

/-- 2024-05-01 12:00:00. -/
private def noon : Timestamp := 1714564800000000

private def bitcoin : TickerKey := ⟨"BTCUSDT", "Bitcoin", noon, by decide, by decide⟩

/-- A full name that ends like the text of `bitcoin`. -/
private def stampedName : TickerKey :=
  ⟨"BTCUSDT", "Bitcoin-2024-05-01 12:00:00+00", noon, by decide, by decide⟩

private def debt : ValueKey := ⟨20240501, some (-12), by decide⟩
private def unknown : ValueKey := ⟨20240501, none, by decide⟩

example : hashedText plainCasts stampedName.fields =
    "BTCUSDT-Bitcoin-2024-05-01 12:00:00+00-2024-05-01 12:00:00+00" := by decide +kernel

example : hashedText plainCasts debt.fields = "20240501--12" := by decide +kernel

-- a `-` in a symbol is not told from the one behind it
example : hashedText plainCasts (tickerFields (some "BTC-USDT") "Bitcoin" none) =
    hashedText plainCasts (tickerFields (some "BTC") "USDT-Bitcoin" none) := by decide +kernel

private def zeroId : HexId where
  text := List.replicate 32 '0'
  length_text := List.length_replicate
  isHex c hc := by
    rw [List.eq_of_mem_replicate hc]
    decide

theorem hashedText_unambiguous_lookalikes :
    hashedText plainCasts bitcoin.fields ≠ hashedText plainCasts stampedName.fields ∧
      hashedText plainCasts debt.fields ≠ hashedText plainCasts unknown.fields := by
  obtain ⟨hticker, -, -, hvalue⟩ := hashedText_unambiguous plainCasts fun _ => zeroId
  refine ⟨hticker.injective.ne fun heq => ?_, hvalue.injective.ne fun heq => ?_⟩
  · exact absurd (congrArg TickerKey.fullName heq) (by decide)
  · exact absurd (congrArg ValueKey.walletValue heq) (by decide)

/-! ## The ids of the models -/

section Ids

variable {C} {Id : Type} {K : SurrogateKey Id} {dt dt' : List (DimTickers Id)}
  {ctx ctx' : RunContext} {isIncremental isIncremental' : Bool}

/-- Keys with equal texts list equal fields. -/
theorem hashedText_fields_eq_iff {κ : Type} {fields : κ → List (KeyField HexId)}
    (h : Function.Injective fun k => hashedText C (fields k)) (k k' : κ) :
    hashedText C (fields k) = hashedText C (fields k') ↔ fields k = fields k' :=
  ⟨fun htext => congrArg fields (h htext), fun heq => congrArg (hashedText C) heq⟩

/-- In `dim_tickers`, also across its rebuilds, rows with the same id are those
with the same hashed text. -/
theorem dimTickers_id_eq_iff {prices prices' : List TickerPrices} {nm nm' : List NameMapping}
    (hdt : dimTickers K prices nm ctx = .ok dt) (hdt' : dimTickers K prices' nm' ctx' = .ok dt')
    (hts : ∀ tp ∈ prices ++ prices', Sql.IsTimestamp tp.timestamp)
    (hdash : ∀ tp ∈ prices ++ prices', ∀ s, tp.symbol = some s → '-' ∉ s.toList)
    {r r' : DimTickers Id} (hr : r ∈ dt) (hr' : r' ∈ dt') (hsymbol : r.symbol ≠ none)
    (hsymbol' : r'.symbol ≠ none) :
    r.id = r'.id ↔
      hashedText C (tickerFields r.symbol r.fullName r.startTimestamp) =
        hashedText C (tickerFields r'.symbol r'.fullName r'.startTimestamp) := by
  obtain ⟨-, -, -, -, hid, -⟩ := (mem_dimTickers K hdt).mp hr
  obtain ⟨-, -, -, -, hid', -⟩ := (mem_dimTickers K hdt').mp hr'
  obtain ⟨k, hk⟩ := exists_tickerKey hdt (fun tp htp => hts tp (List.mem_append_left _ htp))
    (fun tp htp => hdash tp (List.mem_append_left _ htp)) hr hsymbol
  obtain ⟨k', hk'⟩ := exists_tickerKey hdt' (fun tp htp => hts tp (List.mem_append_right _ htp))
    (fun tp htp => hdash tp (List.mem_append_right _ htp)) hr' hsymbol'
  rw [hid, hid', tickerId_eq, tickerId_eq, K.eq_iff, ← hk, ← hk',
    hashedText_fields_eq_iff (tickerKey_injective C), hk, hk', tickerFields_inj,
    tickerFields_inj]

/-- In `fact_ticker_prices`, also across runs, unless the ids of two tickers
collide.  `render` writes an id as the 32 digits that are hashed, and `hrender`
says that it tells these two tickers apart. -/
theorem factTickerPrices_id_eq_iff (render : Id → HexId)
    {changes changes' : List TickerPriceChange}
    (hts : ∀ tp ∈ changes ++ changes', ∀ ms, tp.openTime = some ms →
      Sql.IsTimestamp (Sql.timestampMillis ms))
    {r r' : FactTickerPrices Id}
    (hr : r ∈ factTickerPrices K changes dt dimDate ctx isIncremental)
    (hr' : r' ∈ factTickerPrices K changes' dt' dimDate ctx' isIncremental')
    (hrender : render r.symbolId = render r'.symbolId → r.symbolId = r'.symbolId) :
    r.id = r'.id ↔
      hashedText C (priceFields (render r.symbolId) r.dateId r.price r.openTime) =
        hashedText C (priceFields (render r'.symbolId) r'.dateId r'.price r'.openTime) := by
  obtain ⟨k, hk⟩ :=
    exists_priceKey render (fun tp htp => hts tp (List.mem_append_left _ htp)) hr
  obtain ⟨k', hk'⟩ :=
    exists_priceKey render (fun tp htp => hts tp (List.mem_append_right _ htp)) hr'
  have hsymbol : render r.symbolId = render r'.symbolId ↔ r.symbolId = r'.symbolId :=
    ⟨hrender, congrArg render⟩
  rw [factTickerPrices_id hr, factTickerPrices_id hr', K.eq_iff, ← hk, ← hk',
    hashedText_fields_eq_iff (priceKey_injective C), hk, hk', priceFields_inj, priceFields_inj,
    hsymbol]

/-- In `fact_daily_tickers_quantity`, likewise. -/
theorem factDailyTickersQuantity_id_eq_iff [DecidableEq Id] (render : Id → HexId)
    {snapshots snapshots' : List AccountSnaphsot} {rows rows' : List (FactDailyTickersQuantity Id)}
    (h : factDailyTickersQuantity K snapshots dt dimDate ctx isIncremental = .ok rows)
    (h' : factDailyTickersQuantity K snapshots' dt' dimDate ctx' isIncremental' = .ok rows')
    {r r' : FactDailyTickersQuantity Id} (hr : r ∈ rows) (hr' : r' ∈ rows')
    (hrender : render r.symbolId = render r'.symbolId → r.symbolId = r'.symbolId) :
    r.id = r'.id ↔
      hashedText C (quantityFields (render r.symbolId) r.dateId r.quantity) =
        hashedText C (quantityFields (render r'.symbolId) r'.dateId r'.quantity) := by
  obtain ⟨k, hk⟩ := exists_quantityKey render h hr
  obtain ⟨k', hk'⟩ := exists_quantityKey render h' hr'
  have hsymbol : render r.symbolId = render r'.symbolId ↔ r.symbolId = r'.symbolId :=
    ⟨hrender, congrArg render⟩
  rw [factDailyTickersQuantity_id K h hr, factDailyTickersQuantity_id K h' hr', quantityId_eq,
    quantityId_eq, K.eq_iff, ← hk, ← hk', hashedText_fields_eq_iff (quantityKey_injective C), hk,
    hk', quantityFields_inj, quantityFields_inj, hsymbol]

/-- In `fact_daily_account_value`, also across runs. -/
theorem factDailyAccountValue_id_eq_iff [DecidableEq Id]
    {snapshots snapshots' : List AccountSnaphsot} {prices prices' : List (FactTickerPrices Id)}
    {rows rows' : List (FactDailyAccountValue Id)}
    (h : factDailyAccountValue K snapshots dt dimDate prices ctx isIncremental = .ok rows)
    (h' : factDailyAccountValue K snapshots' dt' dimDate prices' ctx' isIncremental' = .ok rows')
    {r r' : FactDailyAccountValue Id} (hr : r ∈ rows) (hr' : r' ∈ rows') :
    r.id = r'.id ↔
      hashedText C (valueFields r.dateId r.walletValue) =
        hashedText C (valueFields r'.dateId r'.walletValue) := by
  obtain ⟨k, hk⟩ := exists_valueKey h hr
  obtain ⟨k', hk'⟩ := exists_valueKey h' hr'
  rw [factDailyAccountValue_id K h hr, factDailyAccountValue_id K h' hr', valueId_eq, valueId_eq,
    K.eq_iff, ← hk, ← hk', hashedText_fields_eq_iff (valueKey_injective C), hk, hk',
    valueFields_inj, valueFields_inj]

end Ids

end BinanceElt
