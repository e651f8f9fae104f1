import BinanceElt.Lambda.Received
import BinanceElt.Verified.SignedRequest

/-!
# What Binance receives

The symbols of a request are encoded three times: as a JSON text, as a form, and as a
url.  The server reads back what the caller asked for, whatever characters there are in
a symbol, and reads no `symbols` where the caller listed none.

## Main results

* `params_received` — a server reads the params that were given to `requests.get`.
* `symbols_received` — a server reads the symbols of a request for ticker data.
-/

namespace BinanceElt

open Python (Json PyError isUnreserved)
open Service (Event)
open Service.Program

/-! ## Params -/

theorem encodeParams_ne_empty {params : List (String × Param)} (h : params ≠ []) :
    encodeParams params ≠ "" := by
  obtain ⟨p, params, rfl⟩ := List.exists_cons_of_ne_nil h
  intro hempty
  have hchars := congrArg String.toList hempty
  rw [encodeParams, ← Function.comp_def (fun q : String × String =>
    (Python.encodeUtf8 q.1, Python.encodeUtf8 q.2)) (fun p : String × Param =>
    (p.1, p.2.format)), ← List.map_map, toList_urlencode] at hchars
  cases params <;> simp [List.intercalate_cons_cons] at hchars

/-- A url without params is sent without a query. -/
theorem sentQuery_nil {url : String} (hurl : IsPlainUrl url) : sentQuery url [] = "" := by
  have hreserved : ∀ c, isUnreserved c = true → c ≠ '%' ∧ c ≠ '#' ∧ c ≠ '?' := by
    intro c hc
    refine ⟨?_, ?_, ?_⟩ <;> rintro rfl <;> exact absurd hc (by decide)
  have hchar : ∀ c ∈ url.toList, c ≠ '%' ∧ c ≠ '#' ∧ c ≠ '?' ∧
      (isUnreserved c = true ∨ c ∈ safeWithPercent.toList) := by
    intro c hc
    rcases hurl c hc with h | rfl | rfl
    · obtain ⟨hpercent, hfragment, hquery⟩ := hreserved c h
      exact ⟨hpercent, hfragment, hquery, .inl h⟩
    · exact ⟨by decide, by decide, by decide, .inr (by decide)⟩
    · exact ⟨by decide, by decide, by decide, .inr (by decide)⟩
  have hprepared : prepareUrl url [] = url := requoteUri_eq_self
    (Python.escaped_of_forall fun c hc => ⟨(hchar c hc).1, (hchar c hc).2.2.2⟩)
  have hquery : urlQuery url = "" := by
    rw [urlQuery, List.takeWhile_eq_self_iff.mpr fun c hc => bne_iff_ne.mpr (hchar c hc).2.1,
      List.dropWhile_eq_nil_iff.mpr fun c hc => bne_iff_ne.mpr (hchar c hc).2.2.1]
    rfl
  rw [sentQuery, hprepared, hquery]
  rfl

/-- A server reads the params that were given to `requests.get`, those with a
blank value when it keeps them.

The way goes through `urlencode`, `requote_uri` and `_encode_invalid_chars` on
the one side, and through the splitting, unquoting and decoding of `parse_qsl`
on the other.  Names and values are any texts, of any characters; `hurl` is met
by the urls of the function. -/
theorem params_received {url : String} (hurl : IsPlainUrl url) (params : List (String × Param))
    (keepBlankValues : Bool) :
    parseQsl keepBlankValues (sentQuery url params) =
      some ((params.map fun p => (p.1, p.2.format)).filter
        fun q => q.2 ≠ "" ∨ keepBlankValues) := by
  rcases eq_or_ne params [] with rfl | hne
  · rw [sentQuery_nil hurl]
    rfl
  · rw [sentQuery_eq hurl (encodeParams_ne_empty hne), ← parseQsl_urlencode, List.map_map]
    rfl

theorem params_received_blank :
    parseQsl false (sentQuery "https://api.binance.com/sapi/v1/accountSnapshot"
        [("type", .str "A B&é"), ("asset", .str ""), ("timestamp", .int (-5))]) =
      some [("type", "A B&é"), ("timestamp", "-5")] :=
  params_received (List.all_iff_forall_prop.mp (by decide +kernel)) _ false

/-! ## Symbols -/

/-- What a server reads as the `symbols` of a query. -/
def readSymbols (query : String) : Option (Option (List String)) := do
  let pairs ← parseQsl false query
  match pairs.lookup "symbols" with
  | some text => (loadsStrings text).map some
  | none => some none

/-- A request for ticker data is made once, and a server reads the symbols that
the caller listed, or that there are none.

Once means one call of `requests.get`; redirects are followed inside it.  The
list is written by `json.dumps`, form-encoded and quoted, and `readSymbols`
undoes the three; an empty list and no list are sent alike, without the
parameter. -/
theorem symbols_received {self : BinanceHelper} {path : String}
    (hurl : IsPlainUrl (self.baseEndpoint ++ path)) (symbols : Option (List String))
    {es : List (Event Ans)} {r : Except PyError Json}
    (h : Runs (getTickers path self symbols) es r) :
    ∃ q, requests es = [q] ∧
      readSymbols (sentQuery q.1 q.2) = some (symbols.filter fun s => s ≠ []) := by
  refine ⟨(self.baseEndpoint ++ path, symbolsParams symbols), ?_, ?_⟩
  · rcases runs_bind_iff.mp h with ⟨e, hget, -⟩ | ⟨data, es₁, es₂, hget, hrows, rfl⟩
    · exact requests_getJsonResponseGet hget
    · rw [requests_append, requests_getJsonResponseGet hget,
        requests_eq_nil fun e he => (only_addMetadata _ _ _ _ hrows e he).1]
      rfl
  · rw [readSymbols, params_received hurl]
    match symbols with
    | none => rfl
    | some [] => rfl
    | some (symbol :: symbols) =>
        have hne : Json.dumpsStrings (symbol :: symbols) ≠ "" := by
          intro hempty
          have hread := loadsStrings_dumpsStrings (symbol :: symbols)
          rw [hempty] at hread
          cases hread
        have hread : ([("symbols", Json.dumpsStrings (symbol :: symbols))].filter
            fun q => q.2 ≠ "" ∨ false) = [("symbols", Json.dumpsStrings (symbol :: symbols))] := by
          simp [hne]
        show (do
          let pairs ← some ([("symbols", Json.dumpsStrings (symbol :: symbols))].filter
            fun q => q.2 ≠ "" ∨ false)
          match pairs.lookup "symbols" with
          | some text => (loadsStrings text).map some
          | none => some none) = some (some (symbol :: symbols))
        rw [hread]
        show (loadsStrings (Json.dumpsStrings (symbol :: symbols))).map some = _
        rw [loadsStrings_dumpsStrings]
        rfl

/-- A request for two symbols that JSON and the url have to escape. -/
def quotedRequest : List (Event Ans) × Except PyError Json :=
  (getTickers "/api/v3/ticker/price" snapshotHelper (some ["BTC\"&USDT", "é😀\\"])).run
    (servicesUp (fun _ => okReply (.list [])) fun _ => .returned []) []

theorem symbols_received_quoted :
    ∃ q, requests quotedRequest.1 = [q] ∧
      readSymbols (sentQuery q.1 q.2) = some (some ["BTC\"&USDT", "é😀\\"]) :=
  symbols_received (List.all_iff_forall_prop.mp (by decide +kernel))
    (some ["BTC\"&USDT", "é😀\\"]) (runs_run _ _ _)

end BinanceElt
