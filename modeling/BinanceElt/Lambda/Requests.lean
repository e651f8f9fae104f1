import BinanceElt.Lambda.Utils
import BinanceElt.Python.Url
import Mathlib.Data.Bool.AllAny
import Mathlib.Data.List.TakeWhile

/-!
# The query string of a request

What `requests` and `urllib3` make of the `params` of a request on their way into the
request target: `_encode_params` form-encodes them, `requote_uri` writes escapes of
unreserved characters out and quotes what a url cannot hold, and `_encode_target` escapes
what a request target cannot hold.

The url of the request is ASCII, has neither query nor fragment, and is in normal form,
so that `parse_url` and `urlunparse` give it back.

## Main results

* `sentQuery_eq` — nothing happens to the query string after `_encode_params`.
* `queryString_eq_encodeParams_iff` — when the string that is signed for params is their
  form encoding.
* `requests_getAccountSnapshot` — the one request for an account snapshot.
-/

namespace BinanceElt

open Python (encodeUtf8 isUnreserved quote urlencode Escaped percentEscape)

/-! ## `requests` -/

/-- `_encode_params` of a dict: `urlencode` takes `str` of a value that is no
text, and quotes names and values with `quote_plus`. -/
def encodeParams (params : List (String × Param)) : String :=
  urlencode (params.map fun p => (encodeUtf8 p.1, encodeUtf8 p.2.format))

/-- `int(c, 16)` of a digit. -/
def hexValue (c : Char) : Option ℕ :=
  if c.isDigit then some (c.toNat - 48)
  else if 'a' ≤ c ∧ c ≤ 'f' then some (c.toNat - 87)
  else if 'A' ≤ c ∧ c ≤ 'F' then some (c.toNat - 55)
  else none

/-- `unquote_unreserved` from left to right: an escape of an unreserved
character is replaced by the character, any other one stays.  `none` is
`InvalidURL`, of a `%` before two letters or digits that are no hexadecimal
number. -/
def unquoteUnreserved : List Char → Option (List Char)
  | c :: a :: b :: rest =>
      if c = '%' ∧ a.isAlphanum ∧ b.isAlphanum then
        match hexValue a, hexValue b with
        | some x, some y =>
            let d := Char.ofNat (16 * x + y)
            (unquoteUnreserved rest).map fun cs =>
              if isUnreserved d then d :: cs else c :: a :: b :: cs
        | _, _ => none
      else (unquoteUnreserved (a :: b :: rest)).map fun cs => c :: cs
  | cs => some cs

def safeWithPercent : String := "!#$%&'()*+,/:;=?@[]~"

def safeWithoutPercent : String := "!#$&'()*+,/:;=?@[]~"

def requoteUri (uri : String) : String :=
  match unquoteUnreserved uri.toList with
  | some cs => quote safeWithPercent (String.ofList cs)
  | none => quote safeWithoutPercent uri

/-- The url of a request that `prepare_url` has prepared: the encoded params
behind a `?`, when there are any, and the whole requoted. -/
def prepareUrl (url : String) (params : List (String × Param)) : String :=
  let encParams := encodeParams params
  requoteUri (if encParams = "" then url else url ++ "?" ++ encParams)

/-- `urlsplit(url).query`. -/
def urlQuery (url : String) : String :=
  String.ofList (((url.toList.takeWhile (· != '#')).dropWhile (· != '?')).drop 1)

/-! ## `urllib3` -/

/-- The substitution of `_PERCENT_RE`: every escape in upper case, and their
number. -/
def upperEscapes : List Char → List Char × ℕ
  | c :: a :: b :: rest =>
      if c = '%' ∧ (hexValue a).isSome ∧ (hexValue b).isSome then
        let r := upperEscapes rest
        (c :: a.toUpper :: b.toUpper :: r.1, r.2 + 1)
      else
        let r := upperEscapes (a :: b :: rest)
        (c :: r.1, r.2)
  | cs => (cs, 0)

/-- `_encode_invalid_chars`; the allowed characters are ASCII. -/
def encodeInvalidChars (component allowedChars : String) : String :=
  let escapes := upperEscapes component.toList
  let uriBytes := escapes.1.flatMap String.utf8EncodeChar
  let isPercentEncoded := escapes.2 == uriBytes.count 37
  String.ofList (uriBytes.flatMap fun b =>
    let c := Char.ofNat b.toNat
    if isPercentEncoded && c == '%' || allowedChars.toList.contains c then [c] else percentEscape b)

/-- `_QUERY_CHARS`. -/
def queryChars : String :=
  "ABCDEFGHIJKLMNOPQRSTUVWXYZabcdefghijklmnopqrstuvwxyz0123456789._-~!$&'()*+,;=:@/?"

/-- The query string of the request target of a `GET` request: `urllib3` parses
the prepared url once more, and encodes what is not allowed in a query. -/
def sentQuery (url : String) (params : List (String × Param)) : String :=
  encodeInvalidChars (urlQuery (prepareUrl url params)) queryChars

example : encodeInvalidChars "a b%2f" "abF2" = "a%20b%2F" := by decide +kernel

/-! ## A text that is escaped already -/

section Escaped

variable {P : Char → Prop} {cs : List Char}

theorem hexValue_hexDigit {n : ℕ} (h : n < 16) : hexValue (Python.hexDigit n) = some n := by
  have hall : ∀ n < 16, hexValue (Python.hexDigit n) = some n := by decide
  exact hall n h

private theorem isAlphanum_hexDigit {n : ℕ} (h : n < 16) :
    (Python.hexDigit n).isAlphanum = true := by
  have hall : ∀ n < 16, (Python.hexDigit n).isAlphanum = true := by decide
  exact hall n h

private theorem toUpper_hexDigit {n : ℕ} (h : n < 16) :
    (Python.hexDigit n).toUpper = Python.hexDigit n := by
  have hall : ∀ n < 16, (Python.hexDigit n).toUpper = Python.hexDigit n := by decide
  exact hall n h

private theorem unquoteUnreserved_cons {c : Char} (hc : c ≠ '%') (cs : List Char) :
    unquoteUnreserved (c :: cs) = (unquoteUnreserved cs).map fun cs => c :: cs := by
  match cs with
  | [] => rfl
  | [_] => rfl
  | _ :: _ :: _ => rw [unquoteUnreserved, if_neg fun h => hc h.1]

/-- Only escapes of unreserved characters are written out. -/
theorem unquoteUnreserved_eq_self (h : Escaped P cs) : unquoteUnreserved cs = some cs := by
  induction h with
  | nil => rfl
  | keep hc _ _ ih => rw [unquoteUnreserved_cons hc, ih, Option.map_some]
  | @escape b cs hb _ ih =>
      have hlt : b.toNat < 256 := b.toNat_lt
      have hvalue : 16 * (b.toNat / 16) + b.toNat % 16 = b.toNat := Nat.div_add_mod _ _
      simp only [percentEscape, List.cons_append, List.nil_append]
      rw [unquoteUnreserved, if_pos ⟨rfl, isAlphanum_hexDigit (by omega),
        isAlphanum_hexDigit (by omega)⟩, hexValue_hexDigit (by omega), hexValue_hexDigit (by omega)]
      simp only [hvalue, hb, ih, Option.map_some, Bool.false_eq_true, if_false]

private theorem upperEscapes_cons {c : Char} (hc : c ≠ '%') (cs : List Char) :
    upperEscapes (c :: cs) = (c :: (upperEscapes cs).1, (upperEscapes cs).2) := by
  match cs with
  | [] => rfl
  | [_] => rfl
  | _ :: _ :: _ => rw [upperEscapes, if_neg fun h => hc h.1]

/-- Escapes are in upper case, and every `%` starts one. -/
theorem upperEscapes_eq_self (h : Escaped P cs) : upperEscapes cs = (cs, cs.count '%') := by
  induction h with
  | nil => rfl
  | keep hc _ _ ih => rw [upperEscapes_cons hc, ih, List.count_cons_of_ne hc]
  | @escape b cs hb _ ih =>
      have hlt : b.toNat < 256 := b.toNat_lt
      have hdigit : ∀ n < 16, Python.hexDigit n ≠ '%' := by decide
      simp only [percentEscape, List.cons_append, List.nil_append]
      rw [upperEscapes, hexValue_hexDigit (by omega), hexValue_hexDigit (by omega),
        if_pos ⟨rfl, rfl, rfl⟩, toUpper_hexDigit (by omega), toUpper_hexDigit (by omega), ih,
        List.count_cons_self, List.count_cons_of_ne (hdigit _ (by omega)),
        List.count_cons_of_ne (hdigit _ (by omega))]

end Escaped

/-! ## The query string that is sent -/

/-- An escaped text of characters a url can hold is a prepared url already. -/
theorem requoteUri_eq_self {uri : String}
    (h : Escaped (fun c => isUnreserved c = true ∨ c ∈ safeWithPercent.toList) uri.toList) :
    requoteUri uri = uri := by
  have hascii : ∀ c ∈ safeWithPercent.toList, c.toNat < 128 := by
    rw [safeWithPercent, String.toList_ofList]
    exact List.all_iff_forall_prop.mp (by decide)
  have hchars : ∀ c ∈ uri.toList, isUnreserved c = true ∨ c ∈ safeWithPercent.toList := by
    intro c hc
    rcases h.mem hc with hc | rfl | hc
    · exact hc
    · exact .inr (by decide)
    · exact .inl hc
  rw [requoteUri, unquoteUnreserved_eq_self h]
  show quote safeWithPercent (String.ofList uri.toList) = uri
  rw [String.ofList_toList, Python.quote_eq_self fun c hc => ?_]
  exact ⟨(hchars c hc).elim Python.toNat_lt_of_isUnreserved (hascii c), hchars c hc⟩

private theorem mem_queryChars_of_isUnreserved {c : Char} (h : isUnreserved c = true) :
    c ∈ queryChars.toList := by
  have hall : ∀ n < 128, isUnreserved (Char.ofNat n) = true →
      Char.ofNat n ∈ queryChars.toList := by
    rw [queryChars, String.toList_ofList]
    decide +kernel
  have hc := hall c.toNat (Python.toNat_lt_of_isUnreserved h)
  rw [Char.ofNat_toNat] at hc
  exact hc h

/-- The `%` of an ASCII text are the bytes 37. -/
private theorem count_utf8EncodeChar {cs : List Char} (h : ∀ c ∈ cs, c.toNat < 128) :
    (cs.flatMap String.utf8EncodeChar).count 37 = cs.count '%' := by
  induction cs with
  | nil => rfl
  | cons c cs ih =>
      have hlt := h c List.mem_cons_self
      rw [List.flatMap_cons, Python.utf8EncodeChar_of_lt hlt, List.singleton_append,
        List.count_cons, List.count_cons, ih fun d hd => h d (List.mem_cons_of_mem _ hd)]
      have hbyte : (UInt8.ofNat c.toNat == 37) = (c == '%') := by
        rw [Bool.eq_iff_iff, beq_iff_eq, beq_iff_eq]
        constructor
        · intro heq
          rw [← Python.ofNat_toNat_ofNat hlt, heq]
          rfl
        · rintro rfl
          rfl
      rw [hbyte]

/-- An escaped text of allowed characters is not changed. -/
theorem encodeInvalidChars_eq_self {component : String}
    (h : Escaped (fun c => c ∈ queryChars.toList) component.toList) :
    encodeInvalidChars component queryChars = component := by
  have hascii : ∀ c ∈ queryChars.toList, c.toNat < 128 := by
    rw [queryChars, String.toList_ofList]
    exact List.all_iff_forall_prop.mp (by decide)
  have hchars : ∀ c ∈ component.toList, c.toNat < 128 ∧ (c = '%' ∨ c ∈ queryChars.toList) := by
    intro c hc
    rcases h.mem hc with hc | rfl | hc
    · exact ⟨hascii c hc, .inr hc⟩
    · exact ⟨by decide, .inl rfl⟩
    · exact ⟨Python.toNat_lt_of_isUnreserved hc, .inr (mem_queryChars_of_isUnreserved hc)⟩
  simp only [encodeInvalidChars, upperEscapes_eq_self h,
    count_utf8EncodeChar fun c hc => (hchars c hc).1, beq_self_eq_true, Bool.true_and]
  rw [Python.flatMap_utf8EncodeChar_eq_self fun c hc => ?_, String.ofList_toList]
  obtain ⟨hlt, hallowed⟩ := hchars c hc
  refine ⟨hlt, ?_⟩
  rw [Python.ofNat_toNat_ofNat hlt, if_pos (by simpa using hallowed)]

/-- A url as the code writes it: unreserved characters, `:` and `/`. -/
def IsPlainUrl (url : String) : Prop :=
  ∀ c ∈ url.toList, isUnreserved c = true ∨ c = ':' ∨ c = '/'

/-- A prepared url is the url and the form-encoded params. -/
theorem prepareUrl_eq {url : String} (hurl : IsPlainUrl url) {params : List (String × Param)}
    (hparams : encodeParams params ≠ "") :
    prepareUrl url params = url ++ "?" ++ encodeParams params := by
  have hplain : ∀ c, isUnreserved c = true ∨ c = ':' ∨ c = '/' →
      c ≠ '%' ∧ (isUnreserved c = true ∨ c ∈ safeWithPercent.toList) := by
    rintro c (hc | rfl | rfl)
    · refine ⟨?_, .inl hc⟩
      rintro rfl
      exact absurd hc (by decide)
    · exact ⟨by decide, .inr (by decide)⟩
    · exact ⟨by decide, .inr (by decide)⟩
  have hquery := (Python.escaped_urlencode
    (params.map fun p => (encodeUtf8 p.1, encodeUtf8 p.2.format))).mono
    (Q := fun c => isUnreserved c = true ∨ c ∈ safeWithPercent.toList) (by
      rintro c (hc | rfl | rfl | rfl)
      · exact .inl hc
      all_goals exact .inr (by decide))
  rw [prepareUrl]
  simp only [hparams, if_false]
  refine requoteUri_eq_self ?_
  rw [String.toList_append, String.toList_append]
  refine (Escaped.append ?_ ?_).append hquery
  · exact Python.escaped_of_forall fun c hc => hplain c (hurl c hc)
  · exact .keep (by decide) (.inr (by decide)) .nil

/-- The query of a url is what follows the first `?`. -/
theorem urlQuery_append {url query : String} (hurl : ∀ c ∈ url.toList, c ≠ '#' ∧ c ≠ '?')
    (hquery : ∀ c ∈ query.toList, c ≠ '#') : urlQuery (url ++ "?" ++ query) = query := by
  have hnofragment : ∀ c ∈ (url ++ "?" ++ query).toList, (c != '#') = true := by
    intro c hc
    rw [bne_iff_ne]
    rw [String.toList_append, String.toList_append, List.mem_append, List.mem_append] at hc
    rcases hc with (hc | hc) | hc
    · exact (hurl c hc).1
    · rw [List.mem_singleton.mp hc]
      decide
    · exact hquery c hc
  have hfirst : ∀ c ∈ url.toList, (c != '?') = true := fun c hc => bne_iff_ne.mpr (hurl c hc).2
  rw [urlQuery, List.takeWhile_eq_self_iff.mpr hnofragment, String.toList_append,
    String.toList_append, List.append_assoc, List.dropWhile_append_of_pos hfirst]
  exact String.ofList_toList

/-- Nothing happens to the query string after `_encode_params`. -/
theorem sentQuery_eq {url : String} (hurl : IsPlainUrl url) {params : List (String × Param)}
    (hparams : encodeParams params ≠ "") : sentQuery url params = encodeParams params := by
  have hescaped := Python.escaped_urlencode
    (params.map fun p => (encodeUtf8 p.1, encodeUtf8 p.2.format))
  have hreserved : ∀ c, isUnreserved c = true → c ≠ '#' ∧ c ≠ '?' := by
    intro c hc
    constructor <;> rintro rfl <;> exact absurd hc (by decide)
  have hplain : ∀ c ∈ url.toList, c ≠ '#' ∧ c ≠ '?' := by
    intro c hc
    rcases hurl c hc with h | rfl | rfl
    · exact hreserved c h
    all_goals decide
  have hquery : ∀ c ∈ (encodeParams params).toList, c ≠ '#' := by
    intro c hc
    rcases hescaped.mem hc with (h | rfl | rfl | rfl) | rfl | h
    · exact (hreserved c h).1
    · decide
    · decide
    · decide
    · decide
    · exact (hreserved c h).1
  rw [sentQuery, prepareUrl_eq hurl hparams, urlQuery_append hplain hquery]
  refine encodeInvalidChars_eq_self (hescaped.mono ?_)
  rintro c (hc | rfl | rfl | rfl)
  · exact mem_queryChars_of_isUnreserved hc
  all_goals decide

/-! ## The string that is signed -/

/-- Joining params as they are gives their form encoding exactly when there is
nothing to escape in any of them. -/
theorem queryString_eq_encodeParams_iff {params : List (String × Param)} :
    queryString params = encodeParams params ↔
      ∀ p ∈ params, (∀ c ∈ p.1.toList, isUnreserved c = true) ∧
        ∀ c ∈ p.2.format.toList, isUnreserved c = true := by
  have hpair : ∀ p : String × Param,
      (p.1 ++ "=" ++ p.2.format).toList.length ≤
        (Python.quotePlus (encodeUtf8 p.1) ++ "=" ++
          Python.quotePlus (encodeUtf8 p.2.format)).toList.length := by
    intro p
    have hkey := Python.length_le_length_quotePlus p.1
    have hvalue := Python.length_le_length_quotePlus p.2.format
    simp only [String.toList_append, List.length_append]
    omega
  rw [queryString, encodeParams, urlencode, ← String.toList_inj, String.toList_intercalate,
    String.toList_intercalate, List.map_map, List.map_map, List.map_map]
  refine (Python.intercalate_eq_iff fun p _ => hpair p).trans (forall₂_congr fun p _ => ?_)
  rw [← Python.quotePlus_eq_self_iff, ← Python.quotePlus_eq_self_iff]
  constructor
  · intro heq
    have hkey := Python.length_le_length_quotePlus p.1
    have hvalue := Python.length_le_length_quotePlus p.2.format
    have hlength := congrArg List.length heq
    simp only [String.toList_append, List.append_assoc, List.length_append] at heq hlength
    obtain ⟨hkeys, hrest⟩ := List.append_inj heq (by omega)
    exact ⟨(String.toList_inj.mp hkeys).symm,
      (String.toList_inj.mp (List.append_cancel_left hrest)).symm⟩
  · rintro ⟨hkey, hvalue⟩
    rw [hkey, hvalue]

/-! ## The requests of a run -/

section Requests

open Service (Event)
open Service.Program
open Python (Json PyError)

def asRequest : Event Ans → Option (String × List (String × Param))
  | ⟨.requestsGet url _ params, _⟩ => some (url, params)
  | _ => none

/-- The requests a run makes: their url and params. -/
def requests (es : List (Event Ans)) : List (String × List (String × Param)) :=
  es.filterMap asRequest

@[simp] theorem requests_append (es es' : List (Event Ans)) :
    requests (es ++ es') = requests es ++ requests es' :=
  List.filterMap_append

theorem requests_eq_nil {es : List (Event Ans)} (h : ∀ e ∈ es, ¬ e.call.IsRequest) :
    requests es = [] := by
  rw [requests, List.filterMap_eq_nil_iff]
  rintro ⟨c, a⟩ he
  cases c <;> first | rfl | exact absurd trivial (h _ he)

/-- A request is made, however it ends. -/
theorem requests_getJsonResponseGet {url : String} {headers : Dict}
    {params : List (String × Param)} {es : List (Event Ans)} {r : Except PyError Json}
    (h : Runs (getJsonResponseGet url headers params) es r) : requests es = [(url, params)] := by
  have hget : ∀ {es r}, Runs (requestsGet url headers params) es r →
      requests es = [(url, params)] := by
    intro es r hrun
    rcases runs_raising_iff.mp hrun with hcall | ⟨e, hcall, -⟩
    · obtain ⟨answer, rfl, -⟩ := runs_perform_iff.mp hcall
      rfl
    · obtain ⟨answer, rfl, he⟩ := runs_perform_iff.mp hcall
      cases he
  rcases runs_bind_iff.mp h with ⟨e, hrun, -⟩ | ⟨response, es₁, es₂, hrun, hreply, rfl⟩
  · exact hget hrun
  · have hnone : es₂ = [] := by
      split at hreply <;> exact (runs_ofResult_iff.mp hreply).1
    rw [hnone, List.append_nil, hget hrun]

/-- The params that are signed. -/
def snapshotParams (type : String) (timestamp : ℤ) : List (String × Param) :=
  [("type", .str type), ("timestamp", .int timestamp)]

/-- A run makes one request for the snapshot, signed at the time it read from
the clock. -/
theorem requests_getAccountSnapshot {hmacSha256 : String → String → String}
    {self : BinanceHelper} {type : String} {es : List (Event Ans)} {r : Except PyError Json}
    (h : Runs (getAccountSnapshot hmacSha256 self type) es r) :
    ∃ timestamp, requests es = [(self.baseEndpoint ++ "/sapi/v1/accountSnapshot",
      snapshotParams type timestamp ++ [("signature", .str (createSignature hmacSha256
        self.toHelperMethods (snapshotParams type timestamp)))])] := by
  have htime : Only (fun c => ¬ c.IsRequest) getTimestamp :=
    .bind (only_perform id) fun _ => only_pure _
  rcases runs_bind_iff.mp h with ⟨e, hrun, -⟩ | ⟨timestamp, es₁, es₂, hrun, hrest, rfl⟩
  · -- reading the clock does not fail
    rcases runs_bind_iff.mp hrun with ⟨e, hclock, -⟩ | ⟨now, es₁, es₂, -, hpure, -⟩
    · obtain ⟨answer, -, he⟩ := runs_perform_iff.mp hclock
      cases he
    · cases (runs_pure_iff.mp hpure).2
  · refine ⟨timestamp, ?_⟩
    rw [requests_append, requests_eq_nil (htime _ _ hrun), List.nil_append]
    rcases runs_bind_iff.mp hrest with ⟨e, hget, -⟩ | ⟨data, es₃, es₄, hget, hrows, rfl⟩
    · exact requests_getJsonResponseGet hget
    · have hquiet : Only (fun c => ¬ c.IsRequest) (do
          let balances ← ofResult (snapshotBalances data)
          addMetadata self.currentTimestamp balances) :=
        .bind (only_ofResult _) fun _ => (only_addMetadata _ _).mono fun _ hc => hc.1
      rw [requests_append, requests_getJsonResponseGet hget, requests_eq_nil (hquiet _ _ hrows)]
      rfl

end Requests

end BinanceElt
