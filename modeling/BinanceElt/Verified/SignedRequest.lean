import BinanceElt.Lambda.Main
import BinanceElt.Lambda.Requests
import Mathlib.Data.Bool.AllAny
import Mathlib.Data.List.DropRight

/-!
# Signed requests

`_create_signature` signs the `key=value` pairs of the params as they are, and
`requests` sends them form-encoded.  The two strings agree when there is nothing to
escape, as in the one type that is asked for; a space, a reserved or a non-ASCII
character in the type makes the server compute another signature.

## Main results

* `signedAsSent_iff` — what is signed for a snapshot is what is sent if and only if
  every character of the type is unreserved.
* `not_signedAsSent_space` — a type with a space is signed as it is and sent with `+`.
-/

namespace BinanceElt

open Python (isUnreserved)
open Service (Event)
open Service.Program

/-- `query.rpartition("&")[0]`: a query string without its last pair. -/
def withoutLastPair (query : String) : String :=
  String.ofList (query.toList.rdropWhile (· != '&')).dropLast

/-- Params with their signature. -/
def signed (hmacSha256 : String → String → String) (self : BinanceHelper)
    (params : List (String × Param)) : List (String × Param) :=
  params ++ [("signature", .str (createSignature hmacSha256 self.toHelperMethods params))]

/-- The server computes the HMAC over the query string it received, without the
last pair, and finds it in that pair.  This is how Binance checks a signed
request. -/
def Accepted (hmacSha256 : String → String → String) (secretKey query : String) : Prop :=
  query = withoutLastPair query ++ "&signature=" ++ hmacSha256 secretKey (withoutLastPair query)

/-- A run makes one request, of params and their signature.  The bytes that were
signed are those of the query string that is sent, without the signature, and
the server accepts it. -/
def SignedAsSent (hmacSha256 : String → String → String) (self : BinanceHelper)
    (es : List (Event Ans)) : Prop :=
  ∃ url params, requests es = [(url, signed hmacSha256 self params)] ∧
    (queryString params).toUTF8 =
      (withoutLastPair (sentQuery url (signed hmacSha256 self params))).toUTF8 ∧
    Accepted hmacSha256 self.secretKey (sentQuery url (signed hmacSha256 self params))

/-- `hexdigest` returns lower-case hexadecimal digits. -/
def IsHexDigest (hmacSha256 : String → String → String) : Prop :=
  ∀ key message, ∀ c ∈ (hmacSha256 key message).toList, c.isDigit = true ∨ 'a' ≤ c ∧ c ≤ 'f'

/-! ## The query string and its signature -/

section Query

theorem withoutLastPair_append {query last : String} (h : '&' ∉ last.toList) :
    withoutLastPair (query ++ "&" ++ last) = query := by
  have hlast : ∀ c ∈ last.toList.reverse, (c != '&') = true := by
    intro c hc
    rw [bne_iff_ne]
    rintro rfl
    exact h (List.mem_reverse.mp hc)
  have htoList : (query ++ "&" ++ last).toList = query.toList ++ ['&'] ++ last.toList := by
    rw [String.toList_append, String.toList_append]
    rfl
  rw [withoutLastPair, htoList, List.rdropWhile, List.reverse_append,
    List.dropWhile_append_of_pos hlast, List.reverse_append, List.reverse_singleton,
    List.singleton_append, List.dropWhile_cons_of_neg (by decide), List.reverse_cons,
    List.reverse_reverse, List.dropLast_concat, String.ofList_toList]

/-- The signature is sent as the last pair. -/
theorem encodeParams_concat {params : List (String × Param)} (h : params ≠ [])
    (p : String × Param) :
    encodeParams (params ++ [p]) = encodeParams params ++ "&" ++ encodeParams [p] := by
  rw [encodeParams, encodeParams, encodeParams, Python.urlencode, Python.urlencode,
    Python.urlencode, List.map_append, List.map_append,
    String.intercalate_append_of_ne_nil (by simpa using h) (by simp)]

theorem ampersand_notMem_encodeParams (p : String × Param) : '&' ∉ (encodeParams [p]).toList := by
  rw [encodeParams, Python.urlencode, List.map_singleton, List.map_singleton,
    String.intercalate_singleton, String.toList_append, String.toList_append]
  intro hmem
  rcases List.mem_append.mp hmem with hmem | hmem
  · rcases List.mem_append.mp hmem with hmem | hmem
    · exact Python.separator_notMem_quotePlus (.inl rfl) _ hmem
    · exact absurd hmem (by decide)
  · exact Python.separator_notMem_quotePlus (.inl rfl) _ hmem

theorem encodeParams_concat_ne_empty {params : List (String × Param)} (h : params ≠ [])
    (p : String × Param) : encodeParams (params ++ [p]) ≠ "" := by
  rw [encodeParams_concat h]
  simp

/-- The keys of the params have nothing to escape. -/
private theorem isUnreserved_key {key : String} (h : key ∈ ["type", "timestamp", "signature"]) :
    ∀ c ∈ key.toList, isUnreserved c = true := by
  simp only [List.mem_cons, List.not_mem_nil, or_false] at h
  rcases h with rfl | rfl | rfl <;> exact List.all_iff_forall_prop.mp (by decide)

/-- Numbers have nothing to escape. -/
theorem isUnreserved_format_int (n : ℤ) :
    ∀ c ∈ (Param.format (.int n)).toList, isUnreserved c = true := by
  have hnat : ∀ m : ℕ, ∀ c ∈ (toString m).toList, isUnreserved c = true := by
    intro m c hc
    rw [Nat.toString_eq_repr, Nat.toList_repr] at hc
    have hdigit := Nat.isDigit_of_mem_toDigits (by decide) (by decide) hc
    simp [isUnreserved, Char.isAlphanum, hdigit]
  cases n with
  | ofNat m => exact hnat m
  | negSucc m =>
      show ∀ c ∈ ("-" ++ toString (m + 1)).toList, isUnreserved c = true
      intro c hc
      rw [String.toList_append, List.mem_append] at hc
      rcases hc with hc | hc
      · rw [List.mem_singleton.mp hc]
        decide
      · exact hnat _ c hc

variable {hmacSha256 : String → String → String}

theorem isUnreserved_of_isHexDigest (h : IsHexDigest hmacSha256) (key message : String) :
    ∀ c ∈ (hmacSha256 key message).toList, isUnreserved c = true := by
  intro c hc
  rcases h key message c hc with hdigit | ⟨ha, hf⟩
  · simp [isUnreserved, Char.isAlphanum, hdigit]
  · have hz : c ≤ 'z' := Char.le_trans hf (by decide)
    have halpha : c.isAlpha = true := Python.isAlpha_iff.mpr (.inr ⟨ha, hz⟩)
    simp [isUnreserved, Char.isAlphanum, halpha]

/-- A signature is sent as it is. -/
theorem encodeParams_signature (h : IsHexDigest hmacSha256) (key message : String) :
    encodeParams [("signature", .str (hmacSha256 key message))] =
      "signature=" ++ hmacSha256 key message := by
  rw [← queryString_eq_encodeParams_iff.mpr, queryString]
  · rfl
  · intro p hp
    rw [List.mem_singleton.mp hp]
    exact ⟨isUnreserved_key (by simp), isUnreserved_of_isHexDigest h key message⟩

/-- The params of a snapshot are signed as they are sent when the type has
nothing to escape. -/
theorem queryString_snapshotParams_iff (type : String) (timestamp : ℤ) :
    queryString (snapshotParams type timestamp) = encodeParams (snapshotParams type timestamp) ↔
      ∀ c ∈ type.toList, isUnreserved c = true := by
  rw [queryString_eq_encodeParams_iff]
  constructor
  · intro h
    exact (h _ List.mem_cons_self).2
  · intro h p hp
    rcases List.mem_pair.mp hp with rfl | rfl
    · exact ⟨isUnreserved_key (by simp), h⟩
    · exact ⟨isUnreserved_key (by simp), isUnreserved_format_int timestamp⟩

end Query

/-! ## A signed snapshot request -/

section Signed

variable {hmacSha256 : String → String → String} {self : BinanceHelper}

/-- The query string of signed params. -/
theorem sentQuery_signed (hhex : IsHexDigest hmacSha256) {url : String} (hurl : IsPlainUrl url)
    {params : List (String × Param)} (hne : params ≠ []) :
    sentQuery url (signed hmacSha256 self params) =
      encodeParams params ++ "&" ++ ("signature=" ++
        hmacSha256 self.secretKey (queryString params)) := by
  rw [signed, sentQuery_eq hurl (encodeParams_concat_ne_empty hne _), encodeParams_concat hne,
    createSignature, encodeParams_signature hhex]

/-- Without the signature it is the form encoding of the params. -/
theorem withoutLastPair_sentQuery (hhex : IsHexDigest hmacSha256) {url : String}
    (hurl : IsPlainUrl url) {params : List (String × Param)} (hne : params ≠ []) :
    withoutLastPair (sentQuery url (signed hmacSha256 self params)) = encodeParams params := by
  rw [sentQuery_signed hhex hurl hne, ← encodeParams_signature hhex,
    withoutLastPair_append (ampersand_notMem_encodeParams _)]

/-- The server accepts when the HMAC of the form encoding is that of the joined
params.  It computes the HMAC of the bytes it received, which are encoded, and
compares it with that of the text that was signed, which was not. -/
theorem accepted_iff (hhex : IsHexDigest hmacSha256) {url : String} (hurl : IsPlainUrl url)
    {params : List (String × Param)} (hne : params ≠ []) :
    Accepted hmacSha256 self.secretKey (sentQuery url (signed hmacSha256 self params)) ↔
      hmacSha256 self.secretKey (queryString params) =
        hmacSha256 self.secretKey (encodeParams params) := by
  have hkey : "&signature=" = "&" ++ "signature=" := by decide
  rw [Accepted, withoutLastPair_sentQuery hhex hurl hne, sentQuery_signed hhex hurl hne, hkey,
    ← String.toList_inj]
  simp only [String.toList_append, List.append_assoc, List.append_cancel_left_eq,
    String.toList_inj]

/-- A run that requests a snapshot signs what it sends exactly when joining the
params as they are is their form encoding. -/
theorem signedAsSent_iff_queryString (hhex : IsHexDigest hmacSha256) {url : String}
    (hurl : IsPlainUrl url) {params : List (String × Param)} (hne : params ≠ [])
    {es : List (Event Ans)} (hrequests : requests es = [(url, signed hmacSha256 self params)]) :
    SignedAsSent hmacSha256 self es ↔ queryString params = encodeParams params := by
  constructor
  · rintro ⟨url', params', hrequests', hbytes, -⟩
    -- there is one request
    rw [hrequests, List.cons.injEq, Prod.mk.injEq] at hrequests'
    obtain ⟨⟨rfl, hsame⟩, -⟩ := hrequests'
    obtain ⟨rfl, -⟩ := List.append_inj' hsame rfl
    rw [withoutLastPair_sentQuery hhex hurl hne, String.toUTF8_eq_toByteArray,
      String.toUTF8_eq_toByteArray, String.toByteArray_inj] at hbytes
    exact hbytes
  · intro hjoined
    refine ⟨url, params, hrequests, ?_, (accepted_iff hhex hurl hne).mpr (by rw [hjoined])⟩
    rw [withoutLastPair_sentQuery hhex hurl hne, hjoined]

theorem isPlainUrl_accountSnapshot :
    IsPlainUrl (baseEndpoint ++ "/sapi/v1/accountSnapshot") :=
  List.all_iff_forall_prop.mp (by decide +kernel)

/-- What is signed for a snapshot is what is sent, and is accepted, if and only
if every character of the type is unreserved, whatever the time.

The code signs `type=…&timestamp=…` as it stands, and sends what `urlencode`
makes of it.  `hhex` says that the signature itself needs no escape, and `hself`
that the url is the one of the code.  The function asks for `SPOT`, which is
unreserved. -/
theorem signedAsSent_iff (hhex : IsHexDigest hmacSha256)
    (hself : self.baseEndpoint = baseEndpoint) {type : String} {es : List (Event Ans)}
    {r : Except Python.PyError Python.Json}
    (h : Runs (getAccountSnapshot hmacSha256 self type) es r) :
    SignedAsSent hmacSha256 self es ↔ ∀ c ∈ type.toList, isUnreserved c = true := by
  obtain ⟨timestamp, hrequests⟩ := requests_getAccountSnapshot h
  have hurl : IsPlainUrl (self.baseEndpoint ++ "/sapi/v1/accountSnapshot") := by
    rw [hself]
    exact isPlainUrl_accountSnapshot
  rw [← queryString_snapshotParams_iff type timestamp]
  exact signedAsSent_iff_queryString hhex hurl (List.cons_ne_nil _ _) hrequests

end Signed

/-! ## A type with a space -/

/-- HMAC-SHA256 under the key `secret` of the messages signed below and of the
query string that is received. -/
def sampleHmac (_key message : String) : String :=
  if message = "type=SPOT&timestamp=1714564800000" then
    "e3bb56f804f15c93c331d0f487ceecb874b79e4760ea201d57505779049b6acc"
  else if message = "type=A B&timestamp=1714564800000" then
    "723e55e760db5057708965ff6714762b5e58232605d9e44ff929edf25b749db8"
  else if message = "type=A+B&timestamp=1714564800000" then
    "6a1dba1a2ef965406d8afc7cdce442958ba74f91d5cbaff021157114d0619d45"
  else ""

private theorem isHexDigest_sampleHmac : IsHexDigest sampleHmac := by
  intro key message
  unfold sampleHmac
  split_ifs <;> exact List.all_iff_forall_prop.mp (by decide +kernel)

def snapshotHelper : BinanceHelper where
  awsBqSecretName := "google_service_account"
  awsRegion := "eu-central-1"
  bqDataset := "BinanceCryptoDataset"
  apiKey := "key"
  secretKey := "secret"
  bqProjectId := "binance"
  baseEndpoint := baseEndpoint
  headers := []
  currentTimestamp := "2024-05-01T12:00:00"

/-- A request for the snapshot of this type that is answered with nothing. -/
def snapshotRequest (type : String) : List (Event Ans) × Except Python.PyError Python.Json :=
  (getAccountSnapshot sampleHmac snapshotHelper type).run
    (servicesUp (fun _ => okReply .null) fun _ => .returned []) []

theorem signedAsSent_iff_spot :
    SignedAsSent sampleHmac snapshotHelper (snapshotRequest "SPOT").1 ↔
      ∀ c ∈ "SPOT".toList, isUnreserved c = true :=
  signedAsSent_iff isHexDigest_sampleHmac rfl (runs_run _ _ _)

/-- The type `A B` is signed as it is, sent as `A+B`, and the server computes
another signature. -/
theorem not_signedAsSent_space :
    Runs (getAccountSnapshot sampleHmac snapshotHelper "A B") (snapshotRequest "A B").1
        (snapshotRequest "A B").2 ∧
      ¬ SignedAsSent sampleHmac snapshotHelper (snapshotRequest "A B").1 ∧
      ∀ q ∈ requests (snapshotRequest "A B").1,
        ¬ Accepted sampleHmac "secret" (sentQuery q.1 q.2) := by
  have hurl := isPlainUrl_accountSnapshot
  have hne : snapshotParams "A B" 1714564800000 ≠ [] := List.cons_ne_nil _ _
  have htime : ⌊(1714564800 : ℚ) * 1000⌋ = 1714564800000 := by norm_num
  have hrequests : requests (snapshotRequest "A B").1 =
      [(baseEndpoint ++ "/sapi/v1/accountSnapshot",
        signed sampleHmac snapshotHelper (snapshotParams "A B" 1714564800000))] := by
    rw [← htime]
    rfl
  have hjoined : queryString (snapshotParams "A B" 1714564800000) =
      "type=A B&timestamp=1714564800000" := by decide
  have hencoded : encodeParams (snapshotParams "A B" 1714564800000) =
      "type=A+B&timestamp=1714564800000" := by decide
  refine ⟨runs_run _ _ _, ?_, ?_⟩
  · rw [signedAsSent_iff_queryString isHexDigest_sampleHmac hurl hne hrequests, hjoined, hencoded]
    decide
  · rw [hrequests]
    intro q hq
    rw [List.mem_singleton.mp hq]
    refine mt (accepted_iff isHexDigest_sampleHmac hurl hne).mp ?_
    rw [hjoined, hencoded]
    decide

end BinanceElt
