import BinanceElt.Lambda.Services
import Mathlib.Data.Rat.Floor

/-!
# `utils.py`

The helper classes of the ingest function as programs over its services: the
set-up from the configuration and the secrets, the three requests to Binance and
the insert into a table.

A reply with a status other than 200 raises: `raise response.text` is a
`TypeError`, since a string is not an exception.  Any failure of `get_table`
leads to `create_table`.  The errors `insert_rows_json` returns are printed.

## Main results

* `runs_addMetadata`, `Stamped.get` — every row of a fetched list gets an id and
  a timestamp, and keeps its other fields.
* `runs_getTickers`, `runs_getAccountSnapshot` — a request that returns has
  fetched the rows it returns.
* `runs_insertJsonIntoTable` — how an insert ends, and what it leaves.
-/

namespace BinanceElt

open Python (Json PyError)
open Service (Event)
open Service.Program

/-- `x[key]` of a dict of strings. -/
def Dict.getItem (d : Dict) (key : String) : Except PyError String :=
  match d.lookup key with
  | some v => .ok v
  | none => .error (.keyError key)

/-- A value in an f-string. -/
def Param.format : Param → String
  | .str s => s
  | .int n => toString n

/-! ## `HelperMethods` -/

structure HelperMethods where
  awsBqSecretName : String
  awsRegion : String
  bqDataset : String
  apiKey : String
  secretKey : String

def getSecret (awsRegion secretName : String) : Program Dict :=
  getSecretValue awsRegion secretName

def HelperMethods.init : Program HelperMethods := do
  let config ← loadConfig
  let awsBqSecretName ← ofResult (Dict.getItem config "aws_bq_secret_name")
  let awsRegion ← ofResult (Dict.getItem config "aws_region")
  let bqDataset ← ofResult (Dict.getItem config "bq_dataset")
  let awsBinanceKeysSecretName ← ofResult (Dict.getItem config "aws_binance_keys_secret_name")
  let binanceSecret ← getSecret awsRegion awsBinanceKeysSecretName
  let apiKey ← ofResult (Dict.getItem binanceSecret "api_key")
  let secretKey ← ofResult (Dict.getItem binanceSecret "secret_key")
  return { awsBqSecretName, awsRegion, bqDataset, apiKey, secretKey }

/-- `int(time.time() * 1000)`: the milliseconds, cut off and not rounded. -/
def getTimestamp : Program ℤ := do
  let now ← time
  return ⌊now * 1000⌋

/-- The string that is signed: the params as they stand, joined with `=` and `&`
and not encoded. -/
def queryString (params : List (String × Param)) : String :=
  "&".intercalate (params.map fun p => p.1 ++ "=" ++ p.2.format)

/-- `hmacSha256 key message` stands for the hexadecimal digest of `hmac.new`, of
the UTF-8 bytes of the key and of the message. -/
def createSignature (hmacSha256 : String → String → String) (self : HelperMethods)
    (params : List (String × Param)) : String :=
  hmacSha256 self.secretKey (queryString params)

/-- The loop of `_add_metadata`. -/
def addMetadataTo (currentTimestamp : String) : List Json → Program (List Json)
  | [] => return []
  | el :: els => do
      let id ← uuid4
      let el ← ofResult (el.setItem "id" (.str id))
      let el ← ofResult (el.setItem "timestamp" (.str currentTimestamp))
      let els ← addMetadataTo currentTimestamp els
      return el :: els

def addMetadata (currentTimestamp : String) (data : Json) : Program Json := do
  let els ← ofResult data.elements
  let els ← addMetadataTo currentTimestamp els
  return data.withElements els

def getJsonResponseGet (url : String) (headers : Dict) (params : List (String × Param)) :
    Program Json := do
  let response ← requestsGet url headers params
  if response.statusCode ≠ 200 then ofResult (.error .typeError)
  else ofResult response.json

/-! ## `BqHelper` -/

structure BqHelper extends HelperMethods where
  bqProjectId : String

def getProjectId (self : HelperMethods) : Program String := do
  let credentialsInfo ← getSecret self.awsRegion self.awsBqSecretName
  ofResult (Dict.getItem credentialsInfo "project_id")

/-- The client keeps no state the code reads. -/
def getBqClient (self : HelperMethods) : Program Unit := do
  let credentialsInfo ← getSecret self.awsRegion self.awsBqSecretName
  serviceAccountCredentials credentialsInfo
  let project ← ofResult (Dict.getItem credentialsInfo "project_id")
  bigqueryClient credentialsInfo project

def BqHelper.init : Program BqHelper := do
  let self ← HelperMethods.init
  let bqProjectId ← getProjectId self
  getBqClient self
  return { self with bqProjectId }

def createTableIfNotExists (table : TableId) (schema : List SchemaField) : Program Unit :=
  (getTable table).tryCatch fun _ => do
    createTable table schema
    -- wait for the table to get created
    sleep 60

def BqHelper.tableId (self : BqHelper) (tableName : String) : TableId :=
  ⟨self.bqProjectId, self.bqDataset, tableName⟩

def insertJsonIntoTable (self : BqHelper) (tableName : String) (data : Json)
    (schema : List SchemaField) : Program Unit := do
  createTableIfNotExists (self.tableId tableName) schema
  -- the errors are printed, whether there are any or not
  let _ ← insertRowsJson (self.tableId tableName) data

/-! ## `BinanceHelper` -/

structure BinanceHelper extends BqHelper where
  baseEndpoint : String
  headers : Dict
  currentTimestamp : String

/-- The endpoint of every request. -/
def baseEndpoint : String := "https://api.binance.com"

def BinanceHelper.init : Program BinanceHelper := do
  let self ← BqHelper.init
  let currentTimestamp ← utcnow
  return { self with
    baseEndpoint := BinanceElt.baseEndpoint
    headers := [("Content-Type", "application/json;charset=utf-8"),
      ("X-MBX-APIKEY", self.apiKey)]
    currentTimestamp }

/-- The `symbols` parameter, when there are any. -/
def symbolsParams : Option (List String) → List (String × Param)
  | some (symbol :: symbols) => [("symbols", .str (Python.Json.dumpsStrings (symbol :: symbols)))]
  | _ => []

/-- The two requests for ticker data differ in their path. -/
def getTickers (path : String) (self : BinanceHelper) (symbols : Option (List String)) :
    Program Json := do
  let data ← getJsonResponseGet (self.baseEndpoint ++ path) self.headers (symbolsParams symbols)
  addMetadata self.currentTimestamp data

def getLatestTickerPrices (self : BinanceHelper) (symbols : Option (List String)) :
    Program Json :=
  getTickers "/api/v3/ticker/price" self symbols

def getTickerPriceChange24hrs (self : BinanceHelper) (symbols : Option (List String)) :
    Program Json :=
  getTickers "/api/v3/ticker/24hr" self symbols

/-- `data["snapshotVos"][-1].get("data").get("balances")`: the last snapshot of
the reply.  A reply without snapshots raises, and one without balances gives
`None`. -/
def snapshotBalances (data : Json) : Except PyError Json := do
  let vos ← data.getItem "snapshotVos"
  let latest ← vos.getLast
  let snapshot ← latest.get "data"
  snapshot.get "balances"

def getAccountSnapshot (hmacSha256 : String → String → String) (self : BinanceHelper)
    (type : String) : Program Json := do
  let timestamp ← getTimestamp
  let params := [("type", Param.str type), ("timestamp", .int timestamp)]
  let signature := createSignature hmacSha256 self.toHelperMethods params
  let data ← getJsonResponseGet (self.baseEndpoint ++ "/sapi/v1/accountSnapshot") self.headers
    (params ++ [("signature", .str signature)])
  let balances ← ofResult (snapshotBalances data)
  addMetadata self.currentTimestamp balances

/-! ## What a row becomes -/

/-- The row with an id and this timestamp. -/
def Stamped (currentTimestamp : String) (row stored : Json) : Prop :=
  ∃ id named, row.setItem "id" (.str id) = .ok named ∧
    named.setItem "timestamp" (.str currentTimestamp) = .ok stored

/-- The stored row differs from the fetched one in its id and its timestamp
only. -/
theorem Stamped.get {currentTimestamp : String} {row stored : Json}
    (h : Stamped currentTimestamp row stored) :
    (∃ id, stored.get "id" = .ok (.str id)) ∧
      stored.get "timestamp" = .ok (.str currentTimestamp) ∧
      ∀ key, key ≠ "id" → key ≠ "timestamp" → stored.get key = row.get key := by
  obtain ⟨id, named, hid, htimestamp⟩ := h
  refine ⟨⟨id, ?_⟩, Json.get_setItem_self htimestamp, fun key hkey hkey' => ?_⟩
  · rw [Json.get_setItem_of_ne htimestamp (by decide), Json.get_setItem_self hid]
  · rw [Json.get_setItem_of_ne htimestamp hkey', Json.get_setItem_of_ne hid hkey]

section Metadata

variable {currentTimestamp : String} {es : List (Event Ans)}

theorem runs_addMetadataTo {els els' : List Json}
    (h : Runs (addMetadataTo currentTimestamp els) es (.ok els')) :
    List.Forall₂ (Stamped currentTimestamp) els els' := by
  induction els generalizing es els' with
  | nil =>
      obtain ⟨-, hels⟩ := runs_pure_iff.mp h
      obtain rfl := Except.ok.inj hels
      exact .nil
  | cons el els ih =>
      obtain ⟨id, _, _, -, h, -⟩ := runs_bind_ok_iff.mp h
      obtain ⟨named, _, _, hid, h, -⟩ := runs_bind_ok_iff.mp h
      obtain ⟨stored, _, _, hts, h, -⟩ := runs_bind_ok_iff.mp h
      obtain ⟨rest, _, _, hrest, h, -⟩ := runs_bind_ok_iff.mp h
      obtain ⟨-, hels⟩ := runs_pure_iff.mp h
      obtain rfl := Except.ok.inj hels
      exact .cons ⟨id, named, (runs_ofResult_iff.mp hid).2.symm,
        (runs_ofResult_iff.mp hts).2.symm⟩ (ih hrest)

/-- Only a dict can be stamped, so that a value other than a list has nothing to
stamp. -/
theorem rows_withElements {data : Json} {els els' : List Json}
    (hels : data.elements = .ok els)
    (h : List.Forall₂ (Stamped currentTimestamp) els els') :
    List.Forall₂ (Stamped currentTimestamp) els (data.withElements els').rows := by
  have hstr : ∀ s stored, ¬ Stamped currentTimestamp (.str s) stored := by
    rintro s stored ⟨id, named, hid, -⟩
    cases hid
  cases data with
  | list items => exact h
  | dict items =>
      obtain rfl := Except.ok.inj hels
      cases items with
      | nil => exact .nil
      | cons item items =>
          cases h with
          | cons hitem _ => exact absurd hitem (hstr _ _)
  | str s =>
      obtain rfl := Except.ok.inj hels
      cases hs : s.toList with
      | nil => exact .nil
      | cons c cs =>
          rw [hs] at h
          cases h with
          | cons hitem _ => exact absurd hitem (hstr _ _)
  | _ => cases hels

/-- The rows of the result are those of the data, each with its metadata. -/
theorem runs_addMetadata {data data' : Json}
    (h : Runs (addMetadata currentTimestamp data) es (.ok data')) :
    ∃ els, data.elements = .ok els ∧ List.Forall₂ (Stamped currentTimestamp) els data'.rows := by
  obtain ⟨els, _, _, hels, h, -⟩ := runs_bind_ok_iff.mp h
  obtain ⟨els', _, _, hloop, h, -⟩ := runs_bind_ok_iff.mp h
  obtain ⟨-, hdata⟩ := runs_pure_iff.mp h
  obtain rfl := Except.ok.inj hdata
  have hels := (runs_ofResult_iff.mp hels).2.symm
  exact ⟨els, hels, rows_withElements hels (runs_addMetadataTo hloop)⟩

end Metadata

/-! ## Which calls are made -/

section Calls

/-- Neither a request to Binance nor an insert. -/
def Call.IsQuiet (c : Call) : Prop := ¬ c.IsRequest ∧ ¬ c.IsInsert

private theorem only_getSecret (awsRegion secretName : String) :
    Only Call.IsQuiet (getSecret awsRegion secretName) :=
  (only_perform ⟨id, id⟩).raising

private theorem only_helperMethods_init : Only Call.IsQuiet HelperMethods.init :=
  .bind (only_perform ⟨id, id⟩).raising fun _ => .bind (only_ofResult _) fun _ =>
    .bind (only_ofResult _) fun _ => .bind (only_ofResult _) fun _ =>
    .bind (only_ofResult _) fun _ => .bind (only_getSecret _ _) fun _ =>
    .bind (only_ofResult _) fun _ => .bind (only_ofResult _) fun _ => only_pure _

private theorem only_bqHelper_init : Only Call.IsQuiet BqHelper.init := by
  refine .bind only_helperMethods_init fun self => .bind ?_ fun _ => .bind ?_ fun _ => only_pure _
  · exact .bind (only_getSecret _ _) fun _ => only_ofResult _
  · exact .bind (only_getSecret _ _) fun _ => .bind (only_perform ⟨id, id⟩).raising fun _ =>
      .bind (only_ofResult _) fun _ => (only_perform ⟨id, id⟩).raising

/-- The set-up neither fetches nor inserts. -/
theorem only_binanceHelper_init : Only Call.IsQuiet BinanceHelper.init :=
  .bind only_bqHelper_init fun _ => .bind (only_perform ⟨id, id⟩) fun _ => only_pure _

private theorem only_addMetadataTo (currentTimestamp : String) (els : List Json) :
    Only Call.IsQuiet (addMetadataTo currentTimestamp els) := by
  induction els with
  | nil => exact only_pure _
  | cons el els ih =>
      exact .bind (only_perform ⟨id, id⟩) fun _ => .bind (only_ofResult _) fun _ =>
        .bind (only_ofResult _) fun _ => .bind ih fun _ => only_pure _

theorem only_addMetadata (currentTimestamp : String) (data : Json) :
    Only Call.IsQuiet (addMetadata currentTimestamp data) :=
  .bind (only_ofResult _) fun _ => .bind (only_addMetadataTo _ _) fun _ => only_pure _

theorem only_createTableIfNotExists (table : TableId) (schema : List SchemaField) :
    Only Call.IsQuiet (createTableIfNotExists table schema) :=
  (only_perform ⟨id, id⟩).raising.tryCatch fun _ =>
    .bind (only_perform ⟨id, id⟩).raising fun _ => only_perform ⟨id, id⟩

private theorem only_getJsonResponseGet (url : String) (headers : Dict)
    (params : List (String × Param)) :
    Only (fun c => ¬ c.IsInsert) (getJsonResponseGet url headers params) := by
  refine .bind (only_perform id).raising fun response => ?_
  split <;> exact only_ofResult _

/-- A request for ticker data inserts nothing. -/
theorem only_getTickers (path : String) (self : BinanceHelper)
    (symbols : Option (List String)) :
    Only (fun c => ¬ c.IsInsert) (getTickers path self symbols) :=
  .bind (only_getJsonResponseGet _ _ _) fun _ =>
    (only_addMetadata _ _).mono fun _ hc => hc.2

/-- A request for the account snapshot inserts nothing. -/
theorem only_getAccountSnapshot (hmacSha256 : String → String → String) (self : BinanceHelper)
    (type : String) :
    Only (fun c => ¬ c.IsInsert) (getAccountSnapshot hmacSha256 self type) :=
  .bind (.bind (only_perform id) fun _ => only_pure _) fun _ =>
    .bind (only_getJsonResponseGet _ _ _) fun _ => .bind (only_ofResult _) fun _ =>
    (only_addMetadata _ _).mono fun _ hc => hc.2

end Calls

/-! ## What a request fetches -/

section Requests

/-- The table a reply of Binance is for, and its rows.  Which table it is
depends on the url alone, and the rows are what the code iterates over; a reply
of another shape raises there. -/
def rowsFetched (url : String) (data : Json) : Option (String × Except PyError (List Json)) :=
  if url = baseEndpoint ++ "/api/v3/ticker/price" then some ("ticker_prices", data.elements)
  else if url = baseEndpoint ++ "/api/v3/ticker/24hr" then
    some ("ticker_price_change", data.elements)
  else if url = baseEndpoint ++ "/sapi/v1/accountSnapshot" then
    some ("account_snaphsot", snapshotBalances data >>= Json.elements)
  else none

/-- The rows an answer brings, with the table they are for. -/
def fetched : Event Ans → Option (String × Except PyError (List Json))
  | ⟨.requestsGet url _ _, .ok response⟩ =>
      if response.statusCode ≠ 200 then none
      else response.json.toOption.bind (rowsFetched url)
  | _ => none

/-- The rows a run has fetched. -/
def fetches (es : List (Event Ans)) : List (String × Except PyError (List Json)) :=
  es.filterMap fetched

@[simp] theorem fetches_append (es es' : List (Event Ans)) :
    fetches (es ++ es') = fetches es ++ fetches es' :=
  List.filterMap_append

theorem fetches_eq_nil {es : List (Event Ans)} (h : ∀ e ∈ es, ¬ e.call.IsRequest) :
    fetches es = [] := by
  rw [fetches, List.filterMap_eq_nil_iff]
  rintro ⟨c, a⟩ he
  cases c <;> first | rfl | exact absurd trivial (h _ he)

variable {es : List (Event Ans)} {self : BinanceHelper} {data : Json}

theorem runs_getJsonResponseGet {url : String} {headers : Dict}
    {params : List (String × Param)}
    (h : Runs (getJsonResponseGet url headers params) es (.ok data)) :
    fetches es = (rowsFetched url data).toList := by
  obtain ⟨response, es₁, es₂, hget, hreply, rfl⟩ := runs_bind_ok_iff.mp h
  rcases runs_raising_iff.mp hget with hget | ⟨e, -, he⟩
  · obtain ⟨answer, rfl, hanswer⟩ := runs_perform_iff.mp hget
    obtain rfl := Except.ok.inj hanswer
    by_cases hstatus : response.statusCode = 200
    · simp only [hstatus, ne_eq, not_true_eq_false, if_false, runs_ofResult_iff] at hreply
      obtain ⟨rfl, hjson⟩ := hreply
      cases hrows : rowsFetched url data <;>
        simp [fetches, fetched, hstatus, ← hjson, Except.toOption, hrows]
    · simp only [hstatus, ne_eq, not_false_eq_true, if_true, runs_ofResult_iff] at hreply
      cases hreply.2
  · cases he

/-- A request for ticker data that returns has fetched what it returns. -/
theorem runs_getTickers {path name : String} {symbols : Option (List String)}
    (hurl : ∀ data, rowsFetched (self.baseEndpoint ++ path) data = some (name, data.elements))
    (h : Runs (getTickers path self symbols) es (.ok data)) :
    ∃ rows, fetches es = [(name, .ok rows)] ∧
      List.Forall₂ (Stamped self.currentTimestamp) rows data.rows := by
  obtain ⟨reply, es₁, es₂, hreply, hmetadata, rfl⟩ := runs_bind_ok_iff.mp h
  obtain ⟨rows, hrows, hstamped⟩ := runs_addMetadata hmetadata
  refine ⟨rows, ?_, hstamped⟩
  rw [fetches_append, runs_getJsonResponseGet hreply, hurl, hrows,
    fetches_eq_nil fun e he => (only_addMetadata _ _ _ _ hmetadata e he).1]
  rfl

/-- A request for the account snapshot that returns has fetched what it
returns. -/
theorem runs_getAccountSnapshot {hmacSha256 : String → String → String} {type : String}
    (hself : self.baseEndpoint = baseEndpoint)
    (h : Runs (getAccountSnapshot hmacSha256 self type) es (.ok data)) :
    ∃ rows, fetches es = [("account_snaphsot", .ok rows)] ∧
      List.Forall₂ (Stamped self.currentTimestamp) rows data.rows := by
  obtain ⟨now, es₁, _, hnow, h₁, rfl⟩ := runs_bind_ok_iff.mp h
  obtain ⟨reply, es₂, _, hreply, h₂, rfl⟩ := runs_bind_ok_iff.mp h₁
  obtain ⟨balances, es₃, es₄, hbalances, hmetadata, rfl⟩ := runs_bind_ok_iff.mp h₂
  obtain ⟨rfl, hpath⟩ := runs_ofResult_iff.mp hbalances
  obtain ⟨rows, hrows, hstamped⟩ := runs_addMetadata hmetadata
  refine ⟨rows, ?_, hstamped⟩
  have htime : fetches es₁ = [] := fetches_eq_nil fun e he => by
    have honly : Only (fun c => ¬ c.IsRequest) getTimestamp :=
      .bind (only_perform id) fun _ => only_pure _
    exact honly _ _ hnow e he
  have hurl : rowsFetched (baseEndpoint ++ "/sapi/v1/accountSnapshot") reply =
      some ("account_snaphsot", .ok rows) := by
    rw [rowsFetched, if_neg (by decide), if_neg (by decide), if_pos rfl, ← hpath]
    exact congrArg (fun r => some ("account_snaphsot", r)) hrows
  rw [fetches_append, fetches_append, fetches_append, htime, runs_getJsonResponseGet hreply,
    hself, hurl, fetches_eq_nil fun e he => (only_addMetadata _ _ _ _ hmetadata e he).1]
  rfl

end Requests

/-! ## What an insert leaves -/

theorem runs_insertRowsJson {table : TableId} {data : Json} {es : List (Event Ans)}
    {r : Except PyError (List Json)} (h : Runs (insertRowsJson table data) es r) :
    ∃ outcome : InsertOutcome, es = [⟨.insertRowsJson table data, outcome⟩] ∧
      r = outcome.result := by
  rcases runs_bind_iff.mp h with ⟨e, hrun, -⟩ | ⟨outcome, es₁, es₂, hrun, hrest, rfl⟩
  · obtain ⟨_, -, he⟩ := runs_perform_iff.mp hrun
    cases he
  · obtain ⟨answer, rfl, hanswer⟩ := runs_perform_iff.mp hrun
    obtain rfl := Except.ok.inj hanswer
    obtain ⟨rfl, rfl⟩ := runs_ofResult_iff.mp hrest
    exact ⟨outcome, rfl, rfl⟩

/-- The caller ignores the errors that are returned. -/
private theorem runs_ignore_insertRowsJson {table : TableId} {data : Json}
    {es : List (Event Ans)} {r : Except PyError Unit}
    (h : Runs (insertRowsJson table data >>= fun _ => pure ()) es r) :
    ∃ outcome : InsertOutcome, es = [⟨.insertRowsJson table data, outcome⟩] ∧
      r = outcome.result.map fun _ => () := by
  rcases runs_bind_iff.mp h with ⟨e, hrun, rfl⟩ | ⟨errors, es₁, es₂, hrun, hrest, rfl⟩
  · obtain ⟨outcome, hes, hresult⟩ := runs_insertRowsJson hrun
    exact ⟨outcome, hes, by rw [← hresult]; rfl⟩
  · obtain ⟨outcome, rfl, hresult⟩ := runs_insertRowsJson hrun
    obtain ⟨rfl, rfl⟩ := runs_pure_iff.mp hrest
    exact ⟨outcome, rfl, by rw [← hresult]; rfl⟩

/-- An insert fails before it is made, or ends as `insert_rows_json` does. -/
theorem runs_insertJsonIntoTable {self : BqHelper} {tableName : String} {data : Json}
    {schema : List SchemaField} {es : List (Event Ans)} {r : Except PyError Unit}
    (h : Runs (insertJsonIntoTable self tableName data schema) es r) :
    fetches es = [] ∧
      ((inserts es = [] ∧ ∃ e, r = .error e) ∨
        ∃ outcome, inserts es = [⟨self.tableId tableName, data, outcome⟩] ∧
          r = outcome.result.map fun _ => ()) := by
  have hcreate := only_createTableIfNotExists (self.tableId tableName) schema
  have hnone : ∀ {es r}, Runs (createTableIfNotExists (self.tableId tableName) schema) es r →
      fetches es = [] ∧ inserts es = [] := fun hrun =>
    ⟨fetches_eq_nil fun e he => (hcreate _ _ hrun e he).1,
      inserts_eq_nil fun e he => (hcreate _ _ hrun e he).2⟩
  rcases runs_bind_iff.mp h with ⟨e, hrun, rfl⟩ | ⟨_, es₁, es₂, hrun, hinsert, rfl⟩
  · exact ⟨(hnone hrun).1, .inl ⟨(hnone hrun).2, e, rfl⟩⟩
  · obtain ⟨outcome, rfl, rfl⟩ := runs_ignore_insertRowsJson hinsert
    have hcall : fetches [⟨.insertRowsJson (self.tableId tableName) data, outcome⟩] = [] := rfl
    refine ⟨by rw [fetches_append, (hnone hrun).1, hcall]; rfl, .inr ⟨outcome, ?_, rfl⟩⟩
    rw [inserts_append, (hnone hrun).2]
    rfl

end BinanceElt
