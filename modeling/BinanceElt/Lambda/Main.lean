import BinanceElt.Lambda.Schemas
import BinanceElt.Lambda.Utils

/-!
# `main.py`

The handler: an `every_30_min` event ingests the current prices, a `2_times_a_day`
event the price changes and then the account snapshot, and any other event is an
error.  The helper is set up before the event is looked at.

## Main results

* `runs_lambdaHandler_ok` — an invocation that returns has inserted, table by
  table, what it has fetched.
* `runs_lambdaHandler_error` — the inserts of a `2_times_a_day` attempt that raised.
-/

namespace BinanceElt

open Python (Json PyError)
open Service (Event)
open Service.Program

def symbols : List String :=
  ["BTCUSDT", "ETHUSDT", "BNBUSDT", "SOLUSDT", "ADAUSDT", "XRPUSDT", "DOTUSDT", "DOGEUSDT",
    "LTCUSDT", "LINKUSDT"]

/-- The branch of an `every_30_min` event. -/
def every30Min (bh : BinanceHelper) : Program Unit := do
  let prices ← getLatestTickerPrices bh (some symbols)
  insertJsonIntoTable bh.toBqHelper "ticker_prices" prices tickerPricesSchema

/-- The branch of a `2_times_a_day` event. -/
def twiceADay (hmacSha256 : String → String → String) (bh : BinanceHelper) : Program Unit := do
  let volume ← getTickerPriceChange24hrs bh (some symbols)
  insertJsonIntoTable bh.toBqHelper "ticker_price_change" volume tickerPriceChangeSchema
  let snapshot ← getAccountSnapshot hmacSha256 bh "SPOT"
  insertJsonIntoTable bh.toBqHelper "account_snaphsot" snapshot accountSnaphsoteSchema

/-- The branches on `event.get("schedule")`.  A schedule that is neither of the
two, a missing one included, raises `ValueError` after the helper has been set
up. -/
def onSchedule (hmacSha256 : String → String → String) (bh : BinanceHelper) :
    Json → Program Unit
  | .str "every_30_min" => every30Min bh
  | .str "2_times_a_day" => twiceADay hmacSha256 bh
  | schedule => ofResult (.error (.valueError "Invalid event schedule: " schedule))

def lambdaHandler (hmacSha256 : String → String → String) (event : Json) : Program Unit := do
  let bh ← BinanceHelper.init
  let schedule ← ofResult (event.get "schedule")
  onSchedule hmacSha256 bh schedule

/-! ## The helper of an invocation -/

/-- The helper an invocation with these calls works with: that of an initial
part of the calls, which ran `BinanceHelper()`.  An invocation that fails before
has none. -/
def SetUp (es : List (Event Ans)) (bh : BinanceHelper) : Prop :=
  ∃ es₁, es₁ <+: es ∧ Runs BinanceHelper.init es₁ (.ok bh)

/-- There is one helper only. -/
theorem SetUp.unique {es : List (Event Ans)} {bh bh' : BinanceHelper} (h : SetUp es bh)
    (h' : SetUp es bh') : bh = bh' := by
  obtain ⟨es₁, hes₁, hrun₁⟩ := h
  obtain ⟨es₂, hes₂, hrun₂⟩ := h'
  exact Except.ok.inj (hrun₁.unique hrun₂ hes₁ hes₂).2

private theorem runs_binanceHelper_init {es : List (Event Ans)} {bh : BinanceHelper}
    (h : Runs BinanceHelper.init es (.ok bh)) : bh.baseEndpoint = baseEndpoint := by
  obtain ⟨_, _, _, -, hrest, -⟩ := runs_bind_ok_iff.mp h
  obtain ⟨_, _, _, -, hpure, -⟩ := runs_bind_ok_iff.mp hrest
  rw [Except.ok.inj (runs_pure_iff.mp hpure).2]

/-! ## Fetching and inserting -/

/-- Rows fetched for a table have been handed to an insert into it, each with
its metadata, and the insert returned. -/
structure Delivered (bh : BinanceHelper) (f : String × Except PyError (List Json)) (i : Insert) :
    Prop where
  table : i.table = bh.tableId f.1
  rows : ∃ rows, f.2 = .ok rows ∧
    List.Forall₂ (Stamped bh.currentTimestamp) rows i.data.rows
  returned : ∃ errors, i.outcome = .returned errors

/-- A request and the insert of what it returns. -/
def ingest (bh : BinanceHelper) (fetch : Program Json) (tableName : String)
    (schema : List SchemaField) : Program Unit := do
  let data ← fetch
  insertJsonIntoTable bh.toBqHelper tableName data schema

theorem twiceADay_eq (hmacSha256 : String → String → String) (bh : BinanceHelper) :
    twiceADay hmacSha256 bh =
      ingest bh (getTickerPriceChange24hrs bh (some symbols)) "ticker_price_change"
        tickerPriceChangeSchema >>= fun _ =>
      ingest bh (getAccountSnapshot hmacSha256 bh "SPOT") "account_snaphsot"
        accountSnaphsoteSchema :=
  (Service.Program.bind_assoc _ _ _).symm

section Ingest

variable {bh : BinanceHelper} {fetch : Program Json} {tableName : String}
  {schema : List SchemaField} {es : List (Event Ans)}

/-- A request and its insert that return deliver what was fetched. -/
theorem runs_ingest_ok (hquiet : Only (fun c => ¬ c.IsInsert) fetch)
    (hfetch : ∀ {es data}, Runs fetch es (.ok data) →
      ∃ rows, fetches es = [(tableName, .ok rows)] ∧
        List.Forall₂ (Stamped bh.currentTimestamp) rows data.rows)
    (h : Runs (ingest bh fetch tableName schema) es (.ok ())) :
    ∃ rows i, fetches es = [(tableName, .ok rows)] ∧ inserts es = [i] ∧
      Delivered bh (tableName, .ok rows) i := by
  obtain ⟨data, es₁, es₂, hrun, hinsert, rfl⟩ := runs_bind_ok_iff.mp h
  obtain ⟨rows, hrows, hstamped⟩ := hfetch hrun
  obtain ⟨hnone, ⟨-, e, he⟩ | ⟨outcome, hinserts, hresult⟩⟩ := runs_insertJsonIntoTable hinsert
  · cases he
  · refine ⟨rows, ⟨bh.tableId tableName, data, outcome⟩, ?_, ?_, rfl, ⟨rows, rfl, hstamped⟩, ?_⟩
    · rw [fetches_append, hrows, hnone]
      rfl
    · rw [inserts_append, inserts_eq_nil (hquiet _ _ hrun), hinserts]
      rfl
    · cases outcome with
      | returned errors => exact ⟨errors, rfl⟩
      | raised e effect => cases hresult

/-- A request and its insert end before the insert, or as the insert does. -/
theorem inserts_ingest (hquiet : Only (fun c => ¬ c.IsInsert) fetch) {r : Except PyError Unit}
    (h : Runs (ingest bh fetch tableName schema) es r) :
    (inserts es = [] ∧ ∃ e, r = .error e) ∨
      ∃ data outcome, inserts es = [⟨bh.tableId tableName, data, outcome⟩] ∧
        r = outcome.result.map fun _ => () := by
  rcases runs_bind_iff.mp h with ⟨e, hrun, rfl⟩ | ⟨data, es₁, es₂, hrun, hinsert, rfl⟩
  · exact .inl ⟨inserts_eq_nil (hquiet _ _ hrun), e, rfl⟩
  · rw [inserts_append, inserts_eq_nil (hquiet _ _ hrun), List.nil_append]
    obtain ⟨-, hinserts⟩ := runs_insertJsonIntoTable hinsert
    exact hinserts.imp_right fun ⟨outcome, hinserts, hr⟩ => ⟨data, outcome, hinserts, hr⟩

end Ingest

/-! ## The branches -/

section Branches

variable {hmacSha256 : String → String → String} {bh : BinanceHelper} {es : List (Event Ans)}

/-- The tables a schedule is for, in the order in which its branch fills
them. -/
def targetTables : Json → List String
  | .str "every_30_min" => ["ticker_prices"]
  | .str "2_times_a_day" => ["ticker_price_change", "account_snaphsot"]
  | _ => []

theorem runs_every30Min_ok (hbh : bh.baseEndpoint = baseEndpoint)
    (h : Runs (every30Min bh) es (.ok ())) :
    (fetches es).map Prod.fst = ["ticker_prices"] ∧
      List.Forall₂ (Delivered bh) (fetches es) (inserts es) := by
  have hurl : ∀ data, rowsFetched (bh.baseEndpoint ++ "/api/v3/ticker/price") data =
      some ("ticker_prices", data.elements) := fun data => by rw [hbh]; rfl
  obtain ⟨rows, i, hfetches, hinserts, hdelivered⟩ :=
    runs_ingest_ok (only_getTickers _ _ _) (runs_getTickers hurl) h
  rw [hfetches, hinserts]
  exact ⟨rfl, .cons hdelivered .nil⟩

theorem runs_twiceADay_ok (hbh : bh.baseEndpoint = baseEndpoint)
    (h : Runs (twiceADay hmacSha256 bh) es (.ok ())) :
    (fetches es).map Prod.fst = ["ticker_price_change", "account_snaphsot"] ∧
      List.Forall₂ (Delivered bh) (fetches es) (inserts es) := by
  have hurl : ∀ data, rowsFetched (bh.baseEndpoint ++ "/api/v3/ticker/24hr") data =
      some ("ticker_price_change", data.elements) := fun data => by
    rw [hbh, rowsFetched, if_neg (by decide), if_pos rfl]
  rw [twiceADay_eq] at h
  obtain ⟨_, es₁, es₂, htickers, hsnapshot, rfl⟩ := runs_bind_ok_iff.mp h
  obtain ⟨rows₁, i₁, hfetches₁, hinserts₁, hdelivered₁⟩ :=
    runs_ingest_ok (only_getTickers _ _ _) (runs_getTickers hurl) htickers
  obtain ⟨rows₂, i₂, hfetches₂, hinserts₂, hdelivered₂⟩ :=
    runs_ingest_ok (only_getAccountSnapshot _ _ _) (runs_getAccountSnapshot hbh) hsnapshot
  rw [fetches_append, inserts_append, hfetches₁, hfetches₂, hinserts₁, hinserts₂]
  exact ⟨rfl, .cons hdelivered₁ (.cons hdelivered₂ .nil)⟩

/-- The inserts of a `2_times_a_day` attempt that raised: at most one into each
of the two tables, in this order, and the second only when it is what raised. -/
structure CutShort (es : List (Event Ans)) : Prop where
  tables : ((inserts es).map fun i => i.table.table) <+:
    ["ticker_price_change", "account_snaphsot"]
  snapshot : ∀ i ∈ inserts es, i.table.table = "account_snaphsot" →
    ∃ e effect, i.outcome = .raised e effect

theorem cutShort_of_inserts_eq_nil (h : inserts es = []) : CutShort es :=
  ⟨by simp [h], by simp [h]⟩

theorem runs_twiceADay_error {e : PyError} (h : Runs (twiceADay hmacSha256 bh) es (.error e)) :
    CutShort es := by
  have hne : "ticker_price_change" ≠ "account_snaphsot" := by decide
  rw [twiceADay_eq] at h
  rcases runs_bind_iff.mp h with ⟨e, htickers, -⟩ | ⟨_, es₁, es₂, htickers, hsnapshot, rfl⟩
  · rcases inserts_ingest (only_getTickers _ _ _) htickers with
      ⟨hnone, -⟩ | ⟨data, outcome, hinserts, -⟩
    · exact cutShort_of_inserts_eq_nil hnone
    · exact ⟨by simp [hinserts, BqHelper.tableId], by simp [hinserts, BqHelper.tableId, hne]⟩
  · obtain ⟨-, e, he⟩ | ⟨data, outcome, htable, -⟩ :=
      inserts_ingest (only_getTickers _ _ _) htickers
    · cases he
    rcases inserts_ingest (only_getAccountSnapshot _ _ _) hsnapshot with
      ⟨hnone, -⟩ | ⟨data', outcome', hinserts, hraised⟩
    · exact ⟨by simp [htable, hnone, BqHelper.tableId],
        by simp [htable, hnone, BqHelper.tableId, hne]⟩
    · cases outcome' with
      | returned errors => cases hraised
      | raised e effect =>
          have hpair := (inserts_append es₁ es₂).trans (by rw [htable, hinserts])
          refine ⟨by rw [hpair]; exact List.prefix_rfl, fun i hi hname => ?_⟩
          rw [hpair] at hi
          rcases List.mem_pair.mp hi with rfl | rfl
          · exact absurd hname hne
          · exact ⟨e, effect, rfl⟩

end Branches

/-! ## Invocations -/

section Invocations

variable {hmacSha256 : String → String → String} {event : Json} {es : List (Event Ans)}

/-- An invocation that returns has inserted what it has fetched, each list of
rows into the table it is for. -/
theorem runs_lambdaHandler_ok (h : Runs (lambdaHandler hmacSha256 event) es (.ok ())) :
    ∃ bh schedule, SetUp es bh ∧ event.get "schedule" = .ok schedule ∧
      (fetches es).map Prod.fst = targetTables schedule ∧
      List.Forall₂ (Delivered bh) (fetches es) (inserts es) := by
  obtain ⟨bh, es₁, es₂, hinit, hevent, rfl⟩ := runs_bind_ok_iff.mp h
  obtain ⟨schedule, es₃, es₄, hget, hbranch, rfl⟩ := runs_bind_ok_iff.mp hevent
  obtain ⟨rfl, hschedule⟩ := runs_ofResult_iff.mp hget
  have hquiet := only_binanceHelper_init _ _ hinit
  have hbh := runs_binanceHelper_init hinit
  refine ⟨bh, schedule, ⟨es₁, List.prefix_append _ _, hinit⟩, hschedule.symm, ?_⟩
  rw [fetches_append, fetches_eq_nil fun e he => (hquiet e he).1,
    inserts_append, inserts_eq_nil fun e he => (hquiet e he).2]
  rw [onSchedule.eq_def] at hbranch
  split at hbranch
  · exact runs_every30Min_ok hbh hbranch
  · exact runs_twiceADay_ok hbh hbranch
  · cases (runs_ofResult_iff.mp hbranch).2

/-- What a `2_times_a_day` attempt that raised has inserted. -/
theorem runs_lambdaHandler_error {e : PyError}
    (hevent : event.get "schedule" = .ok (.str "2_times_a_day"))
    (h : Runs (lambdaHandler hmacSha256 event) es (.error e)) : CutShort es := by
  rcases runs_bind_iff.mp h with ⟨e, hinit, -⟩ | ⟨bh, es₁, es₂, hinit, hrest, rfl⟩
  · exact cutShort_of_inserts_eq_nil
      (inserts_eq_nil fun e he => (only_binanceHelper_init _ _ hinit e he).2)
  · rw [hevent] at hrest
    have hcut : CutShort es₂ := runs_twiceADay_error hrest
    have hinserts : inserts (es₁ ++ es₂) = inserts es₂ := by
      rw [inserts_append, inserts_eq_nil fun e he => (only_binanceHelper_init _ _ hinit e he).2,
        List.nil_append]
    exact ⟨hinserts ▸ hcut.tables, hinserts ▸ hcut.snapshot⟩

end Invocations

/-! ## An environment -/

/-- Answers with which everything but Binance and the inserts is as it
should be; ids are numbered by the calls made before, so that they are all
different. -/
def servicesUp (binance : String → Except PyError Response) (insert : TableId → InsertOutcome) :
    Answers Ans
  | _, .loadConfig => .ok [("aws_binance_keys_secret_name", "binance-keys"),
      ("aws_bq_secret_name", "google_service_account"), ("aws_region", "eu-central-1"),
      ("bq_dataset", "BinanceCryptoDataset")]
  | _, .getSecretValue _ _ => .ok [("api_key", "key"), ("secret_key", "secret"),
      ("project_id", "binance")]
  | _, .serviceAccountCredentials _ => .ok ()
  | _, .bigqueryClient _ _ => .ok ()
  | _, .utcnow => "2024-05-01T12:00:00"
  | _, .time => (1714564800 : ℚ)
  | _, .requestsGet url _ _ => binance url
  | past, .uuid4 => toString past.length
  | _, .getTable _ => .ok ()
  | _, .createTable _ _ => .ok ()
  | _, .sleep _ => ()
  | _, .insertRowsJson table _ => insert table

/-- A reply of Binance with status 200. -/
def okReply (data : Json) : Except PyError Response := .ok ⟨200, "", .ok data⟩

end BinanceElt
