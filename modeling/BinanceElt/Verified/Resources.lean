import BinanceElt.Lambda.Main
import BinanceElt.Service.Cost

/-!
# What an invocation costs

The calls an invocation can make, whatever the services answer: it reads the configuration
once and secrets three times, and for each table of its schedule it makes at most one
request and one insert, and creates the table at most once.  Only a new table is waited
for, by a `time.sleep(60)`.

What is counted are the calls of the function itself.  Inside one of its calls the BigQuery
client may repeat a failed request, with waits of its own between two attempts
(`DEFAULT_RETRY`), and `requests` may follow redirects; these belong to the call, so that
the bounds here do not bound the time an invocation takes.

## Main results

* `costs_lambdaHandler` — the bound for any weights of the calls.
* `lambdaHandler_bounded` — the calls of a run, and the seconds it sleeps.
-/

namespace BinanceElt

open Python (Json PyError)
open Service (Event)
open Service.Program

/-! ## Prices -/

/-- A call without its arguments, the seconds of a wait apart. -/
inductive CallKind where
  | loadConfig
  | getSecretValue
  | serviceAccountCredentials
  | bigqueryClient
  | utcnow
  | time
  | requestsGet
  | uuid4
  | getTable
  | createTable
  | sleep (seconds : ℕ)
  | insertRowsJson
deriving DecidableEq

def Call.kind : Call → CallKind
  | .loadConfig => .loadConfig
  | .getSecretValue _ _ => .getSecretValue
  | .serviceAccountCredentials _ => .serviceAccountCredentials
  | .bigqueryClient _ _ => .bigqueryClient
  | .utcnow => .utcnow
  | .time => .time
  | .requestsGet _ _ _ => .requestsGet
  | .uuid4 => .uuid4
  | .getTable _ => .getTable
  | .createTable _ _ => .createTable
  | .sleep seconds => .sleep seconds
  | .insertRowsJson _ _ => .insertRowsJson

/-- The program costs at most `n` at these prices. -/
def Costs {α : Type} (price : CallKind → ℕ) (n : ℕ) (p : Program α) : Prop :=
  Within (fun c => price c.kind) n p

section Costs

variable (price : CallKind → ℕ)

theorem costs_perform (c : Call) :
    Costs price (price c.kind) (perform c : Program (Ans c)) :=
  within_perform le_rfl

private theorem costs_getSecret (awsRegion secretName : String) :
    Costs price (price .getSecretValue) (getSecret awsRegion secretName) :=
  (costs_perform price (.getSecretValue awsRegion secretName)).raising

private theorem costs_serviceAccountCredentials (info : Dict) :
    Costs price (price .serviceAccountCredentials) (serviceAccountCredentials info) :=
  (costs_perform price (.serviceAccountCredentials info)).raising

private theorem costs_bigqueryClient (info : Dict) (project : String) :
    Costs price (price .bigqueryClient) (bigqueryClient info project) :=
  (costs_perform price (.bigqueryClient info project)).raising

private theorem costs_helperMethods_init :
    Costs price (price .loadConfig + price .getSecretValue) HelperMethods.init :=
  .bind (costs_perform price .loadConfig).raising fun _ => Within.mono
    (.bind (within_ofResult _) fun _ => .bind (within_ofResult _) fun _ =>
      .bind (within_ofResult _) fun _ => .bind (within_ofResult _) fun _ =>
      .bind (costs_getSecret price _ _) fun _ => .bind (within_ofResult _) fun _ =>
      .bind (within_ofResult _) fun _ => within_pure _) (by omega)

/-- What the set-up costs. -/
def setUpPrice : ℕ :=
  price .loadConfig + 3 * price .getSecretValue + price .serviceAccountCredentials +
    price .bigqueryClient + price .utcnow

theorem costs_binanceHelper_init : Costs price (setUpPrice price) BinanceHelper.init := by
  have hproject : ∀ self, Costs price (price .getSecretValue) (getProjectId self) := fun self =>
    Within.mono (.bind (costs_getSecret price _ _) fun _ => within_ofResult _) (by omega)
  have hclient : ∀ self, Costs price (price .getSecretValue +
      (price .serviceAccountCredentials + price .bigqueryClient)) (getBqClient self) := fun self =>
    .bind (costs_getSecret price _ _) fun _ =>
      .bind (costs_serviceAccountCredentials price _) fun _ => Within.mono
        (.bind (within_ofResult _) fun _ => costs_bigqueryClient price _ _) (by omega)
  refine Within.mono (.bind (.bind (costs_helperMethods_init price) fun self =>
    .bind (hproject _) fun _ => .bind (hclient _) fun _ => within_pure _) fun _ =>
    .bind (costs_perform price .utcnow) fun _ => within_pure _) ?_
  rw [setUpPrice, Call.kind]
  omega

/-- What creating a table costs, when it has to be created. -/
private theorem costs_createTableIfNotExists (table : TableId) (schema : List SchemaField) :
    Costs price (price .getTable + (price .createTable + price (.sleep 60)))
      (createTableIfNotExists table schema) :=
  (costs_perform price (.getTable table)).raising.tryCatch fun _ =>
    .bind (costs_perform price (.createTable table schema)).raising fun _ =>
      costs_perform price (.sleep 60)

/-- What an insert costs. -/
def insertPrice : ℕ :=
  price .getTable + price .createTable + price (.sleep 60) + price .insertRowsJson

theorem costs_insertJsonIntoTable (self : BqHelper) (tableName : String) (data : Json)
    (schema : List SchemaField) :
    Costs price (insertPrice price) (insertJsonIntoTable self tableName data schema) := by
  have hinsert : Costs price (price .insertRowsJson)
      (insertRowsJson (self.tableId tableName) data) :=
    Within.mono (.bind (costs_perform price (.insertRowsJson (self.tableId tableName) data))
      fun _ => within_ofResult _) (Nat.add_zero _).le
  refine Within.mono (.bind (costs_createTableIfNotExists price _ _) fun _ =>
    .bind hinsert fun _ => within_pure _) ?_
  rw [insertPrice]
  omega

variable {price} (hfree : price .uuid4 = 0)
include hfree

/-- Ids are free, so that the number of rows does not matter. -/
private theorem costs_addMetadata (currentTimestamp : String) (data : Json) :
    Costs price 0 (addMetadata currentTimestamp data) := by
  have huuid : Costs price 0 uuid4 := hfree ▸ costs_perform price .uuid4
  have hloop : ∀ els, Costs price 0 (addMetadataTo currentTimestamp els) := by
    intro els
    induction els with
    | nil => exact within_pure _
    | cons el els ih =>
        exact Within.mono (.bind huuid fun _ => .bind (within_ofResult _) fun _ =>
          .bind (within_ofResult _) fun _ => .bind ih fun _ => within_pure _) le_rfl
  exact Within.mono (.bind (within_ofResult _) fun _ => .bind (hloop _) fun _ => within_pure _)
    le_rfl

omit hfree in
theorem costs_getJsonResponseGet (url : String) (headers : Dict)
    (params : List (String × Param)) :
    Costs price (price .requestsGet) (getJsonResponseGet url headers params) := by
  refine Within.mono (.bind (costs_perform price (.requestsGet url headers params)).raising
    fun response => ?_) (Nat.add_zero _).le
  split <;> exact within_ofResult _

theorem costs_getTickers (path : String) (self : BinanceHelper)
    (symbols : Option (List String)) :
    Costs price (price .requestsGet) (getTickers path self symbols) :=
  Within.mono (.bind (costs_getJsonResponseGet _ _ _) fun _ =>
    costs_addMetadata hfree _ _) (Nat.add_zero _).le

theorem costs_getAccountSnapshot (hmacSha256 : String → String → String) (self : BinanceHelper)
    (type : String) :
    Costs price (price .time + price .requestsGet) (getAccountSnapshot hmacSha256 self type) :=
  Within.mono (.bind (.bind (costs_perform price .time) fun _ => within_pure _) fun _ =>
    .bind (costs_getJsonResponseGet _ _ _) fun _ => .bind (within_ofResult _) fun _ =>
    costs_addMetadata hfree _ _) (by rw [Call.kind]; omega)

/-- What ingesting into one table costs. -/
def ingestPrice (price : CallKind → ℕ) : ℕ :=
  price .time + price .requestsGet + insertPrice price

end Costs

/-! ## Invocations -/

/-- The tables an event is for. -/
def targetsOf (event : Json) : List String :=
  match event.get "schedule" with
  | .ok schedule => targetTables schedule
  | .error _ => []

theorem length_targetsOf_le (event : Json) : (targetsOf event).length ≤ 2 := by
  rw [targetsOf]
  split
  · rw [targetTables.eq_def]
    split <;> decide
  · exact Nat.zero_le 2

/-- An invocation costs its set-up, and its tables cost an ingest each. -/
theorem costs_lambdaHandler {price : CallKind → ℕ} (hfree : price .uuid4 = 0)
    (hmacSha256 : String → String → String) (event : Json) :
    Costs price (setUpPrice price + (targetsOf event).length * ingestPrice price)
      (lambdaHandler hmacSha256 event) := by
  refine .bind (costs_binanceHelper_init price) fun bh => ?_
  have hingest : ∀ {fetch tableName schema}, Costs price (price .time + price .requestsGet) fetch →
      Costs price (ingestPrice price) (ingest bh fetch tableName schema) := fun hfetch =>
    .bind hfetch fun _ => costs_insertJsonIntoTable price _ _ _ _
  have htickers : ∀ path, Costs price (price .time + price .requestsGet)
      (getTickers path bh (some symbols)) := fun path =>
    (costs_getTickers hfree _ _ _).mono (Nat.le_add_left _ _)
  cases hschedule : event.get "schedule" with
  | error e => exact (within_done _).mono (Nat.zero_le _)
  | ok schedule =>
      have htargets : targetsOf event = targetTables schedule := by rw [targetsOf, hschedule]
      rw [htargets]
      show Costs price _ (onSchedule hmacSha256 bh schedule)
      rw [onSchedule.eq_def]
      split
      · exact (hingest (htickers _)).mono (Nat.one_mul _).ge
      · rw [twiceADay_eq]
        refine Within.mono (.bind (hingest (htickers _)) fun _ =>
          hingest (costs_getAccountSnapshot hfree _ _ _)) ?_
        exact (Nat.two_mul _).ge
      · exact (within_ofResult _).mono (Nat.zero_le _)

/-! ## The calls of a run -/

/-- How many calls of a kind a run makes. -/
def callsOf (kind : CallKind) (es : List (Event Ans)) : ℕ :=
  es.countP fun e => e.call.kind = kind

/-- Only calls of this kind have a price. -/
def CallKind.counted (kind : CallKind) (k : CallKind) : ℕ := if k = kind then 1 else 0

theorem callsOf_eq_cost (kind : CallKind) (es : List (Event Ans)) :
    callsOf kind es = cost (fun c => kind.counted c.kind) es := by
  induction es with
  | nil => rfl
  | cons e es ih =>
      rw [callsOf, List.countP_cons, ← callsOf, ih, ← List.singleton_append, cost_append]
      simp [cost, CallKind.counted, Nat.add_comm]

/-- Only `time.sleep` of the function has a price.  The waits of the BigQuery
client between two attempts of one call are not counted. -/
def CallKind.seconds : CallKind → ℕ
  | .sleep seconds => seconds
  | _ => 0

/-- The seconds a run passes to `time.sleep`. -/
def secondsSlept (es : List (Event Ans)) : ℕ := cost (fun c => c.kind.seconds) es

variable {hmacSha256 : String → String → String} {event : Json} {es : List (Event Ans)}
  {r : Except PyError Unit}

/-- A run reads at most three secrets, and for each table of its schedule it
calls `requests.get`, `insert_rows_json` and `create_table` at most once.  It
sleeps a minute for each table at most, and as no schedule has more than two
tables, two minutes at most for any event.

`h` says nothing about the answers: these are the bounds of every run, also of
one in which every service fails.  They count the calls the function makes.
What a client does inside a call is not counted: the BigQuery client repeats a
request that fails, and waits between the attempts, for up to ten minutes. -/
theorem lambdaHandler_bounded (h : Runs (lambdaHandler hmacSha256 event) es r) :
    callsOf .getSecretValue es ≤ 3 ∧
      (∀ kind ∈ [CallKind.requestsGet, .insertRowsJson, .createTable],
        callsOf kind es ≤ (targetsOf event).length) ∧
      secondsSlept es ≤ 60 * (targetsOf event).length ∧ secondsSlept es ≤ 120 := by
  have hcount : ∀ kind : CallKind, kind.counted .uuid4 = 0 → callsOf kind es ≤
      setUpPrice kind.counted + (targetsOf event).length * ingestPrice kind.counted := by
    intro kind hkind
    rw [callsOf_eq_cost]
    exact costs_lambdaHandler hkind hmacSha256 event _ _ h
  have hcosts : Costs CallKind.seconds _ (lambdaHandler hmacSha256 event) :=
    costs_lambdaHandler rfl hmacSha256 event
  have hslept : secondsSlept es ≤ (targetsOf event).length * 60 :=
    (hcosts _ _ h).trans (Nat.zero_add _).le
  have htargets := length_targetsOf_le event
  refine ⟨(hcount _ rfl).trans (Nat.le_of_eq ?_), ?_, by omega, by omega⟩
  · simp [setUpPrice, ingestPrice, insertPrice, CallKind.counted]
  · intro kind hkind
    simp only [List.mem_cons, List.not_mem_nil, or_false] at hkind
    rcases hkind with rfl | rfl | rfl <;>
      refine (hcount _ rfl).trans (Nat.le_of_eq ?_) <;>
      simp [setUpPrice, ingestPrice, insertPrice, CallKind.counted]

/-- No table exists yet. -/
def noTables : Answers Ans
  | _, .getTable _ => .error (.service "NotFound")
  | past, c => servicesUp (fun _ => okReply (.list [])) (fun _ => .returned []) past c

/-- The first invocation of all. -/
def firstInvocation : List (Event Ans) × Except PyError Unit :=
  (lambdaHandler (fun _ _ => "") (.dict [("schedule", .str "every_30_min")])).run noTables []

theorem lambdaHandler_bounded_first :
    callsOf .getSecretValue firstInvocation.1 ≤ 3 ∧
      (∀ kind ∈ [CallKind.requestsGet, .insertRowsJson, .createTable],
        callsOf kind firstInvocation.1 ≤
          (targetsOf (.dict [("schedule", .str "every_30_min")])).length) ∧
      secondsSlept firstInvocation.1 ≤
        60 * (targetsOf (.dict [("schedule", .str "every_30_min")])).length ∧
      secondsSlept firstInvocation.1 ≤ 120 :=
  lambdaHandler_bounded (runs_run noTables _ [])

example : secondsSlept firstInvocation.1 = 60 := by decide +kernel

end BinanceElt
