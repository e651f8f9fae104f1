import BinanceElt.Python.Json
import BinanceElt.Service.Program
import Mathlib.Logic.Function.Basic

/-!
# The services of the ingest function

The calls `utils.py` makes to the outside (the configuration file, Secrets
Manager, the clock, Binance, BigQuery, random ids), with what each can answer,
and what the inserts among them do to the tables.

`insert_rows_json` inserts all rows when it returns no errors and none when it
returns some.  When it raises, the rows may have been inserted or not.  A call is
what the function calls: the requests that a client repeats within it, such as
those the BigQuery client makes under its default retry, are part of it.

## Main results

* `rows_after` — the rows of a table after a run are the rows before it and the
  batches of the inserts that took effect, in order.
-/

namespace BinanceElt

open Python (Json PyError)
open Service (Event)

/-! ## Calls and answers -/

/-- A dict of strings: the configuration, or a secret. -/
abbrev Dict := List (String × String)

/-- The table id `f"{project}.{dataset}.{table}"`, by its parts. -/
structure TableId where
  project : String
  dataset : String
  table : String
deriving DecidableEq, Repr

/-- `bigquery.SchemaField(name, fieldType, mode)`. -/
structure SchemaField where
  name : String
  fieldType : String
  mode : String
deriving DecidableEq, Repr

/-- A value of the `params` dict of a request. -/
inductive Param where
  | str (s : String)
  | int (n : ℤ)
deriving DecidableEq, Repr

/-- What the code reads of a `requests.Response`; `json` fails on a body that is
not JSON.  Redirects have been followed when `requests.get` returns. -/
structure Response where
  statusCode : ℤ
  text : String
  json : Except PyError Json

/-- How a call of `insert_rows_json` ends.  Rows that BigQuery rejects are
returned as errors, and then none of the rows is stored; a call that raises may
have stored them or not, which the caller cannot tell. -/
inductive InsertOutcome where
  | returned (errors : List Json)
  | raised (e : PyError) (tookEffect : Bool)

inductive Call where
  | loadConfig
  | getSecretValue (region secretId : String)
  | serviceAccountCredentials (info : Dict)
  | bigqueryClient (credentialsInfo : Dict) (project : String)
  | utcnow
  | time
  | requestsGet (url : String) (headers : Dict) (params : List (String × Param))
  | uuid4
  | getTable (table : TableId)
  | createTable (table : TableId) (schema : List SchemaField)
  | sleep (seconds : ℕ)
  | insertRowsJson (table : TableId) (data : Json)

/-- The answer to a call.  The time is in seconds, a secret is its parsed
`SecretString`, and the clocks and `uuid4` do not fail. -/
def Ans : Call → Type
  | .loadConfig => Except PyError Dict
  | .getSecretValue _ _ => Except PyError Dict
  | .serviceAccountCredentials _ => Except PyError Unit
  | .bigqueryClient _ _ => Except PyError Unit
  | .utcnow => String
  | .time => ℚ
  | .requestsGet _ _ _ => Except PyError Response
  | .uuid4 => String
  | .getTable _ => Except PyError Unit
  | .createTable _ _ => Except PyError Unit
  | .sleep _ => Unit
  | .insertRowsJson _ _ => InsertOutcome

abbrev Program := Service.Program Ans PyError

section Calls

open Service.Program (perform raising ofResult)

def loadConfig : Program Dict := raising (perform Call.loadConfig)

def getSecretValue (region secretId : String) : Program Dict :=
  raising (perform (Call.getSecretValue region secretId))

def serviceAccountCredentials (info : Dict) : Program Unit :=
  raising (perform (Call.serviceAccountCredentials info))

def bigqueryClient (credentialsInfo : Dict) (project : String) : Program Unit :=
  raising (perform (Call.bigqueryClient credentialsInfo project))

def utcnow : Program String := perform Call.utcnow

def time : Program ℚ := perform Call.time

def requestsGet (url : String) (headers : Dict) (params : List (String × Param)) :
    Program Response :=
  raising (perform (Call.requestsGet url headers params))

def uuid4 : Program String := perform Call.uuid4

def getTable (table : TableId) : Program Unit := raising (perform (Call.getTable table))

def createTable (table : TableId) (schema : List SchemaField) : Program Unit :=
  raising (perform (Call.createTable table schema))

def sleep (seconds : ℕ) : Program Unit := perform (Call.sleep seconds)

/-- What the caller sees of an insert: the errors, or an exception. -/
def InsertOutcome.result : InsertOutcome → Except PyError (List Json)
  | .returned errors => .ok errors
  | .raised e _ => .error e

def insertRowsJson (table : TableId) (data : Json) : Program (List Json) := do
  let outcome : InsertOutcome ← perform (Call.insertRowsJson table data)
  ofResult outcome.result

end Calls

/-! ## Inserts -/

/-- Whether the rows were inserted. -/
def InsertOutcome.tookEffect : InsertOutcome → Bool
  | .returned errors => errors.isEmpty
  | .raised _ effect => effect

structure Insert where
  table : TableId
  data : Json
  outcome : InsertOutcome

/-- The rows an insert adds to a table. -/
def Insert.rowsInto (i : Insert) (t : TableId) : List Json :=
  if i.table = t ∧ i.outcome.tookEffect = true then i.data.rows else []

def asInsert : Event Ans → Option Insert
  | ⟨.insertRowsJson table data, outcome⟩ => some ⟨table, data, outcome⟩
  | _ => none

/-- The inserts of a run. -/
def inserts (es : List (Event Ans)) : List Insert := es.filterMap asInsert

/-- An insert into a table. -/
def Call.IsInsert : Call → Prop
  | .insertRowsJson _ _ => True
  | _ => False

/-- A request to Binance. -/
def Call.IsRequest : Call → Prop
  | .requestsGet _ _ _ => True
  | _ => False

theorem inserts_eq_nil {es : List (Event Ans)} (h : ∀ e ∈ es, ¬ e.call.IsInsert) :
    inserts es = [] := by
  rw [inserts, List.filterMap_eq_nil_iff]
  rintro ⟨c, a⟩ he
  cases c <;> first | rfl | exact absurd trivial (h _ he)

@[simp] theorem inserts_nil : inserts [] = [] := rfl

@[simp] theorem inserts_append (es es' : List (Event Ans)) :
    inserts (es ++ es') = inserts es ++ inserts es' :=
  List.filterMap_append

/-! ## Tables -/

/-- The tables of BigQuery with their rows, in the order in which they were
inserted; `none` where there is no table. -/
abbrev Tables := TableId → Option (List Json)

/-- The rows of a table, none when it does not exist. -/
def Tables.rows (tables : Tables) (t : TableId) : List Json := (tables t).getD []

/-- What a call does to the tables: `create_table` adds an empty one where there
is none, and an insert that took effect appends its rows.  All other calls leave
them alone. -/
def applyEvent (tables : Tables) : Event Ans → Tables
  | ⟨.createTable t _, .ok _⟩ => Function.update tables t (some (tables.rows t))
  | ⟨.insertRowsJson t data, outcome⟩ =>
      if outcome.tookEffect then Function.update tables t (some (tables.rows t ++ data.rows))
      else tables
  | _ => tables

/-- The tables after a run. -/
def applyEvents (tables : Tables) (es : List (Event Ans)) : Tables := es.foldl applyEvent tables

/-- A call adds the rows of its insert, and nothing else adds rows. -/
theorem rows_applyEvent (tables : Tables) (e : Event Ans) (t : TableId) :
    (applyEvent tables e).rows t =
      tables.rows t ++ ((asInsert e).toList.flatMap fun i => i.rowsInto t) := by
  obtain ⟨c, a⟩ := e
  cases c with
  | createTable t' schema =>
      cases a with
      | ok _ =>
          by_cases h : t = t'
          · simp [applyEvent, asInsert, Tables.rows, h]
          · simp [applyEvent, asInsert, Tables.rows, h]
      | error _ => simp [applyEvent, asInsert]
  | insertRowsJson t' data =>
      by_cases heffect : InsertOutcome.tookEffect a = true
      · by_cases h : t = t'
        · simp [applyEvent, asInsert, Insert.rowsInto, Tables.rows, h, heffect]
        · simp [applyEvent, asInsert, Insert.rowsInto, Tables.rows, h, Ne.symm h, heffect]
      · simp [applyEvent, asInsert, Insert.rowsInto, heffect]
  | _ => simp [applyEvent, asInsert]

/-- The rows of a table after a run: those before it, then the batches of the
inserts that took effect. -/
theorem rows_after (tables : Tables) (es : List (Event Ans)) (t : TableId) :
    (applyEvents tables es).rows t =
      tables.rows t ++ (inserts es).flatMap fun i => i.rowsInto t := by
  induction es generalizing tables with
  | nil => simp [applyEvents]
  | cons e es ih =>
      have hinserts : inserts (e :: es) = (asInsert e).toList ++ inserts es := by
        cases h : asInsert e <;> simp [inserts, h]
      rw [hinserts, List.flatMap_append, ← List.append_assoc, ← rows_applyEvent]
      exact ih (applyEvent tables e)

end BinanceElt
