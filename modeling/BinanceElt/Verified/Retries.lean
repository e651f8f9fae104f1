import BinanceElt.Lambda.Main

/-!
# Retried ingests

An attempt that raises is made again, and nothing is undone.  What the tables
end up with is what every failed attempt left, followed by the batches of the
attempt that returned; a failed attempt leaves the ticker data when it raised
after inserting it.

## Main results

* `attempts_effect` — what a sequence of attempts leaves in every table, and when
  this is the work of one attempt.
* `not_exactlyOnce_snapshotDown` — an attempt that raised leaves its ticker data.
-/

namespace BinanceElt

open Python (Json PyError)
open Service (Event)
open Service.Program

/-- Attempts at one event: all but the last raised, and the last returned with
everything accepted. -/
structure Attempts (hmacSha256 : String → String → String) (event : Json)
    (failed : List (List (Event Ans))) (last : List (Event Ans)) : Prop where
  raised : ∀ es ∈ failed, ∃ e, Runs (lambdaHandler hmacSha256 event) es (.error e)
  returned : Runs (lambdaHandler hmacSha256 event) last (.ok ())
  accepted : ∀ i ∈ inserts last, i.outcome = .returned []

/-- The tables are as after the last attempt alone, each with the same rows in
the same order. -/
def ExactlyOnce (tables : Tables) (failed : List (List (Event Ans))) (last : List (Event Ans)) :
    Prop :=
  ∀ t, (applyEvents tables (failed.flatten ++ last)).rows t = (applyEvents tables last).rows t

/-- The rows a run adds to a table. -/
def added (t : TableId) (es : List (Event Ans)) : List Json :=
  (inserts es).flatMap fun i => i.rowsInto t

/-- One batch of ticker data and one of the snapshot: the rows that were
fetched, each with its metadata. -/
def IsIngest (bh : BinanceHelper) (es : List (Event Ans)) (tickers snapshot : List Json) : Prop :=
  ∃ tickers' snapshot', fetches es =
      [("ticker_price_change", .ok tickers'), ("account_snaphsot", .ok snapshot')] ∧
    List.Forall₂ (Stamped bh.currentTimestamp) tickers' tickers ∧
    List.Forall₂ (Stamped bh.currentTimestamp) snapshot' snapshot

/-- Every attempt adds its own rows. -/
theorem rows_afterAttempts (tables : Tables) (failed : List (List (Event Ans)))
    (last : List (Event Ans)) (t : TableId) :
    (applyEvents tables (failed.flatten ++ last)).rows t =
      tables.rows t ++ failed.flatMap (added t) ++ added t last := by
  have hinserts : inserts failed.flatten = failed.flatMap inserts := by
    induction failed with
    | nil => rfl
    | cons es failed ih => rw [List.flatten_cons, inserts_append, ih, List.flatMap_cons]
  rw [rows_after, inserts_append, List.flatMap_append, hinserts, List.flatMap_assoc,
    List.append_assoc]
  rfl

/-- The attempts are as good as the last one when the others added no rows. -/
theorem exactlyOnce_iff (tables : Tables) (failed : List (List (Event Ans)))
    (last : List (Event Ans)) :
    ExactlyOnce tables failed last ↔
      ∀ es ∈ failed, ∀ i ∈ inserts es, i.outcome.tookEffect = true → i.data.rows = [] := by
  have hadded : ExactlyOnce tables failed last ↔ ∀ t, failed.flatMap (added t) = [] := by
    refine forall_congr' fun t => ?_
    rw [rows_afterAttempts, rows_after]
    exact (List.append_left_inj (added t last)).trans List.append_right_eq_self
  rw [hadded]
  constructor
  · intro hnone es hes i hi heffect
    have hinto := List.flatMap_eq_nil_iff.mp
      (List.flatMap_eq_nil_iff.mp (hnone i.table) es hes) i hi
    rwa [Insert.rowsInto, if_pos ⟨rfl, heffect⟩] at hinto
  · intro hempty t
    refine List.flatMap_eq_nil_iff.mpr fun es hes => List.flatMap_eq_nil_iff.mpr fun i hi => ?_
    rw [Insert.rowsInto]
    split_ifs with heffect
    · exact hempty es hes i hi heffect.2
    · rfl

section LastAttempt

variable {hmacSha256 : String → String → String} {event : Json} {last : List (Event Ans)}

/-- What is delivered to two tables, taken apart. -/
private theorem delivered_pair {bh : BinanceHelper}
    {fs : List (String × Except PyError (List Json))} {is : List Insert} {name₁ name₂ : String}
    (h : List.Forall₂ (Delivered bh) fs is) (hnames : fs.map Prod.fst = [name₁, name₂]) :
    ∃ rows₁ rows₂ i₁ i₂, fs = [(name₁, .ok rows₁), (name₂, .ok rows₂)] ∧ is = [i₁, i₂] ∧
      Delivered bh (name₁, .ok rows₁) i₁ ∧ Delivered bh (name₂, .ok rows₂) i₂ := by
  rcases h with _ | @⟨⟨n₁, r₁⟩, i₁, _, _, h₁, _ | @⟨⟨n₂, r₂⟩, i₂, _, _, h₂, _ | _⟩⟩
  · cases hnames
  · cases hnames
  · cases hnames
    obtain ⟨rows₁, rfl, -⟩ := h₁.rows
    obtain ⟨rows₂, rfl, -⟩ := h₂.rows
    exact ⟨rows₁, rows₂, i₁, i₂, rfl, rfl, h₁, h₂⟩
  · cases hnames

/-- An attempt that returns with everything accepted adds one batch to each of
the two tables. -/
theorem added_accepted (hevent : event.get "schedule" = .ok (.str "2_times_a_day"))
    (h : Runs (lambdaHandler hmacSha256 event) last (.ok ()))
    (haccepted : ∀ i ∈ inserts last, i.outcome = .returned []) :
    ∃ bh tickers snapshot, SetUp last bh ∧ IsIngest bh last tickers snapshot ∧
      ∀ t, added t last =
        if t = bh.tableId "ticker_price_change" then tickers
        else if t = bh.tableId "account_snaphsot" then snapshot else [] := by
  obtain ⟨bh, schedule, hbh, hschedule, htargets, hdelivered⟩ := runs_lambdaHandler_ok h
  obtain rfl := Except.ok.inj (hschedule.symm.trans hevent)
  obtain ⟨tickers', snapshot', i₁, i₂, hfetches, hinserts, h₁, h₂⟩ :=
    delivered_pair hdelivered htargets
  obtain ⟨rows₁, hrows₁, hstamped₁⟩ := h₁.rows
  obtain ⟨rows₂, hrows₂, hstamped₂⟩ := h₂.rows
  obtain rfl := Except.ok.inj hrows₁
  obtain rfl := Except.ok.inj hrows₂
  refine ⟨bh, i₁.data.rows, i₂.data.rows, hbh, ⟨_, _, hfetches, hstamped₁, hstamped₂⟩, fun t => ?_⟩
  rw [hinserts] at haccepted
  have heffect : ∀ i ∈ [i₁, i₂], i.outcome.tookEffect = true := fun i hi => by
    rw [haccepted i hi]
    rfl
  have hne : bh.tableId "account_snaphsot" ≠ bh.tableId "ticker_price_change" := by
    simp [BqHelper.tableId]
  simp only [added, hinserts, List.flatMap_cons, List.flatMap_nil, List.append_nil,
    Insert.rowsInto, h₁.table, h₂.table, heffect i₁ (by simp), heffect i₂ (by simp), and_true,
    eq_comm (b := t)]
  by_cases htickers : t = bh.tableId "ticker_price_change"
  · simp only [htickers, if_true, if_neg hne.symm, List.append_nil]
  · simp only [if_neg htickers, List.nil_append]

end LastAttempt

section Retries

variable {hmacSha256 : String → String → String} {event : Json}
  {failed : List (List (Event Ans))} {last : List (Event Ans)}

/-- The tables end up with what the failed attempts left, followed by one batch
of ticker data and one of the snapshot.  It is the work of one attempt when no
insert of rows in a failed attempt took effect.

`h` says that the attempts before the last raised, each somewhere, and that the
last one returned with its rows accepted.  Nothing in the function looks at what
an earlier attempt has left, so that every attempt adds its rows again;
`CutShort` says which inserts a failed attempt can have got to. -/
theorem attempts_effect (hevent : event.get "schedule" = .ok (.str "2_times_a_day"))
    (h : Attempts hmacSha256 event failed last) (tables : Tables) :
    (∃ bh tickers snapshot, SetUp last bh ∧ IsIngest bh last tickers snapshot ∧
      ∀ t, (applyEvents tables (failed.flatten ++ last)).rows t =
        tables.rows t ++ failed.flatMap (added t) ++
          if t = bh.tableId "ticker_price_change" then tickers
          else if t = bh.tableId "account_snaphsot" then snapshot else []) ∧
      (∀ es ∈ failed, CutShort es) ∧
      (ExactlyOnce tables failed last ↔
        ∀ es ∈ failed, ∀ i ∈ inserts es, i.outcome.tookEffect = true → i.data.rows = []) := by
  refine ⟨?_, fun es hes => ?_, exactlyOnce_iff tables failed last⟩
  · obtain ⟨bh, tickers, snapshot, hbh, hingest, hadded⟩ :=
      added_accepted hevent h.returned h.accepted
    exact ⟨bh, tickers, snapshot, hbh, hingest, fun t => by rw [rows_afterAttempts, hadded]⟩
  · obtain ⟨e, hrun⟩ := h.raised es hes
    exact runs_lambdaHandler_error hevent hrun

end Retries

/-! ## A snapshot that fails once -/

/-- The event of twice a day. -/
def halfDay : Json := .dict [("schedule", .str "2_times_a_day")]

/-- The requests for ticker data succeed, and the one for the snapshot ends
so. -/
def snapshotEnds (reply : Except PyError Response) (url : String) : Except PyError Response :=
  if url = baseEndpoint ++ "/sapi/v1/accountSnapshot" then reply
  else okReply (.list [.dict [("symbol", .str "BTCUSDT"), ("lastPrice", .str "60000.00")]])

/-- A snapshot of one balance. -/
def oneBalance : Json :=
  .dict [("snapshotVos", .list [.dict [("data", .dict [("balances",
    .list [.dict [("asset", .str "BTC"), ("free", .str "1"), ("locked", .str "0")]])])]])]

/-- An attempt in which all inserts are accepted. -/
def snapshotAttempt (reply : Except PyError Response) : List (Event Ans) × Except PyError Unit :=
  (lambdaHandler (fun _ message => message) halfDay).run
    (servicesUp (snapshotEnds reply) fun _ => .returned []) []

/-- The attempt the snapshot request fails in. -/
def snapshotDown : List (Event Ans) := (snapshotAttempt (.ok ⟨503, "", .error .typeError⟩)).1

/-- The attempt it is made again in. -/
def snapshotUp : List (Event Ans) := (snapshotAttempt (okReply oneBalance)).1

private theorem attempts_snapshotDown :
    Attempts (fun _ message => message) halfDay [snapshotDown] snapshotUp := by
  refine ⟨fun es hes => ?_, runs_run _ _ _, ?_⟩
  · rw [List.mem_singleton.mp hes]
    exact ⟨.typeError, runs_run _ _ _⟩
  · have houtcomes : (inserts snapshotUp).map Insert.outcome = [.returned [], .returned []] := rfl
    intro i hi
    have hmem := List.mem_map_of_mem (f := Insert.outcome) hi
    rw [houtcomes] at hmem
    simpa using hmem

theorem attempts_effect_snapshotDown :
    (∃ bh tickers snapshot, SetUp snapshotUp bh ∧ IsIngest bh snapshotUp tickers snapshot ∧
      ∀ t, (applyEvents (fun _ => none) ([snapshotDown].flatten ++ snapshotUp)).rows t =
        Tables.rows (fun _ => none) t ++ [snapshotDown].flatMap (added t) ++
          if t = bh.tableId "ticker_price_change" then tickers
          else if t = bh.tableId "account_snaphsot" then snapshot else []) ∧
      (∀ es ∈ [snapshotDown], CutShort es) ∧
      (ExactlyOnce (fun _ => none) [snapshotDown] snapshotUp ↔
        ∀ es ∈ [snapshotDown], ∀ i ∈ inserts es, i.outcome.tookEffect = true →
          i.data.rows = []) :=
  attempts_effect rfl attempts_snapshotDown _

/-- The attempt that raised leaves its ticker data. -/
theorem not_exactlyOnce_snapshotDown :
    halfDay.get "schedule" = .ok (.str "2_times_a_day") ∧
      Attempts (fun _ message => message) halfDay [snapshotDown] snapshotUp ∧
      ∀ tables, ¬ ExactlyOnce tables [snapshotDown] snapshotUp := by
  have hleft : (inserts snapshotDown).map (fun i => (i.outcome.tookEffect, i.data.rows.length)) =
      [(true, 1)] := rfl
  refine ⟨rfl, attempts_snapshotDown, fun tables honce => ?_⟩
  obtain ⟨i, hi, heffect⟩ := List.mem_map.mp (hleft ▸ List.mem_singleton_self (true, 1))
  obtain ⟨heffect, hlength⟩ := Prod.mk.inj heffect
  have hrows := (exactlyOnce_iff tables _ _).mp honce _ (List.mem_singleton_self _) i hi heffect
  rw [hrows] at hlength
  cases hlength

end BinanceElt
