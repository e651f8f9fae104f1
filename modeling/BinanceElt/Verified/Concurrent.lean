import BinanceElt.Service.Interleaving
import BinanceElt.Verified.Resources
import BinanceElt.Verified.Retries
import BinanceElt.Verified.SilentLoss

/-!
# Concurrent invocations

At noon and at midnight both schedules start an invocation, and an invocation that is
slow meets the next one.  Their calls interleave in any way.  No interleaving loses rows,
duplicates them or takes a batch apart: every table is as if the invocations had run one
after the other, and invocations for different tables leave all tables so.

## Main results

* `rows_concurrent` — each table is as after some order of the invocations.
* `tables_concurrent` — invocations for different tables do not interfere.
-/

namespace BinanceElt

open Python (Json PyError)
open Service (Event Interleaves)
open Service.Program

/-! ## The tables an invocation writes -/

/-- The table a call writes: the one it creates, or inserts into.  Calls with
different targets can change places, and a call without a target changes no
table. -/
def Call.target : Call → Option TableId
  | .createTable t _ => some t
  | .insertRowsJson t _ => some t
  | _ => none

/-- The schema of a table. -/
def schemaOf : String → List SchemaField
  | "ticker_prices" => tickerPricesSchema
  | "ticker_price_change" => tickerPriceChangeSchema
  | "account_snaphsot" => accountSnaphsoteSchema
  | _ => []

/-- Only calls that write have a price. -/
def CallKind.written : CallKind → ℕ
  | .createTable => 1
  | .insertRowsJson => 1
  | _ => 0

theorem target_eq_none {c : Call} (h : c.kind.written = 0) : c.target = none := by
  cases c <;> first | rfl | cases h

section Targets

variable {P : Call → Prop} (hquiet : ∀ c : Call, c.target = none → P c)
include hquiet

theorem only_of_costs {α : Type} {p : Program α} (h : Costs CallKind.written 0 p) : Only P p :=
  (Within.only h).mono fun c hc => hquiet c (target_eq_none hc)

/-- An ingest creates its table with its schema, and inserts into it. -/
theorem only_ingest {bh : BinanceHelper} {fetch : Program Json} {tableName : String}
    {schema : List SchemaField} (hfetch : Costs CallKind.written 0 fetch)
    (hcreate : P (.createTable (bh.tableId tableName) schema))
    (hinsert : ∀ data, P (.insertRowsJson (bh.tableId tableName) data)) :
    Only P (ingest bh fetch tableName schema) := by
  refine .bind (only_of_costs hquiet hfetch) fun data => .bind ?_ fun _ => .bind ?_ fun _ =>
    only_pure _
  · exact (only_perform (hquiet _ rfl)).raising.tryCatch fun _ =>
      .bind (only_perform hcreate).raising fun _ => only_perform (hquiet _ rfl)
  · exact .bind (only_perform (hinsert data)) fun _ => only_ofResult _

omit hquiet

variable (hmacSha256 : String → String → String) (bh : BinanceHelper)

/-- The branches on the schedule as ingests of the tables it is for. -/
theorem onSchedule_cases (schedule : Json) :
    (targetTables schedule = ["ticker_prices"] ∧ onSchedule hmacSha256 bh schedule =
      ingest bh (getLatestTickerPrices bh (some symbols)) "ticker_prices" tickerPricesSchema) ∨
    (targetTables schedule = ["ticker_price_change", "account_snaphsot"] ∧
      onSchedule hmacSha256 bh schedule =
        ingest bh (getTickerPriceChange24hrs bh (some symbols)) "ticker_price_change"
          tickerPriceChangeSchema >>= fun _ =>
        ingest bh (getAccountSnapshot hmacSha256 bh "SPOT") "account_snaphsot"
          accountSnaphsoteSchema) ∨
    (targetTables schedule = [] ∧
      ∃ e, onSchedule hmacSha256 bh schedule = ofResult (.error e)) := by
  rw [onSchedule.eq_def]
  split
  · exact .inl ⟨rfl, rfl⟩
  · exact .inr (.inl ⟨rfl, twiceADay_eq hmacSha256 bh⟩)
  · next hprices hchange =>
    refine .inr (.inr ⟨?_, _, rfl⟩)
    rw [targetTables.eq_def]
    split
    · exact absurd rfl hprices
    · exact absurd rfl hchange
    · rfl

end Targets

section Invocation

variable {hmacSha256 : String → String → String} {event : Json} {es : List (Event Ans)}
  {r : Except PyError Unit}

theorem inserts_of_target (h : ∀ e ∈ es, e.call.target = none) : inserts es = [] := by
  refine inserts_eq_nil fun e he hinsert => ?_
  have htarget := h e he
  revert hinsert htarget
  cases e.call <;> simp [Call.IsInsert, Call.target]

theorem target_of_init {r : Except PyError BinanceHelper}
    (h : Runs BinanceHelper.init es r) : ∀ e ∈ es, e.call.target = none := fun e he =>
  target_eq_none (Within.only (costs_binanceHelper_init CallKind.written) _ _ h e he)

/-- An invocation sets its helper up and looks at the schedule, or raises before
it writes. -/
theorem runs_lambdaHandler_cases (h : Runs (lambdaHandler hmacSha256 event) es r) :
    (∀ e ∈ es, e.call.target = none) ∨
      ∃ bh schedule es₁ es₂, event.get "schedule" = .ok schedule ∧
        Runs BinanceHelper.init es₁ (.ok bh) ∧ Runs (onSchedule hmacSha256 bh schedule) es₂ r ∧
        es = es₁ ++ es₂ := by
  rcases runs_bind_iff.mp h with ⟨e, hrun, -⟩ | ⟨bh, es₁, es₂, hrun, hrest, rfl⟩
  · exact .inl (target_of_init hrun)
  · rcases runs_bind_iff.mp hrest with ⟨e, hget, -⟩ | ⟨schedule, es₃, es₄, hget, hrun', rfl⟩
    · rw [(runs_ofResult_iff.mp hget).1, List.append_nil]
      exact .inl (target_of_init hrun)
    · obtain ⟨rfl, hschedule⟩ := runs_ofResult_iff.mp hget
      exact .inr ⟨bh, schedule, es₁, es₄, hschedule.symm, hrun, hrun', rfl⟩

theorem targetsOf_of_schedule {schedule : Json} (h : event.get "schedule" = .ok schedule) :
    targetsOf event = targetTables schedule := by
  rw [targetsOf, h]

/-- An invocation creates the tables of its schedule with their schemas, and
inserts into them.  Whatever holds of these calls, and of all calls that write
nothing, holds of every call it makes. -/
theorem only_lambdaHandler {P : Call → Prop} (hquiet : ∀ c : Call, c.target = none → P c)
    (hcreate : ∀ t : TableId, t.table ∈ targetsOf event → P (.createTable t (schemaOf t.table)))
    (hinsert : ∀ t : TableId, t.table ∈ targetsOf event → ∀ data, P (.insertRowsJson t data)) :
    Only P (lambdaHandler hmacSha256 event) := by
  intro es r h
  rcases runs_lambdaHandler_cases h with htarget |
    ⟨bh, schedule, es₁, es₂, hschedule, hinit, hrun, rfl⟩
  · exact fun e he => hquiet _ (htarget e he)
  · intro e he
    rcases List.mem_append.mp he with he | he
    · exact hquiet _ (target_of_init hinit e he)
    · have htickers : ∀ path, Costs CallKind.written 0 (getTickers path bh (some symbols)) :=
        fun path => costs_getTickers rfl path bh _
      have hsnapshot : Costs CallKind.written 0 (getAccountSnapshot hmacSha256 bh "SPOT") :=
        costs_getAccountSnapshot rfl hmacSha256 bh _
      rw [targetsOf_of_schedule hschedule] at hcreate hinsert
      rcases onSchedule_cases hmacSha256 bh schedule with
        ⟨htables, heq⟩ | ⟨htables, heq⟩ | ⟨htables, error, heq⟩ <;>
        rw [heq] at hrun <;> rw [htables] at hcreate hinsert
      · exact only_ingest hquiet (htickers _) (hcreate (bh.tableId "ticker_prices") (by simp
          [BqHelper.tableId])) (hinsert (bh.tableId "ticker_prices") (by simp [BqHelper.tableId]))
          _ _ hrun e he
      · refine Only.bind (only_ingest hquiet (htickers _) ?_ ?_) (fun _ =>
          only_ingest hquiet hsnapshot ?_ ?_) _ _ hrun e he
        · exact hcreate (bh.tableId "ticker_price_change") (by simp [BqHelper.tableId])
        · exact hinsert (bh.tableId "ticker_price_change") (by simp [BqHelper.tableId])
        · exact hcreate (bh.tableId "account_snaphsot") (by simp [BqHelper.tableId])
        · exact hinsert (bh.tableId "account_snaphsot") (by simp [BqHelper.tableId])
      · rw [(runs_ofResult_iff.mp hrun).1] at he
        cases he

/-- An invocation writes the tables of its schedule only. -/
theorem target_mem_targetsOf (h : Runs (lambdaHandler hmacSha256 event) es r) {e : Event Ans}
    (he : e ∈ es) {t : TableId} (ht : e.call.target = some t) : t.table ∈ targetsOf event := by
  have honly : Only (fun c => ∀ t, c.target = some t → t.table ∈ targetsOf event)
      (lambdaHandler hmacSha256 event) := by
    refine only_lambdaHandler (fun c hc t ht => ?_) (fun t' hmem t ht => ?_)
      fun t' hmem data t ht => ?_
    · rw [hc] at ht
      cases ht
    · exact Option.some.inj ht ▸ hmem
    · exact Option.some.inj ht ▸ hmem
  exact honly _ _ h e he t ht

/-- An invocation inserts into the tables of its schedule in their order, each
once. -/
theorem inserts_lambdaHandler (h : Runs (lambdaHandler hmacSha256 event) es r) :
    ((inserts es).map fun i => i.table.table) <+: targetsOf event := by
  have hone : ∀ {bh : BinanceHelper} {fetch : Program Json} {tableName schema es}
      {r : Except PyError Unit}, Only (fun c => ¬ c.IsInsert) fetch →
      Runs (ingest bh fetch tableName schema) es r →
      (inserts es = [] ∧ ∃ e, r = .error e) ∨
        (inserts es).map (fun i => i.table.table) = [tableName] := by
    intro bh fetch tableName schema es r hquiet hrun
    refine (inserts_ingest hquiet hrun).imp_right ?_
    rintro ⟨data, outcome, hinserts, -⟩
    rw [hinserts]
    rfl
  rcases runs_lambdaHandler_cases h with hquiet |
    ⟨bh, schedule, es₁, es₂, hschedule, hinit, hrun, rfl⟩
  · rw [inserts_of_target hquiet]
    exact List.nil_prefix
  · rw [inserts_append, inserts_of_target (target_of_init hinit), List.nil_append,
      targetsOf_of_schedule hschedule]
    rcases onSchedule_cases hmacSha256 bh schedule with
      ⟨htables, heq⟩ | ⟨htables, heq⟩ | ⟨htables, error, heq⟩ <;>
      rw [heq] at hrun <;> rw [htables]
    · rcases hone (only_getTickers _ _ _) hrun with ⟨hinserts, -⟩ | hinserts
      · rw [hinserts]
        exact List.nil_prefix
      · exact hinserts ▸ List.prefix_rfl
    · rcases runs_bind_iff.mp hrun with ⟨e, htickers, -⟩ | ⟨_, es₃, es₄, htickers, hsnapshot, rfl⟩
      · rcases hone (only_getTickers _ _ _) htickers with ⟨hinserts, -⟩ | hinserts <;>
          rw [hinserts]
        · exact List.nil_prefix
        · exact ⟨["account_snaphsot"], rfl⟩
      · rw [inserts_append, List.map_append]
        rcases hone (only_getTickers _ _ _) htickers with ⟨-, e, he⟩ | hinserts
        · cases he
        · rw [hinserts]
          rcases hone (only_getAccountSnapshot _ _ _) hsnapshot with ⟨hinserts', -⟩ | hinserts' <;>
            rw [hinserts']
          · exact ⟨["account_snaphsot"], rfl⟩
          · exact List.prefix_rfl
    · rw [(runs_ofResult_iff.mp hrun).1]
      exact List.nil_prefix

end Invocation

/-! ## Calls for different tables -/

/-- A call changes the table it writes, and nothing else. -/
theorem applyEvent_eq (e : Event Ans) :
    (∀ tables, applyEvent tables e = tables) ∨
      ∃ (t : TableId) (f : Option (List Json) → Option (List Json)), e.call.target = some t ∧
        ∀ tables, applyEvent tables e = Function.update tables t (f (tables t)) := by
  obtain ⟨c, a⟩ := e
  cases c with
  | createTable t schema =>
      cases a with
      | error _ => exact .inl fun tables => rfl
      | ok _ => exact .inr ⟨t, fun rows => some (rows.getD []), rfl, fun tables => rfl⟩
  | insertRowsJson t data =>
      cases heffect : InsertOutcome.tookEffect a with
      | false => exact .inl fun tables => by simp [applyEvent, heffect]
      | true =>
          exact .inr ⟨t, fun rows => some (rows.getD [] ++ data.rows), rfl, fun tables => by
            simp [applyEvent, heffect, Tables.rows]⟩
  | _ => exact .inl fun tables => rfl

/-- Calls for different tables commute. -/
theorem applyEvent_comm {e e' : Event Ans}
    (h : ∀ t t', e.call.target = some t → e'.call.target = some t' → t ≠ t') (tables : Tables) :
    applyEvent (applyEvent tables e) e' = applyEvent (applyEvent tables e') e := by
  rcases applyEvent_eq e with hnone | ⟨t, f, ht, hupdate⟩
  · rw [hnone, hnone]
  rcases applyEvent_eq e' with hnone | ⟨t', f', ht', hupdate'⟩
  · rw [hnone, hnone]
  · have hne := h t t' ht ht'
    rw [hupdate, hupdate', hupdate', hupdate, Function.update_of_ne hne.symm,
      Function.update_of_ne hne, Function.update_comm hne]

/-! ## Concurrent invocations -/

/-- An invocation: its event, the calls it made and how it ended. -/
structure Invocation where
  event : Json
  calls : List (Event Ans)
  result : Except PyError Unit

/-- It is one that the handler can make. -/
def Invocation.Ran (hmacSha256 : String → String → String) (i : Invocation) : Prop :=
  Runs (lambdaHandler hmacSha256 i.event) i.calls i.result

section Concurrent

variable {hmacSha256 : String → String → String} {is : List Invocation} {es : List (Event Ans)}

/-- The insert into a table that a call is. -/
def asInsertInto (t : TableId) (e : Event Ans) : Option Insert :=
  (asInsert e).filter fun i => i.table = t

theorem filterMap_asInsertInto (t : TableId) (es : List (Event Ans)) :
    es.filterMap (asInsertInto t) = (inserts es).filter fun i => i.table = t := by
  rw [inserts, List.filter_filterMap]
  rfl

theorem rows_after_insertsInto (tables : Tables) (es : List (Event Ans)) (t : TableId) :
    (applyEvents tables es).rows t =
      tables.rows t ++ (es.filterMap (asInsertInto t)).flatMap fun i => i.rowsInto t := by
  have hskip : ∀ is : List Insert,
      (is.filter fun i => i.table = t).flatMap (fun i => i.rowsInto t) =
        is.flatMap fun i => i.rowsInto t := by
    intro is
    induction is with
    | nil => rfl
    | cons i is ih =>
        by_cases hi : i.table = t
        · rw [List.filter_cons_of_pos (by simpa using hi), List.flatMap_cons, List.flatMap_cons, ih]
        · rw [List.filter_cons_of_neg (by simpa using hi), List.flatMap_cons, ih, Insert.rowsInto,
            if_neg fun h => hi h.1, List.nil_append]
  rw [rows_after, filterMap_asInsertInto, hskip]

/-- An invocation inserts into a table at most once. -/
theorem length_insertsInto_le {i : Invocation} (h : i.Ran hmacSha256) (t : TableId) :
    (i.calls.filterMap (asInsertInto t)).length ≤ 1 := by
  have hnodup : (targetsOf i.event).Nodup := by
    rw [targetsOf]
    split
    · rw [targetTables.eq_def]
      split <;> decide
    · exact List.nodup_nil
  have hnames :
      (((inserts i.calls).filter fun i => i.table = t).map fun i => i.table.table).Nodup :=
    hnodup.sublist ((List.filter_sublist.map _).trans (inserts_lambdaHandler h).sublist)
  have hsame : ((inserts i.calls).filter fun i => i.table = t).map (fun i => i.table.table) =
      List.replicate ((inserts i.calls).filter fun i => i.table = t).length t.table := by
    rw [← List.map_const']
    refine List.map_congr_left fun i hi => ?_
    rw [of_decide_eq_true (List.mem_filter.mp hi).2]
  rw [filterMap_asInsertInto]
  rw [hsame] at hnames
  exact List.nodup_replicate.mp hnames

/-- However the calls of invocations interleave, a table is as if they had been
made in some order, one after the other: no rows are lost, duplicated or torn
apart.

The order depends on the table: what one invocation inserts into
`ticker_price_change` may come first, and what it inserts into
`account_snaphsot` second.  `hran` says that each invocation ran to its end, in
whatever way, and nothing is assumed of the answers it was given. -/
theorem rows_concurrent (hran : ∀ i ∈ is, i.Ran hmacSha256)
    (h : Interleaves (is.map Invocation.calls) es) (tables : Tables) (t : TableId) :
    ∃ is' : List Invocation, is'.Perm is ∧
      (applyEvents tables es).rows t =
        (applyEvents tables (is'.flatMap Invocation.calls)).rows t := by
  have hinserts := h.filterMap (asInsertInto t)
  rw [List.map_map] at hinserts
  obtain ⟨is', hperm, heq⟩ := hinserts.exists_perm fun i hi =>
    length_insertsInto_le (hran i hi) t
  refine ⟨is', hperm, ?_⟩
  rw [rows_after_insertsInto, rows_after_insertsInto, heq, List.filterMap_flatMap]
  rfl

/-- Invocations for different tables leave all tables as if they had run one
after the other.

With `htargets` the order of the invocations is the one of the list, and the
same for all tables, created ones included.  The two schedules of the function
are such events, as `targetsOf` of the one and of the other have no table in
common. -/
theorem tables_concurrent (hran : ∀ i ∈ is, i.Ran hmacSha256)
    (htargets : is.Pairwise fun i j => List.Disjoint (targetsOf i.event) (targetsOf j.event))
    (h : Interleaves (is.map Invocation.calls) es) (tables : Tables) :
    applyEvents tables es = applyEvents tables (is.flatMap Invocation.calls) := by
  refine h.foldl_eq (List.pairwise_map.mpr ?_) tables
  refine htargets.imp_of_mem fun {i j} hi hj hdisjoint a ha b hb s => ?_
  refine applyEvent_comm (fun t t' ht ht' => ?_) s
  rintro rfl
  exact hdisjoint (target_mem_targetsOf (hran i hi) ha ht) (target_mem_targetsOf (hran j hj) hb ht')

end Concurrent

/-! ## Noon -/

/-- The two invocations of noon. -/
def noonInvocations : List Invocation :=
  [⟨halfHour, (priceIngest (.returned [])).1, (priceIngest (.returned [])).2⟩,
    ⟨halfDay, snapshotUp, (snapshotAttempt (okReply oneBalance)).2⟩]

/-- The one for the prices runs between two calls of the other. -/
def noonCalls : List (Event Ans) :=
  snapshotUp.take 8 ++ ((priceIngest (.returned [])).1 ++ snapshotUp.drop 8)

private theorem ran_noon : ∀ i ∈ noonInvocations, i.Ran fun _ message => message := by
  intro i hi
  rcases List.mem_pair.mp hi with rfl | rfl <;> exact runs_run _ _ _

private theorem interleaves_noon :
    Interleaves (noonInvocations.map Invocation.calls) noonCalls := by
  have hsplit := Interleaves.nested (snapshotUp.take 8) (snapshotUp.drop 8)
    (priceIngest (.returned [])).1
  rwa [List.take_append_drop] at hsplit

theorem rows_concurrent_noon :
    ∃ is' : List Invocation, is'.Perm noonInvocations ∧
      (applyEvents (fun _ => none) noonCalls).rows
          ⟨"binance", "BinanceCryptoDataset", "ticker_prices"⟩ =
        (applyEvents (fun _ => none) (is'.flatMap Invocation.calls)).rows
          ⟨"binance", "BinanceCryptoDataset", "ticker_prices"⟩ :=
  rows_concurrent ran_noon interleaves_noon _ _

theorem tables_concurrent_noon :
    applyEvents (fun _ => none) noonCalls =
      applyEvents (fun _ => none) (noonInvocations.flatMap Invocation.calls) := by
  have hprices : targetsOf halfHour = ["ticker_prices"] := rfl
  have hchanges : targetsOf halfDay = ["ticker_price_change", "account_snaphsot"] := rfl
  have htargets : noonInvocations.Pairwise fun i j =>
      List.Disjoint (targetsOf i.event) (targetsOf j.event) := by
    simp [noonInvocations, hprices, hchanges]
  exact tables_concurrent ran_noon htargets interleaves_noon _

end BinanceElt
