import BinanceElt.Verified.Concurrent
import Mathlib.Data.List.Nodup

/-!
# The rows that are stored

Every row gets an id of its own and the time its invocation was set up at.  So each has
the columns that the schemas require, and ids do not repeat, in whatever order concurrent
invocations make their calls, as long as `uuid4` does not repeat itself.

## Main results

* `labelled_lambdaHandler` — the ids and timestamps of the rows an invocation inserts.
* `ids_concurrent` — concurrent invocations give all rows different ids.
* `required_present` — inserted rows have the columns their schema requires.
-/

namespace BinanceElt

open Python (Json PyError)
open Service (Event Interleaves)
open Service.Program

/-! ## Ids and timestamps -/

def asUuid : Event Ans → Option String
  | ⟨.uuid4, id⟩ => some id
  | _ => none

/-- The ids a run was given. -/
def uuids (es : List (Event Ans)) : List String := es.filterMap asUuid

@[simp] theorem uuids_append (es es' : List (Event Ans)) :
    uuids (es ++ es') = uuids es ++ uuids es' :=
  List.filterMap_append

def asClock : Event Ans → Option String
  | ⟨.utcnow, now⟩ => some now
  | _ => none

/-- The times a run has read. -/
def clocks (es : List (Event Ans)) : List String := es.filterMap asClock

@[simp] theorem clocks_append (es es' : List (Event Ans)) :
    clocks (es ++ es') = clocks es ++ clocks es' :=
  List.filterMap_append

/-- What `row.get("id")` is of rows with these ids. -/
def idCells (ids : List String) : List (Except PyError Json) := ids.map fun id => .ok (.str id)

/-- A program that makes no call for an id is given none. -/
theorem uuids_eq_nil {α : Type} {p : Program α} (h : Costs (CallKind.counted .uuid4) 0 p)
    {es : List (Event Ans)} {r : Except PyError α} (hr : Runs p es r) : uuids es = [] := by
  rw [uuids, List.filterMap_eq_nil_iff]
  rintro ⟨c, a⟩ he
  have hkind := Within.only h _ _ hr _ he
  cases c <;> first | rfl | cases hkind

/-- The program returns rows with the ids it was given, in order, and this
timestamp.  A program that raises returns none. -/
def Labels (currentTimestamp : String) (p : Program Json) : Prop :=
  ∀ es data, Runs p es (.ok data) →
    data.rows.map (Json.get "id") = idCells (uuids es) ∧
      ∀ row ∈ data.rows, row.get "timestamp" = .ok (.str currentTimestamp)

section Labels

variable {currentTimestamp : String}

theorem Labels.bind {α : Type} {p : Program α} {f : α → Program Json}
    (hp : Costs (CallKind.counted .uuid4) 0 p) (hf : ∀ a, Labels currentTimestamp (f a)) :
    Labels currentTimestamp (p >>= f) := by
  intro es data h
  obtain ⟨a, es₁, es₂, hrun, hrest, rfl⟩ := runs_bind_ok_iff.mp h
  rw [uuids_append, uuids_eq_nil hp hrun, List.nil_append]
  exact hf a _ _ hrest

private theorem exists_of_mem_right {α β : Type} {R : α → β → Prop} {as : List α} {bs : List β}
    (h : List.Forall₂ R as bs) {b : β} (hb : b ∈ bs) : ∃ a, R a b := by
  induction h with
  | nil => cases hb
  | cons hab _ ih =>
      rcases List.mem_cons.mp hb with rfl | hb
      · exact ⟨_, hab⟩
      · exact ih hb

/-- The loop gives the rows the ids in order. -/
theorem runs_addMetadataTo_ids {els els' : List Json} {es : List (Event Ans)}
    (h : Runs (addMetadataTo currentTimestamp els) es (.ok els')) :
    els'.map (Json.get "id") = idCells (uuids es) := by
  induction els generalizing es els' with
  | nil =>
      obtain ⟨rfl, hels⟩ := runs_pure_iff.mp h
      obtain rfl := Except.ok.inj hels
      rfl
  | cons el els ih =>
      obtain ⟨id, es₁, _, hid, h₁, rfl⟩ := runs_bind_ok_iff.mp h
      obtain ⟨named, _, _, hnamed, h₂, rfl⟩ := runs_bind_ok_iff.mp h₁
      obtain ⟨stored, _, _, hstored, h₃, rfl⟩ := runs_bind_ok_iff.mp h₂
      obtain ⟨rest, es₂, _, hrest, h₄, rfl⟩ := runs_bind_ok_iff.mp h₃
      obtain ⟨rfl, hels⟩ := runs_pure_iff.mp h₄
      obtain rfl := Except.ok.inj hels
      obtain ⟨answer, rfl, hanswer⟩ := runs_perform_iff.mp hid
      obtain rfl := Except.ok.inj hanswer
      obtain ⟨rfl, hid⟩ := runs_ofResult_iff.mp hnamed
      obtain ⟨rfl, htimestamp⟩ := runs_ofResult_iff.mp hstored
      have hget : stored.get "id" = .ok (.str id) := by
        rw [Json.get_setItem_of_ne htimestamp.symm (by decide), Json.get_setItem_self hid.symm]
      have hids : uuids ([⟨Call.uuid4, id⟩] ++ ([] ++ ([] ++ (es₂ ++ [])))) = id :: uuids es₂ := by
        rw [List.append_nil]
        rfl
      rw [List.map_cons, hget, ih hrest, hids]
      rfl

/-- A result that is not a list has no rows, and nothing was given an id. -/
theorem labels_addMetadata (data : Json) :
    Labels currentTimestamp (addMetadata currentTimestamp data) := by
  intro es data' h
  obtain ⟨els, es₁, _, hels, h₁, rfl⟩ := runs_bind_ok_iff.mp h
  obtain ⟨els', es₂, _, hloop, h₂, rfl⟩ := runs_bind_ok_iff.mp h₁
  obtain ⟨rfl, hdata⟩ := runs_pure_iff.mp h₂
  obtain rfl := Except.ok.inj hdata
  obtain ⟨rfl, helements⟩ := runs_ofResult_iff.mp hels
  have hids := runs_addMetadataTo_ids hloop
  have hstamped := rows_withElements helements.symm (runs_addMetadataTo hloop)
  rw [List.nil_append, List.append_nil]
  constructor
  · rw [← hids]
    cases data with
    | list items => rfl
    | _ =>
        have hnone : els' = [] := List.eq_nil_of_length_eq_zero
          ((runs_addMetadataTo hloop).length_eq.symm.trans hstamped.length_eq)
        rw [hnone]
        rfl
  · intro row hrow
    obtain ⟨el, hel⟩ := exists_of_mem_right hstamped hrow
    exact hel.get.2.1

theorem labels_getTickers (path : String) (self : BinanceHelper)
    (symbols : Option (List String)) :
    Labels self.currentTimestamp (getTickers path self symbols) :=
  .bind (costs_getJsonResponseGet _ _ _) fun _ => labels_addMetadata _

theorem labels_getAccountSnapshot (hmacSha256 : String → String → String) (self : BinanceHelper)
    (type : String) :
    Labels self.currentTimestamp (getAccountSnapshot hmacSha256 self type) :=
  .bind (Within.bind (costs_perform _ .time) fun _ => within_pure _) fun _ =>
    .bind (costs_getJsonResponseGet _ _ _) fun _ => .bind (within_ofResult _) fun _ =>
    labels_addMetadata _

end Labels

/-! ## Invocations -/

/-- The rows a run inserts have ids that it was given, in the order it was given
them, and a timestamp that it has read. -/
structure Labelled (times : List String) (es : List (Event Ans)) : Prop where
  ids : ((inserts es).flatMap fun i => i.data.rows.map (Json.get "id")).Sublist
    (idCells (uuids es))
  timestamp : ∀ i ∈ inserts es, ∀ row ∈ i.data.rows, ∃ now ∈ times,
    row.get "timestamp" = .ok (.str now)

section Labelled

variable {times : List String} {es es' : List (Event Ans)}

theorem labelled_of_inserts (h : inserts es = []) : Labelled times es := by
  refine ⟨?_, ?_⟩ <;> rw [h]
  · exact List.nil_sublist _
  · simp

theorem Labelled.mono {times' : List String} (h : Labelled times es) (hsub : times ⊆ times') :
    Labelled times' es where
  ids := h.ids
  timestamp i hi row hrow := by
    obtain ⟨now, hnow, htimestamp⟩ := h.timestamp i hi row hrow
    exact ⟨now, hsub hnow, htimestamp⟩

theorem Labelled.append (h : Labelled times es) (h' : Labelled times es') :
    Labelled times (es ++ es') where
  ids := by
    rw [inserts_append, List.flatMap_append, uuids_append, idCells, List.map_append]
    exact h.ids.append h'.ids
  timestamp := by
    intro i hi
    rw [inserts_append] at hi
    exact (List.mem_append.mp hi).elim (h.timestamp i) (h'.timestamp i)

/-- An ingest inserts the rows that were labelled, or none. -/
theorem labelled_ingest {bh : BinanceHelper} {fetch : Program Json} {tableName : String}
    {schema : List SchemaField} {r : Except PyError Unit}
    (hlabels : Labels bh.currentTimestamp fetch) (hquiet : Only (fun c => ¬ c.IsInsert) fetch)
    (hnow : bh.currentTimestamp ∈ times)
    (h : Runs (ingest bh fetch tableName schema) es r) : Labelled times es := by
  rcases runs_bind_iff.mp h with ⟨e, hrun, -⟩ | ⟨data, es₁, es₂, hrun, hinsert, rfl⟩
  · exact labelled_of_inserts (inserts_eq_nil (hquiet _ _ hrun))
  · obtain ⟨hids, htimestamp⟩ := hlabels _ _ hrun
    have hinserts : inserts (es₁ ++ es₂) = inserts es₂ := by
      rw [inserts_append, inserts_eq_nil (hquiet _ _ hrun), List.nil_append]
    rcases (runs_insertJsonIntoTable hinsert).2 with ⟨hnone, -⟩ | ⟨outcome, hone, -⟩
    · exact labelled_of_inserts (hinserts.trans hnone)
    · refine ⟨?_, fun i hi row hrow => ?_⟩
      · rw [hinserts, hone, List.flatMap_singleton, hids, uuids_append, idCells, idCells,
          List.map_append]
        exact List.sublist_append_left _ _
      · rw [hinserts, hone, List.mem_singleton] at hi
        rw [hi] at hrow
        exact ⟨_, hnow, htimestamp row hrow⟩

/-- The helper is set up at a time that was read. -/
theorem mem_clocks_of_init {bh : BinanceHelper} (h : Runs BinanceHelper.init es (.ok bh)) :
    bh.currentTimestamp ∈ clocks es := by
  obtain ⟨self, es₁, es₂, -, hrest, rfl⟩ := runs_bind_ok_iff.mp h
  obtain ⟨now, es₃, es₄, hnow, hpure, rfl⟩ := runs_bind_ok_iff.mp hrest
  obtain ⟨answer, rfl, hanswer⟩ := runs_perform_iff.mp hnow
  obtain ⟨rfl, hbh⟩ := runs_pure_iff.mp hpure
  obtain rfl := Except.ok.inj hanswer
  obtain rfl := Except.ok.inj hbh
  rw [clocks_append]
  exact List.mem_append_right _ List.mem_cons_self

variable {hmacSha256 : String → String → String} {event : Json} {r : Except PyError Unit}

/-- An invocation labels the rows it inserts. -/
theorem labelled_lambdaHandler (h : Runs (lambdaHandler hmacSha256 event) es r) :
    Labelled (clocks es) es := by
  rcases runs_lambdaHandler_cases h with hquiet |
    ⟨bh, schedule, es₁, es₂, -, hinit, hrun, rfl⟩
  · exact labelled_of_inserts (inserts_of_target hquiet)
  · have hnow : bh.currentTimestamp ∈ clocks (es₁ ++ es₂) := by
      rw [clocks_append]
      exact List.mem_append_left _ (mem_clocks_of_init hinit)
    refine Labelled.append (labelled_of_inserts (inserts_of_target (target_of_init hinit))) ?_
    rcases onSchedule_cases hmacSha256 bh schedule with ⟨-, heq⟩ | ⟨-, heq⟩ | ⟨-, error, heq⟩ <;>
      rw [heq] at hrun
    · exact labelled_ingest (labels_getTickers _ _ _) (only_getTickers _ _ _) hnow hrun
    · rcases runs_bind_iff.mp hrun with ⟨e, htickers, -⟩ | ⟨_, es₃, es₄, htickers, hsnapshot, rfl⟩
      · exact labelled_ingest (labels_getTickers _ _ _) (only_getTickers _ _ _) hnow htickers
      · exact (labelled_ingest (labels_getTickers _ _ _) (only_getTickers _ _ _) hnow
          htickers).append (labelled_ingest (labels_getAccountSnapshot _ _ _)
            (only_getAccountSnapshot _ _ _) hnow hsnapshot)
    · rw [(runs_ofResult_iff.mp hrun).1]
      exact labelled_of_inserts rfl

end Labelled

/-! ## Ids -/

section Concurrent

variable {hmacSha256 : String → String → String} {is : List Invocation} {es : List (Event Ans)}

theorem labelled_flatMap (hran : ∀ i ∈ is, i.Ran hmacSha256) :
    Labelled (is.flatMap fun i => clocks i.calls) (is.flatMap Invocation.calls) := by
  induction is with
  | nil => exact labelled_of_inserts rfl
  | cons i is ih =>
      have hfirst : Labelled (clocks i.calls) i.calls :=
        labelled_lambdaHandler (hran i List.mem_cons_self)
      have hrest := ih fun j hj => hran j (List.mem_cons_of_mem _ hj)
      rw [List.flatMap_cons, List.flatMap_cons]
      exact (hfirst.mono (List.subset_append_left _ _)).append
        (hrest.mono (List.subset_append_right _ _))

/-- Concurrent invocations give all rows different ids, when all ids they are
given are different.

`hfresh` is what `uuid4` is used for.  An id is written into one row only,
however the calls interleave: `_add_metadata` asks for a new one for every row
of every batch. -/
theorem ids_concurrent (hran : ∀ i ∈ is, i.Ran hmacSha256)
    (h : Interleaves (is.map Invocation.calls) es) (hfresh : (uuids es).Nodup) :
    ((inserts es).flatMap fun i => i.data.rows.map (Json.get "id")).Nodup := by
  have hinserts : (inserts es).Perm (inserts (is.flatMap Invocation.calls)) := by
    have hperm := (h.filterMap asInsert).perm
    rw [← List.filterMap_flatten] at hperm
    exact hperm
  have huuids : (uuids es).Perm (uuids (is.flatMap Invocation.calls)) := by
    have hperm := (h.filterMap asUuid).perm
    rw [← List.filterMap_flatten] at hperm
    exact hperm
  have hcells : (idCells (uuids (is.flatMap Invocation.calls))).Nodup :=
    List.Nodup.map (fun a b hab => Json.str.inj (Except.ok.inj hab)) (huuids.nodup_iff.mp hfresh)
  exact (hinserts.flatMap_right _).nodup_iff.mpr (hcells.sublist (labelled_flatMap hran).ids)

end Concurrent

/-! ## Required columns -/

/-- Only the columns that every row is given are required. -/
theorem required_columns {table : String} {f : SchemaField} (hf : f ∈ schemaOf table)
    (hmode : f.mode = "REQUIRED") : f.name = "id" ∨ f.name = "timestamp" := by
  revert f
  rw [schemaOf.eq_def]
  split
  · decide
  · decide
  · decide
  · simp

section Required

variable {hmacSha256 : String → String → String} {event : Json} {es : List (Event Ans)}
  {r : Except PyError Unit}

/-- A table is created with its schema, and the rows that are inserted into it
have a text in each column this schema requires.

The required columns are `id` and `timestamp`, which `_add_metadata` sets; the
replies of Binance, which `h` leaves open, cannot take them away, as they are
set last. -/
theorem required_present (h : Runs (lambdaHandler hmacSha256 event) es r) :
    (∀ e ∈ es, ∀ t schema, e.call = .createTable t schema → schema = schemaOf t.table) ∧
      ∀ i ∈ inserts es, ∀ f ∈ schemaOf i.table.table, f.mode = "REQUIRED" →
        ∀ row ∈ i.data.rows, ∃ s, row.get f.name = .ok (.str s) := by
  constructor
  · have honly : Only (fun c => ∀ t schema, c = .createTable t schema → schema = schemaOf t.table)
        (lambdaHandler hmacSha256 event) := by
      refine only_lambdaHandler (fun c hc t schema heq => ?_) (fun t _ t' schema heq => ?_)
        fun t _ data t' schema heq => ?_
      · rw [heq] at hc
        cases hc
      · cases heq
        rfl
      · cases heq
    exact fun e he => honly _ _ h e he
  · intro i hi f hf hmode row hrow
    have hlabelled := labelled_lambdaHandler h
    rcases required_columns hf hmode with hname | hname <;> rw [hname]
    · have hid : row.get "id" ∈ idCells (uuids es) := hlabelled.ids.subset
        (List.mem_flatMap.mpr ⟨i, hi, List.mem_map_of_mem hrow⟩)
      obtain ⟨id, -, hid⟩ := List.mem_map.mp hid
      exact ⟨id, hid.symm⟩
    · obtain ⟨now, -, htimestamp⟩ := hlabelled.timestamp i hi row hrow
      exact ⟨now, htimestamp⟩

end Required

/-! ## Two invocations -/

/-- Answers in which the ids are numbered from 100 on. -/
def numbered : Answers Ans
  | past, .uuid4 => toString (100 + past.length)
  | past, c => servicesUp onePrice (fun _ => .returned []) past c

/-- The invocation of the half hour with these answers. -/
def labelledPrices : List (Event Ans) × Except PyError Unit :=
  (lambdaHandler (fun _ message => message) halfHour).run numbered []

/-- The invocations of noon, the first with other ids than the second. -/
def labelledNoon : List Invocation :=
  [⟨halfHour, labelledPrices.1, labelledPrices.2⟩,
    ⟨halfDay, snapshotUp, (snapshotAttempt (okReply oneBalance)).2⟩]

/-- The first one runs between two calls of the second. -/
def labelledNoonCalls : List (Event Ans) :=
  snapshotUp.take 8 ++ (labelledPrices.1 ++ snapshotUp.drop 8)

theorem ran_labelledNoon : ∀ i ∈ labelledNoon, i.Ran fun _ message => message := by
  intro i hi
  rcases List.mem_pair.mp hi with rfl | rfl <;> exact runs_run _ _ _

theorem interleaves_labelledNoon :
    Interleaves (labelledNoon.map Invocation.calls) labelledNoonCalls := by
  have hsplit := Interleaves.nested (snapshotUp.take 8) (snapshotUp.drop 8) labelledPrices.1
  rwa [List.take_append_drop] at hsplit

theorem ids_concurrent_noon :
    ((inserts labelledNoonCalls).flatMap fun i => i.data.rows.map (Json.get "id")).Nodup :=
  ids_concurrent ran_labelledNoon interleaves_labelledNoon (by decide +kernel)

theorem required_present_snapshot :
    (∀ e ∈ snapshotUp, ∀ t schema, e.call = .createTable t schema → schema = schemaOf t.table) ∧
      ∀ i ∈ inserts snapshotUp, ∀ f ∈ schemaOf i.table.table, f.mode = "REQUIRED" →
        ∀ row ∈ i.data.rows, ∃ s, row.get f.name = .ok (.str s) :=
  required_present (runs_run _ (lambdaHandler (fun _ message => message) halfDay) [])

end BinanceElt
