import BinanceElt.Lambda.Main

/-!
# Rows lost by an ingest that returns

An invocation that returns has handed every row it fetched to `insert_rows_json`,
but it only prints the errors this returns.  The rows are in their table exactly
when there were none; otherwise they are gone and nothing raises.

## Main results

* `exists_delivered` — the one insert into the table that fetched rows are for.
* `nothingLost_iff` — an invocation that returns has lost nothing if and only if
  no list of rows was answered with errors.
* `not_nothingLost_rejected` — an invocation that returns and has lost its rows.
-/

namespace BinanceElt

open Python (Json PyError)
open Service (Event)
open Service.Program

/-- Every row that was fetched is in the table it is for, with its metadata,
after the rows that were there. -/
def NothingLost (tables : Tables) (es : List (Event Ans)) : Prop :=
  ∃ bh, SetUp es bh ∧ ∀ f ∈ fetches es, ∃ rows batch, f.2 = .ok rows ∧
    List.Forall₂ (Stamped bh.currentTimestamp) rows batch ∧
    (applyEvents tables es).rows (bh.tableId f.1) = tables.rows (bh.tableId f.1) ++ batch

/-- No insert into the table of fetched rows, unless there were none, was
answered with errors.  An insert that raised is not among them: then the
invocation does not return. -/
def NothingRejected (es : List (Event Ans)) : Prop :=
  ∀ f ∈ fetches es, f.2 ≠ .ok [] → ∀ i ∈ inserts es, i.table.table = f.1 →
    ∀ errors, i.outcome = .returned errors → errors = []

private theorem exists_of_forall₂ {α β : Type} {R : α → β → Prop} {as : List α} {bs : List β}
    (h : List.Forall₂ R as bs) {b : β} (hb : b ∈ bs) : ∃ a ∈ as, R a b := by
  induction h with
  | nil => cases hb
  | cons hab _ ih =>
      rcases List.mem_cons.mp hb with rfl | hb
      · exact ⟨_, List.mem_cons_self, hab⟩
      · obtain ⟨a, ha, hR⟩ := ih hb
        exact ⟨a, List.mem_cons_of_mem _ ha, hR⟩

section Delivery

variable {bh : BinanceHelper} {f : String × Except PyError (List Json)} {i : Insert}

theorem Delivered.table_table (h : Delivered bh f i) : i.table.table = f.1 := by
  rw [h.table, BqHelper.tableId]

private theorem Delivered.rowsInto_of_ne (h : Delivered bh f i) {name : String}
    (hname : f.1 ≠ name) : i.rowsInto (bh.tableId name) = [] := by
  refine if_neg fun ⟨htable, _⟩ => hname ?_
  rw [← h.table_table, htable, BqHelper.tableId]

/-- When no table is fetched for twice, fetched rows have one insert, and it
alone adds rows to their table.  A schedule fetches for each of its tables once,
so that `hnodup` holds of every invocation. -/
theorem exists_delivered {fs : List (String × Except PyError (List Json))} {is : List Insert}
    (h : List.Forall₂ (Delivered bh) fs is) (hnodup : (fs.map Prod.fst).Nodup) (hf : f ∈ fs) :
    ∃ i ∈ is, Delivered bh f i ∧ (∀ i' ∈ is, i'.table.table = f.1 → i' = i) ∧
      (is.flatMap fun i' => i'.rowsInto (bh.tableId f.1)) = i.rowsInto (bh.tableId f.1) := by
  induction h with
  | nil => cases hf
  | @cons f₀ i₀ fs is h₀ hrest ih =>
      obtain ⟨hnotin, hnodup⟩ := List.nodup_cons.mp hnodup
      rcases List.mem_cons.mp hf with rfl | hf
      · -- the other inserts are into the tables of other names
        have hother : ∀ i ∈ is, ∃ f' ∈ fs, Delivered bh f' i := fun i hi =>
          exists_of_forall₂ hrest hi
        have hne : ∀ f' ∈ fs, f'.1 ≠ f.1 := fun f' hf' heq =>
          hnotin (heq ▸ List.mem_map_of_mem hf')
        refine ⟨i₀, List.mem_cons_self, h₀, fun i hi hname => ?_, ?_⟩
        · rcases List.mem_cons.mp hi with rfl | hi
          · rfl
          · obtain ⟨f', hf', hi'⟩ := hother i hi
            exact absurd (hi'.table_table.symm.trans hname) (hne f' hf')
        · have hnil : (is.flatMap fun i => i.rowsInto (bh.tableId f.1)) = [] :=
            List.flatMap_eq_nil_iff.mpr fun i hi => by
              obtain ⟨f', hf', hi'⟩ := hother i hi
              exact hi'.rowsInto_of_ne (hne f' hf')
          rw [List.flatMap_cons, hnil, List.append_nil]
      · have hne : f₀.1 ≠ f.1 := fun heq => hnotin (heq ▸ List.mem_map_of_mem hf)
        obtain ⟨i, hi, hdelivered, hunique, hrows⟩ := ih hnodup hf
        refine ⟨i, List.mem_cons_of_mem _ hi, hdelivered, fun i' hi' hname => ?_, ?_⟩
        · rcases List.mem_cons.mp hi' with rfl | hi'
          · exact absurd (h₀.table_table.symm.trans hname) hne
          · exact hunique i' hi' hname
        · rw [List.flatMap_cons, h₀.rowsInto_of_ne hne, List.nil_append, hrows]

end Delivery

section Returned

variable {hmacSha256 : String → String → String} {event : Json} {es : List (Event Ans)}

theorem nodup_targetTables (schedule : Json) : (targetTables schedule).Nodup := by
  unfold targetTables
  split <;> decide

/-- An invocation that returns keeps every row it fetched if and only if
`insert_rows_json` returned no errors for a list of rows that was not empty.

`h` says that the invocation returned without an exception, for any event and
whatever the services answered.  Errors that are returned are printed and
nothing more, so that such an invocation counts as a success. -/
theorem nothingLost_iff (tables : Tables)
    (h : Runs (lambdaHandler hmacSha256 event) es (.ok ())) :
    NothingLost tables es ↔ NothingRejected es := by
  obtain ⟨bh, schedule, hbh, -, htargets, hdelivered⟩ := runs_lambdaHandler_ok h
  have hinsert := fun f hf => exists_delivered hdelivered (htargets ▸ nodup_targetTables schedule)
    (f := f) hf
  constructor
  · rintro ⟨bh', hbh', hkept⟩ f hf hne i hi hname errors houtcome
    obtain rfl := hbh.unique hbh'
    obtain ⟨rows, batch, hrows, hstamped, hafter⟩ := hkept f hf
    obtain ⟨i', -, hdelivered, hunique, hinto⟩ := hinsert f hf
    obtain rfl := hunique i hi hname
    rw [rows_after, hinto, List.append_cancel_left_eq] at hafter
    by_contra herrors
    have hnone : i.rowsInto (bh.tableId f.1) = [] := by
      simp [Insert.rowsInto, houtcome, InsertOutcome.tookEffect, herrors]
    rw [← hafter, hnone, List.forall₂_nil_right_iff] at hstamped
    exact hne (hrows.trans (congrArg _ hstamped))
  · intro haccepted
    refine ⟨bh, hbh, fun f hf => ?_⟩
    obtain ⟨i, hi, hdelivered, -, hinto⟩ := hinsert f hf
    obtain ⟨rows, hrows, hstamped⟩ := hdelivered.rows
    obtain ⟨errors, houtcome⟩ := hdelivered.returned
    refine ⟨rows, i.data.rows, hrows, hstamped, ?_⟩
    rw [rows_after, hinto, List.append_cancel_left_eq]
    rcases eq_or_ne rows [] with rfl | hne
    · -- no rows are the same whether they are accepted or not
      rw [Insert.rowsInto, List.forall₂_nil_left_iff.mp hstamped, ite_self]
    · have hnil : errors = [] := haccepted f hf (fun heq => hne (Except.ok.inj (hrows ▸ heq))) i hi
        hdelivered.table_table errors houtcome
      exact if_pos ⟨hdelivered.table, by rw [houtcome, hnil]; rfl⟩

end Returned

/-! ## A rejected price -/

/-- The event of every half hour. -/
def halfHour : Json := .dict [("schedule", .str "every_30_min")]

/-- Binance returns one price. -/
def onePrice (_ : String) : Except PyError Response :=
  okReply (.list [.dict [("symbol", .str "BTCUSDT"), ("price", .str "60000.00")]])

/-- The invocation in which the insert ends so. -/
def priceIngest (outcome : InsertOutcome) : List (Event Ans) × Except PyError Unit :=
  (lambdaHandler (fun _ message => message) halfHour).run (servicesUp onePrice fun _ => outcome) []

private theorem runs_priceIngest (errors : List Json) :
    Runs (lambdaHandler (fun _ message => message) halfHour) (priceIngest (.returned errors)).1
      (.ok ()) :=
  runs_run _ _ _

theorem nothingLost_iff_accepted :
    NothingLost (fun _ => none) (priceIngest (.returned [])).1 ↔
      NothingRejected (priceIngest (.returned [])).1 :=
  nothingLost_iff _ (runs_priceIngest [])

/-- The error `insert_rows_json` returns for the first row. -/
def rowError : Json :=
  .dict [("index", .num 0), ("errors", .list [.dict [("reason", .str "invalid")]])]

/-- The insert returns an error, the invocation returns, and the price is
lost. -/
theorem not_nothingLost_rejected :
    Runs (lambdaHandler (fun _ message => message) halfHour) (priceIngest (.returned [rowError])).1
        (.ok ()) ∧
      ∀ tables, ¬ NothingLost tables (priceIngest (.returned [rowError])).1 := by
  refine ⟨runs_priceIngest _, fun tables ⟨bh, _, hkept⟩ => ?_⟩
  have hfetched : fetches (priceIngest (.returned [rowError])).1 =
      [("ticker_prices", .ok [.dict [("symbol", .str "BTCUSDT"), ("price", .str "60000.00")]])] :=
    rfl
  have hrejected : (inserts (priceIngest (.returned [rowError])).1).map
      (fun i => i.outcome.tookEffect) = [false] := rfl
  obtain ⟨rows, batch, hrows, hstamped, hafter⟩ := hkept _ (hfetched ▸ List.mem_singleton_self _)
  have hnone : ((inserts (priceIngest (.returned [rowError])).1).flatMap fun i =>
      i.rowsInto (bh.tableId "ticker_prices")) = [] := by
    refine List.flatMap_eq_nil_iff.mpr fun i hi => if_neg fun ⟨_, heffect⟩ => ?_
    have hmem := List.mem_map_of_mem (f := fun i : Insert => i.outcome.tookEffect) hi
    rw [hrejected, List.mem_singleton] at hmem
    exact absurd (heffect.symm.trans hmem) (by decide)
  rw [rows_after, hnone, List.append_cancel_left_eq] at hafter
  rw [← hafter, List.forall₂_nil_right_iff] at hstamped
  rw [hstamped] at hrows
  cases hrows

end BinanceElt
