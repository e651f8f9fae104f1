import BinanceElt.Sql.Relation

/-!
# `MERGE` and incremental tables

An incremental model keeps a table across runs.  A first build or a full
refresh replaces the table by the output of the query; every other run merges
the output into it: a stored row whose key occurs in the output is replaced, an
output row whose key is not stored is inserted, nothing is deleted.

The rules below say what a merge does to the set of rows, to the keys, and to
a table it has just been applied to; `stateAfter_invariant` is the induction
over a sequence of runs.

## Main results

* `merge_eq_ok_iff` — when the statement succeeds.
* `mem_of_merge` — the rows of the merged table.
* `nodup_map_of_merge_iff`, `nodup_of_merge` — what stays distinct.
* `nodup_tableAfter_iff` — when a run keeps the keys of a table distinct.
* `merge_merge`, `materialize_again` — merging the same output again changes
  nothing.
* `stateAfter_invariant` — an invariant of every step holds after every run.
-/

namespace Sql

variable {α β γ κ σ ι : Type*}

/-- `MERGE INTO target USING source ON target.key = source.key
WHEN MATCHED THEN UPDATE all columns WHEN NOT MATCHED THEN INSERT`.  A target
row that matches two source rows aborts the statement, whereas two source rows
with a new key are both inserted. -/
def merge [DecidableEq κ] (key : α → κ) (target source : List α) :
    Except QueryError (List α) :=
  if ∃ t ∈ target, 1 < (source.filter fun s => key s = key t).length then
    .error .mergeMultipleMatch
  else
    .ok (target.map (fun t => (source.find? fun s => key s = key t).getD t) ++
      source.filter fun s => ∀ t ∈ target, key t ≠ key s)

section Merge

variable [DecidableEq κ] {key : α → κ} {target source merged : List α}

/-- A target row matched twice is the one way a merge fails. -/
theorem merge_eq_ok_iff :
    merge key target source = .ok merged ↔
      (∀ t ∈ target, (source.filter fun s => key s = key t).length ≤ 1) ∧
      merged = target.map (fun t => (source.find? fun s => key s = key t).getD t) ++
        source.filter fun s => ∀ t ∈ target, key t ≠ key s := by
  unfold merge
  split
  · next h =>
      obtain ⟨t, ht, hlt⟩ := h
      simp only [reduceCtorEq, false_iff, not_and]
      exact fun hle => absurd (hle t ht) (not_le_of_gt hlt)
  · next h =>
      push Not at h
      simp only [Except.ok.injEq]
      exact ⟨fun hm => ⟨h, hm.symm⟩, fun hm => hm.2.symm⟩

/-- A source without repeated keys can always be merged. -/
theorem exists_merge (target : List α) (hsource : (source.map key).Nodup) :
    ∃ merged, merge key target source = .ok merged := by
  refine ⟨_, merge_eq_ok_iff.mpr ⟨fun t _ => ?_, rfl⟩⟩
  have hdistinct : (source.filter fun s => key s = key t).Pairwise
      (fun a b => key a ≠ key b) := (List.pairwise_map.mp hsource).filter _
  match hm : source.filter fun s => key s = key t with
  | [] => simp
  | [_] => simp
  | a :: b :: rest =>
      rw [hm] at hdistinct
      have ha : key a = key t := by
        simpa using (List.mem_filter.mp (hm ▸ List.mem_cons_self :
          a ∈ source.filter fun s => key s = key t)).2
      have hb : key b = key t := by
        simpa using (List.mem_filter.mp (hm ▸ List.mem_cons_of_mem a List.mem_cons_self :
          b ∈ source.filter fun s => key s = key t)).2
      exact absurd (ha.trans hb.symm) (List.pairwise_cons.mp hdistinct |>.1 b (by simp))

/-- The merged table holds the output and the stored rows it does not
replace. -/
theorem mem_of_merge (h : merge key target source = .ok merged) {r : α} :
    r ∈ merged ↔ r ∈ source ∨ (r ∈ target ∧ ∀ s ∈ source, key s ≠ key r) := by
  obtain ⟨hone, rfl⟩ := merge_eq_ok_iff.mp h
  simp only [List.mem_append, List.mem_map, List.mem_filter, decide_eq_true_eq]
  constructor
  · rintro (⟨t, ht, rfl⟩ | ⟨hr, -⟩)
    · cases hfind : source.find? fun s => key s = key t with
      | none =>
          refine .inr ⟨ht, fun s hs => ?_⟩
          simpa using List.find?_eq_none.mp hfind s hs
      | some s => exact .inl (List.mem_of_find?_eq_some hfind)
    · exact .inl hr
  · rintro (hr | ⟨hr, hnone⟩)
    · by_cases hmatch : ∀ t ∈ target, key t ≠ key r
      · exact .inr ⟨hr, hmatch⟩
      · push Not at hmatch
        obtain ⟨t, ht, hkey⟩ := hmatch
        refine .inl ⟨t, ht, ?_⟩
        -- the only source row with this key is `r`
        have hin : r ∈ source.filter fun s => key s = key t :=
          List.mem_filter.mpr ⟨hr, by simpa using hkey.symm⟩
        obtain ⟨s, hs⟩ : ∃ s, source.filter (fun s => decide (key s = key t)) = [s] :=
          List.length_eq_one_iff.mp
            (le_antisymm (hone t ht) (List.length_pos_of_mem hin))
        rw [← List.head?_filter, hs]
        rw [hs, List.mem_singleton] at hin
        simp [hin]
    · refine .inl ⟨r, hr, ?_⟩
      rw [List.find?_eq_none.mpr fun s hs => by simpa using hnone s hs]
      rfl

/-- Columns the key determines: those of the stored rows, followed by those of
the inserted ones. -/
theorem map_of_merge {g : α → γ} (h : merge key target source = .ok merged)
    (hkey : ∀ t ∈ target, ∀ s ∈ source, key s = key t → g s = g t) :
    merged.map g = target.map g ++
      (source.filter fun s => ∀ t ∈ target, key t ≠ key s).map g := by
  obtain ⟨-, rfl⟩ := merge_eq_ok_iff.mp h
  rw [List.map_append, List.map_map]
  congr 1
  refine List.map_congr_left fun t ht => ?_
  simp only [Function.comp_apply]
  cases hfind : source.find? fun s => key s = key t with
  | none => rfl
  | some s =>
      exact hkey t ht s (List.mem_of_find?_eq_some hfind)
        (by simpa using List.find?_some hfind)

/-- Where the key determines the columns `g`, merging is taking the union. -/
theorem exists_mem_of_merge_iff {g : α → γ} (h : merge key target source = .ok merged)
    (hkey : ∀ t ∈ target, ∀ s ∈ source, key s = key t → g s = g t) {c : γ} :
    (∃ r ∈ merged, g r = c) ↔ (∃ s ∈ source, g s = c) ∨ ∃ t ∈ target, g t = c := by
  constructor
  · rintro ⟨r, hr, rfl⟩
    rcases (mem_of_merge h).mp hr with hr | ⟨hr, -⟩
    · exact .inl ⟨r, hr, rfl⟩
    · exact .inr ⟨r, hr, rfl⟩
  · rintro (⟨s, hs, rfl⟩ | ⟨t, ht, rfl⟩)
    · exact ⟨s, (mem_of_merge h).mpr (.inl hs), rfl⟩
    · by_cases hmatch : ∃ s ∈ source, key s = key t
      · obtain ⟨s, hs, hst⟩ := hmatch
        exact ⟨s, (mem_of_merge h).mpr (.inl hs), hkey t ht s hs hst⟩
      · push Not at hmatch
        exact ⟨t, (mem_of_merge h).mpr (.inr ⟨ht, hmatch⟩), rfl⟩

/-- A column that the key determines stays distinct exactly when no output row
agrees with a stored row on it but has another key.  Such a row is not matched
and comes in beside the stored one; a row with the same key replaces it. -/
theorem nodup_map_of_merge_iff {g : α → γ} (h : merge key target source = .ok merged)
    (hkey : ∀ t ∈ target, ∀ s ∈ source, key s = key t → g s = g t)
    (htarget : (target.map g).Nodup) (hsource : (source.map g).Nodup) :
    (merged.map g).Nodup ↔ ∀ t ∈ target, ∀ s ∈ source, g s = g t → key s = key t := by
  constructor
  · intro hmerged t ht s hs hg
    by_contra hne
    by_cases hmatch : ∃ s' ∈ source, key s' = key t
    · obtain ⟨s', hs', hs't⟩ := hmatch
      have hss' : s = s' := List.inj_on_of_nodup_map hsource hs hs'
        (hg.trans (hkey t ht s' hs' hs't).symm)
      exact hne (hss' ▸ hs't)
    · push Not at hmatch
      have hst : s = t := List.inj_on_of_nodup_map hmerged ((mem_of_merge h).mpr (.inl hs))
        ((mem_of_merge h).mpr (.inr ⟨ht, hmatch⟩)) hg
      exact hne (hst ▸ rfl)
  · intro hsame
    rw [map_of_merge h hkey, List.nodup_append]
    refine ⟨htarget, hsource.sublist (List.filter_sublist.map g), ?_⟩
    intro a ha b hb hab
    obtain ⟨t, ht, rfl⟩ := List.mem_map.mp ha
    obtain ⟨s, hs, rfl⟩ := List.mem_map.mp hb
    obtain ⟨hs, hnew⟩ := List.mem_filter.mp hs
    exact of_decide_eq_true hnew t ht (hsame t ht s hs hab.symm).symm

/-- Merging keeps keys distinct. -/
theorem nodup_of_merge (h : merge key target source = .ok merged)
    (htarget : (target.map key).Nodup) (hsource : (source.map key).Nodup) :
    (merged.map key).Nodup :=
  (nodup_map_of_merge_iff h (fun _ _ _ _ => id) htarget hsource).mpr
    fun _ _ _ _ => id

/-- A merge leaves keys distinct exactly when the output repeats none. -/
theorem nodup_of_merge_iff (h : merge key target source = .ok merged)
    (htarget : (target.map key).Nodup) :
    (merged.map key).Nodup ↔ (source.map key).Nodup := by
  refine ⟨fun hmerged => ?_, nodup_of_merge h htarget⟩
  obtain ⟨hone, rfl⟩ := merge_eq_ok_iff.mp h
  rw [List.map_append] at hmerged
  have hnew := hmerged.of_append_right
  rw [List.nodup_iff_count_le_one] at hnew ⊢
  intro k
  have hcount : ∀ rows : List α, (rows.map key).count k =
      (rows.filter fun s => key s = k).length := by
    intro rows
    rw [List.count_eq_countP, List.countP_map, List.countP_eq_length_filter]
    rfl
  by_cases hstored : ∃ t ∈ target, key t = k
  · obtain ⟨t, ht, rfl⟩ := hstored
    rw [hcount]
    exact hone t ht
  · -- all rows with this key have been inserted
    have hinserted := hnew k
    rw [hcount, List.filter_filter] at hinserted
    rw [hcount]
    refine (congrArg List.length (List.filter_congr fun s _ => ?_)).trans_le hinserted
    by_cases hs : key s = k
    · simpa [hs] using fun t ht htk => hstored ⟨t, ht, htk⟩
    · simp [hs]

/-- Merging an output into the table it was just merged into, up to a change `f`
of columns outside the key: every stored row is the row it replaces.  `hsource`
gives a stored row one output row to be replaced by, the same one both times. -/
theorem merge_merge {f : α → β} {source' merged' : List α}
    (h : merge key target source = .ok merged)
    (h' : merge key merged source' = .ok merged')
    (hsource : (source.map key).Nodup)
    (hsame : source'.map (fun s => (key s, f s)) = source.map fun s => (key s, f s)) :
    merged'.map f = merged.map f := by
  have hkeys : source'.map key = source.map key := by
    simpa [List.map_map, Function.comp_def] using congrArg (List.map Prod.fst) hsame
  have hmem : ∀ s' ∈ source', ∃ s ∈ source, key s = key s' ∧ f s = f s' := by
    intro s' hs'
    have : (key s', f s') ∈ source.map fun s => (key s, f s) := by
      rw [← hsame]
      exact List.mem_map_of_mem hs'
    obtain ⟨s, hs, heq⟩ := List.mem_map.mp this
    exact ⟨s, hs, Prod.mk.inj heq⟩
  obtain ⟨-, rfl⟩ := merge_eq_ok_iff.mp h'
  -- nothing is inserted: every key of the output is stored already
  have hnew : (source'.filter fun s => ∀ t ∈ merged, key t ≠ key s) = [] := by
    rw [List.filter_eq_nil_iff]
    intro s' hs' hfresh
    obtain ⟨s, hs, hkey, -⟩ := hmem s' hs'
    exact of_decide_eq_true hfresh s ((mem_of_merge h).mpr (.inl hs)) hkey
  rw [hnew, List.append_nil, List.map_map]
  refine List.map_congr_left fun t ht => ?_
  simp only [Function.comp_apply]
  cases hfind : source'.find? fun s => key s = key t with
  | none => rfl
  | some s' =>
      have hs't : key s' = key t := by simpa using List.find?_some hfind
      obtain ⟨s, hs, hkey, hf⟩ := hmem s' (List.mem_of_find?_eq_some hfind)
      rcases (mem_of_merge h).mp ht with hts | ⟨-, hnone⟩
      · have hst : s = t :=
          List.inj_on_of_nodup_map hsource hs hts (hkey.trans hs't)
        simp [← hst, hf]
      · exact absurd (hkey.trans hs't) (hnone s hs)

end Merge

/-! ## Incremental tables -/

/-- Whether a run of the model is incremental: the table exists and no full
refresh was asked for. -/
def isIncremental (target : Option (List α)) (fullRefresh : Bool) : Bool :=
  target.isSome && !fullRefresh

/-- One run of an incremental model; `query` is told whether the run is
incremental.  The first run and a full refresh create the table from what the
query returns, and check no key. -/
def materialize [DecidableEq κ] (key : α → κ) (target : Option (List α))
    (fullRefresh : Bool) (query : Bool → Except QueryError (List α)) :
    Except QueryError (List α) := do
  let source ← query (isIncremental target fullRefresh)
  match target with
  | some stored => if fullRefresh then .ok source else merge key stored source
  | none => .ok source

section Materialize

variable [DecidableEq κ] {key : α → κ} {target : Option (List α)}
  {fullRefresh : Bool} {query : Bool → Except QueryError (List α)}
  {built : List α}

/-- A completed run either replaced the table or merged into it. -/
theorem materialize_eq_ok_iff :
    materialize key target fullRefresh query = .ok built ↔
      ∃ source, query (isIncremental target fullRefresh) = .ok source ∧
        ((isIncremental target fullRefresh = false ∧ built = source) ∨
          (isIncremental target fullRefresh = true ∧ ∃ stored, target = some stored ∧
            merge key stored source = .ok built)) := by
  unfold materialize
  rw [bind_eq_ok_iff]
  refine exists_congr fun source => and_congr_right fun _ => ?_
  cases target with
  | none => simp [isIncremental, eq_comm]
  | some stored => cases fullRefresh <;> simp [isIncremental, eq_comm]

/-- A query that succeeds without repeating a key is always written. -/
theorem exists_materialize {source : List α}
    (hquery : query (isIncremental target fullRefresh) = .ok source)
    (hsource : (source.map key).Nodup) :
    ∃ built, materialize key target fullRefresh query = .ok built := by
  cases hmode : isIncremental target fullRefresh with
  | false => exact ⟨source, materialize_eq_ok_iff.mpr ⟨source, hquery, .inl ⟨hmode, rfl⟩⟩⟩
  | true =>
      cases target with
      | none => simp [isIncremental] at hmode
      | some stored =>
          obtain ⟨merged, hmerge⟩ := exists_merge stored hsource
          exact ⟨merged, materialize_eq_ok_iff.mpr
            ⟨source, hquery, .inr ⟨hmode, stored, rfl, hmerge⟩⟩⟩

/-- Every row of the table was in it before or is in the output. -/
theorem mem_of_materialize
    (h : materialize key target fullRefresh query = .ok built) {r : α}
    (hr : r ∈ built) :
    (∃ source, query (isIncremental target fullRefresh) = .ok source ∧ r ∈ source) ∨
      (∃ stored, target = some stored ∧ r ∈ stored) := by
  obtain ⟨source, hq, hcase⟩ := materialize_eq_ok_iff.mp h
  rcases hcase with ⟨-, rfl⟩ | ⟨-, stored, rfl, hmerge⟩
  · exact .inl ⟨_, hq, hr⟩
  · rcases (mem_of_merge hmerge).mp hr with hr | ⟨hr, -⟩
    · exact .inl ⟨source, hq, hr⟩
    · exact .inr ⟨stored, rfl, hr⟩

/-- Columns the key determines: a run adds those of its output to those of the
table, or starts again from its output. -/
theorem exists_mem_of_materialize_iff {g : α → γ}
    (h : materialize key target fullRefresh query = .ok built)
    (hkey : ∀ stored source, target = some stored → query true = .ok source →
      ∀ t ∈ stored, ∀ s ∈ source, key s = key t → g s = g t) :
    ∃ source, query (isIncremental target fullRefresh) = .ok source ∧
      ∀ c, (∃ r ∈ built, g r = c) ↔ (∃ s ∈ source, g s = c) ∨
        (fullRefresh = false ∧ ∃ stored, target = some stored ∧ ∃ t ∈ stored, g t = c) := by
  obtain ⟨source, hquery, hcase⟩ := materialize_eq_ok_iff.mp h
  refine ⟨source, hquery, fun c => ?_⟩
  rcases hcase with ⟨hmode, rfl⟩ | ⟨hmode, stored, rfl, hmerge⟩
  · refine (or_iff_left ?_).symm
    rintro ⟨hfull, stored, rfl, -⟩
    simp [isIncremental, hfull] at hmode
  · have hfull : fullRefresh = false := by simpa [isIncremental] using hmode
    rw [exists_mem_of_merge_iff hmerge (hkey stored source rfl (hmode ▸ hquery))]
    simp [hfull]

/-- Running an incremental model again on the table it has just written: where
the query gives the same rows, up to a change `f` of columns outside the key,
the run succeeds again and changes nothing else. -/
theorem materialize_again {f : α → β} {query' : Bool → Except QueryError (List α)}
    (h : materialize key target fullRefresh query = .ok built)
    (hmode : isIncremental target fullRefresh = true)
    (hsource : ∀ source, query true = .ok source → (source.map key).Nodup)
    (hsame : ∀ source, query true = .ok source → ∃ source', query' true = .ok source' ∧
      source'.map (fun s => (key s, f s)) = source.map fun s => (key s, f s)) :
    ∃ built', materialize key (some built) fullRefresh query' = .ok built' ∧
      built'.map f = built.map f := by
  obtain ⟨source, hquery, hcase⟩ := materialize_eq_ok_iff.mp h
  rcases hcase with ⟨hfalse, -⟩ | ⟨-, stored, -, hmerge⟩
  · rw [hmode] at hfalse
    cases hfalse
  rw [hmode] at hquery
  obtain ⟨source', hquery', hrows⟩ := hsame source hquery
  have hkeys : source'.map key = source.map key := by
    simpa [List.map_map, Function.comp_def] using congrArg (List.map Prod.fst) hrows
  obtain ⟨built', hmerge'⟩ := exists_merge built (hkeys ▸ hsource source hquery)
  have hmode' : isIncremental (some built) fullRefresh = true := by
    simp only [isIncremental, Bool.and_eq_true] at hmode ⊢
    exact ⟨rfl, hmode.2⟩
  refine ⟨built', materialize_eq_ok_iff.mpr
    ⟨source', hmode' ▸ hquery', .inr ⟨hmode', built, rfl, hmerge'⟩⟩, ?_⟩
  exact merge_merge hmerge hmerge' (hsource source hquery) hrows

/-- A full refresh replaces the table. -/
theorem materialize_of_fullRefresh (key : α → κ) (target : Option (List α))
    (query : Bool → Except QueryError (List α)) :
    materialize key target true query = query false := by
  rw [materialize, isIncremental, Bool.not_true, Bool.and_false]
  cases target <;> cases query false <;> rfl

/-- The table after a run of the model: a run that fails leaves it as it was. -/
def tableAfter (key : α → κ) (target : Option (List α)) (fullRefresh : Bool)
    (query : Bool → Except QueryError (List α)) : Option (List α) :=
  (materialize key target fullRefresh query).toOption.or target

theorem tableAfter_of_ok (h : materialize key target fullRefresh query = .ok built) :
    tableAfter key target fullRefresh query = some built := by
  simp [tableAfter, h, Except.toOption]

/-- What a run does to a table: nothing when it fails, otherwise it replaces the
table or merges into it. -/
theorem tableAfter_cases (key : α → κ) (target : Option (List α)) (fullRefresh : Bool)
    (query : Bool → Except QueryError (List α)) :
    ((∀ built, materialize key target fullRefresh query ≠ .ok built) ∧
        tableAfter key target fullRefresh query = target) ∨
      (∃ source, isIncremental target fullRefresh = false ∧ query false = .ok source ∧
        tableAfter key target fullRefresh query = some source) ∨
      (∃ stored source merged, isIncremental target fullRefresh = true ∧
        target = some stored ∧ query true = .ok source ∧
        merge key stored source = .ok merged ∧
        tableAfter key target fullRefresh query = some merged) := by
  cases hbuilt : materialize key target fullRefresh query with
  | error e =>
      refine .inl ⟨fun built h => by simp at h, ?_⟩
      simp [tableAfter, hbuilt, Except.toOption]
  | ok built =>
      obtain ⟨source, hquery, hcase⟩ := materialize_eq_ok_iff.mp hbuilt
      rcases hcase with ⟨hmode, rfl⟩ | ⟨hmode, stored, htarget, hmerge⟩
      · exact .inr (.inl ⟨built, hmode, hmode ▸ hquery, tableAfter_of_ok hbuilt⟩)
      · exact .inr (.inr ⟨stored, source, built, hmode, htarget, hmode ▸ hquery, hmerge,
          tableAfter_of_ok hbuilt⟩)

/-- A run keeps the keys of a table distinct, and finds no stored row matched
twice, exactly when its output, if it has one, repeats no key. -/
theorem nodup_tableAfter_iff (key : α → κ) (fullRefresh : Bool)
    (query : Bool → Except QueryError (List α))
    (htarget : ∀ stored, target = some stored → (stored.map key).Nodup) :
    ((∀ rows, tableAfter key target fullRefresh query = some rows → (rows.map key).Nodup) ∧
      ∀ stored, target = some stored → fullRefresh = false → ∀ source, query true = .ok source →
        ∀ t ∈ stored, (source.filter fun s => key s = key t).length ≤ 1) ↔
      ∀ source, query (isIncremental target fullRefresh) = .ok source →
        (source.map key).Nodup := by
  constructor
  · rintro ⟨hrows, hmatch⟩ source hquery
    cases hmode : isIncremental target fullRefresh with
    | false =>
        exact hrows source (tableAfter_of_ok (materialize_eq_ok_iff.mpr
          ⟨source, hquery, .inl ⟨hmode, rfl⟩⟩))
    | true =>
        cases htable : target with
        | none => simp [isIncremental, htable] at hmode
        | some stored =>
            have hfull : fullRefresh = false := by simpa [isIncremental, htable] using hmode
            have hmerge := merge_eq_ok_iff.mpr
              ⟨hmatch stored htable hfull source (hmode ▸ hquery), rfl⟩
            refine (nodup_of_merge_iff hmerge (htarget stored htable)).mp (hrows _ ?_)
            exact tableAfter_of_ok (materialize_eq_ok_iff.mpr
              ⟨source, hquery, .inr ⟨hmode, stored, htable, hmerge⟩⟩)
  · intro hsource
    refine ⟨fun rows hrows => ?_, fun stored htable hfull source hquery => ?_⟩
    · rcases tableAfter_cases key target fullRefresh query with ⟨-, hafter⟩ |
        ⟨source, hmode, hquery, hafter⟩ |
        ⟨stored, source, merged, hmode, htable, hquery, hmerge, hafter⟩
      · exact htarget rows (hafter.symm.trans hrows)
      · rw [← Option.some.inj (hafter.symm.trans hrows)]
        exact hsource source (hmode ▸ hquery)
      · rw [← Option.some.inj (hafter.symm.trans hrows)]
        exact nodup_of_merge hmerge (htarget stored htable) (hsource source (hmode ▸ hquery))
    · have hmode : isIncremental target fullRefresh = true := by
        simp [isIncremental, htable, hfull]
      obtain ⟨merged, hmerge⟩ := exists_merge stored (hsource source (hmode ▸ hquery))
      exact (merge_eq_ok_iff.mp hmerge).1

/-- What holds of every output row holds of every row of the table. -/
theorem forall_mem_tableAfter {P : α → Prop}
    (hquery : ∀ source, query (isIncremental target fullRefresh) = .ok source →
      ∀ r ∈ source, P r)
    (htarget : ∀ stored, target = some stored → ∀ r ∈ stored, P r) :
    ∀ rows, tableAfter key target fullRefresh query = some rows → ∀ r ∈ rows, P r := by
  intro rows hrows r hr
  rcases tableAfter_cases key target fullRefresh query with ⟨-, hafter⟩ |
    ⟨source, hmode, hsource, hafter⟩ | ⟨stored, source, merged, hmode, hstored, hsource,
      hmerge, hafter⟩
  · exact htarget rows (hafter.symm.trans hrows) r hr
  · obtain rfl := Option.some.inj (hafter.symm.trans hrows)
    exact hquery _ (hmode ▸ hsource) r hr
  · obtain rfl := Option.some.inj (hafter.symm.trans hrows)
    rcases (mem_of_merge hmerge).mp hr with hr | ⟨hr, -⟩
    · exact hquery _ (hmode ▸ hsource) r hr
    · exact htarget stored hstored r hr

end Materialize

/-! ## Sequences of runs -/

/-- The state after the first `n` of a sequence of runs. -/
def stateAfter (step : ι → σ → σ) (runs : ℕ → ι) (init : σ) : ℕ → σ
  | 0 => init
  | n + 1 => step (runs n) (stateAfter step runs init n)

/-- What holds before the first run and is kept by every run holds after every
run.  `P` may mention the number of runs, as statements about what was visible
so far do. -/
theorem stateAfter_invariant {step : ι → σ → σ} {runs : ℕ → ι} {init : σ}
    {P : ℕ → σ → Prop} (hinit : P 0 init)
    (hstep : ∀ n s, P n s → P (n + 1) (step (runs n) s)) :
    ∀ n, P n (stateAfter step runs init n)
  | 0 => hinit
  | n + 1 => hstep n _ (stateAfter_invariant hinit hstep n)

/-- The state after `n` runs depends on these runs only. -/
theorem stateAfter_congr (step : ι → σ → σ) {runs runs' : ℕ → ι} (init : σ) {n : ℕ}
    (h : ∀ m < n, runs m = runs' m) :
    stateAfter step runs init n = stateAfter step runs' init n := by
  induction n with
  | zero => rfl
  | succ n ih =>
      rw [stateAfter, stateAfter, ih fun m hm => h m (hm.trans n.lt_succ_self),
        h n n.lt_succ_self]

/-- The later runs go on from the state after the earlier ones. -/
theorem stateAfter_add (step : ι → σ → σ) (runs : ℕ → ι) (init : σ) (m n : ℕ) :
    stateAfter step runs init (m + n) =
      stateAfter step (fun k => runs (m + k)) (stateAfter step runs init m) n := by
  induction n with
  | zero => rfl
  | succ n ih => rw [← Nat.add_assoc, stateAfter, stateAfter, ih]

/-- What holds before the first run holds after each of `n` runs exactly when
every run meets the condition under which it is kept. -/
theorem forall_le_iff_forall_lt {P C : ℕ → Prop} {n : ℕ} (hinit : P 0)
    (hstep : ∀ m < n, P m → (P (m + 1) ↔ C m)) :
    (∀ m ≤ n, P m) ↔ ∀ m < n, C m := by
  constructor
  · intro h m hm
    exact (hstep m hm (h m hm.le)).mp (h (m + 1) hm)
  · intro h m
    induction m with
    | zero => exact fun _ => hinit
    | succ m ih => exact fun hm => (hstep m hm (ih (m.le_succ.trans hm))).mpr (h m hm)

end Sql
