import BinanceElt.Sql.Merge

/-!
# Where the rows of an incremental table come from

A run of an incremental model writes the output of its query, or fails and
writes nothing.  A row is in the table after a sequence of runs exactly when one
of them wrote it and no later one replaced the table or wrote a row with the same
key; rows that no output has the key of stay as they are, in place.

## Main results

* `contains_tableAfter_iff` — what one run leaves.
* `contains_iff_lastWrite` — what a sequence of runs leaves: the last writer of a
  key wins.
* `filter_table_eq` — the rows of a kind that no run writes are left alone.
-/

namespace Sql

variable {α κ : Type*} [DecidableEq κ]

/-! ## One run -/

/-- The table exists and has this row. -/
def Contains (table : Option (List α)) (r : α) : Prop := ∃ rows, table = some rows ∧ r ∈ rows

/-- The run succeeds and writes these rows, that is, the output of its query:
into the table as it is when the run is incremental, or as the new table. -/
def Writes (key : α → κ) (target : Option (List α)) (fullRefresh : Bool)
    (query : Bool → Except QueryError (List α)) (source : List α) : Prop :=
  query (isIncremental target fullRefresh) = .ok source ∧
    ∃ built, materialize key target fullRefresh query = .ok built

/-- The run leaves a row with this key alone, should there be one: it writes
nothing, or merges rows with other keys. -/
def Spares (key : α → κ) (target : Option (List α)) (fullRefresh : Bool)
    (query : Bool → Except QueryError (List α)) (k : κ) : Prop :=
  ∀ source, Writes key target fullRefresh query source →
    fullRefresh = false ∧ ∀ s ∈ source, key s ≠ k

section Run

variable {key : α → κ} {target : Option (List α)} {fullRefresh : Bool}
  {query : Bool → Except QueryError (List α)}

theorem Writes.unique {source source' : List α} (h : Writes key target fullRefresh query source)
    (h' : Writes key target fullRefresh query source') : source = source' :=
  Except.ok.inj (h.1.symm.trans h'.1)

/-- A row of the table has just been written, or was there and has been
spared. -/
theorem contains_tableAfter_iff {r : α} :
    Contains (tableAfter key target fullRefresh query) r ↔
      (∃ source, Writes key target fullRefresh query source ∧ r ∈ source) ∨
        (Contains target r ∧ Spares key target fullRefresh query (key r)) := by
  rcases tableAfter_cases key target fullRefresh query with ⟨hfails, hafter⟩ |
    ⟨source, hmode, hquery, hafter⟩ |
    ⟨stored, source, merged, hmode, rfl, hquery, hmerge, hafter⟩
  · have hnone : ∀ source, ¬ Writes key target fullRefresh query source :=
      fun _ ⟨_, built, hbuilt⟩ => hfails built hbuilt
    rw [hafter]
    constructor
    · exact fun h => .inr ⟨h, fun source hw => absurd hw (hnone source)⟩
    · rintro (⟨source, hw, -⟩ | ⟨h, -⟩)
      · exact absurd hw (hnone source)
      · exact h
  · have hwrites : Writes key target fullRefresh query source :=
      ⟨hmode ▸ hquery, source, materialize_eq_ok_iff.mpr ⟨source, hmode ▸ hquery,
        .inl ⟨hmode, rfl⟩⟩⟩
    rw [hafter]
    constructor
    · rintro ⟨rows, hrows, hr⟩
      exact .inl ⟨source, hwrites, (Option.some.inj hrows) ▸ hr⟩
    · rintro (⟨source', hw, hr⟩ | ⟨⟨stored, rfl, -⟩, hspares⟩)
      · exact ⟨source, rfl, hwrites.unique hw ▸ hr⟩
      · -- a table that is there is replaced by a full refresh only
        have hfull := (hspares source hwrites).1
        simp [isIncremental, hfull] at hmode
  · have hwrites : Writes key (some stored) fullRefresh query source :=
      ⟨hmode ▸ hquery, merged, materialize_eq_ok_iff.mpr ⟨source, hmode ▸ hquery,
        .inr ⟨hmode, stored, rfl, hmerge⟩⟩⟩
    have hfull : fullRefresh = false := by simpa [isIncremental] using hmode
    rw [hafter]
    constructor
    · rintro ⟨rows, hrows, hr⟩
      obtain rfl := Option.some.inj hrows
      rcases (mem_of_merge hmerge).mp hr with hr | ⟨hr, hnone⟩
      · exact .inl ⟨source, hwrites, hr⟩
      · exact .inr ⟨⟨stored, rfl, hr⟩, fun source' hw => ⟨hfull, hwrites.unique hw ▸ hnone⟩⟩
    · rintro (⟨source', hw, hr⟩ | ⟨⟨stored', hstored, hr⟩, hspares⟩)
      · exact ⟨merged, rfl, (mem_of_merge hmerge).mpr (.inl (hwrites.unique hw ▸ hr))⟩
      · obtain rfl := Option.some.inj hstored
        exact ⟨merged, rfl, (mem_of_merge hmerge).mpr (.inr ⟨hr, (hspares source hwrites).2⟩)⟩

/-- Rows of a kind that the output has none of, and shares no key with, stay in
place. -/
theorem filter_tableAfter_eq {p : α → Bool} {stored : List α} (hfull : fullRefresh = false)
    (hsource : ∀ source, query true = .ok source → ∀ s ∈ source,
      p s = false ∧ ∀ t ∈ stored, p t = true → key s ≠ key t) :
    ∃ rows, tableAfter key (some stored) fullRefresh query = some rows ∧
      rows.filter p = stored.filter p := by
  rcases tableAfter_cases key (some stored) fullRefresh query with ⟨-, hafter⟩ |
    ⟨source, hmode, -, -⟩ | ⟨stored', source, merged, -, hstored, hquery, hmerge, hafter⟩
  · exact ⟨stored, hafter, rfl⟩
  · simp [isIncremental, hfull] at hmode
  · obtain rfl := Option.some.inj hstored
    refine ⟨merged, hafter, ?_⟩
    obtain ⟨-, rfl⟩ := merge_eq_ok_iff.mp hmerge
    have hnew : (source.filter fun s => ∀ t ∈ stored, key t ≠ key s).filter p = [] := by
      refine List.filter_eq_nil_iff.mpr fun s hs => ?_
      rw [(hsource source hquery s (List.mem_of_mem_filter hs)).1]
      exact Bool.false_ne_true
    rw [List.filter_append, hnew, List.append_nil, List.filter_map]
    -- a replaced row is of the other kind before and after
    have hkind : ∀ t ∈ stored, p ((source.find? fun s => key s = key t).getD t) = p t ∧
        (p t = true → (source.find? fun s => key s = key t).getD t = t) := by
      intro t ht
      cases hfind : source.find? fun s => key s = key t with
      | none => exact ⟨rfl, fun _ => rfl⟩
      | some s =>
          obtain ⟨hs, hkeys⟩ := hsource source hquery s (List.mem_of_find?_eq_some hfind)
          have hpt : p t = false := by
            by_contra hpt
            exact hkeys t ht (by simpa using hpt) (by simpa using List.find?_some hfind)
          simp [hs, hpt]
    have hsame : (stored.filter (p ∘ fun t => (source.find? fun s => key s = key t).getD t)) =
        stored.filter p := List.filter_congr fun t ht => (hkind t ht).1
    rw [hsame]
    refine (List.map_congr_left fun t ht => ?_).trans (List.map_id _)
    exact (hkind t (List.mem_of_mem_filter ht)).2 (List.mem_filter.mp ht).2

end Run

/-! ## Sequences of runs -/

section Runs

variable {key : α → κ} (table : ℕ → Option (List α)) {fullRefresh : ℕ → Bool}
  {query : ℕ → Bool → Except QueryError (List α)}

/-- One of the first `n` runs wrote the row, and the later ones spared it. -/
def LastWrite (key : α → κ) (table : ℕ → Option (List α)) (fullRefresh : ℕ → Bool)
    (query : ℕ → Bool → Except QueryError (List α)) (n : ℕ) (r : α) : Prop :=
  ∃ m < n, (∃ source, Writes key (table m) (fullRefresh m) (query m) source ∧ r ∈ source) ∧
    ∀ k, m < k → k < n → Spares key (table k) (fullRefresh k) (query k) (key r)

/-- One more run writes the row, or spares what was written before. -/
theorem lastWrite_succ {n : ℕ} {r : α} : LastWrite key table fullRefresh query (n + 1) r ↔
    (∃ source, Writes key (table n) (fullRefresh n) (query n) source ∧ r ∈ source) ∨
      (LastWrite key table fullRefresh query n r ∧
        Spares key (table n) (fullRefresh n) (query n) (key r)) := by
  constructor
  · rintro ⟨m, hm, hwrites, hspares⟩
    rcases (Nat.lt_succ_iff.mp hm).eq_or_lt with rfl | hmn
    · exact .inl hwrites
    · exact .inr ⟨⟨m, hmn, hwrites, fun k hmk hkn => hspares k hmk (hkn.trans n.lt_succ_self)⟩,
        hspares n hmn n.lt_succ_self⟩
  · rintro (hwrites | ⟨⟨m, hmn, hwrites, hspares⟩, hlast⟩)
    · exact ⟨n, n.lt_succ_self, hwrites, fun k hnk hkn => absurd (Nat.lt_succ_iff.mp hkn)
        (not_le_of_gt hnk)⟩
    · refine ⟨m, hmn.trans n.lt_succ_self, hwrites, fun k hmk hkn => ?_⟩
      rcases (Nat.lt_succ_iff.mp hkn).eq_or_lt with rfl | hkn
      · exact hlast
      · exact hspares k hmk hkn

/-- The rows of a table that starts missing are those whose key was last written
with them. -/
theorem contains_iff_lastWrite (hzero : table 0 = none)
    (hsucc : ∀ n, table (n + 1) = tableAfter key (table n) (fullRefresh n) (query n))
    (n : ℕ) (r : α) : Contains (table n) r ↔ LastWrite key table fullRefresh query n r := by
  induction n with
  | zero =>
      rw [hzero]
      constructor
      · rintro ⟨rows, hrows, -⟩
        cases hrows
      · rintro ⟨m, hm, -⟩
        exact absurd hm m.not_lt_zero
  | succ n ih => rw [hsucc, contains_tableAfter_iff, lastWrite_succ, ih]

/-- The rows of a kind that no run has in its output, and no run shares a key
with, are the same before and after.  `hsource` is asked of the keys that are
stored at the time, so that it need not hold of keys in general. -/
theorem filter_table_eq {p : α → Bool} {m n : ℕ}
    (hsucc : ∀ n, table (n + 1) = tableAfter key (table n) (fullRefresh n) (query n))
    (hmn : m ≤ n) (hfull : ∀ k, m ≤ k → k < n → fullRefresh k = false)
    (hsource : ∀ k, m ≤ k → k < n → ∀ source, query k true = .ok source → ∀ s ∈ source,
      p s = false ∧ ∀ t, Contains (table k) t → p t = true → key s ≠ key t)
    {stored : List α} (hstored : table m = some stored) :
    ∃ rows, table n = some rows ∧ rows.filter p = stored.filter p := by
  induction n, hmn using Nat.le_induction with
  | base => exact ⟨stored, hstored, rfl⟩
  | succ n hmn ih =>
      obtain ⟨rows, hrows, hsame⟩ := ih (fun k hmk hkn => hfull k hmk (hkn.trans n.lt_succ_self))
        fun k hmk hkn => hsource k hmk (hkn.trans n.lt_succ_self)
      have hspared : ∀ source, query n true = .ok source → ∀ s ∈ source,
          p s = false ∧ ∀ t ∈ rows, p t = true → key s ≠ key t := fun source hquery s hs =>
        ⟨(hsource n hmn n.lt_succ_self source hquery s hs).1, fun t ht =>
          (hsource n hmn n.lt_succ_self source hquery s hs).2 t ⟨rows, hrows, ht⟩⟩
      obtain ⟨rows', hrows', hsame'⟩ :=
        filter_tableAfter_eq (hfull n hmn n.lt_succ_self) hspared
      exact ⟨rows', by rw [hsucc, hrows, hrows'], hsame'.trans hsame⟩

end Runs

end Sql
