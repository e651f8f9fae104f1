import BinanceElt.Models.FactDailyTickersQuantity
import BinanceElt.Sql.Merge

/-!
# Merging into `fact_daily_tickers_quantity`

The output of an incremental run is the part of the portfolio from some day on,
with the change columns `lag` gives within this part.  Merged into the rows of
an older portfolio it leaves those of the new one when no stored day changes its
quantity and the first day of the part changes nothing with its previous day.

## Main results

* `isLagDay_fromDay`, `isLagDay_of_lt` — previous days in and below the window.
* `merge_eq_recomputed_iff` — when one merge leaves what a full query returns.
-/

namespace BinanceElt

variable {Id : Type} [DecidableEq Id] (K : SurrogateKey Id)

/-! ## One merge -/

/-- `c` is a row of `change` over this portfolio. -/
def IsChangeOf (portfolio : List (CurrentPortfolio Id)) (c : Change Id) : Prop :=
  ∃ p ∈ portfolio, ∃ q, IsLagDay portfolio p q ∧ changeRow (p, q) = .ok c

/-- Every row of a portfolio has its change columns. -/
def HasChanges (portfolio : List (CurrentPortfolio Id)) : Prop :=
  ∀ p ∈ portfolio, ∀ q, IsLagDay portfolio p q → ∃ c, changeRow (p, q) = .ok c

/-- The table holds these rows, under their keys.  It may hold a row more than
once, and with any `updated_timestamp`. -/
structure Holds (portfolio : List (CurrentPortfolio Id))
    (table : List (FactDailyTickersQuantity Id)) : Prop where
  exists_row_iff : ∀ c, (∃ r ∈ table, r.toChange = c) ↔ IsChangeOf portfolio c
  id_eq : ∀ r ∈ table, r.id = quantityId K r.symbolId r.dateId r.quantity

section Congr

variable {portfolio portfolio' : List (CurrentPortfolio Id)}

theorem HasChanges.congr (h : ∀ p, p ∈ portfolio ↔ p ∈ portfolio')
    (hchanges : HasChanges portfolio) : HasChanges portfolio' := by
  intro p hp q hq
  refine hchanges p ((h p).mpr hp) q (hq.congr fun r => ?_)
  rw [List.mem_filter, List.mem_filter, h r]

theorem IsChangeOf.congr (h : ∀ p, p ∈ portfolio ↔ p ∈ portfolio') {c : Change Id}
    (hc : IsChangeOf portfolio c) : IsChangeOf portfolio' c := by
  obtain ⟨p, hp, q, hq, hrow⟩ := hc
  refine ⟨p, (h p).mp hp, q, hq.congr fun r => ?_, hrow⟩
  rw [List.mem_filter, List.mem_filter, h r]

theorem Holds.congr (h : ∀ p, p ∈ portfolio ↔ p ∈ portfolio')
    {table : List (FactDailyTickersQuantity Id)} (htable : Holds K portfolio table) :
    Holds K portfolio' table where
  exists_row_iff c := (htable.exists_row_iff c).trans
    ⟨fun hc => hc.congr h, fun hc => hc.congr fun p => (h p).symm⟩
  id_eq := htable.id_eq

end Congr

section Merge

/-- The part of a portfolio from a day on. -/
def fromDay (bound : ℤ) (portfolio : List (CurrentPortfolio Id)) :
    List (CurrentPortfolio Id) :=
  portfolio.filter fun p => bound ≤ p.dateId

/-- What an incremental run does not disturb: stored days keep their quantity,
and the first day of the window loses nothing with its previous day.  `old` is
the portfolio the table was computed from, `new` the one of all snapshots there
are now, and `bound` the first day of the window. -/
structure UndisturbedFrom (bound : ℤ) (old new : List (CurrentPortfolio Id)) : Prop where
  quantity : ∀ p ∈ old, bound ≤ p.dateId → p ∈ new
  firstDay : ∀ p ∈ new, ∀ q ∈ new, bound ≤ p.dateId → q.dateId < bound →
    IsLagDay new p (some q) → IsSmallStep p.quantity q.quantity

variable {bound : ℤ} {old new : List (CurrentPortfolio Id)}

omit [DecidableEq Id] in
theorem changeRow_fst {p : CurrentPortfolio Id} {q : Option (CurrentPortfolio Id)}
    {c : Change Id} (h : changeRow (p, q) = .ok c) : c.toCurrentPortfolio = p := by
  obtain ⟨_, -, rfl⟩ := changeRow_eq_ok_iff.mp h
  rfl

omit [DecidableEq Id] in
/-- The row of a day without a previous day. -/
theorem changeRow_none (p : CurrentPortfolio Id) :
    changeRow (p, none) = .ok ⟨p, 0, 0⟩ :=
  changeRow_eq_ok_iff.mpr ⟨0, by simp, by simp⟩

omit [DecidableEq Id] in
theorem changeRow_eq_zero_iff {p q : CurrentPortfolio Id} :
    changeRow (p, some q) = .ok ⟨p, 0, 0⟩ ↔ IsSmallStep p.quantity q.quantity := by
  rw [isSmallStep_iff, changeRow_eq_ok_iff]
  constructor
  · rintro ⟨percentage, hok, heq⟩
    obtain ⟨-, hvalue, rfl⟩ := Change.mk.inj heq
    exact ⟨hvalue.symm, hok⟩
  · rintro ⟨hvalue, hok⟩
    exact ⟨0, hok, by simp only [Option.bind_some, hvalue]⟩

/-- The previous day in the window of a run. -/
theorem isLagDay_fromDay {p : CurrentPortfolio Id} {q : Option (CurrentPortfolio Id)}
    (h : IsLagDay new p q) :
    IsLagDay (fromDay bound new) p (q.filter fun r => bound ≤ r.dateId) := by
  have hswap : ((fromDay bound new).filter fun r => r.symbolId = p.symbolId) =
      (new.filter fun r => r.symbolId = p.symbolId).filter fun r => bound ≤ r.dateId := by
    rw [fromDay, List.filter_filter, List.filter_filter]
    exact List.filter_congr fun r _ => Bool.and_comm _ _
  unfold IsLagDay
  rw [hswap]
  exact Sql.isPrevious_window h

theorem isLagDay_fromDay_none {p q : CurrentPortfolio Id} (h : IsLagDay new p (some q))
    (hq : q.dateId < bound) : IsLagDay (fromDay bound new) p none := by
  have hfilter : (some q).filter (fun r => decide (bound ≤ r.dateId)) = none := by
    simpa [Option.filter] using hq
  rw [← hfilter]
  exact isLagDay_fromDay h

/-- Below the window the previous day is the one it was. -/
theorem isLagDay_of_lt {p : CurrentPortfolio Id} {q : Option (CurrentPortfolio Id)}
    (hbelow : ∀ r : CurrentPortfolio Id, r.dateId < bound → (r ∈ old ↔ r ∈ new))
    (hp : p.dateId < bound) : IsLagDay old p q ↔ IsLagDay new p q := by
  have hagree : ∀ r : CurrentPortfolio Id, r.dateId < p.dateId →
      (r ∈ old.filter (fun r => r.symbolId = p.symbolId) ↔
        r ∈ new.filter fun r => r.symbolId = p.symbolId) := by
    intro r hr
    rw [List.mem_filter, List.mem_filter, hbelow r (hr.trans hp)]
  exact ⟨fun h => h.congr_lt hagree, fun h => h.congr_lt fun r hr => (hagree r hr).symm⟩

/-- Where nothing is disturbed, a day of the window has the same row whether its
previous day is in the window or not.  A previous day that the window cuts off
makes the incremental query show 0, which `h` says is what the step from it
rounds to. -/
theorem UndisturbedFrom.changeRow_filter (h : UndisturbedFrom bound old new)
    {p : CurrentPortfolio Id} (hp : p ∈ new) (hbound : bound ≤ p.dateId)
    {q : Option (CurrentPortfolio Id)} (hq : IsLagDay new p q) :
    changeRow (p, q.filter fun r => bound ≤ r.dateId) = changeRow (p, q) := by
  cases q with
  | none => rfl
  | some r =>
      by_cases hr : bound ≤ r.dateId
      · simp [Option.filter, hr]
      · rw [changeRow_eq_zero_iff.mpr
          (h.firstDay p hp r hq.mem hbound (not_le.mp hr) hq), ← changeRow_none]
        simp [Option.filter, hr]

section Table

variable {stored source merged : List (FactDailyTickersQuantity Id)}
  (hstored : Holds K old stored) (hsource : Holds K (fromDay bound new) source)
  (hmerge : Sql.merge (fun r => r.id) stored source = .ok merged)

omit [DecidableEq Id] in
theorem quantityId_inj {r s : FactDailyTickersQuantity Id} :
    quantityId K s.symbolId s.dateId s.quantity =
        quantityId K r.symbolId r.dateId r.quantity ↔
      s.toCurrentPortfolio = r.toCurrentPortfolio := by
  obtain ⟨⟨⟨symbolId, dateId, quantity⟩, _, _⟩, _, _⟩ := r
  obtain ⟨⟨⟨symbolId', dateId', quantity'⟩, _, _⟩, _, _⟩ := s
  simp [quantityId]

include hsource in
/-- An output row lies in the window. -/
theorem Holds.mem_fromDay {s : FactDailyTickersQuantity Id} (hs : s ∈ source) :
    s.toCurrentPortfolio ∈ new ∧ bound ≤ s.dateId := by
  obtain ⟨p, hp, q, -, hrow⟩ := (hsource.exists_row_iff _).mp ⟨s, hs, rfl⟩
  obtain ⟨hp, hbound⟩ := List.mem_filter.mp hp
  rw [changeRow_fst hrow]
  exact ⟨hp, by simpa [changeRow_fst hrow] using hbound⟩

include hstored hsource hmerge

/-- Agreement with the full query leaves nothing disturbed. -/
theorem undisturbed_of_recomputed
    (hkeys : (new.map fun p => (p.symbolId, p.dateId)).Nodup) (hold : HasChanges old)
    (hagree : ∀ c, (∃ r ∈ merged, r.toChange = c) ↔ IsChangeOf new c) :
    UndisturbedFrom bound old new where
  quantity := by
    intro p hp hbound
    obtain ⟨q, hq⟩ := Sql.exists_isPrevious CurrentPortfolio.dateId
      (old.filter fun r => r.symbolId = p.symbolId) p
    obtain ⟨c, hc⟩ := hold p hp q hq
    obtain ⟨r, hr, rfl⟩ := (hstored.exists_row_iff c).mpr ⟨p, hp, q, hq, hc⟩
    by_contra hnew
    -- the stale row is not replaced: no output row has its quantity
    have hkept : ∀ s ∈ source, s.id ≠ r.id := by
      intro s hs hid
      rw [hsource.id_eq s hs, hstored.id_eq r hr, quantityId_inj, changeRow_fst hc] at hid
      exact hnew (hid ▸ (hsource.mem_fromDay K hs).1)
    obtain ⟨p', hp', _, -, hc'⟩ :=
      (hagree _).mp ⟨r, (Sql.mem_of_merge hmerge).mpr (.inr ⟨hr, hkept⟩), rfl⟩
    have hpp' : p' = p := (changeRow_fst hc').symm.trans (changeRow_fst hc)
    exact hnew (hpp' ▸ hp')
  firstDay := by
    intro p hp q _ hbound hqbound hlag
    have hlag' := isLagDay_fromDay_none hlag hqbound
    obtain ⟨s, hs, hsrow⟩ := (hsource.exists_row_iff ⟨p, 0, 0⟩).mpr
      ⟨p, List.mem_filter.mpr ⟨hp, by simpa using hbound⟩, none, hlag', changeRow_none p⟩
    obtain ⟨p', hp', q', hq', hrow⟩ :=
      (hagree _).mp ⟨s, (Sql.mem_of_merge hmerge).mpr (.inl hs), hsrow⟩
    obtain rfl : p = p' := changeRow_fst hrow
    rw [hq'.unique hkeys hlag] at hrow
    exact changeRow_eq_zero_iff.mp hrow

omit hstored hsource hmerge in
/-- Where nothing is disturbed, the full query succeeds. -/
theorem hasChanges_of_undisturbed
    (hbelow : ∀ r : CurrentPortfolio Id, r.dateId < bound → (r ∈ old ↔ r ∈ new))
    (hold : HasChanges old) (hwindow : HasChanges (fromDay bound new))
    (h : UndisturbedFrom bound old new) : HasChanges new := by
  intro p hp q hq
  by_cases hbound : bound ≤ p.dateId
  · rw [← h.changeRow_filter hp hbound hq]
    exact hwindow p (List.mem_filter.mpr ⟨hp, by simpa using hbound⟩) _ (isLagDay_fromDay hq)
  · have hlt := not_le.mp hbound
    exact hold p ((hbelow p hlt).mpr hp) q ((isLagDay_of_lt hbelow hlt).mpr hq)

omit hstored hsource hmerge in
/-- Where nothing is disturbed, the rows of the window are those of the full
query. -/
theorem UndisturbedFrom.isChangeOf_fromDay (h : UndisturbedFrom bound old new)
    (hkeys : (new.map fun p => (p.symbolId, p.dateId)).Nodup) {c : Change Id} :
    IsChangeOf (fromDay bound new) c ↔ IsChangeOf new c ∧ bound ≤ c.dateId := by
  constructor
  · rintro ⟨p, hp, q, hq, hc⟩
    obtain ⟨hp, hbound⟩ := List.mem_filter.mp hp
    have hbound : bound ≤ p.dateId := by simpa using hbound
    obtain ⟨q', hq'⟩ := Sql.exists_isPrevious CurrentPortfolio.dateId
      (new.filter fun r => r.symbolId = p.symbolId) p
    have hqq' := hq.unique (hkeys.sublist (List.filter_sublist.map _))
      (isLagDay_fromDay hq')
    rw [hqq', h.changeRow_filter hp hbound hq'] at hc
    exact ⟨⟨p, hp, q', hq', hc⟩, by rwa [changeRow_fst hc]⟩
  · rintro ⟨⟨p, hp, q, hq, hc⟩, hbound⟩
    rw [changeRow_fst hc] at hbound
    rw [← h.changeRow_filter hp hbound hq] at hc
    exact ⟨p, List.mem_filter.mpr ⟨hp, by simpa using hbound⟩, _, isLagDay_fromDay hq, hc⟩

/-- Where nothing is disturbed, the merged table agrees with the full query. -/
theorem recomputed_of_undisturbed
    (hkeys : (new.map fun p => (p.symbolId, p.dateId)).Nodup)
    (hbelow : ∀ r : CurrentPortfolio Id, r.dateId < bound → (r ∈ old ↔ r ∈ new))
    (hwindow : HasChanges (fromDay bound new)) (h : UndisturbedFrom bound old new)
    (c : Change Id) : (∃ r ∈ merged, r.toChange = c) ↔ IsChangeOf new c := by
  constructor
  · rintro ⟨r, hr, rfl⟩
    rcases (Sql.mem_of_merge hmerge).mp hr with hr | ⟨hr, hkept⟩
    · exact ((h.isChangeOf_fromDay hkeys).mp ((hsource.exists_row_iff _).mp ⟨r, hr, rfl⟩)).1
    · obtain ⟨p, hp, q, hq, hc⟩ := (hstored.exists_row_iff _).mp ⟨r, hr, rfl⟩
      have hlt : p.dateId < bound := by
        by_contra hge
        -- the output has a row of this day with the same quantity
        have hpwindow : p ∈ fromDay bound new := List.mem_filter.mpr
          ⟨h.quantity p hp (not_lt.mp hge), by simpa using hge⟩
        obtain ⟨q', hq'⟩ := Sql.exists_isPrevious CurrentPortfolio.dateId
          ((fromDay bound new).filter fun r => r.symbolId = p.symbolId) p
        obtain ⟨c', hc'⟩ := hwindow p hpwindow q' hq'
        obtain ⟨s, hs, rfl⟩ := (hsource.exists_row_iff c').mpr ⟨p, hpwindow, q', hq', hc'⟩
        refine hkept s hs ?_
        rw [hsource.id_eq s hs, hstored.id_eq r hr, quantityId_inj, changeRow_fst hc,
          changeRow_fst hc']
      exact ⟨p, (hbelow p hlt).mp hp, q, (isLagDay_of_lt hbelow hlt).mp hq, hc⟩
  · intro hc
    by_cases hbound : bound ≤ c.dateId
    · obtain ⟨s, hs, hsc⟩ := (hsource.exists_row_iff c).mpr
        ((h.isChangeOf_fromDay hkeys).mpr ⟨hc, hbound⟩)
      exact ⟨s, (Sql.mem_of_merge hmerge).mpr (.inl hs), hsc⟩
    · obtain ⟨p, hp, q, hq, hrow⟩ := hc
      have hlt : p.dateId < bound := by rwa [changeRow_fst hrow, not_le] at hbound
      obtain ⟨r, hr, rfl⟩ := (hstored.exists_row_iff c).mpr
        ⟨p, (hbelow p hlt).mpr hp, q, (isLagDay_of_lt hbelow hlt).mpr hq, hrow⟩
      refine ⟨r, (Sql.mem_of_merge hmerge).mpr (.inr ⟨hr, fun s hs hid => ?_⟩), rfl⟩
      -- output rows lie in the window
      rw [hsource.id_eq s hs, hstored.id_eq r hr, quantityId_inj] at hid
      have hsday := (hsource.mem_fromDay K hs).2
      rw [hid] at hsday
      exact hbound hsday

end Table

/-- Merging the rows of the window into the rows of the old portfolio leaves the
rows of the new one exactly when nothing is disturbed.

`old` and `new` are the portfolios before and after new snapshots have come in,
and `hbelow` says that these lie in the window.  `hold` and `hwindow` say that
the query of the run before and the one of this run succeed, and `hstored` and
`hsource` what these have given; `hkeys` is one row for a ticker and a day. -/
theorem merge_eq_recomputed_iff
    (hkeys : (new.map fun p => (p.symbolId, p.dateId)).Nodup)
    (hbelow : ∀ r : CurrentPortfolio Id, r.dateId < bound → (r ∈ old ↔ r ∈ new))
    {stored source merged : List (FactDailyTickersQuantity Id)}
    (hold : HasChanges old) (hstored : Holds K old stored)
    (hwindow : HasChanges (fromDay bound new)) (hsource : Holds K (fromDay bound new) source)
    (hmerge : Sql.merge (fun r => r.id) stored source = .ok merged) :
    (HasChanges new ∧ ∀ c, (∃ r ∈ merged, r.toChange = c) ↔ IsChangeOf new c) ↔
      UndisturbedFrom bound old new :=
  ⟨fun h => undisturbed_of_recomputed K hstored hsource hmerge hkeys hold h.2,
    fun h => ⟨hasChanges_of_undisturbed hbelow hold hwindow h,
      recomputed_of_undisturbed K hstored hsource hmerge hkeys hbelow hwindow h⟩⟩

end Merge

end BinanceElt
