import Mathlib.Data.List.Dedup
import Mathlib.Data.List.Forall2
import Mathlib.Data.List.ReduceOption
import Mathlib.Data.Option.NAry
import Mathlib.Data.Rat.Floor

/-!
# Bags of rows: conditions, joins and grouping

A table, and every intermediate result of a query, is the list of its rows.
The order of the list carries no meaning; the number of occurrences does,
because an average counts a row as often as a join repeats it.

A nullable column is an `Option`.  A condition over nullable columns is an
`Option Bool`, `none` standing for *unknown*; `WHERE` and `ON` keep a row only
when the condition is true (`holds`).

## Main results

* `mem_innerJoin`, `mem_leftJoin` — which pairs a join produces.
* `map_fst_filter_innerJoin` — a join restricted to one right row neither repeats
  nor multiplies left rows.
* `mem_groupBy`, `nodup_groupBy` — the groups of `GROUP BY`, one per key.
-/

namespace Sql

universe u

variable {α β γ κ : Type*}

/-- The errors that abort a statement.  A statement that is aborted writes
nothing. -/
inductive QueryError where
  /-- `LEFT` called with a negative length. -/
  | negativeLength
  /-- The `/` operator applied to a zero denominator. -/
  | divisionByZero
  /-- `TIMESTAMP_MILLIS` called with a number outside the range of `TIMESTAMP`. -/
  | timestampOutOfRange
  /-- `MERGE` found several source rows for one target row. -/
  | mergeMultipleMatch
deriving DecidableEq, Repr

/-! ## Conditions over nullable columns -/

/-- `x = y`, unknown when one side is null. -/
def eq [DecidableEq α] (x y : Option α) : Option Bool :=
  Option.map₂ (fun a b => decide (a = b)) x y

/-- `x > y` against a literal, unknown when the column is null. -/
def gt (x : Option ℚ) (y : ℚ) : Option Bool := x.map fun a => decide (y < a)

/-- `x >= y` against a constant, unknown when the column is null. -/
def ge (x : Option ℤ) (y : ℤ) : Option Bool := x.map fun a => decide (y ≤ a)

/-- `OR`: true as soon as one side is, even when the other is unknown. -/
def or : Option Bool → Option Bool → Option Bool
  | some true, _ => some true
  | _, some true => some true
  | some false, some false => some false
  | _, _ => none

/-- What `WHERE` and `ON` ask of a condition. -/
def holds (c : Option Bool) : Bool := c == some true

@[simp] theorem holds_eq [DecidableEq α] (x y : Option α) :
    holds (eq x y) = true ↔ ∃ a, x = some a ∧ y = some a := by
  cases x <;> cases y <;> simp [holds, eq, eq_comm]

@[simp] theorem holds_gt (x : Option ℚ) (y : ℚ) :
    holds (gt x y) = true ↔ ∃ a, x = some a ∧ y < a := by
  cases x <;> simp [holds, gt]

@[simp] theorem holds_ge (x : Option ℤ) (y : ℤ) :
    holds (ge x y) = true ↔ ∃ a, x = some a ∧ y ≤ a := by
  cases x <;> simp [holds, ge]

@[simp] theorem holds_or (p q : Option Bool) :
    holds (or p q) = true ↔ holds p = true ∨ holds q = true := by
  rcases p with _ | _ | _ <;> rcases q with _ | _ | _ <;> simp [holds, or]

/-! ## Joins -/

/-- `as INNER JOIN bs ON on`. -/
def innerJoin (as : List α) (bs : List β) (on : α → β → Bool) : List (α × β) :=
  as.flatMap fun a => (bs.filter (on a)).map (Prod.mk a)

/-- `as LEFT JOIN bs ON on`: an unmatched left row is kept with nulls, and a
matched one occurs once for every match. -/
def leftJoin (as : List α) (bs : List β) (on : α → β → Bool) :
    List (α × Option β) :=
  as.flatMap fun a =>
    match bs.filter (on a) with
    | [] => [(a, none)]
    | b :: matched => (b :: matched).map fun c => (a, some c)

theorem mem_innerJoin {as : List α} {bs : List β} {on : α → β → Bool}
    {p : α × β} :
    p ∈ innerJoin as bs on ↔ p.1 ∈ as ∧ p.2 ∈ bs ∧ on p.1 p.2 = true := by
  obtain ⟨a, b⟩ := p
  simp only [innerJoin, List.mem_flatMap, List.mem_map, List.mem_filter,
    Prod.mk.injEq]
  constructor
  · rintro ⟨a', ha', b', ⟨hb', hon⟩, rfl, rfl⟩
    exact ⟨ha', hb', hon⟩
  · rintro ⟨ha, hb, hon⟩
    exact ⟨a, ha, b, ⟨hb, hon⟩, rfl, rfl⟩

/-- The right half of a left-join row is a match, or null because there is
none. -/
theorem mem_leftJoin {as : List α} {bs : List β} {on : α → β → Bool}
    {a : α} {o : Option β} :
    (a, o) ∈ leftJoin as bs on ↔
      a ∈ as ∧ ((∃ b ∈ bs, on a b = true ∧ o = some b) ∨
        ((∀ b ∈ bs, on a b = false) ∧ o = none)) := by
  have hrow : ∀ a' : α, (a, o) ∈ (match bs.filter (on a') with
        | [] => [(a', none)]
        | b :: matched => (b :: matched).map fun c => (a', some c)) ↔
      a = a' ∧ ((∃ b ∈ bs, on a' b = true ∧ o = some b) ∨
        ((∀ b ∈ bs, on a' b = false) ∧ o = none)) := by
    intro a'
    cases hm : bs.filter (on a') with
    | nil =>
        have hnone : ∀ b ∈ bs, on a' b = false := by
          simpa [List.filter_eq_nil_iff] using hm
        simp only [List.mem_singleton, Prod.mk.injEq]
        constructor
        · rintro ⟨rfl, rfl⟩
          exact ⟨rfl, .inr ⟨hnone, rfl⟩⟩
        · rintro ⟨rfl, ⟨b, hb, hon, -⟩ | ⟨-, rfl⟩⟩
          · simp [hnone b hb] at hon
          · exact ⟨rfl, rfl⟩
    | cons b matched =>
        have hmem : ∀ c, c ∈ b :: matched ↔ c ∈ bs ∧ on a' c = true := by
          intro c
          rw [← hm, List.mem_filter]
        simp only [List.mem_map, Prod.mk.injEq]
        constructor
        · rintro ⟨c, hc, rfl, rfl⟩
          obtain ⟨hcbs, hon⟩ := (hmem c).mp hc
          exact ⟨rfl, .inl ⟨c, hcbs, hon, rfl⟩⟩
        · rintro ⟨rfl, ⟨c, hc, hon, rfl⟩ | ⟨hnone, -⟩⟩
          · exact ⟨c, (hmem c).mpr ⟨hc, hon⟩, rfl, rfl⟩
          · obtain ⟨hb, hon⟩ := (hmem b).mp (by simp)
            simp [hnone b hb] at hon
  simp only [leftJoin, List.mem_flatMap]
  constructor
  · rintro ⟨a', ha', hin⟩
    obtain ⟨rfl, hcase⟩ := (hrow a').mp hin
    exact ⟨ha', hcase⟩
  · rintro ⟨ha, hcase⟩
    exact ⟨a, ha, (hrow a).mpr ⟨rfl, hcase⟩⟩

theorem nodup_innerJoin {as : List α} {bs : List β} {on : α → β → Bool}
    (ha : as.Nodup) (hb : bs.Nodup) : (innerJoin as bs on).Nodup := by
  rw [innerJoin, List.nodup_flatMap]
  refine ⟨fun a _ => (hb.filter _).map (Prod.mk_right_injective a), ?_⟩
  refine ha.imp fun {a a'} hne p hp hp' => hne ?_
  obtain ⟨b, -, rfl⟩ := List.mem_map.mp hp
  obtain ⟨b', -, heq⟩ := List.mem_map.mp hp'
  exact (Prod.mk.inj heq).1.symm

/-- A join depends on the matches of its left rows only. -/
theorem innerJoin_congr {as : List α} {bs bs' : List β} {on : α → β → Bool}
    (h : ∀ a ∈ as, bs.filter (on a) = bs'.filter (on a)) :
    innerJoin as bs on = innerJoin as bs' on :=
  List.flatMap_congr fun a ha => by rw [h a ha]

theorem innerJoin_map_left {δ : Type*} {f : δ → α} {ds : List δ} {bs : List β}
    {on : α → β → Bool} :
    innerJoin (ds.map f) bs on =
      (innerJoin ds bs fun d b => on (f d) b).map fun p => (f p.1, p.2) := by
  simp only [innerJoin, List.flatMap_map, List.map_flatMap, List.map_map]
  rfl

theorem innerJoin_map_right {δ : Type*} {f : δ → β} {as : List α} {ds : List δ}
    {on : α → β → Bool} :
    innerJoin as (ds.map f) on =
      (innerJoin as ds fun a d => on a (f d)).map fun p => (p.1, f p.2) := by
  simp only [innerJoin, List.filter_map, List.map_flatMap, List.map_map]
  rfl

/-- Restricting a join to one row of the right side selects left rows, each
once. -/
theorem map_fst_filter_innerJoin {as : List α} {bs : List β} {on : α → β → Bool}
    {isB : β → Bool} {b : β} (hnodup : bs.Nodup) (hb : b ∈ bs)
    (hisB : ∀ b' ∈ bs, isB b' = true ↔ b' = b) (keep : α × β → Bool) :
    ((innerJoin as bs on).filter fun p => isB p.2 && keep p).map Prod.fst =
      as.filter fun a => on a b && keep (a, b) := by
  have hsingle : bs.filter isB = [b] := by
    have hperm : (bs.filter isB).Perm [b] := by
      refine (List.perm_ext_iff_of_nodup (hnodup.filter _) (List.nodup_singleton b)).mpr ?_
      intro b'
      rw [List.mem_filter, List.mem_singleton]
      exact ⟨fun h => (hisB b' h.1).mp h.2, fun h => h ▸ ⟨hb, (hisB b hb).mpr rfl⟩⟩
    exact List.perm_singleton.mp hperm
  have hrow : ∀ a, (((bs.filter (on a)).map (Prod.mk a)).filter
      fun p => isB p.2 && keep p).map Prod.fst =
        if on a b && keep (a, b) then [a] else [] := by
    intro a
    have hswap : (bs.filter (on a)).filter (fun c => isB c && keep (a, c)) =
        [b].filter fun c => on a c && keep (a, c) := by
      rw [← hsingle, List.filter_filter, List.filter_filter]
      refine List.filter_congr fun c _ => ?_
      cases isB c <;> cases on a c <;> simp
    rw [List.filter_map, List.map_map]
    simp only [Function.comp_def, hswap]
    cases hab : on a b && keep (a, b) <;> simp [hab]
  induction as with
  | nil => rfl
  | cons a as ih =>
      simp only [innerJoin, List.flatMap_cons, List.filter_append, List.map_append] at ih ⊢
      rw [hrow, ih, List.filter_cons]
      split <;> simp

/-- Restricting two joins to one row of each right side selects left rows, each
once. -/
theorem map_fst_fst_filter_innerJoin {as : List α} {bs : List β} {cs : List γ}
    {onB : α → β → Bool} {onC : α × β → γ → Bool} {isB : β → Bool} {isC : γ → Bool}
    {b : β} {c : γ} (hbs : bs.Nodup) (hb : b ∈ bs) (hisB : ∀ b' ∈ bs, isB b' = true ↔ b' = b)
    (hcs : cs.Nodup) (hc : c ∈ cs) (hisC : ∀ c' ∈ cs, isC c' = true ↔ c' = c)
    (keep : α → Bool) :
    ((innerJoin (innerJoin as bs onB) cs onC).filter fun r =>
        isC r.2 && (isB r.1.2 && keep r.1.1)).map (fun r => r.1.1) =
      as.filter fun a => onB a b && (onC (a, b) c && keep a) := by
  have hinner : (fun p : α × β => onC p c && (isB p.2 && keep p.1)) =
      fun p => isB p.2 && (onC p c && keep p.1) :=
    funext fun p => Bool.and_left_comm _ _ _
  rw [show (fun r : (α × β) × γ => r.1.1) = Prod.fst ∘ Prod.fst from rfl, ← List.map_map,
    map_fst_filter_innerJoin hcs hc hisC fun r : (α × β) × γ => isB r.1.2 && keep r.1.1,
    hinner, map_fst_filter_innerJoin hbs hb hisB fun p : α × β => onC p c && keep p.1]

/-! ## Grouping -/

/-- `GROUP BY key`: one group per key that occurs, holding its rows.  Nulls form
a group of their own. -/
def groupBy [DecidableEq κ] (key : α → κ) (rows : List α) :
    List (κ × List α) :=
  (rows.map key).dedup.map fun k => (k, rows.filter fun r => key r = k)

section Group

variable [DecidableEq κ] {key : α → κ} {rows : List α}

theorem mem_groupBy {g : κ × List α} :
    g ∈ groupBy key rows ↔
      (∃ r ∈ rows, key r = g.1) ∧ g.2 = rows.filter fun r => key r = g.1 := by
  simp only [groupBy, List.mem_map, List.mem_dedup]
  constructor
  · rintro ⟨k, hk, rfl⟩
    exact ⟨hk, rfl⟩
  · rintro ⟨hk, hrows⟩
    exact ⟨g.1, hk, Prod.ext rfl hrows.symm⟩

/-- A key that occurs has a group, holding the rows that carry it. -/
theorem mk_mem_groupBy {r : α} {k : κ} (hr : r ∈ rows) (hk : key r = k) :
    (k, rows.filter fun r => key r = k) ∈ groupBy key rows :=
  mem_groupBy.mpr ⟨⟨r, hr, hk⟩, rfl⟩

@[simp] theorem map_fst_groupBy :
    (groupBy key rows).map Prod.fst = (rows.map key).dedup := by
  simp [groupBy, Function.comp_def]

/-- Every key has one group. -/
theorem nodup_groupBy : ((groupBy key rows).map Prod.fst).Nodup := by
  rw [map_fst_groupBy]
  exact List.nodup_dedup _

/-- A group is never empty: its key occurs. -/
theorem groupBy_ne_nil {g : κ × List α} (hg : g ∈ groupBy key rows) :
    g.2 ≠ [] := by
  obtain ⟨⟨r, hr, hk⟩, hrows⟩ := mem_groupBy.mp hg
  rw [hrows]
  exact List.ne_nil_of_mem (List.mem_filter.mpr ⟨hr, by simpa using hk⟩)

/-- The members of a group are the rows that carry its key. -/
theorem mem_of_mem_groupBy {g : κ × List α} (hg : g ∈ groupBy key rows)
    {r : α} : r ∈ g.2 ↔ r ∈ rows ∧ key r = g.1 := by
  rw [(mem_groupBy.mp hg).2, List.mem_filter, decide_eq_true_eq]

/-- The groups of a projection are the projections of the groups. -/
theorem groupBy_map {f : β → α} {bs : List β} :
    groupBy key (bs.map f) =
      (groupBy (fun b => key (f b)) bs).map fun g => (g.1, g.2.map f) := by
  simp only [groupBy, List.map_map, List.filter_map]
  rfl

end Group

/-! ## Columns -/

/-- A column is free of repetitions when it determines one that is. -/
theorem nodup_map_of_imp {f : α → β} {g : α → γ} {as : List α}
    (h : (as.map f).Nodup)
    (himp : ∀ a ∈ as, ∀ b ∈ as, g a = g b → f a = f b) : (as.map g).Nodup := by
  rw [List.Nodup, List.pairwise_map] at h ⊢
  exact h.imp_of_mem fun ha hb hne hg => hne (himp _ ha _ hb hg)

/-- Two keyed tables with the same keys and values have the same values, each
the same number of times.  Membership is enough to compare them, since no key
occurs twice on either side. -/
theorem map_perm_map {f : α → κ} {g : α → γ} {f' : β → κ} {g' : β → γ} {as : List α}
    {bs : List β} (ha : (as.map f).Nodup) (hb : (bs.map f').Nodup)
    (h : ∀ k c, (∃ a ∈ as, f a = k ∧ g a = c) ↔ ∃ b ∈ bs, f' b = k ∧ g' b = c) :
    (as.map g).Perm (bs.map g') := by
  have ha' : (as.map fun a => (f a, g a)).Nodup :=
    nodup_map_of_imp ha fun _ _ _ _ heq => (Prod.mk.inj heq).1
  have hb' : (bs.map fun b => (f' b, g' b)).Nodup :=
    nodup_map_of_imp hb fun _ _ _ _ heq => (Prod.mk.inj heq).1
  have hperm : (as.map fun a => (f a, g a)).Perm (bs.map fun b => (f' b, g' b)) := by
    refine (List.perm_ext_iff_of_nodup ha' hb').mpr fun ⟨k, c⟩ => ?_
    simp only [List.mem_map, Prod.mk.injEq]
    exact h k c
  simpa [List.map_map, Function.comp_def] using hperm.map Prod.snd

/-- A row found by its key. -/
theorem decide_key_eq_iff [DecidableEq κ] {key : α → κ} {rows : List α}
    (h : (rows.map key).Nodup) {a : α} (ha : a ∈ rows) :
    ∀ b ∈ rows, decide (key b = key a) = true ↔ b = a := by
  intro b hb
  rw [decide_eq_true_eq]
  exact ⟨fun hkey => List.inj_on_of_nodup_map h hb ha hkey, fun hba => hba ▸ rfl⟩

/-- Splitting rows by key and putting the parts together again. -/
theorem flatMap_filter_perm [DecidableEq κ] (key : α → κ) {keys : List κ} (hkeys : keys.Nodup)
    {rows : List α} (h : ∀ r ∈ rows, key r ∈ keys) :
    (keys.flatMap fun k => rows.filter fun r => key r = k).Perm rows := by
  induction keys generalizing rows with
  | nil =>
      rw [List.eq_nil_iff_forall_not_mem.mpr fun r hr => List.not_mem_nil (h r hr)]
      exact List.Perm.refl _
  | cons k keys ih =>
      obtain ⟨hk, hkeys⟩ := List.nodup_cons.mp hkeys
      have hrest : ∀ r ∈ rows.filter (fun r => !decide (key r = k)), key r ∈ keys := by
        intro r hr
        obtain ⟨hr, hne⟩ := List.mem_filter.mp hr
        exact (List.mem_cons.mp (h r hr)).resolve_left (by simpa using hne)
      have hgroups : (keys.flatMap fun k' => rows.filter fun r => key r = k') =
          keys.flatMap fun k' => (rows.filter fun r => !decide (key r = k)).filter
            fun r => key r = k' := by
        refine List.flatMap_congr fun k' hk' => ?_
        rw [List.filter_filter]
        refine List.filter_congr fun r _ => ?_
        by_cases hr : key r = k'
        · have hne : k' ≠ k := fun heq => hk (heq ▸ hk')
          simp [hr, hne]
        · simp [hr]
      rw [List.flatMap_cons, hgroups]
      exact ((ih hkeys hrest).append_left _).trans (List.filter_append_perm _ rows)

/-- The least value of a column depends on the values only. -/
theorem min?_congr {as bs : List ℤ} (h : ∀ a, a ∈ as ↔ a ∈ bs) :
    as.min? = bs.min? := by
  cases hb : bs.min? with
  | none =>
      rw [List.min?_eq_none_iff] at hb ⊢
      subst hb
      exact List.eq_nil_iff_forall_not_mem.mpr fun a ha => by simpa using (h a).mp ha
  | some b =>
      rw [List.min?_eq_some_iff] at hb ⊢
      exact ⟨(h b).mpr hb.1, fun a ha => hb.2 a ((h a).mp ha)⟩

/-! ## Queries that may fail -/

/-- A step that reads the result of another one succeeds when both do. -/
theorem bind_eq_ok_iff {ε : Type*} {δ η : Type u} {x : Except ε δ}
    {f : δ → Except ε η} {b : η} : x >>= f = .ok b ↔ ∃ a, x = .ok a ∧ f a = .ok b := by
  cases x <;> simp [bind, Except.bind]

instance decidableExistsOk {ε : Type*} : (x : Except ε α) → Decidable (∃ a, x = .ok a)
  | .ok a => .isTrue ⟨a, rfl⟩
  | .error _ => .isFalse fun ⟨_, h⟩ => by cases h

instance decidableExistsOkAnd {ε : Type*} {p : α → Prop} [DecidablePred p] :
    (x : Except ε α) → Decidable (∃ a, x = .ok a ∧ p a)
  | .ok a => decidable_of_iff (p a) (by simp)
  | .error _ => .isFalse fun ⟨_, h, _⟩ => by cases h

theorem pure_eq_ok_iff {ε : Type*} {a b : α} :
    (pure a : Except ε α) = .ok b ↔ a = b := by
  simp [pure, Except.pure]

/-- A query that ends in a select list over the result of the step before. -/
theorem select_eq_ok_iff {ε : Type*} {δ η : Type u} {x : Except ε δ} {f : δ → η} {b : η} :
    (do let a ← x; return f a) = .ok b ↔ ∃ a, x = .ok a ∧ f a = b := by
  simp only [bind_eq_ok_iff, pure_eq_ok_iff]

/-- It succeeds when that step does. -/
theorem exists_select_eq_ok_iff {ε : Type*} {δ η : Type u} {x : Except ε δ} {f : δ → η} :
    (∃ b, (do let a ← x; return f a) = .ok b) ↔ ∃ a, x = .ok a := by
  simp only [select_eq_ok_iff]
  constructor
  · rintro ⟨_, a, ha, -⟩
    exact ⟨a, ha⟩
  · rintro ⟨a, ha⟩
    exact ⟨f a, a, ha, rfl⟩

/-- A select list that may abort the query yields one row per input row. -/
theorem mapM_eq_ok_iff {ε : Type*} {f : α → Except ε β} :
    ∀ {as : List α} {bs : List β},
      as.mapM f = .ok bs ↔ List.Forall₂ (fun a b => f a = .ok b) as bs
  | [], bs => by
      simp [pure, Except.pure, eq_comm]
  | a :: as, bs => by
      simp only [List.mapM_cons, bind_eq_ok_iff, pure_eq_ok_iff, mapM_eq_ok_iff]
      constructor
      · rintro ⟨b, hb, rest, hrest, rfl⟩
        exact .cons hb hrest
      · rintro (_ | ⟨hb, hrest⟩)
        exact ⟨_, hb, _, hrest, rfl⟩

/-- A projection that fails on some rows and is plain on the others. -/
theorem mapM_eq_ok_iff_map {ε : Type*} {f : α → Except ε β} {P : α → Prop}
    {g : α → β} (h : ∀ a b, f a = .ok b ↔ P a ∧ b = g a) {as : List α}
    {bs : List β} : as.mapM f = .ok bs ↔ (∀ a ∈ as, P a) ∧ bs = as.map g := by
  rw [mapM_eq_ok_iff]
  simp only [h]
  constructor
  · intro hall
    induction hall with
    | nil => simp
    | @cons a b as bs hab _ ih =>
        obtain ⟨hP, rfl⟩ := ih
        exact ⟨by simpa [hab.1] using hP, by simp [hab.2]⟩
  · rintro ⟨hP, rfl⟩
    rw [List.forall₂_map_right_iff, List.forall₂_same]
    exact fun a ha => ⟨hP a ha, rfl⟩

/-- The query aborts as soon as one row does. -/
theorem exists_of_mapM_eq_ok {ε : Type*} {f : α → Except ε β} {as : List α}
    {bs : List β} (h : as.mapM f = .ok bs) {a : α} (ha : a ∈ as) :
    ∃ b ∈ bs, f a = .ok b := by
  have hall := mapM_eq_ok_iff.mp h
  induction hall with
  | nil => simp at ha
  | @cons a' b as bs hb htail ih =>
      rcases List.mem_cons.mp ha with rfl | ha
      · exact ⟨b, List.mem_cons_self, hb⟩
      · obtain ⟨b', hb', hf⟩ := ih (mapM_eq_ok_iff.mpr htail) ha
        exact ⟨b', List.mem_cons_of_mem b hb', hf⟩

/-- A query without failing rows succeeds. -/
theorem exists_mapM_iff {ε : Type*} {f : α → Except ε β} {as : List α} :
    (∃ bs, as.mapM f = .ok bs) ↔ ∀ a ∈ as, ∃ b, f a = .ok b := by
  constructor
  · rintro ⟨bs, h⟩ a ha
    obtain ⟨b, -, hb⟩ := exists_of_mapM_eq_ok h ha
    exact ⟨b, hb⟩
  · intro h
    induction as with
    | nil => exact ⟨[], rfl⟩
    | cons a as ih =>
        obtain ⟨b, hb⟩ := h a List.mem_cons_self
        obtain ⟨bs, hbs⟩ := ih fun c hc => h c (List.mem_cons_of_mem a hc)
        exact ⟨b :: bs, mapM_eq_ok_iff.mpr (.cons hb (mapM_eq_ok_iff.mp hbs))⟩

/-- Every row of the result comes from an input row. -/
theorem exists_of_mem_mapM {ε : Type*} {f : α → Except ε β} {as : List α}
    {bs : List β} (h : as.mapM f = .ok bs) {b : β} (hb : b ∈ bs) :
    ∃ a ∈ as, f a = .ok b := by
  have hall := mapM_eq_ok_iff.mp h
  induction hall with
  | nil => simp at hb
  | @cons a b' as bs hab htail ih =>
      rcases List.mem_cons.mp hb with rfl | hb
      · exact ⟨a, List.mem_cons_self, hab⟩
      · obtain ⟨a', ha', hf⟩ := ih (mapM_eq_ok_iff.mpr htail) hb
        exact ⟨a', List.mem_cons_of_mem a ha', hf⟩

/-- Columns that are carried over are those of the input. -/
theorem map_of_mapM_eq_ok {ε : Type*} {f : α → Except ε β} {as : List α}
    {bs : List β} {g : β → γ} {g' : α → γ} (h : as.mapM f = .ok bs)
    (hcol : ∀ a b, f a = .ok b → g b = g' a) : bs.map g = as.map g' := by
  have hall := mapM_eq_ok_iff.mp h
  induction hall with
  | nil => rfl
  | @cons a b as bs hab htail ih =>
      rw [List.map_cons, List.map_cons, hcol a b hab, ih (mapM_eq_ok_iff.mpr htail)]

end Sql
