import BinanceElt.Sql.Relation
import Mathlib.Algebra.BigOperators.Group.List.Basic
import Mathlib.Data.List.Sort
import Mathlib.Tactic.Linarith
import Mathlib.Tactic.Ring

/-!
# The `LAG` window function

`lagOver part ord rows` pairs every row with the row before it in its
partition, which is what the expressions `LAG(x) OVER (PARTITION BY part ORDER
BY ord)` of one query read.  The definition sorts each partition; its meaning,
`IsPrevious`, mentions no sorting: the previous row is the one with the
greatest smaller order value.

## Main results

* `mem_lagOver` — the pairs `lagOver` produces, when no partition has ties.
* `map_fst_lagOver_perm` — every row is kept exactly once.
* `IsPrevious.unique`, `exists_isPrevious` — the previous row is determined.
* `isPrevious_window` — what a query sees of it that keeps only the rows above
  a bound.
* `IsPrevious.induction` — the induction along the window order.
* `abs_sum_change_sub_le` — changes from row to row add up to the change since the
  first row, up to the errors of the single changes.
-/

namespace Sql

variable {α β γ π κ : Type*}

/-- Every row with the row before it; the first one is preceded by `prev`. -/
def withPrevious : Option α → List α → List (α × Option α)
  | _, [] => []
  | prev, a :: as => (a, prev) :: withPrevious (some a) as

/-- The rows and their `LAG` rows, partition by partition.  Rows with equal
order values come in the order in which they were given, where BigQuery promises
none. -/
def lagOver [DecidableEq π] [LinearOrder κ] (part : α → π) (ord : α → κ)
    (rows : List α) : List (α × Option α) :=
  (groupBy part rows).flatMap fun g =>
    withPrevious none (g.2.insertionSort fun a b => ord a ≤ ord b)

/-! ## The previous row -/

section Previous

variable [LinearOrder κ] {ord : α → κ} {rows : List α} {a : α}

/-- `p` is the row of `rows` before `a`: the one with the greatest order value
below that of `a`, or none because there is no such row.  This is what `LAG`
means, without the sorting; `lagOver` is shown to compute it. -/
def IsPrevious (ord : α → κ) (rows : List α) (a : α) : Option α → Prop
  | none => ∀ b ∈ rows, ord a ≤ ord b
  | some p => p ∈ rows ∧ ord p < ord a ∧ ∀ b ∈ rows, ord b < ord a → ord b ≤ ord p

theorem IsPrevious.unique
    (hinj : ∀ b ∈ rows, ∀ c ∈ rows, ord b = ord c → b = c) :
    ∀ {p q : Option α}, IsPrevious ord rows a p → IsPrevious ord rows a q → p = q
  | none, none, _, _ => rfl
  | none, some q, hp, hq => absurd (hp q hq.1) (not_le_of_gt hq.2.1)
  | some p, none, hp, hq => absurd (hq p hp.1) (not_le_of_gt hp.2.1)
  | some p, some q, hp, hq => by
      have hpq : ord p ≤ ord q := hq.2.2 p hp.1 hp.2.1
      have hqp : ord q ≤ ord p := hp.2.2 q hq.1 hq.2.1
      rw [hinj p hp.1 q hq.1 (le_antisymm hpq hqp)]

theorem exists_isPrevious (ord : α → κ) (rows : List α) (a : α) :
    ∃ p, IsPrevious ord rows a p := by
  induction rows with
  | nil => exact ⟨none, by simp [IsPrevious]⟩
  | cons b rows ih =>
      obtain ⟨p, hp⟩ := ih
      rcases lt_or_ge (ord b) (ord a) with hba | hab
      · cases p with
        | none =>
            refine ⟨some b, List.mem_cons_self, hba, fun c hc hca => ?_⟩
            rcases List.mem_cons.mp hc with rfl | hc
            · exact le_rfl
            · exact absurd (hp c hc) (not_le_of_gt hca)
        | some p =>
            obtain ⟨hmem, hlt, hmax⟩ := hp
            rcases le_total (ord b) (ord p) with hbp | hpb
            · refine ⟨some p, List.mem_cons_of_mem b hmem, hlt, fun c hc hca => ?_⟩
              rcases List.mem_cons.mp hc with rfl | hc
              · exact hbp
              · exact hmax c hc hca
            · refine ⟨some b, List.mem_cons_self, hba, fun c hc hca => ?_⟩
              rcases List.mem_cons.mp hc with rfl | hc
              · exact le_rfl
              · exact (hmax c hc hca).trans hpb
      · cases p with
        | none =>
            refine ⟨none, fun c hc => ?_⟩
            rcases List.mem_cons.mp hc with rfl | hc
            · exact hab
            · exact hp c hc
        | some p =>
            obtain ⟨hmem, hlt, hmax⟩ := hp
            refine ⟨some p, List.mem_cons_of_mem b hmem, hlt, fun c hc hca => ?_⟩
            rcases List.mem_cons.mp hc with rfl | hc
            · exact absurd hca (not_lt_of_ge hab)
            · exact hmax c hc hca

/-- A row with a later one is the previous row of the next one. -/
theorem exists_isPrevious_some (ord : α → κ) {b : α} (ha : a ∈ rows) (hb : b ∈ rows)
    (hlt : ord a < ord b) : ∃ next ∈ rows, IsPrevious ord rows next (some a) := by
  -- the next row is the previous one in the reverse order
  obtain ⟨p, hp⟩ := exists_isPrevious (fun c => OrderDual.toDual (ord c)) rows a
  cases p with
  | none => exact absurd (OrderDual.toDual_le_toDual.mp (hp b hb)) (not_le_of_gt hlt)
  | some next =>
      obtain ⟨hnext, hlater, hfirst⟩ := hp
      refine ⟨next, hnext, ha, OrderDual.toDual_lt_toDual.mp hlater, fun c hc hcn => ?_⟩
      by_contra hac
      have hle := hfirst c hc (OrderDual.toDual_lt_toDual.mpr (not_le.mp hac))
      exact absurd hcn (not_lt_of_ge (OrderDual.toDual_le_toDual.mp hle))

/-- The previous row depends on which rows there are before `a`, not on their
order or multiplicity. -/
theorem IsPrevious.congr_lt {rows' : List α}
    (h : ∀ b, ord b < ord a → (b ∈ rows ↔ b ∈ rows')) :
    ∀ {p : Option α}, IsPrevious ord rows a p → IsPrevious ord rows' a p
  | none, hp => fun b hb => by
      by_contra hlt
      have hlt := not_le.mp hlt
      exact absurd (hp b ((h b hlt).mpr hb)) (not_le_of_gt hlt)
  | some p, hp => ⟨(h p hp.2.1).mp hp.1, hp.2.1, fun b hb hlt =>
      hp.2.2 b ((h b hlt).mpr hb) hlt⟩

theorem IsPrevious.congr {rows' : List α} (h : ∀ b, b ∈ rows ↔ b ∈ rows')
    {p : Option α} (hp : IsPrevious ord rows a p) : IsPrevious ord rows' a p :=
  hp.congr_lt fun b _ => h b

/-- The previous row depends on the order of the rows, not on the values that
order them. -/
theorem IsPrevious.congr_ord {μ : Type*} [LinearOrder μ] {ord' : α → μ} (ha : a ∈ rows)
    (hord : ∀ b ∈ rows, ∀ c ∈ rows, ord b ≤ ord c ↔ ord' b ≤ ord' c) :
    ∀ {p : Option α}, IsPrevious ord rows a p → IsPrevious ord' rows a p
  | none, hp => fun b hb => (hord a ha b hb).mp (hp b hb)
  | some p, hp => by
      obtain ⟨hmem, hlt, hmax⟩ := hp
      have hlt_iff : ∀ b ∈ rows, ord b < ord a ↔ ord' b < ord' a := by
        intro b hb
        rw [← not_le, ← not_le, hord a ha b hb]
      exact ⟨hmem, (hlt_iff p hmem).mp hlt, fun b hb hba =>
        (hord b hb p hmem).mp (hmax b hb ((hlt_iff b hb).mpr hba))⟩

/-- The previous row of a projection is the projection of the previous row. -/
theorem IsPrevious.map {f : β → α} {bs : List β} {b : β} :
    ∀ {p : Option β}, IsPrevious (fun c => ord (f c)) bs b p →
      IsPrevious ord (bs.map f) (f b) (p.map f)
  | none, hp => by
      intro _ hc
      obtain ⟨c, hmem, rfl⟩ := List.mem_map.mp hc
      exact hp c hmem
  | some p, hp => by
      refine ⟨List.mem_map_of_mem hp.1, hp.2.1, fun _ hc hlt => ?_⟩
      obtain ⟨c, hmem, rfl⟩ := List.mem_map.mp hc
      exact hp.2.2 c hmem hlt

/-- The order values alone determine the order value before. -/
theorem IsPrevious.map_ord {p : Option α} (hp : IsPrevious ord rows a p) :
    IsPrevious id (rows.map ord) (ord a) (p.map ord) :=
  have hp' : IsPrevious (fun b => id (ord b)) rows a p := hp
  hp'.map

/-- A query that keeps the rows from a bound on sees the same previous row, or
none when that row lies below the bound. -/
theorem isPrevious_window {bound : κ} {p : Option α}
    (hp : IsPrevious ord rows a p) :
    IsPrevious ord (rows.filter fun b => bound ≤ ord b) a
      (p.filter fun b => bound ≤ ord b) := by
  cases p with
  | none =>
      intro b hb
      exact hp b (List.mem_of_mem_filter hb)
  | some p =>
      obtain ⟨hmem, hlt, hmax⟩ := hp
      by_cases hbound : bound ≤ ord p
      · simp only [Option.filter, hbound, decide_true, if_true]
        refine ⟨List.mem_filter.mpr ⟨hmem, by simpa using hbound⟩, hlt, ?_⟩
        exact fun b hb => hmax b (List.mem_of_mem_filter hb)
      · simp only [Option.filter, hbound, decide_false]
        intro b hb
        obtain ⟨hb, hkeep⟩ := List.mem_filter.mp hb
        by_contra hlt'
        have := hmax b hb (not_le.mp hlt')
        exact hbound ((of_decide_eq_true hkeep).trans this)

/-! ### Along the window order -/

variable (ord) in
/-- What holds of a first row, and of a row when it holds of the previous one,
holds of every row. -/
theorem IsPrevious.induction {P : α → Prop}
    (hfirst : ∀ a ∈ rows, IsPrevious ord rows a none → P a)
    (hstep : ∀ a ∈ rows, ∀ p, IsPrevious ord rows a (some p) → P p → P a) :
    ∀ a ∈ rows, P a := by
  -- by induction on the number of rows before `a`
  have hall : ∀ n, ∀ a ∈ rows, (rows.filter fun b => ord b < ord a).length = n → P a := by
    intro n
    induction n using Nat.strong_induction_on with
    | _ n ih =>
        intro a ha hn
        obtain ⟨p, hp⟩ := exists_isPrevious ord rows a
        cases p with
        | none => exact hfirst a ha hp
        | some p =>
            have hfewer : (rows.filter fun b => ord b < ord p) =
                (rows.filter fun b => ord b < ord a).filter fun b => ord b < ord p := by
              rw [List.filter_filter]
              refine List.filter_congr fun b _ => ?_
              rw [Bool.eq_iff_iff]
              simpa using fun hbp : ord b < ord p => hbp.trans hp.2.1
            have hlt : (rows.filter fun b => ord b < ord p).length < n := by
              rw [← hn, hfewer, List.length_filter_lt_length_iff_exists]
              exact ⟨p, List.mem_filter.mpr ⟨hp.1, by simpa using hp.2.1⟩, by simp⟩
            exact hstep a ha p hp (ih _ hlt p hp.1 rfl)
  exact fun a ha => hall _ a ha rfl

/-- There is a first row as soon as there is one. -/
theorem exists_isPrevious_none (ord : α → κ) (ha : a ∈ rows) :
    ∃ first ∈ rows, IsPrevious ord rows first none :=
  IsPrevious.induction ord (P := fun _ => ∃ first ∈ rows, IsPrevious ord rows first none)
    (fun b hb hnone => ⟨b, hb, hnone⟩) (fun _ _ _ _ ih => ih) a ha

section Telescope

variable (hnodup : (rows.map ord).Nodup)
include hnodup

/-- The rows up to `a` are `a` and the rows before it. -/
theorem filter_le_perm (ha : a ∈ rows) :
    (rows.filter fun b => ord b ≤ ord a).Perm (a :: rows.filter fun b => ord b < ord a) := by
  have hrows : rows.Nodup := List.Nodup.of_map _ hnodup
  refine (List.perm_ext_iff_of_nodup (hrows.filter _) (List.nodup_cons.mpr
    ⟨by simp, hrows.filter _⟩)).mpr fun b => ?_
  rw [List.mem_cons, List.mem_filter, List.mem_filter, decide_eq_true_eq, decide_eq_true_eq]
  constructor
  · rintro ⟨hb, hle⟩
    rcases hle.eq_or_lt with heq | hlt
    · exact .inl (List.inj_on_of_nodup_map hnodup hb ha heq)
    · exact .inr ⟨hb, hlt⟩
  · rintro (rfl | ⟨hb, hlt⟩)
    · exact ⟨ha, le_rfl⟩
    · exact ⟨hb, hlt.le⟩

omit hnodup in
/-- The rows before `a` are those up to its previous row. -/
theorem filter_lt_of_isPrevious {p : α} (hp : IsPrevious ord rows a (some p)) :
    (rows.filter fun b => ord b < ord a) = rows.filter fun b => ord b ≤ ord p := by
  refine List.filter_congr fun b hb => ?_
  rw [Bool.eq_iff_iff, decide_eq_true_eq, decide_eq_true_eq]
  exact ⟨hp.2.2 b hb, fun hle => hle.trans_lt hp.2.1⟩

omit hnodup in
theorem filter_lt_of_isPrevious_none (hp : IsPrevious ord rows a none) :
    (rows.filter fun b => ord b < ord a) = [] :=
  List.filter_eq_nil_iff.mpr fun b hb => by simpa using hp b hb

/-- Where every change is off by `ε` at most, and the first row shows none, the
changes up to `a` add up to the change since the first row, up to `ε` for each
row before `a`. -/
theorem abs_sum_change_sub_le {change : α → ℚ} (value : α → ℚ) {ε : ℚ} {first : α}
    (hfirst : first ∈ rows ∧ IsPrevious ord rows first none) (hzero : change first = 0)
    (ha : a ∈ rows)
    (hstep : ∀ b ∈ rows, ord b ≤ ord a → ∀ p, IsPrevious ord rows b (some p) →
      |change b - (value b - value p)| ≤ ε) :
    |((rows.filter fun b => ord b ≤ ord a).map change).sum - (value a - value first)| ≤
      (rows.filter fun b => ord b < ord a).length * ε := by
  have hsum : ∀ b ∈ rows, ((rows.filter fun c => ord c ≤ ord b).map change).sum =
      change b + ((rows.filter fun c => ord c < ord b).map change).sum := by
    intro b hb
    rw [((filter_le_perm hnodup hb).map change).sum_eq, List.map_cons, List.sum_cons]
  suffices hall : ∀ b ∈ rows, ord b ≤ ord a →
      |((rows.filter fun c => ord c ≤ ord b).map change).sum - (value b - value first)| ≤
        (rows.filter fun c => ord c < ord b).length * ε from hall a ha le_rfl
  refine IsPrevious.induction ord (fun b hb hnone hba => ?_) fun b hb p hp ih hba => ?_
  · have hbf : b = first := List.inj_on_of_nodup_map hnodup hb hfirst.1
      (le_antisymm (hnone first hfirst.1) (hfirst.2 b hb))
    rw [hsum b hb, filter_lt_of_isPrevious_none hnone, hbf, hzero]
    simp
  · have hprevious := ih (hp.2.1.le.trans hba)
    have hchange := hstep b hb hba p hp
    have hcount : ((rows.filter fun c => ord c ≤ ord p).length : ℚ) =
        (rows.filter fun c => ord c < ord p).length + 1 := by
      rw [(filter_le_perm hnodup hp.1).length_eq, List.length_cons, Nat.cast_add_one]
    have hsplit : change b + ((rows.filter fun c => ord c ≤ ord p).map change).sum -
        (value b - value first) = (change b - (value b - value p)) +
          (((rows.filter fun c => ord c ≤ ord p).map change).sum -
            (value p - value first)) := by
      ring
    rw [hsum b hb, filter_lt_of_isPrevious hp, hsplit, hcount]
    linarith [abs_add_le (change b - (value b - value p))
      (((rows.filter fun c => ord c ≤ ord p).map change).sum - (value p - value first))]

end Telescope

end Previous

/-! ## `lagOver` computes the previous row -/

@[simp] theorem map_fst_withPrevious (prev : Option α) (as : List α) :
    (withPrevious prev as).map Prod.fst = as := by
  induction as generalizing prev with
  | nil => rfl
  | cons a as ih => simp [withPrevious, ih]

/-- In a list sorted without ties, the element to the left is the previous row,
and the first element is preceded by what came before the list. -/
theorem of_mem_withPrevious [LinearOrder κ] {ord : α → κ} :
    ∀ {as : List α} {prev : Option α} {a : α} {p : Option α},
      as.Pairwise (fun b c => ord b < ord c) → (a, p) ∈ withPrevious prev as →
      a ∈ as ∧ ((p = prev ∧ ∀ b ∈ as, ord a ≤ ord b) ∨
        (p ≠ none ∧ IsPrevious ord as a p))
  | x :: xs, prev, a, p, hsorted, hmem => by
      obtain ⟨hx, htail⟩ := List.pairwise_cons.mp hsorted
      rcases List.mem_cons.mp hmem with heq | hmem
      · obtain ⟨rfl, rfl⟩ := Prod.mk.inj heq
        refine ⟨List.mem_cons_self, .inl ⟨rfl, fun b hb => ?_⟩⟩
        rcases List.mem_cons.mp hb with rfl | hb
        · exact le_rfl
        · exact (hx b hb).le
      · obtain ⟨ha, hcase⟩ := of_mem_withPrevious htail hmem
        refine ⟨List.mem_cons_of_mem x ha, .inr ?_⟩
        rcases hcase with ⟨rfl, hmin⟩ | ⟨hne, hprev⟩
        · refine ⟨by simp, List.mem_cons_self, hx a ha, fun b hb hlt => ?_⟩
          rcases List.mem_cons.mp hb with rfl | hb
          · exact le_rfl
          · exact absurd (hmin b hb) (not_le_of_gt hlt)
        · refine ⟨hne, ?_⟩
          obtain ⟨q, rfl⟩ := Option.ne_none_iff_exists'.mp hne
          obtain ⟨hq, hlt, hmax⟩ := hprev
          refine ⟨List.mem_cons_of_mem x hq, hlt, fun b hb hba => ?_⟩
          rcases List.mem_cons.mp hb with rfl | hb
          · exact (hx q hq).le
          · exact hmax b hb hba

section Lag

variable [DecidableEq π] [LinearOrder κ] {part : α → π} {ord : α → κ}
  {rows : List α}

/-- Without ties, sorting a partition sorts it strictly. -/
theorem pairwise_sorted_group {g : π × List α} (hg : g ∈ groupBy part rows)
    (hnodup : (rows.map fun r => (part r, ord r)).Nodup) :
    (g.2.insertionSort fun a b => ord a ≤ ord b).Pairwise
      (fun a b => ord a < ord b) := by
  have hsorted := List.pairwise_insertionSort (fun a b : α => ord a ≤ ord b) g.2
  have hdistinct : (g.2.insertionSort fun a b => ord a ≤ ord b).Pairwise
      (fun a b => ord a ≠ ord b) := by
    have hrows : g.2.Pairwise (fun a b => (part a, ord a) ≠ (part b, ord b)) := by
      rw [(mem_groupBy.mp hg).2]
      exact (List.pairwise_map.mp hnodup).filter _
    have hord : g.2.Pairwise (fun a b => ord a ≠ ord b) := by
      refine hrows.imp_of_mem fun {a b} ha hb hne hab => hne ?_
      rw [((mem_of_mem_groupBy hg).mp ha).2, ((mem_of_mem_groupBy hg).mp hb).2, hab]
    exact (List.perm_insertionSort _ g.2).symm.pairwise hord fun h => h.symm
  exact (hsorted.and hdistinct).imp fun h => lt_of_le_of_ne h.1 h.2

/-- Without ties, `lagOver` pairs every row with the previous row of its
partition. -/
theorem mem_lagOver (hnodup : (rows.map fun r => (part r, ord r)).Nodup)
    {a : α} {p : Option α} :
    (a, p) ∈ lagOver part ord rows ↔
      a ∈ rows ∧ IsPrevious ord (rows.filter fun b => part b = part a) a p := by
  have hforward : ∀ {p : Option α}, (a, p) ∈ lagOver part ord rows →
      a ∈ rows ∧ IsPrevious ord (rows.filter fun b => part b = part a) a p := by
    intro p hmem
    obtain ⟨g, hg, hmem⟩ := List.mem_flatMap.mp hmem
    obtain ⟨ha, hcase⟩ :=
      of_mem_withPrevious (pairwise_sorted_group hg hnodup) hmem
    have hsort : ∀ b, b ∈ (g.2.insertionSort fun b c => ord b ≤ ord c) ↔ b ∈ g.2 :=
      fun b => List.mem_insertionSort _
    obtain ⟨harows, hpart⟩ := (mem_of_mem_groupBy hg).mp ((hsort a).mp ha)
    have hgroup : g.2 = rows.filter fun b => part b = part a := by
      rw [(mem_groupBy.mp hg).2, hpart]
    rw [← hgroup]
    refine ⟨harows, ?_⟩
    rcases hcase with ⟨rfl, hmin⟩ | ⟨-, hprev⟩
    · exact fun b hb => hmin b ((hsort b).mpr hb)
    · exact hprev.congr hsort
  refine ⟨hforward, fun ⟨ha, hp⟩ => ?_⟩
  -- the row is paired with something, and the previous row is unique
  have hgroup : (part a, rows.filter fun b => part b = part a) ∈ groupBy part rows :=
    mem_groupBy.mpr ⟨⟨a, ha, rfl⟩, rfl⟩
  have hin : a ∈ (withPrevious none
      ((rows.filter fun b => part b = part a).insertionSort
        fun b c => ord b ≤ ord c)).map Prod.fst := by
    rw [map_fst_withPrevious, List.mem_insertionSort]
    exact List.mem_filter.mpr ⟨ha, by simp⟩
  obtain ⟨⟨a', q⟩, hpair, rfl⟩ := List.mem_map.mp hin
  have hlag : (a', q) ∈ lagOver part ord rows :=
    List.mem_flatMap.mpr ⟨_, hgroup, hpair⟩
  have hinj : ∀ b ∈ rows.filter fun b => part b = part a',
      ∀ c ∈ rows.filter fun b => part b = part a', ord b = ord c → b = c := by
    intro b hb c hc hbc
    obtain ⟨hb, hpb⟩ := List.mem_filter.mp hb
    obtain ⟨hc, hpc⟩ := List.mem_filter.mp hc
    refine List.inj_on_of_nodup_map hnodup hb hc (Prod.ext ?_ hbc)
    exact (of_decide_eq_true hpb).trans (of_decide_eq_true hpc).symm
  rw [IsPrevious.unique hinj hp (hforward hlag).2]
  exact hlag

/-- `lagOver` keeps every row exactly once. -/
theorem map_fst_lagOver_perm :
    ((lagOver part ord rows).map Prod.fst).Perm rows := by
  have hgroups : ((groupBy part rows).flatMap Prod.snd).Perm rows := by
    rw [groupBy, List.flatMap_map]
    exact flatMap_filter_perm part (List.nodup_dedup _)
      fun r hr => List.mem_dedup.mpr (List.mem_map_of_mem hr)
  rw [lagOver, List.map_flatMap]
  simp only [map_fst_withPrevious]
  exact (List.Perm.flatMap_left _
    fun g _ => List.perm_insertionSort (fun a b : α => ord a ≤ ord b) g.2).trans hgroups

/-! ## Select lists over `LAG` -/

variable {ε : Type*} {f : α × Option α → Except ε β} {out : List β}

/-- The rows of a select list that reads the previous row. -/
theorem mem_mapM_lagOver (hnodup : (rows.map fun r => (part r, ord r)).Nodup)
    (h : (lagOver part ord rows).mapM f = .ok out) {b : β} :
    b ∈ out ↔ ∃ a ∈ rows, ∃ p,
      IsPrevious ord (rows.filter fun c => part c = part a) a p ∧ f (a, p) = .ok b := by
  constructor
  · intro hb
    obtain ⟨⟨a, p⟩, hmem, hf⟩ := exists_of_mem_mapM h hb
    obtain ⟨ha, hp⟩ := (mem_lagOver hnodup).mp hmem
    exact ⟨a, ha, p, hp, hf⟩
  · rintro ⟨a, ha, p, hp, hf⟩
    obtain ⟨b', hb', hf'⟩ := exists_of_mapM_eq_ok h ((mem_lagOver hnodup).mpr ⟨ha, hp⟩)
    rw [hf] at hf'
    rwa [Except.ok.inj hf']

/-- Such a select list fails exactly when it fails on some row. -/
theorem exists_mapM_lagOver_iff (hnodup : (rows.map fun r => (part r, ord r)).Nodup) :
    (∃ out, (lagOver part ord rows).mapM f = .ok out) ↔
      ∀ a ∈ rows, ∀ p, IsPrevious ord (rows.filter fun c => part c = part a) a p →
        ∃ b, f (a, p) = .ok b := by
  rw [exists_mapM_iff]
  constructor
  · intro h a ha p hp
    exact h (a, p) ((mem_lagOver hnodup).mpr ⟨ha, hp⟩)
  · rintro h ⟨a, p⟩ hmem
    obtain ⟨ha, hp⟩ := (mem_lagOver hnodup).mp hmem
    exact h a ha p hp

/-- Columns it carries over are, up to order, those of the rows. -/
theorem map_mapM_lagOver_perm {g : β → γ} {k : α → γ}
    (h : (lagOver part ord rows).mapM f = .ok out)
    (hcol : ∀ a p b, f (a, p) = .ok b → g b = k a) :
    (out.map g).Perm (rows.map k) := by
  have hout : out.map g = ((lagOver part ord rows).map Prod.fst).map k := by
    rw [List.map_map]
    exact map_of_mapM_eq_ok h fun r b => hcol r.1 r.2 b
  rw [hout]
  exact map_fst_lagOver_perm.map k

end Lag

end Sql
