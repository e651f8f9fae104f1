import BinanceElt.Sql.Relation
import Mathlib.Algebra.BigOperators.Ring.List
import Mathlib.Algebra.Order.BigOperators.Group.List
import Mathlib.Tactic.FieldSimp
import Mathlib.Tactic.Linarith
import Mathlib.Tactic.Positivity
import Mathlib.Tactic.Ring

/-!
# Numeric columns: rounding, division and aggregates

Numbers are exact rationals.  An operator with a null argument is null
(`Option.map₂`), `AVG` and `SUM` skip nulls and are null when nothing is left,
`/` aborts the query on a zero denominator, and `ROUND` rounds half-way cases
away from zero.

## Main results

* `roundTo_eq_zero_iff` — a value rounds to zero exactly below half a unit of
  the last digit.
* `roundTo_of_isGrid` — rounding is the identity on the grid it maps to.
* `roundTo_nonneg`, `roundTo_neg` — rounding keeps the sign.
* `roundTo_mono`, `abs_roundTo_sub_le` — rounding keeps the order and moves a
  value by half a unit of the last digit at most.
* `avg_map_some`, `sum_map_some` — aggregates of non-null columns.
* `sum_congr_groups` — a sum group by group.
* `Near.avg`, `Near.sum` — how far the error of a column carries.
-/

namespace Sql

/-! ## `ROUND` -/

/-- The nearest integer, half-way cases away from zero, as `ROUND` has it for
both signs. -/
def roundHalfAway (x : ℚ) : ℤ :=
  if 0 ≤ x then ⌊x + 1 / 2⌋ else -⌊-x + 1 / 2⌋

/-- `ROUND(x, digits)`. -/
def roundTo (digits : ℕ) (x : ℚ) : ℚ :=
  (roundHalfAway (x * 10 ^ digits) : ℚ) / 10 ^ digits

/-- `x` has at most `digits` decimals.  What `roundTo` returns has, and it
leaves such numbers as they are. -/
def IsGrid (digits : ℕ) (x : ℚ) : Prop := ∃ n : ℤ, x * 10 ^ digits = n

theorem roundHalfAway_intCast (n : ℤ) : roundHalfAway n = n := by
  have hhalf : ∀ m : ℤ, ⌊(m : ℚ) + 1 / 2⌋ = m := by
    intro m
    rw [Int.floor_eq_iff]
    constructor <;> norm_num
  unfold roundHalfAway
  split
  · exact hhalf n
  · have := hhalf (-n)
    push_cast at this
    rw [this, neg_neg]

theorem roundHalfAway_neg (x : ℚ) : roundHalfAway (-x) = -roundHalfAway x := by
  unfold roundHalfAway
  rcases lt_trichotomy x 0 with hx | rfl | hx
  · rw [if_pos (by linarith), if_neg (by linarith), neg_neg]
  · norm_num
  · rw [if_neg (by linarith), if_pos hx.le, neg_neg]

theorem roundHalfAway_nonneg {x : ℚ} (hx : 0 ≤ x) : 0 ≤ roundHalfAway x := by
  rw [roundHalfAway, if_pos hx]
  exact Int.floor_nonneg.mpr (by linarith)

/-- Only values closer to zero than to one round to zero. -/
theorem roundHalfAway_eq_zero_iff {x : ℚ} (hx : 0 ≤ x) :
    roundHalfAway x = 0 ↔ x < 1 / 2 := by
  rw [roundHalfAway, if_pos hx, Int.floor_eq_zero_iff, Set.mem_Ico]
  constructor
  · rintro ⟨-, hlt⟩
    linarith
  · intro hlt
    constructor <;> linarith

theorem roundTo_neg (digits : ℕ) (x : ℚ) :
    roundTo digits (-x) = -roundTo digits x := by
  rw [roundTo, neg_mul, roundHalfAway_neg, roundTo]
  push_cast
  ring

theorem roundTo_nonneg (digits : ℕ) {x : ℚ} (hx : 0 ≤ x) :
    0 ≤ roundTo digits x := by
  have hscaled : 0 ≤ x * 10 ^ digits := by positivity
  have hround : (0 : ℚ) ≤ roundHalfAway (x * 10 ^ digits) := by
    exact_mod_cast roundHalfAway_nonneg hscaled
  rw [roundTo]
  positivity

/-- A non-negative value is rounded to zero exactly when it is below half a unit
of the last digit kept. -/
theorem roundTo_eq_zero_iff (digits : ℕ) {x : ℚ} (hx : 0 ≤ x) :
    roundTo digits x = 0 ↔ x < 1 / (2 * 10 ^ digits) := by
  have hpos : (0 : ℚ) < 10 ^ digits := by positivity
  have hscaled : 0 ≤ x * 10 ^ digits := by positivity
  rw [roundTo, div_eq_zero_iff, or_iff_left hpos.ne', Int.cast_eq_zero,
    roundHalfAway_eq_zero_iff hscaled, ← lt_div_iff₀ hpos, div_div]

theorem roundTo_eq_zero_iff_abs (digits : ℕ) (x : ℚ) :
    roundTo digits x = 0 ↔ |x| < 1 / (2 * 10 ^ digits) := by
  rcases le_total 0 x with hx | hx
  · rw [abs_of_nonneg hx, roundTo_eq_zero_iff digits hx]
  · rw [abs_of_nonpos hx, ← roundTo_eq_zero_iff digits (neg_nonneg.mpr hx), roundTo_neg,
      neg_eq_zero]

/-! ### Order and error -/

theorem roundHalfAway_mono {x y : ℚ} (h : x ≤ y) : roundHalfAway x ≤ roundHalfAway y := by
  by_cases hx : 0 ≤ x
  · rw [roundHalfAway, roundHalfAway, if_pos hx, if_pos (hx.trans h)]
    exact Int.floor_le_floor (by linarith)
  · by_cases hy : 0 ≤ y
    · have hneg := roundHalfAway_nonneg (neg_nonneg.mpr (not_le.mp hx).le)
      rw [roundHalfAway_neg] at hneg
      exact (neg_nonneg.mp hneg).trans (roundHalfAway_nonneg hy)
    · rw [roundHalfAway, roundHalfAway, if_neg hx, if_neg hy]
      exact neg_le_neg (Int.floor_le_floor (by linarith))

theorem abs_roundHalfAway_sub_le (x : ℚ) : |(roundHalfAway x : ℚ) - x| ≤ 1 / 2 := by
  have hfloor : ∀ y : ℚ, |(⌊y + 1 / 2⌋ : ℚ) - y| ≤ 1 / 2 := by
    intro y
    have hle := Int.floor_le (y + 1 / 2)
    have hlt := Int.lt_floor_add_one (y + 1 / 2)
    rw [abs_le]
    constructor <;> linarith
  unfold roundHalfAway
  split
  · exact hfloor x
  · have h := hfloor (-x)
    rw [← abs_neg] at h
    have hswap : -((⌊-x + 1 / 2⌋ : ℚ) - -x) = ((-⌊-x + 1 / 2⌋ : ℤ) : ℚ) - x := by
      push_cast
      ring
    rwa [hswap] at h

theorem roundTo_mono (digits : ℕ) {x y : ℚ} (h : x ≤ y) :
    roundTo digits x ≤ roundTo digits y := by
  have hpos : (0 : ℚ) < 10 ^ digits := by positivity
  have hround : (roundHalfAway (x * 10 ^ digits) : ℚ) ≤ roundHalfAway (y * 10 ^ digits) := by
    exact_mod_cast roundHalfAway_mono (mul_le_mul_of_nonneg_right h hpos.le)
  exact div_le_div_of_nonneg_right hround hpos.le

/-- Rounding moves a value by half a unit of the last digit at most. -/
theorem abs_roundTo_sub_le (digits : ℕ) (x : ℚ) :
    |roundTo digits x - x| ≤ 1 / (2 * 10 ^ digits) := by
  have hpos : (0 : ℚ) < 10 ^ digits := by positivity
  have hscale : roundTo digits x - x =
      (roundHalfAway (x * 10 ^ digits) - x * 10 ^ digits) / 10 ^ digits := by
    rw [roundTo, sub_div, mul_div_cancel_right₀ _ hpos.ne']
  rw [hscale, abs_div, abs_of_pos hpos, ← div_div]
  exact div_le_div_of_nonneg_right (abs_roundHalfAway_sub_le _) hpos.le

theorem isGrid_roundTo (digits : ℕ) (x : ℚ) : IsGrid digits (roundTo digits x) := by
  have hpos : (10 : ℚ) ^ digits ≠ 0 := by positivity
  exact ⟨roundHalfAway (x * 10 ^ digits), by rw [roundTo, div_mul_cancel₀ _ hpos]⟩

/-- Rounding does not move a value that already has that many decimals. -/
theorem roundTo_of_isGrid {digits : ℕ} {x : ℚ} (hx : IsGrid digits x) :
    roundTo digits x = x := by
  obtain ⟨n, hn⟩ := hx
  have hpos : (10 : ℚ) ^ digits ≠ 0 := by positivity
  rw [roundTo, hn, roundHalfAway_intCast, ← hn, mul_div_cancel_right₀ _ hpos]

/-- A bound with that many decimals bounds the rounded value too. -/
theorem roundTo_le_of_isGrid {digits : ℕ} {x y : ℚ} (hy : IsGrid digits y) (h : x ≤ y) :
    roundTo digits x ≤ y :=
  (roundTo_mono digits h).trans_eq (roundTo_of_isGrid hy)

theorem le_roundTo_of_isGrid {digits : ℕ} {x y : ℚ} (hx : IsGrid digits x) (h : x ≤ y) :
    x ≤ roundTo digits y :=
  (roundTo_of_isGrid hx).symm.trans_le (roundTo_mono digits h)

theorem IsGrid.sub {digits : ℕ} {x y : ℚ} (hx : IsGrid digits x)
    (hy : IsGrid digits y) : IsGrid digits (x - y) := by
  obtain ⟨m, hm⟩ := hx
  obtain ⟨n, hn⟩ := hy
  exact ⟨m - n, by rw [sub_mul, hm, hn]; push_cast; ring⟩

theorem IsGrid.add {digits : ℕ} {x y : ℚ} (hx : IsGrid digits x)
    (hy : IsGrid digits y) : IsGrid digits (x + y) := by
  obtain ⟨m, hm⟩ := hx
  obtain ⟨n, hn⟩ := hy
  exact ⟨m + n, by rw [add_mul, hm, hn]; push_cast; ring⟩

@[simp] theorem roundTo_zero (digits : ℕ) : roundTo digits 0 = 0 :=
  roundTo_of_isGrid ⟨0, by simp⟩

/-! ## Operators on nullable columns -/

/-- `x + y`. -/
def add : Option ℚ → Option ℚ → Option ℚ := Option.map₂ (· + ·)

/-- `x - y`. -/
def sub : Option ℚ → Option ℚ → Option ℚ := Option.map₂ (· - ·)

/-- `x * y`. -/
def mul : Option ℚ → Option ℚ → Option ℚ := Option.map₂ (· * ·)

/-- `x / y`: null arguments first, then the check of the denominator.  A null
divided by zero is therefore null, and every other division by zero aborts the
query. -/
def div : Option ℚ → Option ℚ → Except QueryError (Option ℚ)
  | some x, some y => if y = 0 then .error .divisionByZero else .ok (some (x / y))
  | _, _ => .ok none

/-- `ROUND` of a nullable column. -/
def round (digits : ℕ) : Option ℚ → Option ℚ := Option.map (roundTo digits)

/-! ## `SUM` and `AVG` -/

/-- `SUM(x)`: nulls are passed over, and the sum of nothing but nulls is null.
Numbers are exact, so that the order of the terms does not matter; the sum of
`FLOAT64` values depends on it in the last digits. -/
def sum (xs : List (Option ℚ)) : Option ℚ :=
  match xs.reduceOption with
  | [] => none
  | y :: ys => some (y :: ys).sum

/-- `AVG(x)`: the sum over the number of values that are not null.  It is exact,
as `sum` is. -/
def avg (xs : List (Option ℚ)) : Option ℚ :=
  match xs.reduceOption with
  | [] => none
  | y :: ys => some ((y :: ys).sum / (y :: ys).length)

/-- The mean of a list of numbers. -/
def mean (xs : List ℚ) : ℚ := xs.sum / xs.length

theorem sum_map_some {xs : List ℚ} (h : xs ≠ []) :
    sum (xs.map some) = some xs.sum := by
  obtain ⟨y, ys, rfl⟩ := List.exists_cons_of_ne_nil h
  simp [sum, List.reduceOption]

theorem avg_map_some {xs : List ℚ} (h : xs ≠ []) :
    avg (xs.map some) = some (mean xs) := by
  obtain ⟨y, ys, rfl⟩ := List.exists_cons_of_ne_nil h
  simp [avg, mean, List.reduceOption]

theorem sum_eq (xs : List (Option ℚ)) :
    sum xs = if xs.reduceOption = [] then none else some xs.reduceOption.sum := by
  unfold sum
  split <;> simp_all

theorem avg_eq (xs : List (Option ℚ)) :
    avg xs = if xs.reduceOption = [] then none else some (mean xs.reduceOption) := by
  unfold avg mean
  split <;> simp_all

/-- A sum does not depend on the order of the rows. -/
theorem sum_perm {xs ys : List (Option ℚ)} (h : xs.Perm ys) : sum xs = sum ys := by
  have hperm : xs.reduceOption.Perm ys.reduceOption := h.filterMap id
  have hnil : xs.reduceOption = [] ↔ ys.reduceOption = [] := by
    rw [← List.length_eq_zero_iff, ← List.length_eq_zero_iff, hperm.length_eq]
  simp only [sum_eq, hnil, hperm.sum_eq]

/-- An average does not depend on the order of the rows. -/
theorem avg_perm {xs ys : List (Option ℚ)} (h : xs.Perm ys) : avg xs = avg ys := by
  have hperm : xs.reduceOption.Perm ys.reduceOption := h.filterMap id
  have hnil : xs.reduceOption = [] ↔ ys.reduceOption = [] := by
    rw [← List.length_eq_zero_iff, ← List.length_eq_zero_iff, hperm.length_eq]
  simp only [avg_eq, mean, hnil, hperm.sum_eq, hperm.length_eq]

/-! ### The sum -/

/-- Two tables one after the other. -/
theorem sum_append (xs ys : List (Option ℚ)) : sum (xs ++ ys) = sum [sum xs, sum ys] := by
  rw [sum_eq (xs ++ ys), List.reduceOption_append, sum_eq xs, sum_eq ys]
  by_cases hx : xs.reduceOption = []
  · by_cases hy : ys.reduceOption = []
    · rw [if_pos hx, if_pos hy, if_pos (by rw [hx, hy, List.append_nil])]
      rfl
    · rw [if_pos hx, if_neg hy, if_neg (by simp [hx, hy])]
      simp [sum, hx]
  · have hne : xs.reduceOption ++ ys.reduceOption ≠ [] := by simp [hx]
    by_cases hy : ys.reduceOption = []
    · rw [if_neg hx, if_pos hy, if_neg hne]
      simp [sum, hy]
    · rw [if_neg hx, if_neg hy, if_neg hne]
      simp [sum]

theorem sum_singleton (x : Option ℚ) : sum [x] = x := by
  cases x <;> simp [sum, List.reduceOption]

theorem sum_cons (x : Option ℚ) (xs : List (Option ℚ)) : sum (x :: xs) = sum [x, sum xs] := by
  have happend := sum_append [x] xs
  rwa [sum_singleton] at happend

/-- A sum over groups of rows is the sum of the sums of the groups. -/
theorem sum_flatMap {κ : Type*} (keys : List κ) (f : κ → List (Option ℚ)) :
    sum (keys.flatMap f) = sum (keys.map fun k => sum (f k)) := by
  induction keys with
  | nil => rfl
  | cons k keys ih => rw [List.flatMap_cons, sum_append, ih, List.map_cons, ← sum_cons]

/-- A column adds up to the same over two tables when it does for every value of
a key. -/
theorem sum_congr_groups {α κ : Type*} [DecidableEq κ] (key : α → κ) {xs ys : List α}
    {f g : α → Option ℚ}
    (h : ∀ k, sum ((xs.filter fun x => key x = k).map f) =
      sum ((ys.filter fun y => key y = k).map g)) : sum (xs.map f) = sum (ys.map g) := by
  let keys := ((xs ++ ys).map key).dedup
  have hgroups : ∀ {rows : List α} {column : α → Option ℚ}, (∀ r ∈ rows, key r ∈ keys) →
      sum (rows.map column) =
        sum (keys.map fun k => sum ((rows.filter fun r => key r = k).map column)) := by
    intro rows column hrows
    rw [← sum_perm ((flatMap_filter_perm key (List.nodup_dedup _) hrows).map column),
      List.map_flatMap, sum_flatMap]
  have hmem : ∀ r ∈ xs ++ ys, key r ∈ keys :=
    fun r hr => List.mem_dedup.mpr (List.mem_map_of_mem hr)
  rw [hgroups fun r hr => hmem r (List.mem_append_left _ hr),
    hgroups fun r hr => hmem r (List.mem_append_right _ hr)]
  exact congrArg sum (List.map_congr_left fun k _ => h k)

/-- A common factor can be multiplied afterwards. -/
theorem sum_map_mul_right {α : Type*} (rows : List α) (f : α → Option ℚ) (q : Option ℚ) :
    sum (rows.map fun r => mul (f r) q) = mul (sum (rows.map f)) q := by
  cases q with
  | none =>
      have hcolumn : (rows.map fun r => mul (f r) none) = List.replicate rows.length none :=
        List.map_eq_replicate_iff.mpr fun r _ => by cases f r <;> rfl
      rw [hcolumn, sum_eq, if_pos (by rw [List.reduceOption_replicate_none])]
      cases sum (rows.map f) <;> rfl
  | some q =>
      have hcolumn : (rows.map fun r => mul (f r) (some q)) =
          (rows.map f).map (Option.map fun x => x * q) := by
        rw [List.map_map]
        exact List.map_congr_left fun r _ => by cases h : f r <;> simp [mul, h]
      rw [hcolumn]
      simp only [sum_eq, List.reduceOption_map, List.map_eq_nil_iff, List.sum_map_mul_right,
        List.map_id']
      split <;> rfl

/-- A sum of values with that many decimals is not rounded. -/
theorem round_sum_of_isGrid {digits : ℕ} {xs : List (Option ℚ)}
    (h : ∀ x, some x ∈ xs → IsGrid digits x) : round digits (sum xs) = sum xs := by
  have hgrid : IsGrid digits xs.reduceOption.sum :=
    List.sum_induction _ (fun _ _ => IsGrid.add) ⟨0, by simp⟩ fun x hx =>
      h x (List.reduceOption_mem_iff.mp hx)
  rw [sum_eq]
  split
  · rfl
  · exact congrArg some (roundTo_of_isGrid hgrid)

/-! ### The mean -/

theorem mean_le {xs : List ℚ} {b : ℚ} (hne : xs ≠ []) (h : ∀ x ∈ xs, x ≤ b) : mean xs ≤ b := by
  have hpos : (0 : ℚ) < xs.length := by exact_mod_cast List.length_pos_iff.mpr hne
  have hsum := List.sum_le_card_nsmul xs b h
  rw [nsmul_eq_mul] at hsum
  rw [mean, div_le_iff₀ hpos]
  linarith

theorem le_mean {xs : List ℚ} {b : ℚ} (hne : xs ≠ []) (h : ∀ x ∈ xs, b ≤ x) : b ≤ mean xs := by
  have hpos : (0 : ℚ) < xs.length := by exact_mod_cast List.length_pos_iff.mpr hne
  have hsum := List.card_nsmul_le_sum xs b h
  rw [nsmul_eq_mul] at hsum
  rw [mean, le_div_iff₀ hpos]
  linarith

theorem mean_map_add {α : Type*} (rows : List α) (f g : α → ℚ) :
    mean (rows.map f) + mean (rows.map g) = mean (rows.map fun r => f r + g r) := by
  simp only [mean, List.length_map, List.sum_map_add, add_div]

/-- The mean of non-negative numbers is positive as soon as one of them is. -/
theorem mean_pos {xs : List ℚ} (h : ∀ x ∈ xs, 0 ≤ x) {x : ℚ} (hx : x ∈ xs) (hpos : 0 < x) :
    0 < mean xs := by
  have hsum : 0 < xs.sum := hpos.trans_le (List.single_le_sum h x hx)
  have hlength : (0 : ℚ) < xs.length := by exact_mod_cast List.length_pos_of_mem hx
  exact div_pos hsum hlength

/-- Leaving out the zeros of a non-negative column raises its mean, unless there
are none. -/
theorem mean_filter_pos_eq_iff {xs : List ℚ} (h : ∀ x ∈ xs, 0 ≤ x)
    (hpos : ∃ x ∈ xs, 0 < x) : mean (xs.filter fun x => 0 < x) = mean xs ↔ ∀ x ∈ xs, 0 < x := by
  have hsum : (xs.filter fun x => 0 < x).sum = xs.sum := by
    clear hpos
    induction xs with
    | nil => rfl
    | cons x xs ih =>
        have htail := ih fun y hy => h y (List.mem_cons_of_mem x hy)
        by_cases hx : 0 < x
        · rw [List.filter_cons_of_pos (by simpa using hx), List.sum_cons, List.sum_cons, htail]
        · have hzero : x = 0 := le_antisymm (not_lt.mp hx) (h x List.mem_cons_self)
          rw [List.filter_cons_of_neg (by simpa using hx), List.sum_cons, htail, hzero, zero_add]
  obtain ⟨x, hx, hxpos⟩ := hpos
  have htotal : xs.sum ≠ 0 := (hxpos.trans_le (List.single_le_sum h x hx)).ne'
  constructor
  · intro heq
    rw [mean, mean, hsum, div_eq_mul_inv, div_eq_mul_inv, mul_right_inj' htotal, inv_inj,
      Nat.cast_inj, List.length_filter_eq_length_iff] at heq
    exact fun y hy => of_decide_eq_true (heq y hy)
  · intro hall
    rw [List.filter_eq_self.mpr fun y hy => decide_eq_true (hall y hy)]

theorem mean_nonneg {xs : List ℚ} (h : ∀ x ∈ xs, 0 ≤ x) : 0 ≤ mean xs := by
  have hsum : 0 ≤ xs.sum := List.sum_nonneg h
  rw [mean]
  positivity

/-! ## Columns without nulls -/

section Columns

variable {α : Type*} {rows : List α} {column : α → Option ℚ}

/-- A column that is nowhere null is a list of numbers. -/
private theorem map_eq_map_some (h : ∀ r ∈ rows, column r ≠ none) :
    rows.map column = (rows.map fun r => (column r).getD 0).map some := by
  rw [List.map_map]
  refine List.map_congr_left fun r hr => ?_
  obtain ⟨x, hx⟩ := Option.ne_none_iff_exists'.mp (h r hr)
  simp [hx]

theorem avg_map_of_ne_none (hne : rows ≠ []) (h : ∀ r ∈ rows, column r ≠ none) :
    avg (rows.map column) = some (mean (rows.map fun r => (column r).getD 0)) := by
  rw [map_eq_map_some h, avg_map_some (by simpa using hne)]

/-- The average of values between two bounds lies between them, and rounding
does not leave bounds that have the decimals it keeps.  The values need not have
these decimals; the bounds must, or rounding could step over them. -/
theorem exists_round_avg_between {digits : ℕ} {low high : ℚ} (hlow : IsGrid digits low)
    (hhigh : IsGrid digits high) (hne : rows ≠ [])
    (h : ∀ r ∈ rows, ∃ x, column r = some x ∧ low ≤ x ∧ x ≤ high) :
    ∃ q, round digits (avg (rows.map column)) = some q ∧ low ≤ q ∧ q ≤ high := by
  have hvalues : ∀ x ∈ rows.map (fun r => (column r).getD 0), low ≤ x ∧ x ≤ high := by
    intro x hx
    obtain ⟨r, hr, rfl⟩ := List.mem_map.mp hx
    obtain ⟨x, hx, hbounds⟩ := h r hr
    rwa [hx]
  have hne' : rows.map (fun r => (column r).getD 0) ≠ [] := by simpa using hne
  refine ⟨roundTo digits (mean (rows.map fun r => (column r).getD 0)), ?_,
    le_roundTo_of_isGrid hlow (le_mean hne' fun x hx => (hvalues x hx).1),
    roundTo_le_of_isGrid hhigh (mean_le hne' fun x hx => (hvalues x hx).2)⟩
  rw [avg_map_of_ne_none hne fun r hr => ?_]
  · rfl
  · obtain ⟨x, hx, -⟩ := h r hr
    rw [hx]
    exact Option.some_ne_none x

theorem sum_map_of_ne_none (hne : rows ≠ []) (h : ∀ r ∈ rows, column r ≠ none) :
    sum (rows.map column) = some (rows.map fun r => (column r).getD 0).sum := by
  rw [map_eq_map_some h, sum_map_some (by simpa using hne)]

end Columns

/-! ## Non-negative columns -/

/-- The value is neither null nor negative. -/
def Nonneg (x : Option ℚ) : Prop := ∃ q, x = some q ∧ 0 ≤ q

instance decidableNonneg : (x : Option ℚ) → Decidable (Nonneg x)
  | none => .isFalse (by rintro ⟨_, hnone, -⟩; cases hnone)
  | some q => decidable_of_iff (0 ≤ q) (by simp [Nonneg])

theorem Nonneg.ne_none {x : Option ℚ} (h : Nonneg x) : x ≠ none := by
  obtain ⟨q, rfl, -⟩ := h
  exact Option.some_ne_none q

theorem Nonneg.getD_nonneg {x : Option ℚ} (h : Nonneg x) : 0 ≤ x.getD 0 := by
  obtain ⟨q, rfl, hq⟩ := h
  exact hq

theorem Nonneg.mul {x y : Option ℚ} (hx : Nonneg x) (hy : Nonneg y) :
    Nonneg (Sql.mul x y) := by
  obtain ⟨p, rfl, hp⟩ := hx
  obtain ⟨q, rfl, hq⟩ := hy
  exact ⟨p * q, rfl, mul_nonneg hp hq⟩

theorem Nonneg.round {x : Option ℚ} (hx : Nonneg x) (digits : ℕ) :
    Nonneg (Sql.round digits x) := by
  obtain ⟨p, rfl, hp⟩ := hx
  exact ⟨roundTo digits p, rfl, roundTo_nonneg digits hp⟩

theorem nonneg_avg {α : Type*} {rows : List α} {column : α → Option ℚ} (hne : rows ≠ [])
    (h : ∀ r ∈ rows, Nonneg (column r)) : Nonneg (avg (rows.map column)) := by
  refine ⟨_, avg_map_of_ne_none hne fun r hr => (h r hr).ne_none, mean_nonneg fun x hx => ?_⟩
  obtain ⟨r, hr, rfl⟩ := List.mem_map.mp hx
  exact (h r hr).getD_nonneg

/-! ## Columns with an error -/

/-- Both values are null, or they differ by `ε` at most.  Errors add up along
sums, and are multiplied along products, as the lemmas below say. -/
def Near (ε : ℚ) : Option ℚ → Option ℚ → Prop := Option.Rel fun a b => |a - b| ≤ ε

theorem near_round (digits : ℕ) (x : Option ℚ) :
    Near (1 / (2 * 10 ^ digits)) (round digits x) x := by
  cases x with
  | none => exact .none
  | some x => exact .some (abs_roundTo_sub_le digits x)

theorem Near.trans {ε δ : ℚ} {x y z : Option ℚ} (hxy : Near ε x y) (hyz : Near δ y z) :
    Near (ε + δ) x z := by
  cases hxy with
  | none =>
      cases hyz
      exact .none
  | some hab =>
      cases hyz with
      | some hbc => exact .some ((abs_sub_le _ _ _).trans (add_le_add hab hbc))

/-- A factor scales the error. -/
theorem Near.mul_right {ε q : ℚ} {x y : Option ℚ} (h : Near ε x y) (hq : 0 ≤ q) :
    Near (ε * q) (mul x (some q)) (mul y (some q)) := by
  cases h with
  | none => exact .none
  | some hab =>
      refine .some ?_
      rw [← sub_mul, abs_mul, abs_of_nonneg hq]
      exact mul_le_mul_of_nonneg_right hab hq

/-- The non-null values of two columns that are near each other. -/
private theorem forall₂_reduceOption {ε : ℚ} {xs ys : List (Option ℚ)}
    (h : List.Forall₂ (Near ε) xs ys) :
    List.Forall₂ (fun a b => |a - b| ≤ ε) xs.reduceOption ys.reduceOption :=
  List.rel_filterMap (fun _ _ hxy => hxy) h

theorem abs_sum_sub_sum_le {ε : ℚ} {xs ys : List ℚ}
    (h : List.Forall₂ (fun a b => |a - b| ≤ ε) xs ys) :
    |xs.sum - ys.sum| ≤ xs.length * ε := by
  induction h with
  | nil => simp
  | @cons a b xs ys hab _ ih =>
      have hsplit : (a :: xs).sum - (b :: ys).sum = (a - b) + (xs.sum - ys.sum) := by
        rw [List.sum_cons, List.sum_cons]
        ring
      rw [hsplit, List.length_cons]
      push_cast
      linarith [abs_add_le (a - b) (xs.sum - ys.sum)]

/-- Averaging does not add to the error. -/
theorem Near.avg {ε : ℚ} {xs ys : List (Option ℚ)} (h : List.Forall₂ (Near ε) xs ys) :
    Near ε (avg xs) (avg ys) := by
  have hvalues := forall₂_reduceOption h
  have hlength := hvalues.length_eq
  by_cases hnil : xs.reduceOption = []
  · have hnil' : ys.reduceOption = [] := by
      rw [← List.length_eq_zero_iff, ← hlength, hnil, List.length_nil]
    rw [avg_eq, avg_eq, if_pos hnil, if_pos hnil']
    exact .none
  · have hnil' : ys.reduceOption ≠ [] := by
      intro hys
      rw [hys, List.length_nil, List.length_eq_zero_iff] at hlength
      exact hnil hlength
    have hpos : (0 : ℚ) < xs.reduceOption.length := by
      exact_mod_cast List.length_pos_iff.mpr hnil
    rw [avg_eq, avg_eq, if_neg hnil, if_neg hnil']
    refine .some ?_
    rw [mean, mean, ← hlength, ← sub_div, abs_div, abs_of_pos hpos, div_le_iff₀ hpos, mul_comm]
    exact abs_sum_sub_sum_le hvalues

/-- Two columns add up, and so do their errors. -/
theorem Near.sum_pair {ε δ : ℚ} {x y x' y' : Option ℚ} (h : Near ε x y) (h' : Near δ x' y')
    (hε : 0 ≤ ε) (hδ : 0 ≤ δ) : Near (ε + δ) (Sql.sum [x, x']) (Sql.sum [y, y']) := by
  cases h with
  | none =>
      cases h' with
      | none => exact .none
      | some hab => exact .some (by simpa using hab.trans (le_add_of_nonneg_left hε))
  | @some a b hab =>
      cases h' with
      | none => exact .some (by simpa using hab.trans (le_add_of_nonneg_right hδ))
      | @some a' b' hab' =>
          refine .some ?_
          have hsplit := (abs_add_le (a - b) (a' - b')).trans (add_le_add hab hab')
          simpa [add_sub_add_comm] using hsplit

/-- Summing adds the errors up. -/
theorem Near.sum {α : Type*} {rows : List α} {f g : α → Option ℚ} {ε : α → ℚ}
    (h : ∀ r ∈ rows, Near (ε r) (f r) (g r)) (hε : ∀ r ∈ rows, 0 ≤ ε r) :
    Near (rows.map ε).sum (sum (rows.map f)) (sum (rows.map g)) := by
  induction rows with
  | nil => exact .none
  | cons r rows ih =>
      have hrows := ih (fun s hs => h s (List.mem_cons_of_mem r hs))
        fun s hs => hε s (List.mem_cons_of_mem r hs)
      have herror : 0 ≤ (rows.map ε).sum := by
        refine List.sum_nonneg fun x hx => ?_
        obtain ⟨s, hs, rfl⟩ := List.mem_map.mp hx
        exact hε s (List.mem_cons_of_mem r hs)
      rw [List.map_cons, List.map_cons, List.map_cons, List.sum_cons, sum_cons (f r),
        sum_cons (g r)]
      exact (h r List.mem_cons_self).sum_pair hrows (hε r List.mem_cons_self) herror

end Sql
