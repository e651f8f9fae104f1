import BinanceElt.Sql.Calendar
import Mathlib.Algebra.Order.Ring.Int
import Mathlib.Data.List.Basic

/-!
# Casts to text

An `INT64` is written in decimal.  A `TIMESTAMP` is written as `YYYY-MM-DD HH:MM:SS`, the
fraction of its second if there is one, and the offset `+00`.  Its length depends on the
fraction only, and the fraction ends where the digits before the offset do, so that a
timestamp is recognised at the end of a text whatever stands before it.

## Main results

* `intText_inj` — distinct integers are written differently.
* `append_timestampText_inj` — a text that ends in a timestamp determines both parts.
-/

namespace Sql

/-! ## Where a text is cut -/

section Cut

variable {α : Type} {p : α → Prop} {x x' z z' : List α} {a a' : α}

/-- A list is cut at its first element outside `p` in one way only. -/
theorem append_cons_inj_of_forall (hx : ∀ b ∈ x, p b) (hx' : ∀ b ∈ x', p b) (ha : ¬ p a)
    (ha' : ¬ p a') (h : x ++ a :: z = x' ++ a' :: z') : x = x' ∧ a = a' ∧ z = z' := by
  induction x generalizing x' with
  | nil =>
      cases x' with
      | nil => exact ⟨rfl, List.cons.inj h⟩
      | cons b x' =>
          rw [(List.cons.inj h).1] at ha
          exact absurd (hx' b List.mem_cons_self) ha
  | cons b x ih =>
      cases x' with
      | nil =>
          rw [← (List.cons.inj h).1] at ha'
          exact absurd (hx b List.mem_cons_self) ha'
      | cons b' x' =>
          obtain ⟨rfl, htail⟩ := List.cons.inj h
          obtain ⟨rfl, hrest⟩ := ih (fun c hc => hx c (List.mem_cons_of_mem _ hc))
            (fun c hc => hx' c (List.mem_cons_of_mem _ hc)) htail
          exact ⟨rfl, hrest⟩

/-- And at its last one. -/
theorem append_cons_inj_of_forall_right (hz : ∀ b ∈ z, p b) (hz' : ∀ b ∈ z', p b) (ha : ¬ p a)
    (ha' : ¬ p a') (h : x ++ a :: z = x' ++ a' :: z') : x = x' ∧ a = a' ∧ z = z' := by
  have hreverse : z.reverse ++ a :: x.reverse = z'.reverse ++ a' :: x'.reverse := by
    have h := congrArg List.reverse h
    simpa only [List.reverse_append, List.reverse_cons, List.append_assoc,
      List.singleton_append] using h
  obtain ⟨hzs, haa, hxs⟩ := append_cons_inj_of_forall
    (fun b hb => hz b (List.mem_reverse.mp hb)) (fun b hb => hz' b (List.mem_reverse.mp hb))
    ha ha' hreverse
  exact ⟨List.reverse_injective hxs, haa, List.reverse_injective hzs⟩

/-- A list is cut behind a part of known length. -/
theorem append_cons_inj_of_length (hlength : x.length = x'.length)
    (h : x ++ a :: z = x' ++ a' :: z') : x = x' ∧ z = z' := by
  obtain ⟨hx, hrest⟩ := List.append_inj h hlength
  exact ⟨hx, (List.cons.inj hrest).2⟩

end Cut

/-! ## Integers -/

/-- `CAST(n AS STRING)`. -/
def intText (n : ℤ) : List Char := (toString n).toList

theorem toDigits_inj {m n : ℕ} (h : Nat.toDigits 10 m = Nat.toDigits 10 n) : m = n := by
  rw [← Nat.ofDigitChars_ten_toDigits (n := m), h, Nat.ofDigitChars_ten_toDigits]

theorem intText_of_nonneg {n : ℤ} (hn : 0 ≤ n) : intText n = Nat.toDigits 10 n.toNat := by
  rw [intText, Int.toString_eq_repr, Int.repr_eq_if, if_pos hn, Nat.toList_repr]

theorem intText_of_neg {n : ℤ} (hn : n < 0) : intText n = '-' :: Nat.toDigits 10 (-n).toNat := by
  rw [intText, Int.toString_eq_repr, Int.repr_eq_if, if_neg (by omega), String.toList_append,
    Nat.toList_repr]
  rfl

/-- The sign, if there is one, and digits. -/
theorem isDigit_of_mem_intText {n : ℤ} {c : Char} (hc : c ∈ intText n) :
    c.isDigit = true ∨ c = '-' := by
  rcases lt_or_ge n 0 with hn | hn
  · rw [intText_of_neg hn] at hc
    rcases List.mem_cons.mp hc with hc | hc
    · exact .inr hc
    · exact .inl (Nat.isDigit_of_mem_toDigits (by decide) (by decide) hc)
  · rw [intText_of_nonneg hn] at hc
    exact .inl (Nat.isDigit_of_mem_toDigits (by decide) (by decide) hc)

private theorem intText_ne_of_neg {m n : ℤ} (hm : m < 0) (hn : 0 ≤ n) :
    intText m ≠ intText n := by
  intro h
  have hsign : '-' ∈ intText n := by
    rw [← h, intText_of_neg hm]
    exact List.mem_cons_self
  rw [intText_of_nonneg hn] at hsign
  exact absurd (Nat.isDigit_of_mem_toDigits (by decide) (by decide) hsign) (by decide)

/-- Distinct integers are written differently. -/
theorem intText_inj {m n : ℤ} (h : intText m = intText n) : m = n := by
  rcases lt_or_ge m 0 with hm | hm <;> rcases lt_or_ge n 0 with hn | hn
  · rw [intText_of_neg hm, intText_of_neg hn] at h
    have heq := toDigits_inj (List.cons.inj h).2
    omega
  · exact absurd h (intText_ne_of_neg hm hn)
  · exact absurd h.symm (intText_ne_of_neg hn hm)
  · rw [intText_of_nonneg hm, intText_of_nonneg hn] at h
    have heq := toDigits_inj h
    omega

/-- The number of digits of a positive integer. -/
theorem length_intText {k : ℕ} {n : ℤ} (hmin : 10 ^ k ≤ n) (hmax : n < 10 ^ (k + 1)) :
    (intText n).length = k + 1 := by
  have hpos : (0 : ℤ) < 10 ^ k := pow_pos (by decide) k
  have hnat : (n.toNat : ℤ) = n := Int.toNat_of_nonneg (by omega)
  rw [intText_of_nonneg (by omega)]
  have hle : (Nat.toDigits 10 n.toNat).length ≤ k + 1 := by
    rw [Nat.length_toDigits_le_iff (by decide) (by omega)]
    exact_mod_cast hnat ▸ hmax
  have hge : ¬ (Nat.toDigits 10 n.toNat).length ≤ k := by
    rcases Nat.eq_zero_or_pos k with rfl | hk
    · exact Nat.not_le.mpr Nat.length_toDigits_pos
    · rw [Nat.length_toDigits_le_iff (by decide) hk, Nat.not_lt]
      exact_mod_cast hnat ▸ hmin
  omega

/-! ## Numbers of a fixed width -/

/-- The last `k` decimal digits of a number. -/
def digits : ℕ → ℕ → List Char
  | 0, _ => []
  | k + 1, n => digits k (n / 10) ++ [Nat.digitChar (n % 10)]

@[simp] theorem length_digits (k n : ℕ) : (digits k n).length = k := by
  induction k generalizing n with
  | zero => rfl
  | succ k ih => rw [digits, List.length_append, ih, List.length_singleton]

theorem isDigit_of_mem_digits {k n : ℕ} {c : Char} (hc : c ∈ digits k n) : c.isDigit = true := by
  induction k generalizing n with
  | zero => cases hc
  | succ k ih =>
      rcases List.mem_append.mp hc with hc | hc
      · exact ih hc
      · rw [List.mem_singleton.mp hc, Nat.isDigit_digitChar, decide_eq_true_eq]
        exact Nat.mod_lt _ (by decide)

/-- Numbers of at most `k` digits differ in one of them. -/
theorem digits_inj {k m n : ℕ} (hm : m < 10 ^ k) (hn : n < 10 ^ k) (h : digits k m = digits k n) :
    m = n := by
  induction k generalizing m n with
  | zero => omega
  | succ k ih =>
      obtain ⟨hinit, hlast⟩ := List.append_inj' h rfl
      have hdiv : m / 10 = n / 10 := by
        refine ih ?_ ?_ hinit
        · rw [Nat.pow_succ] at hm
          omega
        · rw [Nat.pow_succ] at hn
          omega
      have hmod : m % 10 = n % 10 := by
        have hnat := congrArg Char.toNat (List.singleton_inj.mp hlast)
        rw [Nat.toNat_digitChar_of_lt_ten (by omega),
          Nat.toNat_digitChar_of_lt_ten (by omega)] at hnat
        omega
      omega

/-! ## Dates -/

/-- The parts of the number `%Y%m%d` prints. -/
def civilYear (d : Date) : ℤ := marchYear d + if 10 ≤ marchMonth (marchDay d) then 1 else 0
def civilMonth (d : Date) : ℤ :=
  if marchMonth (marchDay d) < 10 then marchMonth (marchDay d) + 3 else marchMonth (marchDay d) - 9
def civilDay (d : Date) : ℤ := marchDay d - (153 * marchMonth (marchDay d) + 2) / 5 + 1

theorem formatYmd_eq (d : Date) :
    formatYmd d = civilYear d * 10000 + civilMonth d * 100 + civilDay d := rfl

theorem civilMonth_bounds (d : Date) : 1 ≤ civilMonth d ∧ civilMonth d ≤ 12 := by
  have h := marchMonth_bounds (marchDay_bounds d)
  unfold civilMonth
  split <;> omega

theorem civilDay_bounds (d : Date) : 1 ≤ civilDay d ∧ civilDay d ≤ 31 := by
  have h := dayOfMonth_bounds (marchDay d)
  unfold civilDay
  omega

example : formatYmd minDate = 10101 ∧ formatYmd maxDate = 99991231 := by decide

/-- A `DATE` has a year of four digits. -/
theorem civilYear_bounds {d : Date} (h : minDate ≤ d ∧ d ≤ maxDate) :
    1 ≤ civilYear d ∧ civilYear d ≤ 9999 := by
  have hmin : (10101 : ℤ) ≤ formatYmd d := formatYmd_le_iff.mpr h.1
  have hmax : formatYmd d ≤ (99991231 : ℤ) := formatYmd_le_iff.mpr h.2
  have hmonth := civilMonth_bounds d
  have hday := civilDay_bounds d
  rw [formatYmd_eq] at hmin hmax
  omega

/-- `CAST(d AS STRING)`. -/
def dateText (d : Date) : List Char :=
  digits 4 (civilYear d).toNat ++ '-' :: (digits 2 (civilMonth d).toNat ++
    '-' :: digits 2 (civilDay d).toNat)

example : dateText 19782 = "2024-02-29".toList := by decide

@[simp] theorem length_dateText (d : Date) : (dateText d).length = 10 := by
  simp [dateText]

theorem dateText_inj {d d' : Date} (hd : minDate ≤ d ∧ d ≤ maxDate)
    (hd' : minDate ≤ d' ∧ d' ≤ maxDate) (h : dateText d = dateText d') : d = d' := by
  have hyear := civilYear_bounds hd
  have hyear' := civilYear_bounds hd'
  have hmonth := civilMonth_bounds d
  have hmonth' := civilMonth_bounds d'
  have hday := civilDay_bounds d
  have hday' := civilDay_bounds d'
  obtain ⟨hyears, hrest⟩ := List.append_inj h (by simp)
  obtain ⟨hmonths, hdays⟩ := List.append_inj (List.cons.inj hrest).2 (by simp)
  have hdays := (List.cons.inj hdays).2
  have hyeq := digits_inj (by omega) (by omega) hyears
  have hmeq := digits_inj (by omega) (by omega) hmonths
  have hdeq := digits_inj (by omega) (by omega) hdays
  refine formatYmd_injective ?_
  rw [formatYmd_eq, formatYmd_eq]
  omega

/-! ## Timestamps -/

/-- The microseconds since midnight. -/
def timeOfDay (ts : Timestamp) : ℕ := (ts % 86400000000).toNat

/-- How the microseconds after a full second are written: not at all, or as a
point and digits.  How many digits there are is left open. -/
structure FractionText where
  text : ℕ → List Char
  point : ∀ us, text us = [] ∨ ∃ ds, text us = '.' :: ds ∧ ∀ c ∈ ds, c.isDigit = true
  inj : ∀ us us', us < 1000000 → us' < 1000000 → text us = text us' → us = us'

variable (F : FractionText)

/-- `YYYY-MM-DD HH:MM`. -/
def minuteText (ts : Timestamp) : List Char :=
  dateText (extractDate ts) ++ ' ' :: (digits 2 (timeOfDay ts / 3600000000) ++
    ':' :: digits 2 (timeOfDay ts / 60000000 % 60))

/-- `CAST(ts AS STRING)`. -/
def timestampText (ts : Timestamp) : List Char :=
  minuteText ts ++ ':' :: (digits 2 (timeOfDay ts / 1000000 % 60) ++
    F.text (timeOfDay ts % 1000000)) ++ "+00".toList

@[simp] theorem length_minuteText (ts : Timestamp) : (minuteText ts).length = 16 := by
  simp [minuteText]

theorem timeOfDay_lt (ts : Timestamp) : timeOfDay ts < 86400000000 := by
  unfold timeOfDay
  omega

/-- A timestamp is its date and its time of day. -/
theorem eq_of_extractDate_eq {ts ts' : ℤ} (hdate : extractDate ts = extractDate ts')
    (htime : timeOfDay ts = timeOfDay ts') : ts = ts' := by
  have hdate : ts / 86400000000 = ts' / 86400000000 := hdate
  have htime : (ts % 86400000000).toNat = (ts' % 86400000000).toNat := htime
  omega

theorem minuteText_inj {ts ts' : Timestamp} (hts : IsTimestamp ts) (hts' : IsTimestamp ts')
    (h : minuteText ts = minuteText ts') :
    extractDate ts = extractDate ts' ∧ timeOfDay ts / 60000000 = timeOfDay ts' / 60000000 := by
  have hlt := timeOfDay_lt ts
  have hlt' := timeOfDay_lt ts'
  obtain ⟨hdate, hrest⟩ := List.append_inj h (by simp)
  obtain ⟨hhour, hminute⟩ := List.append_inj (List.cons.inj hrest).2 (by simp)
  have hheq := digits_inj (by omega) (by omega) hhour
  have hmeq := digits_inj (by omega) (by omega) (List.cons.inj hminute).2
  refine ⟨dateText_inj hts hts' hdate, ?_⟩
  omega

/-- The fraction is found at the end of a text, with what stands before it. -/
private theorem append_fraction_inj {x x' : List Char} {s s' us us' : ℕ}
    (h : x ++ ':' :: (digits 2 s ++ F.text us) = x' ++ ':' :: (digits 2 s' ++ F.text us')) :
    x = x' ∧ digits 2 s = digits 2 s' ∧ F.text us = F.text us' := by
  have hdigits : ∀ n, ∀ c ∈ digits 2 n, c.isDigit = true := fun n c => isDigit_of_mem_digits
  have hcolon : ¬ (':').isDigit = true := by decide
  have hpoint : ¬ ('.').isDigit = true := by decide
  rcases F.point us with hnone | ⟨ds, hsome, hds⟩ <;>
    rcases F.point us' with hnone' | ⟨ds', hsome', hds'⟩
  · rw [hnone, hnone', List.append_nil, List.append_nil] at h
    obtain ⟨hx, -, hs⟩ := append_cons_inj_of_forall_right (hdigits s) (hdigits s') hcolon hcolon h
    exact ⟨hx, hs, hnone.trans hnone'.symm⟩
  · -- the last character that is no digit is `:` on the left and `.` on the right
    rw [hnone, hsome', List.append_nil, ← List.cons_append, ← List.append_assoc] at h
    obtain ⟨-, hne, -⟩ := append_cons_inj_of_forall_right (hdigits s) hds' hcolon hpoint h
    exact absurd hne (by decide)
  · rw [hsome, hnone', List.append_nil, ← List.cons_append, ← List.append_assoc] at h
    obtain ⟨-, hne, -⟩ := append_cons_inj_of_forall_right hds (hdigits s') hpoint hcolon h
    exact absurd hne (by decide)
  · rw [hsome, hsome', ← List.cons_append, ← List.cons_append, ← List.append_assoc,
      ← List.append_assoc] at h
    obtain ⟨hfront, -, hfraction⟩ := append_cons_inj_of_forall_right hds hds' hpoint hpoint h
    obtain ⟨hx, -, hs⟩ :=
      append_cons_inj_of_forall_right (hdigits s) (hdigits s') hcolon hcolon hfront
    rw [hsome, hsome', hfraction]
    exact ⟨hx, hs, rfl⟩

/-- A text that ends in a timestamp determines the timestamp and what stands
before it. -/
theorem append_timestampText_inj {u u' : List Char} {ts ts' : Timestamp} (hts : IsTimestamp ts)
    (hts' : IsTimestamp ts') (h : u ++ timestampText F ts = u' ++ timestampText F ts') :
    u = u' ∧ ts = ts' := by
  have hlt := timeOfDay_lt ts
  have hlt' := timeOfDay_lt ts'
  simp only [timestampText, ← List.append_assoc] at h
  obtain ⟨hfront, hsecond, hfraction⟩ := append_fraction_inj F (List.append_cancel_right h)
  obtain ⟨hu, hminute⟩ := List.append_inj' hfront (by simp)
  obtain ⟨hdate, hmeq⟩ := minuteText_inj hts hts' hminute
  have hseq := digits_inj (by omega) (by omega) hsecond
  have hueq := F.inj _ _ (by omega) (by omega) hfraction
  refine ⟨hu, eq_of_extractDate_eq hdate ?_⟩
  omega

/-- Six digits, when there is a fraction. -/
def sixDigits : FractionText where
  text us := if us = 0 then [] else '.' :: digits 6 us
  point us := by
    split
    · exact .inl rfl
    · exact .inr ⟨_, rfl, fun c => isDigit_of_mem_digits⟩
  inj us us' hlt hlt' h := by
    split at h <;> split at h
    · omega
    · cases h
    · cases h
    · exact digits_inj hlt hlt' (List.cons.inj h).2

example : timestampText sixDigits 1714564800123456 = "2024-05-01 12:00:00.123456+00".toList := by
  decide +kernel

end Sql
