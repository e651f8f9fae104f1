import BinanceElt.Service.Program
import Mathlib.Algebra.Order.Group.Nat
import Mathlib.Algebra.Ring.Nat

/-!
# What a program costs

Every call has a weight: seconds, money, or 1 for a call that is counted.  `Within` bounds
the weight of all calls of a program, whatever it is answered; the bounds of the parts of
a program add up along its text.

## Main results

* `Within.bind`, `Within.tryCatch` — the costs of a composed program.
* `Within.only` — a program within nothing makes no call that has a weight.
-/

namespace Service.Program

variable {C : Type} {Ans : C → Type} {ε α β : Type}

/-- The weight of the calls of a run. -/
def cost (weight : C → ℕ) (es : List (Event Ans)) : ℕ := (es.map fun e => weight e.call).sum

@[simp] theorem cost_append (weight : C → ℕ) (es es' : List (Event Ans)) :
    cost weight (es ++ es') = cost weight es + cost weight es' := by
  rw [cost, cost, cost, List.map_append, List.sum_append]

/-- Whatever it is answered, the program costs at most `n`.  The bound is over
all runs, so that the bounds of two programs add up when the one is followed by
the other. -/
def Within (weight : C → ℕ) (n : ℕ) (p : Program Ans ε α) : Prop :=
  ∀ es r, Runs p es r → cost weight es ≤ n

section Within

variable {weight : C → ℕ} {m n : ℕ} {p : Program Ans ε α}

theorem Within.mono (h : Within weight m p) (hmn : m ≤ n) : Within weight n p :=
  fun es r hr => (h es r hr).trans hmn

theorem within_done (r : Except ε α) : Within weight 0 (.done r : Program Ans ε α) := by
  intro es r' h
  rw [(runs_done_iff.mp h).1]
  exact le_rfl

theorem within_pure (a : α) : Within weight 0 (pure a : Program Ans ε α) := within_done _

theorem within_ofResult (r : Except ε α) : Within weight 0 (ofResult r : Program Ans ε α) :=
  within_done r

theorem within_perform {c : C} (hc : weight c ≤ n) :
    Within weight n (perform c : Program Ans ε (Ans c)) := by
  intro es r h
  obtain ⟨a, rfl, -⟩ := runs_perform_iff.mp h
  simpa [cost] using hc

/-- What a sequence costs, its parts cost. -/
theorem Within.bind {f : α → Program Ans ε β} (hp : Within weight m p)
    (hf : ∀ a, Within weight n (f a)) : Within weight (m + n) (p >>= f) := by
  intro es r h
  rcases runs_bind_iff.mp h with ⟨e, h, -⟩ | ⟨a, es₁, es₂, h₁, h₂, rfl⟩
  · exact (hp _ _ h).trans (Nat.le_add_right m n)
  · rw [cost_append]
    exact Nat.add_le_add (hp _ _ h₁) (hf a _ _ h₂)

theorem Within.raising {p : Program Ans ε (Except ε α)} (hp : Within weight n p) :
    Within weight n p.raising :=
  (hp.bind fun r => within_ofResult r).mono (Nat.add_zero n).le

/-- A handler costs its part only after the body has cost its own. -/
theorem Within.tryCatch {handler : ε → Program Ans ε α} (hp : Within weight m p)
    (hh : ∀ e, Within weight n (handler e)) : Within weight (m + n) (p.tryCatch handler) := by
  intro es r h
  rcases runs_tryCatch_iff.mp h with ⟨a, h, -⟩ | ⟨e, es₁, es₂, h₁, h₂, rfl⟩
  · exact (hp _ _ h).trans (Nat.le_add_right m n)
  · rw [cost_append]
    exact Nat.add_le_add (hp _ _ h₁) (hh e _ _ h₂)

/-- A program within nothing makes no call that has a weight. -/
theorem Within.only (h : Within weight 0 p) : Only (fun c => weight c = 0) p := by
  intro es r hr e he
  have hzero := Nat.le_zero.mp (h es r hr)
  exact List.sum_eq_zero_iff_forall_eq_nat.mp hzero _ (List.mem_map_of_mem he)

end Within

end Service.Program
