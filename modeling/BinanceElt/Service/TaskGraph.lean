import Mathlib.Algebra.BigOperators.Group.Finset.Basic
import Mathlib.Algebra.Order.BigOperators.Group.Finset
import Mathlib.Data.Finset.Max
import Mathlib.Data.Fintype.Card
import Mathlib.Logic.Function.Basic
import Mathlib.Logic.Relation

/-!
# Task graphs on several threads

Tasks rebuild tables, one each, from the tables of the tasks they depend on.
A scheduler starts a task when the tasks it reads have succeeded and a thread is
free; some time after that the task evaluates its query, and some time after
that it stores the result.  A task that fails leaves its table alone, and the
tasks that read it are skipped.

Which task moves next is up to the scheduler.  `IsSolution` says what the tasks
leave without mentioning any order; the invariant `Agrees` ties every state a
schedule can reach to the solution.  It survives faults as well: a running task
may fail for a reason outside its query, and the schedule may break off anywhere.

## Main results

* `Agrees.step`, `agrees_of_steps` — every schedule agrees with the solution.
* `agrees_of_faultySteps` — so does every schedule with faults, on the tasks that have
  succeeded.
* `exists_step`, `State.Complete.not_step` — a schedule can go on exactly as long as it
  is not complete.
* `steps_le`, `exists_complete` — a schedule ends after three steps per task, and
  can be completed.
-/

namespace Service

/-- Tasks with the tables they read and how they rebuild their own; no task
reads its own result by way of others.  A task may read its own old table, and
`none` is a build that fails. -/
structure TaskGraph (T : Type) (V : T → Type) where
  deps : T → List T
  build : (t : T) → ((u : T) → V u) → Option (V t)
  build_congr : ∀ t tables tables', tables t = tables' t →
    (∀ u ∈ deps t, tables u = tables' u) → build t tables = build t tables'
  rank : T → ℕ
  rank_lt : ∀ t, ∀ u ∈ deps t, rank u < rank t

namespace TaskGraph

variable {T : Type} [DecidableEq T] {V : T → Type}

/-- Where a task is; a task that was evaluated knows its result.  Evaluating and
storing are two steps, so that other tasks may move in between. -/
inductive Status (α : Type) where
  | waiting
  | started
  | evaluated (result : Option α)
  | succeeded
  | failed
  | skipped

/-- The tables, and where every task is. -/
@[ext] structure State (V : T → Type) where
  tables : (t : T) → V t
  status : (t : T) → Status (V t)

/-- Nothing has been started. -/
def State.initial (tables : (t : T) → V t) : State V := ⟨tables, fun _ => .waiting⟩

def State.setStatus (s : State V) (t : T) (status : Status (V t)) : State V :=
  { s with status := Function.update s.status t status }

/-- A task that holds a thread. -/
def Status.isRunning {α : Type} : Status α → Bool
  | .started | .evaluated _ => true
  | _ => false

/-- A task that will not move any more. -/
def Status.isFinal {α : Type} : Status α → Bool
  | .succeeded | .failed | .skipped => true
  | _ => false

def Status.isSucceeded {α : Type} : Status α → Bool
  | .succeeded => true
  | _ => false

theorem Status.isSucceeded_iff {α : Type} {status : Status α} :
    status.isSucceeded = true ↔ status = .succeeded := by
  cases status <;> simp [isSucceeded]

/-- Every task has moved as far as it can. -/
def State.Complete (s : State V) : Prop := ∀ t, (s.status t).isFinal = true

/-! ## What the tasks leave -/

/-- The results of the tasks, none of one that fails or is skipped: a task whose
dependencies have results is built from these and from its own old table.  As no
task depends on itself, there is exactly one solution. -/
def IsSolution (g : TaskGraph T V) (init : (t : T) → V t) (result : (t : T) → Option (V t)) :
    Prop :=
  ∀ t, result t =
    if ∀ u ∈ g.deps t, (result u).isSome then
      g.build t (Function.update (fun u => (result u).getD (init u)) t (init t))
    else none

/-- A task that has been started and has not failed. -/
def Status.hasRead {α : Type} : Status α → Bool
  | .started | .evaluated _ | .succeeded => true
  | _ => false

/-- What a status says about the table of a task and its result. -/
def AgreesAt {α : Type} (init table : α) (result : Option α) : Status α → Prop
  | .waiting | .started | .failed | .skipped => table = init
  | .evaluated r => table = init ∧ r = result
  | .succeeded => result = some table

/-- A state agrees with a solution, and what was started has read finished
tables.  This is the invariant of all schedules, with and without faults. -/
structure Agrees (g : TaskGraph T V) (init : (t : T) → V t) (result : (t : T) → Option (V t))
    (s : State V) : Prop where
  agreesAt : ∀ t, AgreesAt (init t) (s.tables t) (result t) (s.status t)
  succeeded : ∀ t, (s.status t).hasRead = true → ∀ u ∈ g.deps t, s.status u = .succeeded

/-- No task has failed or been skipped that has a result.  Steps of the
scheduler keep it, and with it a complete state is the solution. -/
def NoFault (result : (t : T) → Option (V t)) (s : State V) : Prop :=
  ∀ t, s.status t = .failed ∨ s.status t = .skipped → result t = none

/-! ### Agreement is kept -/

section Agreement

variable {g : TaskGraph T V} {init : (t : T) → V t} {result : (t : T) → Option (V t)}
  {s : State V}

omit [DecidableEq T] in
theorem agrees_initial : Agrees g init result (State.initial init) where
  agreesAt _ := rfl
  succeeded _ h := by cases h

/-- One task moves on; no other task that was started has read its table.  `ht`
says that it had not succeeded: only the table of such a task changes, and a
started task has read tables of tasks that have. -/
theorem Agrees.update (h : Agrees g init result s) {t : T} {table : V t} {status : Status (V t)}
    (ht : s.status t ≠ .succeeded) (hat : AgreesAt (init t) table (result t) status)
    (hread : status.hasRead = true → ∀ u ∈ g.deps t, s.status u = .succeeded) :
    Agrees g init result
      ⟨Function.update s.tables t table, Function.update s.status t status⟩ where
  agreesAt u := by
    rcases eq_or_ne u t with rfl | hne
    · simpa only [Function.update_self] using hat
    · simpa only [Function.update_of_ne hne] using h.agreesAt u
  succeeded u hu v hv := by
    have hvt : s.status v = .succeeded := by
      rcases eq_or_ne u t with rfl | hne
      · exact hread (by simpa only [Function.update_self] using hu) v hv
      · exact h.succeeded u (by simpa only [Function.update_of_ne hne] using hu) v hv
    have hne : v ≠ t := fun heq => ht (heq ▸ hvt)
    simpa only [Function.update_of_ne hne] using hvt

theorem Agrees.setStatus (h : Agrees g init result s) {t : T} {status : Status (V t)}
    (ht : s.status t ≠ .succeeded) (hat : AgreesAt (init t) (s.tables t) (result t) status)
    (hread : status.hasRead = true → ∀ u ∈ g.deps t, s.status u = .succeeded) :
    Agrees g init result (s.setStatus t status) := by
  have hupdate := h.update ht hat hread
  rwa [Function.update_eq_self] at hupdate

omit [DecidableEq T] in
/-- A task that runs has not written its table yet. -/
theorem Agrees.table_of_running (h : Agrees g init result s) {t : T}
    (ht : (s.status t).isRunning = true) : s.tables t = init t := by
  have hat := h.agreesAt t
  cases hstatus : s.status t <;> rw [hstatus] at hat ht
  case started => exact hat
  case evaluated => exact hat.1
  case waiting | succeeded | failed | skipped => cases ht

/-- A started task evaluates to its result, whatever has happened since it was
started. -/
theorem Agrees.build_eq (h : Agrees g init result s) (hresult : IsSolution g init result) {t : T}
    (ht : s.status t = .started) : g.build t s.tables = result t := by
  have hdeps : ∀ u ∈ g.deps t, result u = some (s.tables u) := by
    intro u hu
    have hat := h.agreesAt u
    rwa [h.succeeded t (by rw [ht]; rfl) u hu] at hat
  have hown : s.tables t = init t := by
    have hat := h.agreesAt t
    rwa [ht] at hat
  rw [hresult t, if_pos fun u hu => by rw [hdeps u hu]; rfl]
  refine g.build_congr t _ _ (by rw [Function.update_self, hown]) fun u hu => ?_
  have hne : u ≠ t := fun heq => absurd (g.rank_lt t u hu) (by rw [heq]; exact lt_irrefl _)
  rw [Function.update_of_ne hne, hdeps u hu, Option.getD_some]

omit [DecidableEq T] in
/-- At any time a table is the result of a task that has succeeded, or the old
one. -/
theorem Agrees.table_cases (h : Agrees g init result s) (t : T) :
    (s.status t = .succeeded ∧ result t = some (s.tables t)) ∨
      (s.status t ≠ .succeeded ∧ s.tables t = init t) := by
  have hat := h.agreesAt t
  cases hstatus : s.status t <;> rw [hstatus] at hat
  case succeeded => exact .inl ⟨rfl, hat⟩
  case waiting | started | failed | skipped => exact .inr ⟨nofun, hat⟩
  case evaluated => exact .inr ⟨nofun, hat.1⟩

omit [DecidableEq T] in
/-- In the end, when no task has failed that has a result, a table is the
result, or the old one when there is none.  Without `hfault` the second part may
fail: a fault leaves the old table although there is a result. -/
theorem Agrees.complete (h : Agrees g init result s) (hfault : NoFault result s)
    (hcomplete : s.Complete) (t : T) :
    s.tables t = (result t).getD (init t) ∧
      (s.status t = .succeeded ↔ (result t).isSome) := by
  have hat := h.agreesAt t
  have hfinal := hcomplete t
  have hnone := hfault t
  cases hstatus : s.status t <;> rw [hstatus] at hat hfinal hnone
  case succeeded =>
      have hat : result t = some (s.tables t) := hat
      simp [hat]
  case failed | skipped =>
      have hat : s.tables t = init t := hat
      simp [hat, hnone]
  case waiting | started | evaluated => cases hfinal

end Agreement

/-! ## Schedules -/

variable [Fintype T]

/-- The threads in use. -/
def State.running (s : State V) : ℕ := (Finset.univ.filter fun t => (s.status t).isRunning).card

/-- What a scheduler with some threads may do next: start a task whose
dependencies have all succeeded, if a thread is free, let a running one go on,
or skip one that a failed or skipped task is a dependency of. -/
inductive Step (g : TaskGraph T V) (threads : ℕ) : State V → State V → Prop
  | start {s : State V} {t : T} : s.status t = .waiting →
      (∀ u ∈ g.deps t, s.status u = .succeeded) → s.running < threads →
      Step g threads s (s.setStatus t .started)
  | evaluate {s : State V} {t : T} : s.status t = .started →
      Step g threads s (s.setStatus t (.evaluated (g.build t s.tables)))
  | store {s : State V} {t : T} {v : V t} : s.status t = .evaluated (some v) →
      Step g threads s { s.setStatus t .succeeded with tables := Function.update s.tables t v }
  | fail {s : State V} {t : T} : s.status t = .evaluated none →
      Step g threads s (s.setStatus t .failed)
  | skip {s : State V} {t u : T} : s.status t = .waiting → u ∈ g.deps t →
      (s.status u = .failed ∨ s.status u = .skipped) →
      Step g threads s (s.setStatus t .skipped)

/-- A schedule, by the number of its steps. -/
inductive Steps (g : TaskGraph T V) (threads : ℕ) : ℕ → State V → State V → Prop
  | refl (s : State V) : Steps g threads 0 s s
  | tail {n : ℕ} {s s' s'' : State V} : Steps g threads n s s' → Step g threads s' s'' →
      Steps g threads (n + 1) s s''

section Schedules

variable {g : TaskGraph T V} {init : (t : T) → V t} {result : (t : T) → Option (V t)}
  {threads : ℕ} {s s' : State V}

theorem Agrees.step (h : Agrees g init result s) (hresult : IsSolution g init result)
    (hstep : Step g threads s s') : Agrees g init result s' := by
  cases hstep with
  | @start t ht hdeps _ =>
      have hat := h.agreesAt t
      rw [ht] at hat
      exact h.setStatus (by simp [ht]) hat fun _ => hdeps
  | @evaluate t ht =>
      have hat := h.agreesAt t
      rw [ht] at hat
      exact h.setStatus (by simp [ht]) ⟨hat, h.build_eq hresult ht⟩
        fun _ => h.succeeded t (by rw [ht]; rfl)
  | @store t v ht =>
      have hat := h.agreesAt t
      rw [ht] at hat
      have hstored : AgreesAt (init t) v (result t) .succeeded := hat.2.symm
      exact h.update (by simp [ht]) hstored fun _ => h.succeeded t (by rw [ht]; rfl)
  | @fail t ht =>
      exact h.setStatus (by simp [ht]) (h.table_of_running (by rw [ht]; rfl)) nofun
  | @skip t u ht _ _ =>
      have hat := h.agreesAt t
      rw [ht] at hat
      exact h.setStatus (by simp [ht]) hat nofun

/-- A step makes no task fail that has a result.  A task fails when its query
does, over tables that `h` knows to be results, and is skipped when a task it
depends on has failed. -/
theorem NoFault.step (hfault : NoFault result s) (h : Agrees g init result s)
    (hresult : IsSolution g init result) (hstep : Step g threads s s') : NoFault result s' := by
  have hset : ∀ {t : T} {status : Status (V t)},
      (status = .failed ∨ status = .skipped → result t = none) →
        ∀ u, Function.update s.status t status u = .failed ∨
          Function.update s.status t status u = .skipped → result u = none := by
    intro t status hnew u hu
    rcases eq_or_ne u t with rfl | hne
    · exact hnew (by simpa only [Function.update_self] using hu)
    · exact hfault u (by simpa only [Function.update_of_ne hne] using hu)
  cases hstep with
  | start _ _ _ | evaluate _ | store _ => exact hset (by simp)
  | @fail t ht =>
      have hat := h.agreesAt t
      rw [ht] at hat
      exact hset fun _ => hat.2.symm
  | @skip t u ht hu hfailed =>
      refine hset fun _ => ?_
      rw [hresult t, if_neg fun hall => by simpa [hfault u hfailed] using hall u hu]

theorem agrees_of_steps (hresult : IsSolution g init result) {n : ℕ}
    (h : Steps g threads n (State.initial init) s) :
    Agrees g init result s ∧ NoFault result s := by
  generalize hs₀ : State.initial init = s₀ at h
  induction h with
  | refl => exact hs₀ ▸ ⟨agrees_initial, fun _ h => by rcases h with h | h <;> cases h⟩
  | tail _ hstep ih =>
      obtain ⟨hagrees, hfault⟩ := ih hs₀
      exact ⟨hagrees.step hresult hstep, hfault.step hagrees hresult hstep⟩

/-! ### Faults -/

/-- A step of the scheduler, or a fault: a task that runs fails for a reason
that its query has nothing to do with.  A task that has evaluated its query may
fail to store the result. -/
inductive FaultyStep (g : TaskGraph T V) (threads : ℕ) : State V → State V → Prop
  | step {s s' : State V} : Step g threads s s' → FaultyStep g threads s s'
  | fault {s : State V} {t : T} : (s.status t).isRunning = true →
      FaultyStep g threads s (s.setStatus t .failed)

theorem Agrees.faultyStep (h : Agrees g init result s) (hresult : IsSolution g init result)
    (hstep : FaultyStep g threads s s') : Agrees g init result s' := by
  cases hstep with
  | step hstep => exact h.step hresult hstep
  | @fault t ht =>
      have hne : s.status t ≠ .succeeded := fun heq => by rw [heq] at ht; cases ht
      exact h.setStatus hne (h.table_of_running ht) nofun

/-- Wherever a schedule with faults breaks off, it agrees with the solution. -/
theorem agrees_of_faultySteps (hresult : IsSolution g init result)
    (h : Relation.ReflTransGen (FaultyStep g threads) (State.initial init) s) :
    Agrees g init result s := by
  induction h with
  | refl => exact agrees_initial
  | tail _ hstep ih => exact ih.faultyStep hresult hstep

end Schedules

/-! ## Schedules go on until they are complete -/

section Progress

variable {g : TaskGraph T V} {threads : ℕ} {s s' : State V}

/-- A schedule stops only when every task has moved as far as it can. -/
theorem exists_step (hthreads : 0 < threads) (h : ¬ s.Complete) : ∃ s', Step g threads s s' := by
  by_cases hrunning : ∃ t, (s.status t).isRunning = true
  · obtain ⟨t, ht⟩ := hrunning
    cases hstatus : s.status t with
    | started => exact ⟨_, .evaluate hstatus⟩
    | evaluated r =>
        cases r with
        | none => exact ⟨_, .fail hstatus⟩
        | some v => exact ⟨_, .store hstatus⟩
    | _ => rw [hstatus] at ht; cases ht
  · push Not at hrunning
    have hwaiting : ∀ t, (s.status t).isFinal = false → s.status t = .waiting := by
      intro t ht
      cases hstatus : s.status t with
      | waiting => rfl
      | started => exact absurd (by rw [hstatus]; rfl) (hrunning t)
      | evaluated r => exact absurd (by rw [hstatus]; rfl) (hrunning t)
      | _ => rw [hstatus] at ht; cases ht
    -- a waiting task of least rank waits for no other one
    obtain ⟨t, ht, hmin⟩ : ∃ t, (s.status t).isFinal = false ∧
        ∀ u, (s.status u).isFinal = false → g.rank t ≤ g.rank u := by
      have hne : (Finset.univ.filter fun t => (s.status t).isFinal = false).Nonempty := by
        simp only [State.Complete, not_forall, Bool.not_eq_true] at h
        obtain ⟨t, ht⟩ := h
        exact ⟨t, Finset.mem_filter.mpr ⟨Finset.mem_univ t, ht⟩⟩
      obtain ⟨t, ht, hmin⟩ := Finset.exists_min_image _ g.rank hne
      exact ⟨t, (Finset.mem_filter.mp ht).2, fun u hu =>
        hmin u (Finset.mem_filter.mpr ⟨Finset.mem_univ u, hu⟩)⟩
    have hfinal : ∀ u ∈ g.deps t, (s.status u).isFinal = true := by
      intro u hu
      by_contra hnot
      exact absurd (g.rank_lt t u hu) (not_lt_of_ge (hmin u (Bool.not_eq_true _ ▸ hnot)))
    by_cases hskip : ∃ u ∈ g.deps t, s.status u = .failed ∨ s.status u = .skipped
    · obtain ⟨u, hu, hfailed⟩ := hskip
      exact ⟨_, .skip (hwaiting t ht) hu hfailed⟩
    · refine ⟨_, .start (hwaiting t ht) (fun u hu => ?_) ?_⟩
      · have hu' := hfinal u hu
        cases hstatus : s.status u with
        | succeeded => rfl
        | failed => exact absurd ⟨u, hu, .inl hstatus⟩ hskip
        | skipped => exact absurd ⟨u, hu, .inr hstatus⟩ hskip
        | _ => rw [hstatus] at hu'; cases hu'
      · rw [State.running, Finset.filter_eq_empty_iff.mpr fun t _ => hrunning t]
        exact hthreads

/-- It does stop there. -/
theorem State.Complete.not_step (h : s.Complete) : ¬ Step g threads s s' := by
  intro hstep
  obtain ⟨t, ht⟩ : ∃ t, (s.status t).isFinal = false := by
    cases hstep with
    | start ht | skip ht => exact ⟨_, by rw [ht]; rfl⟩
    | evaluate ht | store ht | fail ht => exact ⟨_, by rw [ht]; rfl⟩
  rw [h t] at ht
  cases ht

/-- The steps a task has before it. -/
def Status.weight {α : Type} : Status α → ℕ
  | .waiting => 3
  | .started => 2
  | .evaluated _ => 1
  | _ => 0

def State.weight (s : State V) : ℕ := ∑ t, (s.status t).weight

private theorem weight_update_lt {status : (t : T) → Status (V t)} {t : T} {new : Status (V t)}
    (h : new.weight < (status t).weight) :
    ∑ u, (Function.update status t new u).weight < ∑ u, (status u).weight := by
  refine Finset.sum_lt_sum (fun u _ => ?_) ⟨t, Finset.mem_univ t, ?_⟩
  · rcases eq_or_ne u t with rfl | hne
    · rw [Function.update_self]
      exact h.le
    · rw [Function.update_of_ne hne]
  · rwa [Function.update_self]

theorem weight_lt (h : Step g threads s s') : s'.weight < s.weight := by
  cases h with
  | start ht => exact weight_update_lt (by rw [ht]; exact Nat.lt_succ_self _)
  | evaluate ht => exact weight_update_lt (by rw [ht]; exact Nat.lt_succ_self 1)
  | store ht => exact weight_update_lt (by rw [ht]; exact Nat.zero_lt_one)
  | fail ht => exact weight_update_lt (by rw [ht]; exact Nat.zero_lt_one)
  | skip ht => exact weight_update_lt (by rw [ht]; exact Nat.succ_pos _)

/-- A schedule has at most three steps per task. -/
theorem steps_le {init : (t : T) → V t} {n : ℕ}
    (h : Steps g threads n (State.initial init) s) : n ≤ 3 * Fintype.card T := by
  have hweight : ∀ {n s₀ s}, Steps g threads n s₀ s → n + s.weight ≤ s₀.weight := by
    intro n s₀ s h
    induction h with
    | refl => omega
    | tail _ hstep ih =>
        have hlt := weight_lt hstep
        omega
  have hinit : (State.initial init).weight = Fintype.card T * 3 := by
    simp [State.weight, State.initial, Status.weight]
  have hle := hweight h
  omega

/-- A schedule can be completed. -/
theorem exists_complete (hthreads : 0 < threads) (s₀ : State V) :
    ∃ n s, Steps g threads n s₀ s ∧ s.Complete := by
  suffices h : ∀ weight n s, Steps g threads n s₀ s → s.weight = weight →
      ∃ n s, Steps g threads n s₀ s ∧ s.Complete from h _ 0 s₀ (.refl s₀) rfl
  intro weight
  induction weight using Nat.strong_induction_on with
  | _ weight ih =>
      rintro n s hsteps rfl
      by_cases hcomplete : s.Complete
      · exact ⟨n, s, hsteps, hcomplete⟩
      · obtain ⟨s', hstep⟩ := exists_step hthreads hcomplete
        exact ih _ (weight_lt hstep) (n + 1) s' (hsteps.tail hstep) rfl

end Progress

end TaskGraph

end Service
