import Mathlib.Data.List.Basic

/-!
# Programs that call services

A program makes calls, continues from their answers and ends with a result or an
exception.  Nothing is assumed about the answers: what a program can do is the
set of its runs, one for every choice of answers, each with the list of calls it
made.  An answer has a type that depends on the call, so that it can say more
than the program gets to see.

The rules take the runs of a program apart along its text; `Only` bounds the
calls a program can make whatever it is answered.

## Main results

* `runs_bind_iff`, `runs_bind_ok_iff` — the runs of a sequence.
* `runs_tryCatch_iff` — the runs of `try`.
* `Runs.unique` — the answers determine the run.
* `Only.bind`, `Only.tryCatch` — calls of a composed program.
* `runs_run` — executing a program against a source of answers is one run.
-/

namespace Service

variable {C : Type} {Ans : C → Type} {ε α β : Type}

/-- A call with the answer it got. -/
structure Event (Ans : C → Type) where
  call : C
  answer : Ans call

/-- A program that ends with a result of type `α` or an exception of type
`ε`. -/
inductive Program (Ans : C → Type) (ε α : Type) where
  | done (result : Except ε α)
  | call (c : C) (next : Ans c → Program Ans ε α)

namespace Program

/-- Continue with the result; an exception ends the program. -/
protected def bind : Program Ans ε α → (α → Program Ans ε β) → Program Ans ε β
  | .done (.ok a), f => f a
  | .done (.error e), _ => .done (.error e)
  | .call c next, f => .call c fun a => (next a).bind f

instance : Monad (Program Ans ε) where
  pure a := .done (.ok a)
  bind := Program.bind

protected theorem bind_assoc {γ : Type} (p : Program Ans ε α) (f : α → Program Ans ε β)
    (g : β → Program Ans ε γ) : p >>= f >>= g = p >>= fun a => f a >>= g := by
  show (p.bind f).bind g = p.bind fun a => (f a).bind g
  induction p with
  | done result => cases result <;> rfl
  | call c next ih => exact congrArg (Program.call c) (funext ih)

/-- Make a call and return its answer. -/
def perform (c : C) : Program Ans ε (Ans c) := .call c fun a => .done (.ok a)

/-- A result that may be an exception. -/
def ofResult (r : Except ε α) : Program Ans ε α := .done r

/-- Raise the exception that a program returned. -/
def raising (p : Program Ans ε (Except ε α)) : Program Ans ε α := p.bind ofResult

/-- `try p except e: handler e`. -/
def tryCatch : Program Ans ε α → (ε → Program Ans ε α) → Program Ans ε α
  | .done (.ok a), _ => .done (.ok a)
  | .done (.error e), handler => handler e
  | .call c next, handler => .call c fun a => (next a).tryCatch handler

/-! ## Runs -/

/-- The program can make these calls, answered so, and end with this result.
The answers are not restricted: a run is any way in which the outside can
behave. -/
inductive Runs : Program Ans ε α → List (Event Ans) → Except ε α → Prop
  | done (result : Except ε α) : Runs (.done result) [] result
  | call {c : C} {next : Ans c → Program Ans ε α} {a : Ans c} {es : List (Event Ans)}
      {result : Except ε α} : Runs (next a) es result → Runs (.call c next) (⟨c, a⟩ :: es) result

/-- The answers determine the calls and the result: of two runs that start
the same list of events, one is the other.  A program that is given the same
answers makes the same next call, so that neither run can stop where the
other goes on. -/
theorem Runs.unique {p : Program Ans ε α} {es es₁ es₂ : List (Event Ans)} {r₁ r₂ : Except ε α}
    (h₁ : Runs p es₁ r₁) (h₂ : Runs p es₂ r₂) (hes₁ : es₁ <+: es) (hes₂ : es₂ <+: es) :
    es₁ = es₂ ∧ r₁ = r₂ := by
  induction h₁ generalizing es es₂ with
  | done result =>
      cases h₂
      exact ⟨rfl, rfl⟩
  | call _ ih =>
      cases h₂ with
      | call h₂ =>
          obtain ⟨rest, rfl⟩ := hes₁
          obtain ⟨hevent, hrest⟩ := List.cons_prefix_cons.mp hes₂
          cases hevent
          obtain ⟨rfl, rfl⟩ := ih h₂ (List.prefix_append _ _) hrest
          exact ⟨rfl, rfl⟩

section Rules

variable {p : Program Ans ε α} {f : α → Program Ans ε β} {es : List (Event Ans)}

theorem runs_done_iff {r r' : Except ε α} :
    Runs (.done r : Program Ans ε α) es r' ↔ es = [] ∧ r' = r := by
  constructor
  · rintro ⟨⟩
    exact ⟨rfl, rfl⟩
  · rintro ⟨rfl, rfl⟩
    exact .done r'

theorem runs_call_iff {c : C} {next : Ans c → Program Ans ε α} {r : Except ε α} :
    Runs (.call c next) es r ↔ ∃ a rest, es = ⟨c, a⟩ :: rest ∧ Runs (next a) rest r := by
  constructor
  · rintro ⟨⟩
    exact ⟨_, _, rfl, ‹_›⟩
  · rintro ⟨a, rest, rfl, h⟩
    exact .call h

theorem runs_pure_iff {a : α} {r : Except ε α} :
    Runs (pure a : Program Ans ε α) es r ↔ es = [] ∧ r = .ok a :=
  runs_done_iff

theorem runs_ofResult_iff {r r' : Except ε α} :
    Runs (ofResult r : Program Ans ε α) es r' ↔ es = [] ∧ r' = r :=
  runs_done_iff

theorem runs_perform_iff {c : C} {r : Except ε (Ans c)} :
    Runs (perform c : Program Ans ε (Ans c)) es r ↔ ∃ a, es = [⟨c, a⟩] ∧ r = .ok a := by
  simp only [perform, runs_call_iff, runs_done_iff]
  constructor
  · rintro ⟨a, rest, rfl, rfl, rfl⟩
    exact ⟨a, rfl, rfl⟩
  · rintro ⟨a, rfl, rfl⟩
    exact ⟨a, [], rfl, rfl, rfl⟩

/-- A sequence raises when its first part does; otherwise it goes on with the
result. -/
theorem runs_bind_iff {r : Except ε β} :
    Runs (p >>= f) es r ↔ (∃ e, Runs p es (.error e) ∧ r = .error e) ∨
      ∃ a es₁ es₂, Runs p es₁ (.ok a) ∧ Runs (f a) es₂ r ∧ es = es₁ ++ es₂ := by
  show Runs (p.bind f) es r ↔ _
  induction p generalizing es with
  | done result =>
      cases result with
      | ok a =>
          simp only [Program.bind, runs_done_iff]
          constructor
          · exact fun h => .inr ⟨a, [], es, ⟨rfl, rfl⟩, h, rfl⟩
          · rintro (⟨e, ⟨-, he⟩, -⟩ | ⟨a', es₁, es₂, ⟨rfl, ha⟩, h, rfl⟩)
            · cases he
            · rwa [Except.ok.inj ha] at h
      | error e => simp [Program.bind, runs_done_iff]
  | call c next ih =>
      simp only [Program.bind, runs_call_iff, ih]
      constructor
      · rintro ⟨a, rest, rfl, ⟨e, h, rfl⟩ | ⟨a', es₁, es₂, h₁, h₂, rfl⟩⟩
        · exact .inl ⟨e, ⟨a, rest, rfl, h⟩, rfl⟩
        · exact .inr ⟨a', _, es₂, ⟨a, es₁, rfl, h₁⟩, h₂, rfl⟩
      · rintro (⟨e, ⟨a, rest, rfl, h⟩, rfl⟩ | ⟨a', es₁, es₂, ⟨a, rest, rfl, h₁⟩, h₂, rfl⟩)
        · exact ⟨a, rest, rfl, .inl ⟨e, h, rfl⟩⟩
        · exact ⟨a, _, rfl, .inr ⟨a', rest, es₂, h₁, h₂, rfl⟩⟩

/-- A sequence returns when both parts do. -/
theorem runs_bind_ok_iff {b : β} :
    Runs (p >>= f) es (.ok b) ↔ ∃ a es₁ es₂, Runs p es₁ (.ok a) ∧ Runs (f a) es₂ (.ok b) ∧
      es = es₁ ++ es₂ := by
  simp [runs_bind_iff]

theorem runs_raising_iff {p : Program Ans ε (Except ε α)} {r : Except ε α} :
    Runs p.raising es r ↔ Runs p es (.ok r) ∨ ∃ e, Runs p es (.error e) ∧ r = .error e := by
  show Runs (p >>= ofResult) es r ↔ _
  simp only [runs_bind_iff, runs_ofResult_iff]
  constructor
  · rintro (h | ⟨_, es₁, _, h, ⟨rfl, rfl⟩, rfl⟩)
    · exact .inr h
    · exact .inl (by simpa using h)
  · rintro (h | h)
    · exact .inr ⟨r, es, [], h, ⟨rfl, rfl⟩, by simp⟩
    · exact .inl h

/-- `try` ends as its body, or as its handler when the body raises. -/
theorem runs_tryCatch_iff {handler : ε → Program Ans ε α} {r : Except ε α} :
    Runs (p.tryCatch handler) es r ↔ (∃ a, Runs p es (.ok a) ∧ r = .ok a) ∨
      ∃ e es₁ es₂, Runs p es₁ (.error e) ∧ Runs (handler e) es₂ r ∧ es = es₁ ++ es₂ := by
  induction p generalizing es with
  | done result =>
      cases result with
      | ok a => simp [tryCatch, runs_done_iff]
      | error e =>
          simp only [tryCatch, runs_done_iff]
          constructor
          · exact fun h => .inr ⟨e, [], es, ⟨rfl, rfl⟩, h, rfl⟩
          · rintro (⟨a, ⟨-, h⟩, -⟩ | ⟨e', es₁, es₂, ⟨rfl, he⟩, h, rfl⟩)
            · cases h
            · rwa [Except.error.inj he] at h
  | call c next ih =>
      simp only [tryCatch, runs_call_iff, ih]
      constructor
      · rintro ⟨a, rest, rfl, ⟨a', h, rfl⟩ | ⟨e, es₁, es₂, h₁, h₂, rfl⟩⟩
        · exact .inl ⟨a', ⟨a, rest, rfl, h⟩, rfl⟩
        · exact .inr ⟨e, _, es₂, ⟨a, es₁, rfl, h₁⟩, h₂, rfl⟩
      · rintro (⟨a', ⟨a, rest, rfl, h⟩, rfl⟩ | ⟨e, es₁, es₂, ⟨a, rest, rfl, h₁⟩, h₂, rfl⟩)
        · exact ⟨a, rest, rfl, .inl ⟨a', h, rfl⟩⟩
        · exact ⟨a, _, rfl, .inr ⟨e, rest, es₂, h₁, h₂, rfl⟩⟩

end Rules

/-! ## The calls a program can make -/

/-- Whatever it is answered, the program makes calls in `P` only. -/
def Only (P : C → Prop) (p : Program Ans ε α) : Prop :=
  ∀ es r, Runs p es r → ∀ e ∈ es, P e.call

section Only

variable {P : C → Prop} {p : Program Ans ε α}

theorem Only.mono {Q : C → Prop} (h : Only P p) (hPQ : ∀ c, P c → Q c) : Only Q p :=
  fun es r hr e he => hPQ _ (h es r hr e he)

theorem only_done (r : Except ε α) : Only P (.done r : Program Ans ε α) := by
  intro es r' h e he
  rw [(runs_done_iff.mp h).1] at he
  cases he

theorem only_pure (a : α) : Only P (pure a : Program Ans ε α) := only_done _

theorem only_ofResult (r : Except ε α) : Only P (ofResult r : Program Ans ε α) :=
  only_done r

theorem only_perform {c : C} (hc : P c) : Only P (perform c : Program Ans ε (Ans c)) := by
  intro es r h e he
  obtain ⟨a, rfl, -⟩ := runs_perform_iff.mp h
  rw [List.mem_singleton.mp he]
  exact hc

theorem Only.bind {f : α → Program Ans ε β} (hp : Only P p) (hf : ∀ a, Only P (f a)) :
    Only P (p >>= f) := by
  intro es r h e he
  rcases runs_bind_iff.mp h with ⟨err, h, -⟩ | ⟨a, es₁, es₂, h₁, h₂, rfl⟩
  · exact hp _ _ h e he
  · rcases List.mem_append.mp he with he | he
    · exact hp _ _ h₁ e he
    · exact hf a _ _ h₂ e he

theorem Only.raising {p : Program Ans ε (Except ε α)} (hp : Only P p) : Only P p.raising :=
  Only.bind hp fun r => only_ofResult r

theorem Only.tryCatch {handler : ε → Program Ans ε α} (hp : Only P p)
    (hh : ∀ e, Only P (handler e)) : Only P (p.tryCatch handler) := by
  intro es r h e he
  rcases runs_tryCatch_iff.mp h with ⟨a, h, -⟩ | ⟨err, es₁, es₂, h₁, h₂, rfl⟩
  · exact hp _ _ h e he
  · rcases List.mem_append.mp he with he | he
    · exact hp _ _ h₁ e he
    · exact hh err _ _ h₂ e he

end Only

/-! ## Execution -/

/-- A source of answers, which may depend on all earlier calls. -/
abbrev Answers (Ans : C → Type) := List (Event Ans) → (c : C) → Ans c

/-- Execute a program after `past`: the calls it makes and how it ends. -/
def run (answers : Answers Ans) :
    Program Ans ε α → List (Event Ans) → List (Event Ans) × Except ε α
  | .done r, _ => ([], r)
  | .call c next, past =>
      let e : Event Ans := ⟨c, answers past c⟩
      let rest := (next (answers past c)).run answers (past ++ [e])
      (e :: rest.1, rest.2)

theorem runs_run (answers : Answers Ans) (p : Program Ans ε α) (past : List (Event Ans)) :
    Runs p (p.run answers past).1 (p.run answers past).2 := by
  induction p generalizing past with
  | done r => exact .done r
  | call c next ih => exact .call (ih _ _)

end Program

end Service
