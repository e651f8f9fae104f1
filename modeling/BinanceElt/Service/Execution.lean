import BinanceElt.Service.Program

/-!
# Programs in an environment

A run says nothing about where its answers come from.  An environment does: it has a
state, and a relation says which answers a call can get in a state and what the call
leaves behind.  `Executes` is the runs of a program whose answers the environment can
give, with the state they lead to; its rules take an execution apart along the text of
the program.

## Main results

* `executes_bind_iff`, `executes_perform_iff` — the executions of a sequence and of a call.
* `Executes.invariant` — what every call keeps, an execution keeps.
-/

namespace Service.Program

variable {C σ : Type} {Ans : C → Type} {ε α β : Type}

/-- In this environment the program takes the one state to the other and ends
so.  `Env` says which answers a call can get in a state, and what it does to the
state; several answers may be possible. -/
inductive Executes (Env : σ → Event Ans → σ → Prop) :
    Program Ans ε α → σ → σ → Except ε α → Prop
  | done (result : Except ε α) (s : σ) : Executes Env (.done result) s s result
  | call {c : C} {next : Ans c → Program Ans ε α} {a : Ans c} {s s' s'' : σ}
      {result : Except ε α} : Env s ⟨c, a⟩ s' → Executes Env (next a) s' s'' result →
      Executes Env (.call c next) s s'' result

variable {Env : σ → Event Ans → σ → Prop} {s s' : σ}

theorem executes_done_iff {r r' : Except ε α} :
    Executes Env (.done r : Program Ans ε α) s s' r' ↔ s' = s ∧ r' = r := by
  constructor
  · rintro ⟨⟩
    exact ⟨rfl, rfl⟩
  · rintro ⟨rfl, rfl⟩
    exact .done r' s'

theorem executes_ofResult_iff {r r' : Except ε α} :
    Executes Env (ofResult r : Program Ans ε α) s s' r' ↔ s' = s ∧ r' = r :=
  executes_done_iff

theorem executes_call_iff {c : C} {next : Ans c → Program Ans ε α} {r : Except ε α} :
    Executes Env (.call c next) s s' r ↔
      ∃ a t, Env s ⟨c, a⟩ t ∧ Executes Env (next a) t s' r := by
  constructor
  · rintro ⟨⟩
    exact ⟨_, _, ‹_›, ‹_›⟩
  · rintro ⟨a, t, hcall, hnext⟩
    exact .call hcall hnext

theorem executes_perform_iff {c : C} {r : Except ε (Ans c)} :
    Executes Env (perform c : Program Ans ε (Ans c)) s s' r ↔
      ∃ a, Env s ⟨c, a⟩ s' ∧ r = .ok a := by
  simp only [perform, executes_call_iff, executes_done_iff]
  constructor
  · rintro ⟨a, t, hcall, rfl, rfl⟩
    exact ⟨a, hcall, rfl⟩
  · rintro ⟨a, hcall, rfl⟩
    exact ⟨a, s', hcall, rfl, rfl⟩

/-- A sequence ends where its first part raises, or goes on from the state it
leaves. -/
theorem executes_bind_iff {p : Program Ans ε α} {f : α → Program Ans ε β} {r : Except ε β} :
    Executes Env (p >>= f) s s' r ↔ (∃ e, Executes Env p s s' (.error e) ∧ r = .error e) ∨
      ∃ a t, Executes Env p s t (.ok a) ∧ Executes Env (f a) t s' r := by
  show Executes Env (p.bind f) s s' r ↔ _
  induction p generalizing s with
  | done result =>
      cases result with
      | ok a =>
          simp only [Program.bind, executes_done_iff]
          constructor
          · exact fun h => .inr ⟨a, s, ⟨rfl, rfl⟩, h⟩
          · rintro (⟨e, ⟨-, he⟩, -⟩ | ⟨a', t, ⟨rfl, ha⟩, h⟩)
            · cases he
            · rwa [Except.ok.inj ha] at h
      | error e => simp [Program.bind, executes_done_iff]
  | call c next ih =>
      simp only [Program.bind, executes_call_iff, ih]
      constructor
      · rintro ⟨a, t, hcall, ⟨e, h, rfl⟩ | ⟨b, u, h₁, h₂⟩⟩
        · exact .inl ⟨e, ⟨a, t, hcall, h⟩, rfl⟩
        · exact .inr ⟨b, u, ⟨a, t, hcall, h₁⟩, h₂⟩
      · rintro (⟨e, ⟨a, t, hcall, h⟩, rfl⟩ | ⟨b, u, ⟨a, t, hcall, h₁⟩, h₂⟩)
        · exact ⟨a, t, hcall, .inl ⟨e, h, rfl⟩⟩
        · exact ⟨a, t, hcall, .inr ⟨b, u, h₁, h₂⟩⟩

/-- A call that does not raise, and what follows it. -/
theorem executes_perform_bind_iff {c : C} {f : Ans c → Program Ans ε β} {r : Except ε β} :
    Executes Env ((perform c : Program Ans ε (Ans c)) >>= f) s s' r ↔
      ∃ a t, Env s ⟨c, a⟩ t ∧ Executes Env (f a) t s' r := by
  simp only [executes_bind_iff, executes_perform_iff]
  constructor
  · rintro (⟨e, ⟨a, -, he⟩, -⟩ | ⟨a, t, ⟨a', hcall, ha⟩, h⟩)
    · cases he
    · rw [Except.ok.inj ha] at h
      exact ⟨a', t, hcall, h⟩
  · rintro ⟨a, t, hcall, h⟩
    exact .inr ⟨a, t, ⟨a, hcall, rfl⟩, h⟩

/-- What every call keeps, an execution keeps, whether it returns or raises.
The induction is on the execution, that is, on the calls it makes. -/
theorem Executes.invariant {P : σ → Prop} (hstep : ∀ s e s', Env s e s' → P s → P s')
    {p : Program Ans ε α} {r : Except ε α} (h : Executes Env p s s' r) (hs : P s) : P s' := by
  induction h with
  | done => exact hs
  | call hcall _ ih => exact ih (hstep _ _ _ hcall hs)

end Service.Program
