import BinanceElt.Models.StoppedRun
import BinanceElt.Service.Execution

/-!
# `run_dbt.sh`

The script as a program over the commands it starts.  Every execution is a task in a
new container: it installs the packages, loads the seed, runs the models and the tests.
The script looks at the exit codes of `dbt run` and `dbt test` only.

Any command can fail.  `dbt run` can fail before it touches a table, and it can stop after
some of the models: because the query of a model fails, because a job times out or the
warehouse cannot be reached, or because the task is killed.  It exits with 0 only when all
models have been built.

## Main results

* `scriptRun_iff` — what an execution of the script does to the project, and the codes
  it can exit with.
* `ScriptRun.nameMapping` — an execution keeps the mapping, loads its own seed, or loses
  the mapping.
-/

namespace BinanceElt

open Service (Event)
open Service.Program

/-! ## The script -/

/-- The commands whose exit code is looked at or that change something. -/
inductive Command where
  | saveServiceAccount (text : String)
  | dbtDeps
  | dbtSeed
  | date
  | dbtRun (fullRefresh : Bool)
  | dbtTest

/-- The weekday that `date +%u` prints; of any other command its exit code. -/
def Reply : Command → Type
  | .date => ℤ
  | _ => ℕ

/-- A script ends with `exit`, as an exception that carries the code. -/
abbrev Script := Service.Program Reply ℕ

def exit {α : Type} (code : ℕ) : Script α := ofResult (.error code)

def saveServiceAccount (text : String) : Script ℕ := perform (Command.saveServiceAccount text)

def dbtDeps : Script ℕ := perform Command.dbtDeps

def dbtSeed : Script ℕ := perform Command.dbtSeed

def date : Script ℤ := perform Command.date

/-- `dbt run --exclude tag:static`, with or without `--full-refresh`. -/
def dbtRunCmd (fullRefresh : Bool) : Script ℕ := perform (Command.dbtRun fullRefresh)

def dbtTest : Script ℕ := perform Command.dbtTest

/-- `echo $text`, unquoted: the words of the text with one space between them.
No word is the pattern of a file name, and the first one is not `-n`, `-e` or
`-E`, which `echo` would take as an option. -/
def echoWords (text : String) : String :=
  " ".intercalate (((text.toList.splitOnP fun c => c == ' ' || c == '\t' || c == '\n').filter
    fun word => word ≠ []).map String.ofList)

/-- `run_dbt.sh` with this value of `SERVICE_ACCOUNT_JSON`, empty when it is not
set. -/
def runDbtSh (serviceAccountJson : String) : Script Empty :=
  if serviceAccountJson = "" then exit 1
  else do
    let _ ← saveServiceAccount (echoWords serviceAccountJson)
    let _ ← dbtDeps
    let _ ← dbtSeed
    let day ← date
    let runExitCode ← dbtRunCmd (day == 7)
    if runExitCode ≠ 0 then exit runExitCode
    else do
      let testExitCode ← dbtTest
      exit testExitCode

/-! ## The project -/

/-- What the executions share: the warehouse, and the table of the seed once it
has been loaded. -/
structure Project (Id : Type) where
  warehouse : Warehouse Id
  nameMapping : Option (List NameMapping)
deriving DecidableEq

/-- The project before the first execution. -/
def Project.empty {Id : Type} : Project Id := ⟨Warehouse.empty, none⟩

/-- The project as a container sees it. -/
structure Container (Id : Type) extends Project Id where
  packages : Bool

/-- The run of `dbt run` on a mapping that was loaded. -/
def Execution.runOn (e : Execution) (mapping : List NameMapping) (fullRefresh : Bool) : DbtRun :=
  { e.run with nameMapping := mapping, fullRefresh := fullRefresh }

variable {Id : Type} [DecidableEq Id] (K : SurrogateKey Id)

/-- What a command does and the codes it can exit with.  `dbt` needs the
packages, and any command may fail.

`dbt seed` drops the table of the seed before it loads the file, so that a seed
that fails may leave the old table or none.  A run may stop after some of the
models, whatever the reason: a query that fails, a job that exceeds
`job_execution_timeout_seconds`, a task that is killed.  It exits with 0 only
when every model was built.  When it cannot start at all, nothing changes. -/
inductive Performs (e : Execution) : Container Id → Event Reply → Container Id → Prop
  | save (s : Container Id) (text : String) (code : ℕ) :
      Performs e s ⟨.saveServiceAccount text, code⟩ s
  | deps (s : Container Id) (code : ℕ) :
      Performs e s ⟨.dbtDeps, code⟩ { s with packages := s.packages || code == 0 }
  | seed {s : Container Id} : s.packages = true →
      Performs e s ⟨.dbtSeed, (0 : ℕ)⟩ { s with nameMapping := some e.seed }
  | seedFailed (s : Container Id) {code : ℕ} : code ≠ 0 → Performs e s ⟨.dbtSeed, code⟩ s
  | seedLost {s : Container Id} {code : ℕ} : s.packages = true → code ≠ 0 →
      Performs e s ⟨.dbtSeed, code⟩ { s with nameMapping := none }
  | date (s : Container Id) : Performs e s ⟨.date, Sql.isoWeekday e.today⟩ s
  | run {s : Container Id} {fullRefresh : Bool} {mapping : List NameMapping}
      {built : Finset Model} {code : ℕ} : s.packages = true → s.nameMapping = some mapping →
      CanStop K dimDate built (e.runOn mapping fullRefresh) s.warehouse →
      (code = 0 → built = Finset.univ) →
      Performs e s ⟨.dbtRun fullRefresh, code⟩
        { s with
          warehouse := stoppedRun K dimDate built (e.runOn mapping fullRefresh) s.warehouse }
  | runFailed (s : Container Id) (fullRefresh : Bool) {code : ℕ} : code ≠ 0 →
      Performs e s ⟨.dbtRun fullRefresh, code⟩ s
  | test (s : Container Id) (code : ℕ) : Performs e s ⟨.dbtTest, code⟩ s

/-- An execution of the script in a new container takes the project from the one
state to the other and exits with this code.  The container has no packages at
first; the warehouse and the loaded seed are in BigQuery, and outlive it. -/
def ScriptRun (e : Execution) (serviceAccountJson : String) (p p' : Project Id) (code : ℕ) :
    Prop :=
  ∃ packages, Executes (Performs K e) (runDbtSh serviceAccountJson) ⟨p, false⟩ ⟨p', packages⟩
    (.error code)

/-! ## What an execution does -/

section ScriptRun

variable {K} {e : Execution} {serviceAccountJson : String} {p p' : Project Id} {code : ℕ}

/-- The run of an execution that finds this mapping loaded. -/
def Execution.runWith (e : Execution) (mapping : List NameMapping) : DbtRun :=
  { e.run with nameMapping := mapping }

/-! Each command, with what follows it. -/

section Commands

variable {s s' : Container Id} {r : Except ℕ Empty}

private theorem executes_exit_iff {code' : ℕ} :
    Executes (Performs K e) (exit code' : Script Empty) s s' (.error code) ↔
      s' = s ∧ code = code' :=
  executes_ofResult_iff.trans (and_congr_right fun _ => ⟨Except.error.inj, congrArg _⟩)

private theorem executes_saveServiceAccount_iff {text : String} {f : ℕ → Script Empty} :
    Executes (Performs K e) (saveServiceAccount text >>= f) s s' r ↔
      ∃ code, Executes (Performs K e) (f code) s s' r := by
  refine executes_perform_bind_iff.trans (exists_congr fun code => ⟨?_, fun h => ?_⟩)
  · rintro ⟨t, ⟨⟩, h⟩
    exact h
  · exact ⟨s, .save s text code, h⟩

private theorem executes_dbtDeps_iff {f : ℕ → Script Empty} :
    Executes (Performs K e) (dbtDeps >>= f) s s' r ↔ ∃ code : ℕ, Executes (Performs K e) (f code)
      { s with packages := s.packages || code == 0 } s' r := by
  refine executes_perform_bind_iff.trans (exists_congr fun code => ⟨?_, fun h => ?_⟩)
  · rintro ⟨t, ⟨⟩, h⟩
    exact h
  · exact ⟨_, .deps s code, h⟩

private theorem executes_dbtSeed_iff {f : ℕ → Script Empty} :
    Executes (Performs K e) (dbtSeed >>= f) s s' r ↔
      (s.packages = true ∧
        Executes (Performs K e) (f 0) { s with nameMapping := some e.seed } s' r) ∨
      ∃ code, code ≠ 0 ∧ (Executes (Performs K e) (f code) s s' r ∨ s.packages = true ∧
        Executes (Performs K e) (f code) { s with nameMapping := none } s' r) := by
  refine executes_perform_bind_iff.trans ⟨?_, ?_⟩
  · rintro ⟨code, t, ⟨⟩, h⟩
    · exact .inl ⟨‹_›, h⟩
    · exact .inr ⟨code, ‹_›, .inl h⟩
    · exact .inr ⟨code, ‹_›, .inr ⟨‹_›, h⟩⟩
  · rintro (⟨hpackages, h⟩ | ⟨code, hcode, h | ⟨hpackages, h⟩⟩)
    · exact ⟨_, _, .seed hpackages, h⟩
    · exact ⟨code, s, .seedFailed s hcode, h⟩
    · exact ⟨code, _, .seedLost hpackages hcode, h⟩

private theorem executes_date_iff {f : ℤ → Script Empty} :
    Executes (Performs K e) (date >>= f) s s' r ↔
      Executes (Performs K e) (f (Sql.isoWeekday e.today)) s s' r := by
  refine executes_perform_bind_iff.trans ⟨?_, fun h => ⟨_, s, .date s, h⟩⟩
  rintro ⟨day, t, ⟨⟩, h⟩
  exact h

private theorem executes_dbtRunCmd_iff {fullRefresh : Bool} {f : ℕ → Script Empty} :
    Executes (Performs K e) (dbtRunCmd fullRefresh >>= f) s s' r ↔
      (∃ code, code ≠ 0 ∧ Executes (Performs K e) (f code) s s' r) ∨
      ∃ mapping built code, s.packages = true ∧ s.nameMapping = some mapping ∧
        CanStop K dimDate built (e.runOn mapping fullRefresh) s.warehouse ∧
        (code = 0 → built = Finset.univ) ∧
        Executes (Performs K e) (f code) { s with
          warehouse := stoppedRun K dimDate built (e.runOn mapping fullRefresh)
            s.warehouse } s' r := by
  refine executes_perform_bind_iff.trans ⟨?_, ?_⟩
  · rintro ⟨code, t, ⟨⟩, h⟩
    · exact .inr ⟨_, _, code, ‹_›, ‹_›, ‹_›, ‹_›, h⟩
    · exact .inl ⟨code, ‹_›, h⟩
  · rintro (⟨code, hcode, h⟩ | ⟨mapping, built, code, hpackages, hloaded, hstop, hcode, h⟩)
    · exact ⟨code, s, .runFailed s fullRefresh hcode, h⟩
    · exact ⟨code, _, .run hpackages hloaded hstop hcode, h⟩

private theorem executes_dbtTest_iff {f : ℕ → Script Empty} :
    Executes (Performs K e) (dbtTest >>= f) s s' r ↔
      ∃ code, Executes (Performs K e) (f code) s s' r := by
  refine executes_perform_bind_iff.trans (exists_congr fun code => ⟨?_, fun h => ?_⟩)
  · rintro ⟨t, ⟨⟩, h⟩
    exact h
  · exact ⟨s, .test s code, h⟩

/-- The script from `dbt run` on. -/
private theorem executes_run_and_test_iff {fullRefresh : Bool} :
    Executes (Performs K e) (do
        let runExitCode ← dbtRunCmd fullRefresh
        if runExitCode ≠ 0 then (exit runExitCode : Script Empty)
        else do
          let testExitCode ← dbtTest
          exit testExitCode) s s' (.error code) ↔
      (code ≠ 0 ∧ s' = s) ∨
        ∃ mapping built, s.packages = true ∧ s.nameMapping = some mapping ∧
          CanStop K dimDate built (e.runOn mapping fullRefresh) s.warehouse ∧
          (code = 0 → built = Finset.univ) ∧
          s' = { s with
            warehouse := stoppedRun K dimDate built (e.runOn mapping fullRefresh)
              s.warehouse } := by
  -- after a failure the code is that of `dbt run`, otherwise that of `dbt test`
  have htail : ∀ {t : Container Id} {runExitCode : ℕ},
      Executes (Performs K e) (if runExitCode ≠ 0 then (exit runExitCode : Script Empty)
        else do
          let testExitCode ← dbtTest
          exit testExitCode) t s' (.error code) ↔
        s' = t ∧ (runExitCode ≠ 0 → code = runExitCode) := by
    intro t runExitCode
    split
    · next hfailed => simp only [executes_exit_iff, hfailed, ne_eq, not_false_eq_true, true_imp_iff]
    · next hzero =>
      simp only [executes_dbtTest_iff, executes_exit_iff, exists_and_left, exists_eq', and_true,
        hzero, false_imp_iff]
  rw [executes_dbtRunCmd_iff]
  simp only [htail]
  constructor
  · rintro (⟨c, hc, rfl, heq⟩ | ⟨mapping, built, c, hpackages, hloaded, hstop, hc, rfl, heq⟩)
    · exact .inl ⟨heq hc ▸ hc, rfl⟩
    · refine .inr ⟨mapping, built, hpackages, hloaded, hstop, fun hzero => hc ?_, rfl⟩
      by_contra hfailed
      exact hfailed (heq hfailed ▸ hzero)
  · rintro (⟨hcode, rfl⟩ | ⟨mapping, built, hpackages, hloaded, hstop, hcode, rfl⟩)
    · exact .inl ⟨code, hcode, rfl, fun _ => rfl⟩
    · exact .inr ⟨mapping, built, code, hpackages, hloaded, hstop, hcode, rfl, fun _ => rfl⟩

end Commands

/-- With a key, an execution goes on with the mapping it finds or the one it
loads, if it has not lost it, whatever `dbt deps` and `dbt seed` exit with: it
fails before the first model, or it runs the models and stops after some of
them, and can exit with 0 only when all of them are built. -/
theorem scriptRun_iff (hkey : serviceAccountJson ≠ "") :
    ScriptRun K e serviceAccountJson p p' code ↔
      ∃ loaded, (loaded = p.nameMapping ∨ loaded = some e.seed ∨ loaded = none) ∧
        ((p' = ⟨p.warehouse, loaded⟩ ∧ code ≠ 0) ∨
          ∃ mapping built, loaded = some mapping ∧
            CanStop K dimDate built (e.runWith mapping) p.warehouse ∧
            (code = 0 → built = Finset.univ) ∧
            p' = ⟨stoppedRun K dimDate built (e.runWith mapping) p.warehouse, loaded⟩) := by
  rw [ScriptRun, runDbtSh, if_neg hkey]
  simp only [executes_saveServiceAccount_iff, executes_dbtDeps_iff, executes_dbtSeed_iff,
    executes_date_iff, executes_run_and_test_iff]
  constructor
  · rintro ⟨packages, -, depsCode, ⟨-, h⟩ | ⟨seedCode, -, h | ⟨-, h⟩⟩⟩
    · rcases h with ⟨hcode, hp'⟩ | ⟨mapping, built, -, hloaded, hstop, hcode, hp'⟩
      · exact ⟨some e.seed, .inr (.inl rfl), .inl ⟨congrArg Container.toProject hp', hcode⟩⟩
      · exact ⟨some e.seed, .inr (.inl rfl), .inr ⟨mapping, built, hloaded, hstop, hcode,
          congrArg Container.toProject hp'⟩⟩
    · rcases h with ⟨hcode, hp'⟩ | ⟨mapping, built, -, hloaded, hstop, hcode, hp'⟩
      · exact ⟨p.nameMapping, .inl rfl, .inl ⟨congrArg Container.toProject hp', hcode⟩⟩
      · exact ⟨p.nameMapping, .inl rfl, .inr ⟨mapping, built, hloaded, hstop, hcode,
          congrArg Container.toProject hp'⟩⟩
    · -- on a mapping that was lost no model runs
      rcases h with ⟨hcode, hp'⟩ | ⟨mapping, -, -, hloaded, -⟩
      · exact ⟨none, .inr (.inr rfl), .inl ⟨congrArg Container.toProject hp', hcode⟩⟩
      · cases hloaded
  · -- the packages can be installed, so that nothing else fails
    rintro ⟨loaded, rfl | rfl | rfl,
      ⟨rfl, hcode⟩ | ⟨mapping, built, hloaded, hstop, hcode, rfl⟩⟩
    · exact ⟨true, 0, 0, .inr ⟨1, one_ne_zero, .inl (.inl ⟨hcode, rfl⟩)⟩⟩
    · exact ⟨true, 0, 0, .inr ⟨1, one_ne_zero, .inl (.inr
        ⟨mapping, built, rfl, hloaded, hstop, hcode, rfl⟩)⟩⟩
    · exact ⟨true, 0, 0, .inl ⟨rfl, .inl ⟨hcode, rfl⟩⟩⟩
    · exact ⟨true, 0, 0, .inl ⟨rfl, .inr ⟨mapping, built, rfl, hloaded, hstop, hcode, rfl⟩⟩⟩
    · exact ⟨true, 0, 0, .inr ⟨1, one_ne_zero, .inr ⟨rfl, .inl ⟨hcode, rfl⟩⟩⟩⟩
    · cases hloaded

/-- Without a key nothing happens. -/
theorem scriptRun_empty_iff : ScriptRun K e "" p p' code ↔ p' = p ∧ code = 1 := by
  rw [ScriptRun, runDbtSh, if_pos rfl]
  simp only [executes_exit_iff]
  constructor
  · rintro ⟨packages, hp', hcode⟩
    exact ⟨congrArg Container.toProject hp', hcode⟩
  · rintro ⟨rfl, hcode⟩
    exact ⟨false, rfl, hcode⟩

/-- An execution that does not run the models fails and leaves the warehouse
alone. -/
theorem ScriptRun.cases (h : ScriptRun K e serviceAccountJson p p' code) :
    (p'.warehouse = p.warehouse ∧ code ≠ 0) ∨
      ∃ mapping built, p'.nameMapping = some mapping ∧
        CanStop K dimDate built (e.runWith mapping) p.warehouse ∧
        (code = 0 → built = Finset.univ) ∧
        p'.warehouse = stoppedRun K dimDate built (e.runWith mapping) p.warehouse := by
  by_cases hkey : serviceAccountJson = ""
  · rw [hkey, scriptRun_empty_iff] at h
    obtain ⟨rfl, rfl⟩ := h
    exact .inl ⟨rfl, one_ne_zero⟩
  · obtain ⟨loaded, -, ⟨rfl, hcode⟩ | ⟨mapping, built, rfl, hstop, hcode, rfl⟩⟩ :=
      (scriptRun_iff hkey).mp h
    · exact .inl ⟨rfl, hcode⟩
    · exact .inr ⟨mapping, built, rfl, hstop, hcode, rfl⟩

/-- The mapping is kept, replaced by the seed of the execution, or lost. -/
theorem ScriptRun.nameMapping (h : ScriptRun K e serviceAccountJson p p' code) :
    p'.nameMapping = p.nameMapping ∨ p'.nameMapping = some e.seed ∨ p'.nameMapping = none := by
  obtain ⟨packages, h⟩ := h
  refine h.invariant (P := fun s => s.nameMapping = p.nameMapping ∨
      s.nameMapping = some e.seed ∨ s.nameMapping = none)
    (fun s ev s' hperforms hs => ?_) (.inl rfl)
  cases hperforms with
  | seed => exact .inr (.inl rfl)
  | seedLost => exact .inr (.inr rfl)
  | _ => exact hs

end ScriptRun

end BinanceElt
