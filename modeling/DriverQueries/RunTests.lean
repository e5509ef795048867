import Mathlib.Data.Int.Notation
import Mathlib.Data.List.Basic

/-!
The exit status of the test script.

A test goes through stages, and the script stops the test at the first one that fails. What
has failed is told in three ways: by what the run of a test returns, by a global list of
failed database creations, and by the comparison of result tables, which may end the process.
Here the exit status is computed for every set of tests and every outcome of their stages, and
it is shown when success means that no stage failed.
-/

namespace DriverQueries.RunTests

/-! ### Runs of one test -/

inductive Stage
  | build | createDatabase | analyze | sarifDiff | sarifResults
  deriving DecidableEq

/-- A test with the outcomes that its stages have when they are run. -/
structure StagedTest where
  ql_name : String
  succeeds : Stage → Bool

structure Args where
  existing_database : Option String := none
  no_build : Bool := false
  build_database_only : Bool := false
  compare_results : Bool := false
  jobs : Option ℤ := none

/-- What a function returns, with `none` for None, the stages it has run with their outcomes,
and what it has appended to the global list of failed database creations. -/
structure Run (α : Type) where
  result : Option α
  stages : List (Stage × Bool)
  db_create_failures : List String

namespace Run

variable {α β : Type}

/-- A caller that gets None returns None itself. -/
instance : Monad Run where
  pure a := ⟨some a, [], []⟩
  bind x f :=
    match x.result with
    | none => ⟨none, x.stages, x.db_create_failures⟩
    | some a =>
      ⟨(f a).result, x.stages ++ (f a).stages, x.db_create_failures ++ (f a).db_create_failures⟩

def returnNone : Run α := ⟨none, [], []⟩

end Run

def runStage (ql_test : StagedTest) (s : Stage) : Run Unit :=
  ⟨if ql_test.succeeds s then some () else none, [(s, ql_test.succeeds s)], []⟩

/-- `args.existing_database`, where an empty path counts as none. -/
def existingDatabase (args : Args) : Option String := args.existing_database.filter (· ≠ "")

def testSetup (args : Args) (ql_test : StagedTest) : Run Unit :=
  if args.no_build then pure () else runStage ql_test .build

def createCodeqlTestDatabase (ql_test : StagedTest) : Run String :=
  if ql_test.succeeds .createDatabase then
    ⟨some ("TestDB\\" ++ ql_test.ql_name), [(.createDatabase, true)], []⟩
  else ⟨none, [(.createDatabase, false)], [ql_test.ql_name]⟩

/-- `analyze_codeql_database`. The path of the SARIF file is never empty. -/
def analyzeCodeqlDatabase (ql_test : StagedTest) (db_path : String) : Run String := do
  runStage ql_test .analyze
  pure (db_path ++ ".sarif")

/-- The first part of `run_test`: the path of the database. -/
def testDatabase (args : Args) (ql_test : StagedTest) : Run String :=
  match existingDatabase args with
  | some path => pure path
  | none => do
    testSetup args ql_test
    createCodeqlTestDatabase ql_test

/-- The last part of `run_test`: the path of the SARIF file. -/
def testResults (args : Args) (ql_test : StagedTest) (db_path : String) : Run String := do
  let sarif ← analyzeCodeqlDatabase ql_test db_path
  if (existingDatabase args).isNone then runStage ql_test .sarifDiff
  pure sarif

def runTest (args : Args) (ql_test : StagedTest) : Run String := do
  let db_path ← testDatabase args ql_test
  if args.build_database_only then Run.returnNone else testResults args ql_test db_path

/-- `_run_single_test`: the name of the test if it fails, and None if it does not. -/
def runSingleTest (args : Args) (ql_test : StagedTest) : Run String :=
  let run := runTest args ql_test
  if args.build_database_only then { run with result := none }
  else
    match run.result with
    | none => { run with result := some ql_test.ql_name }
    | some _ =>
      let read := runStage ql_test .sarifResults
      { result := if read.result.isSome then none else some ql_test.ql_name
        stages := run.stages ++ read.stages
        db_create_failures := run.db_create_failures ++ read.db_create_failures }

/-! ### Runs of all tests -/

/-- What the runs of all tests have left behind. -/
structure Collected where
  failed_tests : List String
  db_create_failures : List String
  stages : List (Stage × Bool)

def sequential (args : Args) (ql_tests : List StagedTest) : Collected where
  failed_tests := ql_tests.filterMap fun t => (runSingleTest args t).result
  db_create_failures := ql_tests.flatMap fun t => (runSingleTest args t).db_create_failures
  stages := ql_tests.flatMap fun t => (runSingleTest args t).stages

/-- `jobs`, where the number of processors is known or not. -/
def jobs (args : Args) (cpu_count : Option ℕ) : ℤ :=
  match args.jobs with
  | some j => max 1 j
  | none => cpu_count.elim 1 fun n => if n = 0 then 1 else n

/-- With one worker the tests run in order. With more they run interleaved, and each list gets
its entries in some order. -/
def Collects (args : Args) (cpu_count : Option ℕ) (ql_tests : List StagedTest) (c : Collected) :
    Prop :=
  if jobs args cpu_count = 1 then c = sequential args ql_tests
  else c.failed_tests.Perm (sequential args ql_tests).failed_tests ∧
    c.db_create_failures.Perm (sequential args ql_tests).db_create_failures ∧
    c.stages.Perm (sequential args ql_tests).stages

/-- How the comparison with the previous tables ends: they are the same, they differ, or the
previous ones cannot be read. -/
inductive Tables
  | same | differ | unreadable
  deriving DecidableEq

/-- `compare_health_results`: the exit status it ends the process with, if it does. -/
def compareHealthResults : Tables → Option ℕ
  | .same => some 0
  | .differ => none
  | .unreadable => some 1

/-- The exit status of the process after `run_tests`. -/
def exitStatus (args : Args) (tables : Tables) (c : Collected) : ℕ :=
  match if args.compare_results then compareHealthResults tables else none with
  | some status => status
  | none =>
    if ¬ args.build_database_only ∧ c.failed_tests ≠ [] then 1
    else if c.db_create_failures ≠ [] then 1
    else 0

/-! ### What the lists say about the stages -/

def NoFailure (stages : List (Stage × Bool)) : Prop := ∀ s ∈ stages, s.2 = true

/-- None is returned exactly when some stage has failed. -/
def Honest {α : Type} (x : Run α) : Prop := x.result.isSome ↔ NoFailure x.stages

/-- A stage has failed exactly when the test fails at one of the stages asked for. -/
def Asks {α : Type} (t : StagedTest) (asked : List Stage) (x : Run α) : Prop :=
  NoFailure x.stages ↔ ∀ s ∈ asked, t.succeeds s

lemma noFailure_append {xs ys : List (Stage × Bool)} :
    NoFailure (xs ++ ys) ↔ NoFailure xs ∧ NoFailure ys := List.forall_mem_append

lemma honest_pure {α : Type} (a : α) : Honest (pure a : Run α) :=
  iff_of_true rfl (List.forall_mem_nil _)

lemma honest_stage (t : StagedTest) (s : Stage) : Honest (runStage t s) := by
  unfold Honest NoFailure runStage
  cases h : t.succeeds s <;> simp

lemma honest_createDatabase (t : StagedTest) : Honest (createCodeqlTestDatabase t) := by
  unfold Honest NoFailure createCodeqlTestDatabase
  cases h : t.succeeds .createDatabase <;> simp

lemma asks_pure {α : Type} (t : StagedTest) (a : α) : Asks t [] (pure a : Run α) :=
  iff_of_true (List.forall_mem_nil _) (List.forall_mem_nil _)

lemma asks_stage (t : StagedTest) (s : Stage) : Asks t [s] (runStage t s) := by
  simp [Asks, NoFailure, runStage]

lemma asks_createDatabase (t : StagedTest) :
    Asks t [.createDatabase] (createCodeqlTestDatabase t) := by
  unfold Asks NoFailure createCodeqlTestDatabase
  cases h : t.succeeds .createDatabase <;> simp [h]

/-- A caller that goes on stops at the first failure, or has the outcome of what follows. -/
lemma bind_cases {α β : Type} {x : Run α} (hx : Honest x) (f : α → Run β) :
    (¬ NoFailure x.stages ∧ (x >>= f).result = none ∧ (x >>= f).stages = x.stages) ∨
      ∃ a, NoFailure x.stages ∧ (x >>= f).result = (f a).result ∧
        (x >>= f).stages = x.stages ++ (f a).stages := by
  unfold Honest at hx
  change _ ∨ ∃ a, _ ∧ (match x.result with | none => _ | some a => _ : Run β).result = _ ∧ _
  cases hres : x.result with
  | none =>
    rw [hres] at hx
    refine Or.inl ⟨fun h => Bool.noConfusion (hx.mpr h), ?_, ?_⟩
    · simp [bind, hres]
    · simp [bind, hres]
  | some a =>
    rw [hres] at hx
    refine Or.inr ⟨a, hx.mp rfl, rfl, ?_⟩
    simp [bind, hres]

lemma Honest.bind {α β : Type} {x : Run α} {f : α → Run β} (hx : Honest x)
    (hf : ∀ a, Honest (f a)) : Honest (x >>= f) := by
  unfold Honest
  obtain ⟨hfail, hres, hstages⟩ | ⟨a, hnone, hres, hstages⟩ := bind_cases hx f
  · rw [hres, hstages]
    exact iff_of_false Bool.false_ne_true hfail
  · rw [hres, hstages, noFailure_append, and_iff_right hnone]
    exact hf a

lemma Asks.bind {α β : Type} {t : StagedTest} {first rest : List Stage} {x : Run α} {f : α → Run β}
    (hx : Honest x) (hfirst : Asks t first x) (hrest : ∀ a, Asks t rest (f a)) :
    Asks t (first ++ rest) (x >>= f) := by
  unfold Asks at hfirst ⊢
  rw [List.forall_mem_append, ← hfirst]
  obtain ⟨hfail, -, hstages⟩ | ⟨a, hnone, -, hstages⟩ := bind_cases hx f
  · rw [hstages]
    exact iff_of_false hfail fun h => hfail h.1
  · rw [hstages, noFailure_append, and_iff_right hnone, and_iff_right hnone]
    exact hrest a

/-- The stages that lead to a database. -/
def databaseStages (args : Args) : List Stage :=
  if (existingDatabase args).isSome then []
  else (if args.no_build then [] else [.build]) ++ [.createDatabase]

/-- The stages from the database to the SARIF file. -/
def sarifStages (args : Args) : List Stage :=
  .analyze :: if (existingDatabase args).isNone then [.sarifDiff] else []

def askedStages (args : Args) : List Stage :=
  databaseStages args ++
    if args.build_database_only then [] else sarifStages args ++ [.sarifResults]

lemma honest_testDatabase (args : Args) (t : StagedTest) :
    Honest (testDatabase args t) ∧ Asks t (databaseStages args) (testDatabase args t) := by
  unfold testDatabase testSetup databaseStages
  cases existingDatabase args with
  | some path => exact ⟨honest_pure path, asks_pure t path⟩
  | none =>
    have create := fun _ : Unit => honest_createDatabase t
    have asks := fun _ : Unit => asks_createDatabase t
    cases args.no_build with
    | true => exact ⟨(honest_pure ()).bind create, .bind (honest_pure ()) (asks_pure t ()) asks⟩
    | false =>
      have hbuild := honest_stage t .build
      exact ⟨hbuild.bind create, .bind hbuild (asks_stage t .build) asks⟩

lemma honest_analyze (t : StagedTest) (db_path : String) :
    Honest (analyzeCodeqlDatabase t db_path) ∧
      Asks t [.analyze] (analyzeCodeqlDatabase t db_path) :=
  ⟨(honest_stage t .analyze).bind fun _ => honest_pure _,
    .bind (honest_stage t .analyze) (asks_stage t .analyze) fun _ => asks_pure t _⟩

lemma honest_testResults (args : Args) (t : StagedTest) (db_path : String) :
    Honest (testResults args t db_path) ∧
      Asks t (sarifStages args) (testResults args t db_path) := by
  obtain ⟨hanalyze, hasks⟩ := honest_analyze t db_path
  have hdiff := honest_stage t .sarifDiff
  unfold testResults sarifStages
  cases (existingDatabase args).isNone with
  | true =>
    exact ⟨hanalyze.bind fun sarif => hdiff.bind fun _ => honest_pure sarif,
      .bind hanalyze hasks fun sarif =>
        .bind hdiff (asks_stage t .sarifDiff) fun _ => asks_pure t sarif⟩
  | false =>
    exact ⟨hanalyze.bind fun sarif => (honest_pure ()).bind fun _ => honest_pure sarif,
      .bind hanalyze hasks fun sarif =>
        .bind (honest_pure ()) (asks_pure t ()) fun _ => asks_pure t sarif⟩

lemma honest_runTest {args : Args} (hargs : ¬ args.build_database_only) (t : StagedTest) :
    Honest (runTest args t) ∧
      Asks t (databaseStages args ++ sarifStages args) (runTest args t) := by
  obtain ⟨hdb, hasks⟩ := honest_testDatabase args t
  unfold runTest
  simp only [if_neg hargs]
  exact ⟨hdb.bind fun db_path => (honest_testResults args t db_path).1,
    .bind hdb hasks fun db_path => (honest_testResults args t db_path).2⟩

/-- When the results are read, a test has no name to return exactly when no stage failed. -/
lemma runSingleTest_result {args : Args} (hargs : ¬ args.build_database_only) (t : StagedTest) :
    (runSingleTest args t).result = none ↔ NoFailure (runSingleTest args t).stages := by
  have hrun := (honest_runTest hargs t).1
  have hread := honest_stage t .sarifResults
  unfold runSingleTest
  simp only [if_neg hargs]
  unfold Honest at hrun hread
  cases hres : (runTest args t).result with
  | none =>
    rw [hres] at hrun
    simpa using hrun
  | some sarif =>
    rw [hres] at hrun
    simp only [noFailure_append, ← hread, hrun.mp rfl, true_and]
    cases (runStage t .sarifResults).result <;> simp

/-- A stage of a test fails exactly when the test fails at a stage the arguments ask for: the
stages not run come after one that has failed. -/
lemma runSingleTest_asks (args : Args) (t : StagedTest) :
    Asks t (askedStages args) (runSingleTest args t) := by
  unfold askedStages
  by_cases hargs : args.build_database_only
  · obtain ⟨hdb, hasks⟩ := honest_testDatabase args t
    have hrun : Asks t (databaseStages args ++ []) (runTest args t) := by
      unfold runTest
      simp only [if_pos hargs]
      exact .bind hdb hasks fun _ => iff_of_true (List.forall_mem_nil _) (List.forall_mem_nil _)
    unfold runSingleTest
    simp only [if_pos hargs]
    exact hrun
  · obtain ⟨hrun, hasks⟩ := honest_runTest hargs t
    unfold runSingleTest
    unfold Honest at hrun
    have hread := asks_stage t .sarifResults
    unfold Asks at hasks hread ⊢
    simp only [if_neg hargs, ← List.append_assoc]
    rw [List.forall_mem_append, ← hasks, ← hread]
    cases hres : (runTest args t).result with
    | none =>
      rw [hres] at hrun
      exact iff_of_false (fun h => Bool.noConfusion (hrun.mpr h))
        fun h => Bool.noConfusion (hrun.mpr h.1)
    | some sarif => exact noFailure_append

lemma bind_failures {α β : Type} {x : Run α} {f : α → Run β}
    (hf : ∀ a, (f a).db_create_failures = []) :
    (x >>= f).db_create_failures = x.db_create_failures := by
  change (match x.result with | none => _ | some a => _ : Run β).db_create_failures = _
  cases x.result with
  | none => rfl
  | some a => simp only [hf a, List.append_nil]

lemma testResults_failures (args : Args) (t : StagedTest) (db_path : String) :
    (testResults args t db_path).db_create_failures = [] := by
  have hdiff : ∀ sarif : String, (do
      if (existingDatabase args).isNone then runStage t .sarifDiff
      pure sarif : Run String).db_create_failures = [] := by
    intro sarif
    cases (existingDatabase args).isNone with
    | true => exact bind_failures fun _ => rfl
    | false => rfl
  unfold testResults analyzeCodeqlDatabase
  rw [bind_failures hdiff, bind_failures fun _ => rfl]
  rfl

def CreationFails (args : Args) (t : StagedTest) : Prop :=
  existingDatabase args = none ∧ (args.no_build ∨ t.succeeds .build) ∧
    ¬ t.succeeds .createDatabase

lemma testDatabase_failures (args : Args) (t : StagedTest) :
    (testDatabase args t).db_create_failures ≠ [] ↔ CreationFails args t := by
  have create : (createCodeqlTestDatabase t).db_create_failures ≠ [] ↔
      ¬ t.succeeds .createDatabase := by
    unfold createCodeqlTestDatabase
    cases t.succeeds .createDatabase <;> simp
  unfold testDatabase testSetup CreationFails
  cases existingDatabase args with
  | some path => simp [pure]
  | none =>
    cases args.no_build with
    | true => simpa [pure, bind] using create
    | false =>
      cases hbuild : t.succeeds .build with
      | true => simpa [runStage, bind, hbuild] using create
      | false => simp [runStage, bind, hbuild]

lemma runSingleTest_failures (args : Args) (t : StagedTest) :
    (runSingleTest args t).db_create_failures ≠ [] ↔ CreationFails args t := by
  have hrun : (runTest args t).db_create_failures = (testDatabase args t).db_create_failures := by
    refine bind_failures fun db_path => ?_
    split_ifs
    · rfl
    · exact testResults_failures args t db_path
  rw [← testDatabase_failures, ← hrun]
  unfold runSingleTest
  split_ifs
  · rfl
  · cases hres : (runTest args t).result with
    | none => simp only [hres]
    | some sarif => simp only [hres, runStage, List.append_nil]

/-! ### The exit status -/

variable {args : Args} {cpu_count : Option ℕ} {ql_tests : List StagedTest} {c : Collected}
  {tables : Tables}

lemma perm_eq_nil_iff {α : Type} {xs ys : List α} (h : xs.Perm ys) : xs = [] ↔ ys = [] :=
  ⟨fun hxs => (hxs ▸ h).symm.eq_nil, fun hys => (hys ▸ h).eq_nil⟩

lemma Collects.perm (h : Collects args cpu_count ql_tests c) :
    c.failed_tests.Perm (sequential args ql_tests).failed_tests ∧
      c.db_create_failures.Perm (sequential args ql_tests).db_create_failures ∧
      c.stages.Perm (sequential args ql_tests).stages := by
  unfold Collects at h
  split_ifs at h
  · rw [h]
    exact ⟨.refl _, .refl _, .refl _⟩
  · exact h

lemma Collects.noFailure_iff (h : Collects args cpu_count ql_tests c) :
    NoFailure c.stages ↔ ∀ t ∈ ql_tests, ∀ s ∈ askedStages args, t.succeeds s := by
  obtain ⟨-, -, hstages⟩ := h.perm
  have hsequential : NoFailure c.stages ↔ NoFailure (sequential args ql_tests).stages :=
    forall_congr' fun s => imp_congr_left hstages.mem_iff
  rw [hsequential]
  refine List.forall_mem_flatMap.trans ?_
  exact forall₂_congr fun t _ => runSingleTest_asks args t

lemma Collects.failed_tests_eq_nil (h : Collects args cpu_count ql_tests c)
    (hargs : ¬ args.build_database_only) :
    c.failed_tests = [] ↔ ∀ t ∈ ql_tests, ∀ s ∈ askedStages args, t.succeeds s := by
  obtain ⟨hfailed, -, -⟩ := h.perm
  rw [perm_eq_nil_iff hfailed]
  unfold sequential
  rw [List.filterMap_eq_nil_iff]
  exact forall₂_congr fun t _ => (runSingleTest_result hargs t).trans (runSingleTest_asks args t)

lemma Collects.failures_eq_nil (h : Collects args cpu_count ql_tests c) :
    c.db_create_failures = [] ↔ ¬ ∃ t ∈ ql_tests, CreationFails args t := by
  obtain ⟨-, hdb, -⟩ := h.perm
  rw [perm_eq_nil_iff hdb]
  unfold sequential
  simp only [List.flatMap_eq_nil_iff, ← runSingleTest_failures, not_exists, not_and, not_not]

lemma exitStatus_eq_zero_iff :
    exitStatus args tables c = 0 ↔ ¬ (args.compare_results ∧ tables = .unreadable) ∧
      ((args.compare_results ∧ tables = .same) ∨
        ((args.build_database_only ∨ c.failed_tests = []) ∧ c.db_create_failures = [])) := by
  unfold exitStatus compareHealthResults
  cases args.compare_results <;> cases tables <;> cases args.build_database_only <;>
    by_cases hfailed : c.failed_tests = [] <;> by_cases hdb : c.db_create_failures = [] <;>
    simp [hfailed, hdb]

/-- **The process ends with success only if no stage that was run has failed iff the tests
succeed in all stages asked for, or the comparison fails to read the previous tables, or it
does not find them equal and, when only databases are built, the creation of one fails.** -/
theorem exit_success_noFailure_iff (h : Collects args cpu_count ql_tests c) :
    (exitStatus args tables c = 0 → NoFailure c.stages) ↔
      (∀ t ∈ ql_tests, ∀ s ∈ askedStages args, t.succeeds s) ∨
        (args.compare_results ∧ tables = .unreadable) ∨
        (¬ (args.compare_results ∧ tables = .same) ∧
          (args.build_database_only → ∃ t ∈ ql_tests, CreationFails args t)) := by
  have hfailed := h.failed_tests_eq_nil
  have hdb := h.failures_eq_nil
  rw [exitStatus_eq_zero_iff, hdb, h.noFailure_iff]
  generalize (∃ t ∈ ql_tests, CreationFails args t) = creationFails
  tauto

/-- A test whose only failure is at the stage. -/
def failsAt (stage : Stage) : StagedTest := { ql_name := "IrqlTooHigh", succeeds := (· ≠ stage) }

def sequentially : Args := { jobs := some 1 }

theorem exit_success_noFailure_analysis :
    (exitStatus sequentially .same (sequential sequentially [failsAt .analyze]) = 0 →
        NoFailure (sequential sequentially [failsAt .analyze]).stages) ↔
      (∀ t ∈ [failsAt .analyze], ∀ s ∈ askedStages sequentially, t.succeeds s) ∨
        (sequentially.compare_results ∧ Tables.same = .unreadable) ∨
        (¬ (sequentially.compare_results ∧ Tables.same = .same) ∧
          (sequentially.build_database_only →
            ∃ t ∈ [failsAt .analyze], CreationFails sequentially t)) := by
  have h : Collects sequentially none [failsAt .analyze]
      (sequential sequentially [failsAt .analyze]) := by
    unfold Collects
    rw [if_pos (by decide)]
  exact exit_success_noFailure_iff h

/-- A failed analysis is lost when the compared tables are equal, and a failed build when only
databases are built. -/
theorem exit_success_failure_lost :
    (exitStatus { sequentially with compare_results := true } .same
        (sequential { sequentially with compare_results := true } [failsAt .analyze]) = 0 ∧
      ¬ NoFailure
        (sequential { sequentially with compare_results := true } [failsAt .analyze]).stages) ∧
    (exitStatus { sequentially with build_database_only := true } .differ
        (sequential { sequentially with build_database_only := true } [failsAt .build]) = 0 ∧
      ¬ NoFailure
        (sequential { sequentially with build_database_only := true }
          [failsAt .build]).stages) := by
  unfold NoFailure
  decide

end DriverQueries.RunTests
