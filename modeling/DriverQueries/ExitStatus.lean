import DriverQueries.ParallelRuns
import DriverQueries.RunTests

/-!
The exit status of the test script on its files.

A test works on its files, and what its stages do there when it is run alone makes it a test of the
script of stages. It is shown that every run of the pool leaves what the script of stages leaves, so
that the exit status of the process is the same for every number of workers and every order of their
steps.
-/

namespace DriverQueries.ExitStatus

open FindTests Workers ParallelRuns
open RunTests (Stage Args Run)

variable {Db Sarif Diff Records : Type}

/-! ### The stages of a test -/

section Stages

variable (S : Setup Db Sarif Diff Records) (ql_test : QlTest)

def built : Except ParallelRuns.Error Bool × Cell Db Sarif Diff Records :=
  Script.run (testSetup S ql_test) (S.before (key S ql_test))

def created : Except ParallelRuns.Error Bool × Cell Db Sarif Diff Records :=
  Script.run (createCodeqlTestDatabase S ql_test) (built S ql_test).2

def analyzed : Except ParallelRuns.Error Bool × Cell Db Sarif Diff Records :=
  Script.run (analyzeCodeqlDatabase S ql_test)
    (if S.existing_database.isSome then S.before (key S ql_test) else (created S ql_test).2)

def compared : Except ParallelRuns.Error Bool × Cell Db Sarif Diff Records :=
  if S.existing_database.isSome then (.ok true, (analyzed S ql_test).2)
  else Script.run (sarifDiff S ql_test) (analyzed S ql_test).2

/-- The outcome of a stage: an exception is no success. -/
def returnsTrue : Except ParallelRuns.Error Bool → Bool
  | .ok b => b
  | .error _ => false

def succeeds : Stage → Bool
  | .build => returnsTrue (built S ql_test).1
  | .createDatabase => returnsTrue (created S ql_test).1
  | .analyze => returnsTrue (analyzed S ql_test).1
  | .sarifDiff => returnsTrue (compared S ql_test).1
  | .sarifResults => (S.load (compared S ql_test).2.analysis).isSome

def stages : RunTests.StagedTest where
  ql_name := String.ofList ql_test.ql_name
  succeeds := succeeds S ql_test

def args (compare_results : Bool) (jobs : Option ℤ) : Args where
  existing_database := S.existing_database.map fun x => String.ofList x.1
  no_build := S.no_build
  build_database_only := S.build_database_only
  compare_results := compare_results
  jobs := jobs

end Stages

/-! ### Scripts and runs of stages -/

section Scripts

variable {σ α β γ : Type} {c : Cell Db Sarif Diff Records}

lemma run_bind_action (x : Action σ α) (f : α → Action σ β) (s : σ) :
    Script.run (x >>= f : Action σ β) s = match Script.run x s with
      | (.ok a, s') => Script.run (f a) s'
      | (.error e, s') => (.error e, s') := by
  change Script.run ((show Script σ (Except ParallelRuns.Error α) from x) >>=
    ExceptT.bindCont f) s = _
  rw [run_bind]
  rcases Script.run x s with ⟨e | a, s'⟩ <;> rfl

lemma run_attempt (g : σ → Except ParallelRuns.Error (α × σ)) (s : σ) :
    Script.run (attempt g) s = match g s with
      | .ok (a, s') => (.ok a, s')
      | .error e => (.error e, s) := rfl

/-- The action leaves the list of failed creations as it is. -/
def Keeps (x : Action (Cell Db Sarif Diff Records) α) : Prop :=
  ∀ c, (Script.run x c).2.db_create_failures = c.db_create_failures

lemma keeps_pure (a : α) : Keeps (pure a : Action (Cell Db Sarif Diff Records) α) := fun _ => rfl

lemma keeps_throw (e : ParallelRuns.Error) :
    Keeps (throw e : Action (Cell Db Sarif Diff Records) α) := fun _ => rfl

lemma keeps_attempt {g : Cell Db Sarif Diff Records → Except _ (α × Cell Db Sarif Diff Records)}
    (h : ∀ c, ∀ r, g c = .ok r → r.2.db_create_failures = c.db_create_failures) :
    Keeps (attempt g) := by
  intro c
  rw [run_attempt]
  cases hg : g c with
  | error e => rfl
  | ok r => exact h c r hg

lemma Keeps.bind {x : Action (Cell Db Sarif Diff Records) α}
    {f : α → Action (Cell Db Sarif Diff Records) β} (hx : Keeps x) (hf : ∀ a, Keeps (f a)) :
    Keeps (x >>= f) := by
  intro c
  have hkept := hx c
  rw [run_bind_action]
  rcases hrun : Script.run x c with ⟨e | a, c'⟩ <;> rw [hrun] at hkept
  · exact hkept
  · exact (hf a c').trans hkept

/-- Where the action raises no exception it returns `true` exactly if the run of stages returns a
value, and the failed creations it adds are those of the run. -/
def Agrees (c : Cell Db Sarif Diff Records) (x : Action (Cell Db Sarif Diff Records) Bool)
    (r : Run α) : Prop :=
  ∀ b, (Script.run x c).1 = .ok b → b = r.result.isSome ∧
    (Script.run x c).2.db_create_failures.map String.ofList =
      c.db_create_failures.map String.ofList ++ r.db_create_failures

/-- An action after one that has returned `true`. -/
lemma Agrees.andThen {x y : Action (Cell Db Sarif Diff Records) Bool} {r : Run α} {q : α → Run β}
    (hx : Agrees c x r)
    (hy : (Script.run x c).1 = .ok true → ∀ a, Agrees (Script.run x c).2 y (q a)) :
    Agrees c (x >>= fun b => if b then y else pure false) (r >>= q) := by
  intro b hb
  unfold Agrees at hx hy
  rw [run_bind_action] at hb ⊢
  rcases hrun : Script.run x c with ⟨e | a, c'⟩ <;> rw [hrun] at hx hy hb
  · exact absurd hb (by simp)
  · obtain ⟨rfl, hfailures⟩ := hx a rfl
    -- the second action is only run after `true`, as the second stage is only after a result
    cases hr : r.result with
    | none =>
      simp only [hr, Option.isSome_none, Bool.false_eq_true, if_false] at hb ⊢
      obtain rfl : false = b := Except.ok.inj hb
      have hstages : (r >>= q).db_create_failures = r.db_create_failures := by simp [bind, hr]
      refine ⟨by simp [bind, hr], ?_⟩
      rw [hstages]
      exact hfailures
    | some a =>
      simp only [hr, Option.isSome_some, if_true] at hb ⊢
      obtain ⟨hresult, hrest⟩ := hy (by simp [hr]) a b hb
      refine ⟨by simpa [bind, hr] using hresult, ?_⟩
      rw [hrest, hfailures, List.append_assoc]
      simp [bind, hr]

lemma agrees_stage {t : RunTests.StagedTest} {s : Stage}
    {x : Action (Cell Db Sarif Diff Records) Bool}
    (hx : Keeps x) (h : t.succeeds s = returnsTrue (Script.run x c).1) :
    Agrees c x (RunTests.runStage t s) := by
  intro b hb
  have hs : t.succeeds s = b := by
    rw [h, hb]
    rfl
  refine ⟨?_, ?_⟩
  · cases b <;> simp [RunTests.runStage, hs]
  · simp [hx c, RunTests.runStage]

lemma agrees_pure {a : α} :
    Agrees c (pure true : Action (Cell Db Sarif Diff Records) Bool) (pure a : Run α) := by
  intro b hb
  obtain rfl : true = b := Except.ok.inj hb
  exact ⟨rfl, (List.append_nil _).symm⟩

lemma Agrees.map {x : Action (Cell Db Sarif Diff Records) Bool} {r : Run α} (hx : Agrees c x r)
    (f : α → β) : Agrees c x (r >>= fun a => pure (f a)) := by
  intro b hb
  obtain ⟨hresult, hfailures⟩ := hx b hb
  cases hr : r.result with
  | none => simp [hresult, hfailures, bind, hr]
  | some a => simp [hresult, hfailures, bind, hr, pure]

end Scripts

/-! ### The actions of a test -/

section Actions

variable {S : Setup Db Sarif Diff Records} {ql_test : QlTest} {c : Cell Db Sarif Diff Records}

lemma failures_of_copied {x : Except ParallelRuns.Error Entries}
    {r : Unit × Cell Db Sarif Diff Records}
    (h : (x >>= fun w => pure ((), { c with working := some w })) = Except.ok r) :
    r.2.db_create_failures = c.db_create_failures := by
  cases x with
  | error e => exact nomatch h
  | ok w =>
    obtain rfl := Except.ok.inj h
    rfl

lemma keeps_copyToWorking (file : Name) (lines : List Name) :
    Keeps (copyToWorking S ql_test file lines) := by
  refine keeps_attempt fun c r h => ?_
  cases hw : c.working with
  | none => simp [hw] at h
  | some w =>
    simp only [hw] at h
    split_ifs at h
    · exact failures_of_copied h
    · exact failures_of_copied h

lemma keeps_copyFiles (es : Entries) : Keeps (copyFiles S ql_test es) := by
  induction es with
  | nil => exact keeps_pure ()
  | file name lines rest ih => exact (keeps_copyToWorking name lines).bind fun _ => ih
  | dir name sub rest => exact keeps_throw _

lemma keeps_removeWorking : Keeps (removeWorking : Action (Cell Db Sarif Diff Records) Unit) := by
  refine keeps_attempt fun c r h => ?_
  split_ifs at h
  obtain rfl := Except.ok.inj h
  rfl

lemma keeps_copyTemplate : Keeps (copyTemplate S ql_test) := by
  refine keeps_attempt fun c r h => ?_
  cases htemplate : S.templates ql_test.template with
  | none => simp [htemplate] at h
  | some template =>
    simp only [htemplate] at h
    split_ifs at h
    obtain rfl := Except.ok.inj h
    rfl

lemma keeps_build : Keeps (build S ql_test) := by
  refine keeps_attempt fun c r h => ?_
  cases hw : c.working with
  | none => simp [hw] at h
  | some w =>
    simp only [hw] at h
    obtain rfl := Except.ok.inj h
    rfl

lemma keeps_built :
    Keeps (if S.no_build then pure true else build S ql_test : Action (Cell _ _ _ _) Bool) := by
  split_ifs
  · exact keeps_pure true
  · exact keeps_build

/-- The part of `test_setup` after the working directory is removed. -/
def setUpFiles (S : Setup Db Sarif Diff Records) (ql_test : QlTest) :
    Action (Cell Db Sarif Diff Records) Bool := do
  copyTemplate S ql_test
  match listdir S.directory ql_test.path with
  | none => throw .fileNotFound
  | some es => copyFiles S ql_test es
  if S.no_build then pure true else build S ql_test

lemma keeps_setUpFiles : Keeps (setUpFiles S ql_test) := by
  refine keeps_copyTemplate.bind fun _ => ?_
  cases listdir S.directory ql_test.path with
  | none => exact (keeps_throw _).bind fun _ => keeps_built
  | some es => exact (keeps_copyFiles es).bind fun _ => keeps_built

lemma keeps_testSetup : Keeps (testSetup S ql_test) := by
  refine Keeps.bind (keeps_attempt ?_) fun b => ?_
  · intro c r h
    obtain rfl := Except.ok.inj h
    rfl
  · cases b with
    | true => exact keeps_removeWorking.bind fun _ => keeps_setUpFiles
    | false => exact keeps_setUpFiles

lemma returns_setUpFiles (h : S.no_build = true) :
    Returns (fun b => b = true) (setUpFiles S ql_test) := by
  have hbuilt : Returns (fun b => b = true)
      (if S.no_build then pure true else build S ql_test : Action (Cell _ _ _ _) Bool) := by
    rw [if_pos h]
    exact returns_pure rfl
  refine Returns.bind fun _ => ?_
  cases listdir S.directory ql_test.path with
  | none => exact Returns.bind fun _ => hbuilt
  | some es => exact Returns.bind fun _ => hbuilt

lemma returns_testSetup (h : S.no_build = true) :
    Returns (fun b => b = true) (testSetup S ql_test) := by
  refine Returns.bind fun b => ?_
  cases b with
  | true => exact Returns.bind fun _ => returns_setUpFiles h
  | false => exact returns_setUpFiles h

/-- The last part of the creation: what has failed is added to the list. -/
lemma failures_noted {ok b : Bool}
    (h : (Script.run (do
      if ok then pure true
      else do
        attempt fun c =>
          .ok ((), { c with db_create_failures := c.db_create_failures ++ [ql_test.ql_name] })
        pure false : Action (Cell Db Sarif Diff Records) Bool) c).1 = .ok b) :
    (Script.run (do
      if ok then pure true
      else do
        attempt fun c =>
          .ok ((), { c with db_create_failures := c.db_create_failures ++ [ql_test.ql_name] })
        pure false : Action (Cell Db Sarif Diff Records) Bool) c).2.db_create_failures =
      c.db_create_failures ++ if b then [] else [ql_test.ql_name] := by
  cases ok with
  | true =>
    obtain rfl : true = b := Except.ok.inj h
    exact (List.append_nil _).symm
  | false =>
    obtain rfl : false = b := Except.ok.inj h
    rfl

lemma failures_create {b : Bool}
    (h : (Script.run (createCodeqlTestDatabase S ql_test) c).1 = .ok b) :
    (Script.run (createCodeqlTestDatabase S ql_test) c).2.db_create_failures =
      c.db_create_failures ++ if b then [] else [ql_test.ql_name] := by
  revert h
  unfold createCodeqlTestDatabase
  cases hdb : c.testDB.isSome with
  | true =>
    simp only [run_bind_action, run_attempt, hdb, if_true]
    exact failures_noted
  | false =>
    simp only [run_bind_action, run_attempt, hdb, Bool.false_eq_true, if_false]
    exact failures_noted

lemma keeps_analyze : Keeps (analyzeCodeqlDatabase S ql_test) := by
  refine keeps_attempt fun c r h => ?_
  obtain rfl := Except.ok.inj h
  rfl

lemma keeps_sarifDiff : Keeps (sarifDiff S ql_test) := by
  refine keeps_attempt fun c r h => ?_
  obtain rfl := Except.ok.inj h
  rfl

end Actions

/-! ### One test -/

section Test

variable {S : Setup Db Sarif Diff Records} {ql_test : QlTest} {compare_results : Bool}
  {jobs : Option ℤ}

/-- The first part of `run_test`: whether there is a database. -/
def makeDatabase (S : Setup Db Sarif Diff Records) (ql_test : QlTest) :
    Action (Cell Db Sarif Diff Records) Bool :=
  if S.existing_database.isSome then pure true
  else testSetup S ql_test >>= fun b =>
    if b then createCodeqlTestDatabase S ql_test else pure false

/-- The last part of `run_test`: whether there are results. -/
def makeResults (S : Setup Db Sarif Diff Records) (ql_test : QlTest) :
    Action (Cell Db Sarif Diff Records) Bool :=
  analyzeCodeqlDatabase S ql_test >>= fun b =>
    if b then if S.existing_database.isSome then pure true else sarifDiff S ql_test
    else pure false

/-- The part of `run_test` after the database. -/
lemma results_eq (b : Bool) : (if ¬ b then pure false
      else if S.build_database_only then pure false
      else do
        if ¬ (← analyzeCodeqlDatabase S ql_test) then pure false
        else if S.existing_database.isSome then pure true
        else sarifDiff S ql_test : Action (Cell Db Sarif Diff Records) Bool) =
    if b then if S.build_database_only then pure false else makeResults S ql_test
    else pure false := by
  cases b with
  | false => rfl
  | true =>
    simp only [not_true_eq_false, if_false, if_true]
    congr 1
    unfold makeResults
    congr 1
    funext b
    cases b with
    | false => rfl
    | true => rfl

lemma run_runTest (c : Cell Db Sarif Diff Records) : Script.run (runTest S ql_test) c =
    Script.run (makeDatabase S ql_test >>= fun b =>
      if b then if S.build_database_only then pure false else makeResults S ql_test
      else pure false : Action (Cell Db Sarif Diff Records) Bool) c := by
  unfold runTest makeDatabase
  simp only [results_eq]
  cases S.existing_database.isSome with
  | true => rfl
  | false =>
    simp only [Bool.false_eq_true, if_false, run_bind_action]
    rcases Script.run (testSetup S ql_test) c with ⟨e | b, c'⟩
    · rfl
    · cases b with
      | false => rfl
      | true => simp only [if_true, run_bind_action]

/-- The cell from which the results are made. -/
def withDatabase (S : Setup Db Sarif Diff Records) (ql_test : QlTest) :
    Cell Db Sarif Diff Records :=
  if S.existing_database.isSome then S.before (key S ql_test) else (created S ql_test).2

lemma agrees_testSetup : Agrees (S.before (key S ql_test)) (testSetup S ql_test)
    (RunTests.testSetup (args S compare_results jobs) (stages S ql_test)) := by
  unfold RunTests.testSetup
  cases hbuild : S.no_build with
  | true =>
    simp only [args, hbuild, if_true]
    intro b hb
    obtain rfl := returns_testSetup hbuild _ _ hb
    exact ⟨rfl, by simp [keeps_testSetup _, pure]⟩
  | false =>
    simp only [args, hbuild, Bool.false_eq_true, if_false]
    exact agrees_stage keeps_testSetup rfl

lemma agrees_create : Agrees (built S ql_test).2 (createCodeqlTestDatabase S ql_test)
    (RunTests.createCodeqlTestDatabase (stages S ql_test)) := by
  intro b hb
  have hs : (stages S ql_test).succeeds .createDatabase = b := by
    change returnsTrue (Script.run (createCodeqlTestDatabase S ql_test) (built S ql_test).2).1 = b
    rw [hb]
    rfl
  rw [failures_create hb, RunTests.createCodeqlTestDatabase, hs]
  cases b with
  | true => simp
  | false => simp [stages]

/-- Where the database has been made, the results are made from it. -/
lemma state_makeDatabase
    (h : (Script.run (makeDatabase S ql_test) (S.before (key S ql_test))).1 = .ok true) :
    (Script.run (makeDatabase S ql_test) (S.before (key S ql_test))).2 =
      withDatabase S ql_test := by
  unfold makeDatabase at h ⊢
  unfold withDatabase
  cases hdb : S.existing_database.isSome with
  | true => rfl
  | false =>
    simp only [hdb, Bool.false_eq_true, if_false, run_bind_action] at h ⊢
    unfold created built
    rcases hrun : Script.run (testSetup S ql_test) (S.before (key S ql_test)) with ⟨e | b, c'⟩
    · simp [hrun] at h
    · cases b with
      | true => rfl
      | false =>
        simp only [hrun, Bool.false_eq_true, if_false] at h
        exact nomatch h

lemma state_makeResults
    (h : (Script.run (makeResults S ql_test) (withDatabase S ql_test)).1 = .ok true) :
    (Script.run (makeResults S ql_test) (withDatabase S ql_test)).2 = (compared S ql_test).2 := by
  have hanalyzed : Script.run (analyzeCodeqlDatabase S ql_test) (withDatabase S ql_test) =
      analyzed S ql_test := rfl
  unfold makeResults at h ⊢
  simp only [run_bind_action, hanalyzed] at h ⊢
  unfold compared
  rcases hrun : analyzed S ql_test with ⟨e | b, c'⟩ <;> rw [hrun] at h
  · exact nomatch (show Except.error e = .ok true from h)
  · cases b with
    | false => exact absurd (Except.ok.inj h) Bool.false_ne_true
    | true =>
      cases S.existing_database.isSome with
      | true => rfl
      | false => rfl

lemma state_runTest (honly : S.build_database_only = false)
    (h : (Script.run (runTest S ql_test) (S.before (key S ql_test))).1 = .ok true) :
    (Script.run (runTest S ql_test) (S.before (key S ql_test))).2 = (compared S ql_test).2 := by
  have hstate := @state_makeDatabase _ _ _ _ S ql_test
  rw [run_runTest, run_bind_action] at h ⊢
  rcases hrun : Script.run (makeDatabase S ql_test) (S.before (key S ql_test)) with ⟨e | b, c'⟩
  · rw [hrun] at h
    exact nomatch (show Except.error e = .ok true from h)
  · rw [hrun] at h hstate
    cases b with
    | false => exact absurd (Except.ok.inj h) Bool.false_ne_true
    | true =>
      obtain rfl : c' = withDatabase S ql_test := hstate rfl
      simp only [honly, Bool.false_eq_true, if_false, if_true] at h ⊢
      exact state_makeResults h

/-- What a test returns when the results are read. -/
lemma alone_of_runTest {b : Bool} {c : Cell Db Sarif Diff Records}
    (h : Script.run (runTest S ql_test) (S.before (key S ql_test)) = (.ok b, c)) :
    (alone S ql_test).1 = .ok (if S.build_database_only then none
      else if b && (S.load c.analysis).isSome then none else some ql_test.ql_name) ∧
      (alone S ql_test).2.db_create_failures = c.db_create_failures := by
  unfold alone script runSingleTest
  rw [run_bind_action, h]
  cases S.build_database_only with
  | true => exact ⟨rfl, rfl⟩
  | false =>
    cases b with
    | false => exact ⟨rfl, rfl⟩
    | true =>
      simp only [Bool.false_eq_true, if_false, not_true_eq_false, run_bind_action, run_attempt]
      cases S.load c.analysis with
      | none => exact ⟨rfl, rfl⟩
      | some loaded => exact ⟨rfl, rfl⟩

lemma runTest_of_alone {failed : Option Name} (h : (alone S ql_test).1 = .ok failed) :
    ∃ b c, Script.run (runTest S ql_test) (S.before (key S ql_test)) = (.ok b, c) := by
  unfold alone script runSingleTest at h
  rw [run_bind_action] at h
  rcases hrun : Script.run (runTest S ql_test) (S.before (key S ql_test)) with ⟨e | b, c⟩
  · rw [hrun] at h
    exact nomatch (show Except.error e = .ok failed from h)
  · exact ⟨b, c, rfl⟩

/-- The same for the script of stages. -/
lemma runSingleTest_eq (a : Args) (t : RunTests.StagedTest) :
    (RunTests.runSingleTest a t).result = (if a.build_database_only then none
      else if (RunTests.runTest a t).result.isSome && t.succeeds .sarifResults then none
        else some t.ql_name) ∧
      (RunTests.runSingleTest a t).db_create_failures =
        (RunTests.runTest a t).db_create_failures := by
  unfold RunTests.runSingleTest
  generalize RunTests.runTest a t = run
  obtain ⟨result, past, failures⟩ := run
  cases a.build_database_only with
  | true => exact ⟨rfl, rfl⟩
  | false =>
    cases result with
    | none => exact ⟨rfl, rfl⟩
    | some sarif =>
      cases hread : t.succeeds .sarifResults with
      | true => simp [RunTests.runStage, hread]
      | false => simp [RunTests.runStage, hread]

section Named

variable (hname : ∀ x ∈ S.existing_database, x.1 ≠ [])

include hname

lemma existingDatabase_args : RunTests.existingDatabase (args S compare_results jobs) =
    S.existing_database.map fun x => String.ofList x.1 := by
  unfold RunTests.existingDatabase args
  cases hdb : S.existing_database with
  | none => rfl
  | some x =>
    have hne : String.ofList x.1 ≠ "" := fun h => hname x hdb (by simpa using h)
    simp [hne]

lemma agrees_makeDatabase : Agrees (S.before (key S ql_test)) (makeDatabase S ql_test)
    (RunTests.testDatabase (args S compare_results jobs) (stages S ql_test)) := by
  unfold RunTests.testDatabase makeDatabase
  rw [existingDatabase_args hname]
  cases S.existing_database with
  | some x => exact agrees_pure
  | none => exact agrees_testSetup.andThen fun _ _ => agrees_create

lemma agrees_makeResults (db_path : String) :
    Agrees (withDatabase S ql_test) (makeResults S ql_test)
      (RunTests.testResults (args S compare_results jobs) (stages S ql_test) db_path) := by
  have hanalyze : Agrees (withDatabase S ql_test) (analyzeCodeqlDatabase S ql_test)
      (RunTests.analyzeCodeqlDatabase (stages S ql_test) db_path) :=
    Agrees.map (agrees_stage keeps_analyze rfl) fun _ => db_path ++ ".sarif"
  unfold RunTests.testResults makeResults
  refine hanalyze.andThen fun _ sarif => ?_
  rw [existingDatabase_args hname]
  cases hdb : S.existing_database with
  | some x => exact agrees_pure
  | none =>
    refine Agrees.map (agrees_stage keeps_sarifDiff ?_) fun _ => sarif
    change returnsTrue (compared S ql_test).1 = _
    unfold compared analyzed withDatabase
    simp [hdb]

lemma agrees_runTest : Agrees (S.before (key S ql_test)) (runTest S ql_test)
    (RunTests.runTest (args S compare_results jobs) (stages S ql_test)) := by
  have hresults : Agrees (S.before (key S ql_test)) (makeDatabase S ql_test >>= fun b =>
        if b then if S.build_database_only then pure false else makeResults S ql_test
        else pure false)
      (RunTests.runTest (args S compare_results jobs) (stages S ql_test)) := by
    refine (agrees_makeDatabase hname).andThen fun hok db_path => ?_
    rw [state_makeDatabase hok]
    have honly : (args S compare_results jobs).build_database_only = S.build_database_only := rfl
    rw [honly]
    cases S.build_database_only with
    | true =>
      intro b hb
      obtain rfl : false = b := Except.ok.inj hb
      exact ⟨rfl, (List.append_nil _).symm⟩
    | false => exact agrees_makeResults hname db_path
  unfold Agrees at hresults ⊢
  rwa [run_runTest]

/-- A test that is run alone and raises no exception returns what the script of stages returns for
it, and adds the same failed creations. -/
lemma alone_eq {failed : Option Name} (h : (alone S ql_test).1 = .ok failed) :
    failed.map String.ofList =
        (RunTests.runSingleTest (args S compare_results jobs) (stages S ql_test)).result ∧
      (alone S ql_test).2.db_create_failures.map String.ofList =
        (S.before (key S ql_test)).db_create_failures.map String.ofList ++
          (RunTests.runSingleTest (args S compare_results jobs)
            (stages S ql_test)).db_create_failures := by
  obtain ⟨b, c, hrun⟩ := runTest_of_alone h
  obtain ⟨hfailed, hkept⟩ := alone_of_runTest hrun
  obtain ⟨hresult, hadded⟩ := runSingleTest_eq (args S compare_results jobs) (stages S ql_test)
  obtain ⟨hsome, hfailures⟩ :=
    @agrees_runTest _ _ _ _ S ql_test compare_results jobs hname b (by rw [hrun])
  have honly : (args S compare_results jobs).build_database_only = S.build_database_only := rfl
  rw [hrun] at hfailures
  refine ⟨?_, by rw [hkept, hadded, hfailures]⟩
  rw [hresult, ← hsome, honly]
  obtain rfl := Except.ok.inj (h.symm.trans hfailed)
  -- without an analysis a test fails at a stage, and with one also if its results cannot be read
  cases hbuild : S.build_database_only with
  | true => rfl
  | false =>
    cases b with
    | false => rfl
    | true =>
      have hstate := @state_runTest _ _ _ _ S ql_test hbuild (by rw [hrun])
      rw [hrun] at hstate
      obtain rfl : c = (compared S ql_test).2 := hstate
      have hload : (stages S ql_test).succeeds .sarifResults =
          (S.load (compared S ql_test).2.analysis).isSome := rfl
      rw [hload]
      cases (S.load (compared S ql_test).2.analysis).isSome with
      | true => rfl
      | false => rfl

end Named

end Test

/-! ### All tests -/

section Runs

variable {S : Setup Db Sarif Diff Records} {compare_results : Bool} {jobs : Option ℤ}
  {ql_tests : List QlTest} {workers : ℕ} {r : List Name × (Name → Cell Db Sarif Diff Records)}
  {db_create_failures : List Name}

/-- What the tests return and leave, if no exception ends their run. One worker is the loop. -/
def Leaves (S : Setup Db Sarif Diff Records) (workers : ℕ) (ql_tests : List QlTest)
    (r : List Name × (Name → Cell Db Sarif Diff Records)) : Prop :=
  if workers = 1 then inOrder S ql_tests S.before = some r
  else ∃ w, Runs S workers ql_tests w ∧ Final w ∧ failedTests w.finished = some r.1 ∧ w.cells = r.2

/-- The global list after a run: the failed creations of all tests. With more workers they are added
in some order. -/
def Noted (S : Setup Db Sarif Diff Records) (workers : ℕ) (ql_tests : List QlTest)
    (r : List Name × (Name → Cell Db Sarif Diff Records)) (db_create_failures : List Name) : Prop :=
  if workers = 1 then
    db_create_failures = ql_tests.flatMap fun t => (r.2 (key S t)).db_create_failures
  else db_create_failures.Perm (ql_tests.flatMap fun t => (r.2 (key S t)).db_create_failures)

/-- What a run leaves, with the stages of its tests. -/
def collected (S : Setup Db Sarif Diff Records) (a : Args) (ql_tests : List QlTest)
    (failed_tests db_create_failures : List Name) : RunTests.Collected where
  failed_tests := failed_tests.map String.ofList
  db_create_failures := db_create_failures.map String.ofList
  stages := (RunTests.sequential a (ql_tests.map (stages S))).stages

/-- The names that the tests return when each is run alone. -/
def failedAlone (S : Setup Db Sarif Diff Records) (ql_tests : List QlTest) : List Name :=
  ql_tests.filterMap fun t => (alone S t).1.toOption.join

lemma failedTests_alone {failed : List Name}
    (h : failedTests (ql_tests.map fun t => (t, (alone S t).1)) = some failed) :
    (∀ t ∈ ql_tests, ∃ name, (alone S t).1 = .ok name) ∧ failed = failedAlone S ql_tests := by
  unfold failedTests at h
  split_ifs at h with hok
  obtain rfl := Option.some.inj h
  refine ⟨fun t ht => ?_, ?_⟩
  · rw [List.all_map, List.all_eq_true] at hok
    have hokt := hok t ht
    cases halone : (alone S t).1 with
    | ok name => exact ⟨name, rfl⟩
    | error e => simp [halone, Except.isOk, Except.toBool] at hokt
  · rw [List.filterMap_map]
    rfl

lemma failedTests_of_perm {xs ys : List (QlTest × Except ParallelRuns.Error (Option Name))}
    {failed : List Name} (hperm : xs.Perm ys) (h : failedTests xs = some failed) :
    ∃ failed', failedTests ys = some failed' ∧ failed.Perm failed' := by
  unfold failedTests at h ⊢
  split_ifs at h with hok
  obtain rfl := Option.some.inj h
  rw [if_pos (by simpa [List.all_eq_true, hperm.mem_iff] using hok)]
  exact ⟨_, rfl, hperm.filterMap _⟩

/-- A run that no exception ends leaves each cell as the test alone does, and returns the names
that the tests return alone, in their order if there is one worker. -/
lemma leaves_spec (hkeys : (ql_tests.map (key S)).Nodup) (h : Leaves S workers ql_tests r) :
    (∀ t ∈ ql_tests, ∃ name, (alone S t).1 = .ok name) ∧
      r.1.Perm (failedAlone S ql_tests) ∧ (workers = 1 → r.1 = failedAlone S ql_tests) ∧
      ∀ t ∈ ql_tests, r.2 (key S t) = (alone S t).2 := by
  unfold Leaves at h
  split_ifs at h with hone
  · have hruns : Runs S 1 ql_tests ⟨(runAll (key S) (script S) ql_tests S.before).2, [], [],
        [] ++ (runAll (key S) (script S) ql_tests S.before).1⟩ :=
      reaches_runAll Nat.one_pos ql_tests S.before []
    have hapart := apart_initial.reaches hkeys hruns
    rw [inOrder_eq, runAll_fst hkeys] at h
    obtain ⟨failed, hfailed, rfl⟩ := Option.map_eq_some_iff.mp h
    obtain ⟨hok, rfl⟩ := failedTests_alone hfailed
    exact ⟨hok, .refl _, fun _ => rfl, fun t ht => hapart.cells_eq ⟨rfl, rfl⟩ ht⟩
  · obtain ⟨w, hruns, hfinal, hfailed, hcells⟩ := h
    have hapart := apart_initial.reaches hkeys hruns
    obtain ⟨failed, hfailed', hperm⟩ := failedTests_of_perm (hapart.finished_eq hfinal) hfailed
    obtain ⟨hok, rfl⟩ := failedTests_alone hfailed'
    exact ⟨hok, hperm, fun h => absurd h hone, fun t ht => hcells ▸ hapart.cells_eq hfinal ht⟩

/-- The tests alone and the script of stages leave the same. -/
lemma sequential_eq (hname : ∀ x ∈ S.existing_database, x.1 ≠ [])
    (hstart : ∀ t ∈ ql_tests, (S.before (key S t)).db_create_failures = [])
    (hok : ∀ t ∈ ql_tests, ∃ failed, (alone S t).1 = .ok failed) :
    (RunTests.sequential (args S compare_results jobs) (ql_tests.map (stages S))).failed_tests =
        (failedAlone S ql_tests).map String.ofList ∧
      (RunTests.sequential (args S compare_results jobs)
        (ql_tests.map (stages S))).db_create_failures =
        (ql_tests.flatMap fun t => (alone S t).2.db_create_failures).map String.ofList := by
  unfold RunTests.sequential failedAlone
  refine ⟨?_, ?_⟩
  · rw [List.filterMap_map, List.map_filterMap]
    refine List.filterMap_congr fun t ht => ?_
    obtain ⟨failed, hfailed⟩ := hok t ht
    obtain ⟨hresult, -⟩ := @alone_eq _ _ _ _ S t compare_results jobs hname failed hfailed
    rw [Function.comp_apply, ← hresult, hfailed]
    rfl
  · rw [List.map_flatMap, List.flatMap_map]
    refine List.flatMap_congr fun t ht => ?_
    obtain ⟨failed, hfailed⟩ := hok t ht
    obtain ⟨-, hfailures⟩ := @alone_eq _ _ _ _ S t compare_results jobs hname failed hfailed
    rw [hfailures, hstart t ht]
    rfl

lemma Noted.perm (h : Noted S workers ql_tests r db_create_failures)
    (hcells : ∀ t ∈ ql_tests, r.2 (key S t) = (alone S t).2) :
    db_create_failures.Perm (ql_tests.flatMap fun t => (alone S t).2.db_create_failures) ∧
      (workers = 1 →
        db_create_failures = ql_tests.flatMap fun t => (alone S t).2.db_create_failures) := by
  have halone : (ql_tests.flatMap fun t => (r.2 (key S t)).db_create_failures) =
      ql_tests.flatMap fun t => (alone S t).2.db_create_failures :=
    List.flatMap_congr fun t ht => by rw [hcells t ht]
  unfold Noted at h
  rw [halone] at h
  split_ifs at h with hone
  · exact ⟨h ▸ .refl _, fun _ => h⟩
  · exact ⟨h, fun hone' => absurd hone' hone⟩

/-- **Every run of the pool leaves what the script of stages leaves**, in its order if there is one
worker. -/
theorem collects_of_leaves (hisolated : Isolated S ql_tests)
    (hname : ∀ x ∈ S.existing_database, x.1 ≠ [])
    (hstart : ∀ t ∈ ql_tests, (S.before (key S t)).db_create_failures = []) {cpu_count : Option ℕ}
    (hworkers : workers = (RunTests.jobs (args S compare_results jobs) cpu_count).toNat)
    (hleaves : Leaves S workers ql_tests r)
    (hnoted : Noted S workers ql_tests r db_create_failures) :
    RunTests.Collects (args S compare_results jobs) cpu_count (ql_tests.map (stages S))
      (collected S (args S compare_results jobs) ql_tests r.1 db_create_failures) := by
  obtain ⟨hok, hperm, hinOrder, hcells⟩ := leaves_spec (isolated_iff.mp hisolated) hleaves
  obtain ⟨hnoted, hnotedInOrder⟩ := hnoted.perm hcells
  obtain ⟨hfailed, hfailures⟩ := @sequential_eq _ _ _ _ S compare_results jobs _ hname hstart hok
  unfold RunTests.Collects
  split_ifs with hone
  · have hworkers : workers = 1 := by omega
    unfold collected
    rw [hinOrder hworkers, hnotedInOrder hworkers, ← hfailed, ← hfailures]
  · rw [hfailed, hfailures]
    exact ⟨hperm.map _, hnoted.map _, .refl _⟩

lemma leaves_testA : ∃ r, Leaves allSucceed 2 [testA] r ∧ Noted allSucceed 2 [testA] r [] := by
  have hruns : Runs allSucceed 2 [testA] _ :=
    reaches_runAll Nat.two_pos [testA] allSucceed.before []
  refine ⟨([], (runAll (key allSucceed) (script allSucceed) [testA] allSucceed.before).2), ?_, ?_⟩
  · unfold Leaves
    rw [if_neg (by decide)]
    refine ⟨_, hruns, ⟨rfl, rfl⟩, ?_, rfl⟩
    decide +kernel
  · unfold Noted
    rw [if_neg (by decide)]
    exact .of_eq (by decide +kernel)

theorem collects_of_leaves_testA : ∃ r, Leaves allSucceed 2 [testA] r ∧
    RunTests.Collects (args allSucceed true (some 2)) none ([testA].map (stages allSucceed))
      (collected allSucceed (args allSucceed true (some 2)) [testA] r.1 []) := by
  obtain ⟨r, hleaves, hnoted⟩ := leaves_testA
  have hisolated : Isolated allSucceed [testA] := isolated_iff.mpr (List.nodup_singleton _)
  exact ⟨r, hleaves, collects_of_leaves hisolated (by simp [allSucceed]) (by simp [allSucceed]) rfl
    hleaves hnoted⟩

/-! ### The exit status -/

def asked (S : Setup Db Sarif Diff Records) : List Stage := RunTests.askedStages (args S false none)

/-- The test, run alone, fails at the creation of its database. -/
def CreationFails (S : Setup Db Sarif Diff Records) (t : QlTest) : Prop :=
  RunTests.CreationFails (args S false none) (stages S t)

/-- What the tests return and note alone is what their stages say. -/
lemma alone_eq_nil (hname : ∀ x ∈ S.existing_database, x.1 ≠ [])
    (hstart : ∀ t ∈ ql_tests, (S.before (key S t)).db_create_failures = [])
    (hok : ∀ t ∈ ql_tests, ∃ failed, (alone S t).1 = .ok failed) :
    (S.build_database_only = false →
        (failedAlone S ql_tests = [] ↔ ∀ t ∈ ql_tests, ∀ s ∈ asked S, succeeds S t s)) ∧
      ((ql_tests.flatMap fun t => (alone S t).2.db_create_failures) = [] ↔
        ∀ t ∈ ql_tests, ¬ CreationFails S t) := by
  have hcollects : RunTests.Collects (args S false none) none (ql_tests.map (stages S))
      (RunTests.sequential (args S false none) (ql_tests.map (stages S))) := by
    unfold RunTests.Collects
    rw [if_pos (by rfl)]
  obtain ⟨hfailed, hfailures⟩ := @sequential_eq _ _ _ _ S false none _ hname hstart hok
  refine ⟨fun honly => ?_, ?_⟩
  · have hnil := hcollects.failed_tests_eq_nil (by simp [args, honly])
    rw [hfailed, List.map_eq_nil_iff, List.forall_mem_map] at hnil
    exact hnil
  · have hnil := hcollects.failures_eq_nil
    rw [hfailures, List.map_eq_nil_iff] at hnil
    rw [hnil]
    simp [CreationFails]

/-- **The process ends with success iff the comparison, if asked for, can be made, and finds the
results the same or no test fails**: no stage asked for when each test is run alone, or no creation
of a database when only databases are built. The number of workers and the order of their steps do
not matter. -/
theorem exit_success_iff (hisolated : Isolated S ql_tests)
    (hname : ∀ x ∈ S.existing_database, x.1 ≠ [])
    (hstart : ∀ t ∈ ql_tests, (S.before (key S t)).db_create_failures = [])
    (hleaves : Leaves S workers ql_tests r) (hnoted : Noted S workers ql_tests r db_create_failures)
    (tables : RunTests.Tables) :
    RunTests.exitStatus (args S compare_results jobs) tables
        (collected S (args S compare_results jobs) ql_tests r.1 db_create_failures) = 0 ↔
      ¬ (compare_results = true ∧ tables = .unreadable) ∧
        ((compare_results = true ∧ tables = .same) ∨
          (S.build_database_only = true ∨ ∀ t ∈ ql_tests, ∀ s ∈ asked S, succeeds S t s) ∧
            ∀ t ∈ ql_tests, ¬ CreationFails S t) := by
  obtain ⟨hok, hperm, -, hcells⟩ := leaves_spec (isolated_iff.mp hisolated) hleaves
  obtain ⟨hfailed, hcreations⟩ := alone_eq_nil hname hstart hok
  rw [← RunTests.perm_eq_nil_iff hperm] at hfailed
  rw [← RunTests.perm_eq_nil_iff (hnoted.perm hcells).1] at hcreations
  rw [RunTests.exitStatus_eq_zero_iff]
  simp only [args, collected, List.map_eq_nil_iff, hcreations]
  have hfails : (S.build_database_only = true ∨ r.1 = []) ↔
      (S.build_database_only = true ∨ ∀ t ∈ ql_tests, ∀ s ∈ asked S, succeeds S t s) := by
    cases honly : S.build_database_only with
    | true => simp
    | false => rw [hfailed honly]
  rw [hfails]

end Runs

/-- Two workers with one test, which succeeds, and results that are not the stored ones. -/
theorem exit_success_testA : ∃ r, Leaves allSucceed 2 [testA] r ∧
    RunTests.exitStatus (args allSucceed true (some 2)) .differ
      (collected allSucceed (args allSucceed true (some 2)) [testA] r.1 []) = 0 := by
  obtain ⟨r, hleaves, hnoted⟩ := leaves_testA
  have hisolated : Isolated allSucceed [testA] := isolated_iff.mpr (List.nodup_singleton _)
  refine ⟨r, hleaves, (exit_success_iff hisolated (by simp [allSucceed]) (by simp [allSucceed])
    hleaves hnoted .differ).mpr ⟨by simp, .inr ⟨.inr ?_, ?_⟩⟩⟩
  · decide +kernel
  · intro t ht hfails
    obtain rfl := List.mem_singleton.mp ht
    have hcreates : succeeds allSucceed testA .createDatabase = true := by decide +kernel
    exact hfails.2.2 hcreates

end DriverQueries.ExitStatus
