import DriverQueries.FindTests
import DriverQueries.Workers
import Mathlib.Data.Finset.Dedup

/-!
The test script runs its tests one after another, or on a pool of workers.

A test works in directories and on rows of the result tables that go by its name. What the
script runs (the build, the analysis, the comparison of results) is a function of the files it
is given. It is shown when the tests that are found keep apart, so that every run of the pool
ends as the sequential run does.
-/

namespace DriverQueries.ParallelRuns

open FindTests Workers

/-! ### One test -/

inductive Error
  | fileNotFound | fileExists | permission
  deriving DecidableEq

/-- What goes by the name of a test: its directories and files, the rows of the two result
tables, and the failed creations of its database. -/
structure Cell (Db Sarif Diff Records : Type) where
  working : Option Entries
  testDB : Option Db
  analysis : Option Sarif
  diff : Option Diff
  rows : Name → Option (ℕ × Records)
  db_create_failures : List Name

/-- The programs that the script runs. Each says whether it succeeds, and what becomes of the
files it writes. -/
structure Tools (Db Sarif Diff Records : Type) where
  msbuild : QlTest → Entries → Bool × Entries
  createDatabase : QlTest → Option Entries → Option Db → Bool × Option Entries × Option Db
  analyze : QlTest → Option Db → Option Sarif → Bool × Option Sarif
  sarifDiff : QlTest → Option (List Name) → Option Sarif → Option Diff → Bool × Option Diff
  load : Option Sarif → Option (Counts × Records)

/-- The arguments of the script, and the files and directories it starts from. -/
structure Setup (Db Sarif Diff Records : Type) extends Tools Db Sarif Diff Records where
  normcase : Char → Char
  directory : Folder
  existing_database : Option (Name × Db) := none
  no_build : Bool := false
  build_database_only : Bool := false
  override_template : Option Name := none
  g_template_dir : Name
  g_test_dir : Name
  g_analysis_file_dir : Name
  templates : Name → Option Entries
  before : Name → Cell Db Sarif Diff Records

abbrev Action (σ α : Type) := ExceptT Error (Script σ) α

/-- One action that may raise an exception and then changes nothing. -/
def attempt {σ α : Type} (g : σ → Except Error (α × σ)) : Action σ α :=
  ExceptT.mk (Script.modifyGet fun s =>
    match g s with
    | .ok (a, s') => (.ok a, s')
    | .error e => (.error e, s))

/-- The entries of the directory that the names lead to. -/
def lookup : Entries → List Name → Option Entries
  | es, [] => some es
  | es, name :: p =>
    match es.dirs.lookup name with
    | none => none
    | some sub => lookup sub p

def listdir (directory : Folder) (path : List Name) : Option Entries :=
  if directory.path <+: path then lookup directory.entries (path.drop directory.path.length)
  else none

section Tests

variable {Db Sarif Diff Records : Type} (S : Setup Db Sarif Diff Records) (ql_test : QlTest)

def SameName (name name' : Name) : Prop := name.map S.normcase = name'.map S.normcase

instance (name name' : Name) : Decidable (SameName S name name') :=
  inferInstanceAs (Decidable (_ = _))

/-- `shutil.copyfile` into a directory. -/
def copyfile (file : Name) (lines : List Name) : Entries → Except Error Entries
  | .nil => .ok (.file file lines .nil)
  | .file name ls rest =>
    if SameName S name file then .ok (.file name lines rest)
    else (copyfile file lines rest).map (.file name ls)
  | .dir name sub rest =>
    if SameName S name file then .error .permission
    else (copyfile file lines rest).map (.dir name sub)

def copyfileToDriver (file : Name) (lines : List Name) : Entries → Except Error Entries
  | .nil => .error .fileNotFound
  | .file name ls rest => (copyfileToDriver file lines rest).map (.file name ls)
  | .dir name sub rest =>
    if SameName S name "driver".toList then
      (copyfile S file lines sub).map fun sub' => .dir name sub' rest
    else (copyfileToDriver file lines rest).map (.dir name sub)

/-- `shutil.rmtree(current_working_dir)`. -/
def removeWorking : Action (Cell Db Sarif Diff Records) Unit := attempt fun c =>
  if c.working.isSome then .ok ((), { c with working := none }) else .error .fileNotFound

/-- `shutil.copytree(ql_test.get_template(), current_working_dir)`. -/
def copyTemplate : Action (Cell Db Sarif Diff Records) Unit := attempt fun c =>
  match S.templates ql_test.template with
  | none => .error .fileNotFound
  | some template =>
    if c.working.isSome then .error .fileExists
    else .ok ((), { c with working := some template })

def copyToWorking (file : Name) (lines : List Name) : Action (Cell Db Sarif Diff Records) Unit :=
  attempt fun c =>
    match c.working with
    | none => .error .fileNotFound
    | some w => do
      let w' ← if ql_test.ql_type = "apps".toList then copyfile S file lines w
        else copyfileToDriver S file lines w
      pure ((), { c with working := some w' })

/-- The files of the directory are copied in order. A directory in it cannot be copied. -/
def copyFiles : Entries → Action (Cell Db Sarif Diff Records) Unit
  | .nil => pure ()
  | .file name lines rest => do
    copyToWorking S ql_test name lines
    copyFiles rest
  | .dir _ _ _ => throw .permission

def build : Action (Cell Db Sarif Diff Records) Bool := attempt fun c =>
  match c.working with
  | none => .error .fileNotFound
  | some w =>
    let out := S.msbuild ql_test w
    .ok (out.1, { c with working := some out.2 })

/-- `test_setup`, with `false` for None. -/
def testSetup : Action (Cell Db Sarif Diff Records) Bool := do
  let exists_working ← attempt fun c => .ok (c.working.isSome, c)
  if exists_working then removeWorking
  copyTemplate S ql_test
  match listdir S.directory ql_test.path with
  | none => throw .fileNotFound
  | some es => copyFiles S ql_test es
  if S.no_build then pure true else build S ql_test

/-- `create_codeql_test_database`, with `false` for None. -/
def createCodeqlTestDatabase : Action (Cell Db Sarif Diff Records) Bool := do
  let exists_db ← attempt fun c => .ok (c.testDB.isSome, c)
  if exists_db then
    attempt fun c =>
      if c.testDB.isSome then .ok ((), { c with testDB := none }) else .error .fileNotFound
  let ok ← attempt fun c =>
    let out := S.createDatabase ql_test c.working c.testDB
    .ok (out.1, { c with working := out.2.1, testDB := out.2.2 })
  if ok then pure true
  else do
    attempt fun c =>
      .ok ((), { c with db_create_failures := c.db_create_failures ++ [ql_test.ql_name] })
    pure false

def analyzeCodeqlDatabase : Action (Cell Db Sarif Diff Records) Bool := attempt fun c =>
  let db := match S.existing_database with
    | some x => some x.2
    | none => c.testDB
  let out := S.analyze ql_test db c.analysis
  .ok (out.1, { c with analysis := out.2 })

/-- The lines of the reference results beside the query. -/
def sarifPrev : Option (List Name) := do
  let es ← listdir S.directory ql_test.path
  let file ← es.files.find? fun x => SameName S x.1 (ql_test.ql_name ++ ".sarif".toList)
  pure file.2

def sarifDiff : Action (Cell Db Sarif Diff Records) Bool := attempt fun c =>
  let out := S.sarifDiff ql_test (sarifPrev S ql_test) c.analysis c.diff
  .ok (out.1, { c with diff := out.2 })

def runTest : Action (Cell Db Sarif Diff Records) Bool := do
  let created ←
    if S.existing_database.isSome then pure true
    else do
      if ← testSetup S ql_test then createCodeqlTestDatabase S ql_test else pure false
  if ¬ created then pure false
  else if S.build_database_only then pure false
  else if ¬ (← analyzeCodeqlDatabase S ql_test) then pure false
  else if S.existing_database.isSome then pure true
  else sarifDiff S ql_test

/-- The row of the test in the two tables is written. -/
def writeRow (counts : Counts) (records : Records) : Action (Cell Db Sarif Diff Records) Unit :=
  attempt fun c => .ok ((), { c with
    rows := Function.update c.rows ql_test.ql_name
      (some (counts.error + counts.warning + counts.note, records)) })

/-- `_run_single_test`: the name of the test if it fails. -/
def runSingleTest : Action (Cell Db Sarif Diff Records) (Option Name) := do
  let result_sarif ← runTest S ql_test
  if S.build_database_only then pure none
  else if ¬ result_sarif then pure (some ql_test.ql_name)
  else do
    match ← attempt fun c => .ok (S.load c.analysis, c) with
    | none => pure (some ql_test.ql_name)
    | some (counts, records) =>
      writeRow ql_test counts records
      pure none

/-! ### All tests -/

def workingPath : Name := S.g_test_dir ++ "\\working\\".toList ++ ql_test.ql_name ++ ['\\']

def databasePath : Name := S.g_test_dir ++ "\\TestDB\\".toList ++ ql_test.ql_name ++ ['\\']

/-- The results for an existing database get its name, in a directory of the test. -/
def outputFile : Name :=
  match S.existing_database with
  | none => ".sarif".toList
  | some x => '\\' :: (x.1.splitOn '\\').getLastD [] ++ ".sarif".toList

def analysisPath : Name :=
  S.g_analysis_file_dir ++ ['\\'] ++ ql_test.ql_name ++ outputFile S

/-- The file system tells names apart only in their normal case. -/
def key : Name := ql_test.ql_name.map S.normcase

def script : Script (Cell Db Sarif Diff Records) (Except Error (Option Name)) :=
  runSingleTest S ql_test

/-- The names that the tests have returned, if none of them has raised an exception. -/
def failedTests (finished : List (QlTest × Except Error (Option Name))) : Option (List Name) :=
  if finished.all fun x => x.2.isOk then some (finished.filterMap fun x => x.2.toOption.join)
  else none

/-- The loop over the tests: the failed tests and what is left behind, if no exception ends it. -/
def inOrder : List QlTest → (Name → Cell Db Sarif Diff Records) →
    Option (List Name × (Name → Cell Db Sarif Diff Records))
  | [], cells => some ([], cells)
  | ql_test :: ql_tests, cells =>
    match (script S ql_test).run (cells (key S ql_test)) with
    | (.error _, _) => none
    | (.ok failed, cell) =>
      (inOrder ql_tests (Function.update cells (key S ql_test) cell)).map fun r =>
        (failed.toList ++ r.1, r.2)

/-- The failed tests and the rows of the tables. -/
structure Ending (Records : Type) where
  failed : Finset Name
  rows : Name → Option (ℕ × Records)

def ending (r : List Name × (Name → Cell Db Sarif Diff Records)) : Ending Records where
  failed := r.1.toFinset
  rows := fun name => (r.2 (name.map S.normcase)).rows name

def sequentialEnding (ql_tests : List QlTest) : Option (Ending Records) :=
  (inOrder S ql_tests S.before).map (ending S)

abbrev Runs (jobs : ℕ) (ql_tests : List QlTest)
    (w : Pool QlTest Name (Cell Db Sarif Diff Records) (Except Error (Option Name))) : Prop :=
  Reaches (key S) (script S) jobs (initial ql_tests S.before) w

/-- How `run_tests` can end, where an exception leaves no result. One worker is the loop. -/
def Ends (jobs : ℕ) (ql_tests : List QlTest) (e : Option (Ending Records)) : Prop :=
  if jobs = 1 then e = sequentialEnding S ql_tests
  else ∃ w, Runs S jobs ql_tests w ∧ Final w ∧
    e = (failedTests w.finished).map fun failed => ending S (failed, w.cells)

/-- What the test returns and leaves behind when it is the only one. -/
def alone : Except Error (Option Name) × Cell Db Sarif Diff Records :=
  (script S ql_test).run (S.before (key S ql_test))

def PathsApart (paths : List Name) : Prop := paths.Pairwise fun p p' => ¬ SameName S p p'

/-- The tests use different directories and rows, all runs end, and they end as the loop does,
with the result that each test has alone. -/
structure Isolated (ql_tests : List QlTest) : Prop where
  working : PathsApart S (ql_tests.map (workingPath S))
  testDB : PathsApart S (ql_tests.map (databasePath S))
  analysis : PathsApart S (ql_tests.map (analysisPath S))
  rows : (ql_tests.map QlTest.ql_name).Nodup
  ends : ∀ jobs w, 0 < jobs → Runs S jobs ql_tests w →
    ∃ w', Reaches (key S) (script S) jobs w w' ∧ Final w'
  same : ∀ jobs e, 0 < jobs → Ends S jobs ql_tests e → e = sequentialEnding S ql_tests
  kept : ∀ jobs e, 0 < jobs → Ends S jobs ql_tests (some e) → ∀ t ∈ ql_tests,
    e.rows t.ql_name = (alone S t).2.rows t.ql_name ∧
      (t.ql_name ∈ e.failed ↔ (alone S t).1 = .ok (some t.ql_name))

/-- The queries lie in directories of one name. -/
def SameFolder (query query' : Query) : Prop :=
  query.folder.map (List.map S.normcase) = query'.folder.map (List.map S.normcase)

end Tests

/-! ### The name that a failed test returns -/

section Names

variable {σ α β : Type} {P : α → Prop} {Q : β → Prop}

/-- What the action returns has the property. -/
def Returns (P : α → Prop) (x : Action σ α) : Prop :=
  ∀ s a, (Script.run x s).1 = .ok a → P a

lemma run_bind (x : Script σ α) (f : α → Script σ β) (s : σ) :
    (x >>= f).run s = (f (x.run s).1).run (x.run s).2 := by
  induction x generalizing s with
  | done a => rfl
  | act g next ih => exact ih s (g s)

lemma returns_pure {a : α} (h : P a) : Returns P (pure a : Action σ α) := by
  intro s b hb
  obtain rfl : a = b := by simpa [pure, ExceptT.pure, ExceptT.mk, Script.run] using hb
  exact h

lemma Returns.bind {x : Action σ α} {f : α → Action σ β} (hf : ∀ a, Returns Q (f a)) :
    Returns Q (x >>= f) := by
  intro s b hb
  change (Script.run ((show Script σ (Except Error α) from x) >>= ExceptT.bindCont f) s).1 = _ at hb
  rw [run_bind] at hb
  cases hx : (Script.run x s).1 with
  | error e =>
    rw [hx] at hb
    simp [ExceptT.bindCont, pure, Script.run] at hb
  | ok a =>
    rw [hx] at hb
    exact hf a _ b hb

end Names

section Exactness

variable {Db Sarif Diff Records : Type} {S : Setup Db Sarif Diff Records} {ql_test : QlTest}
  {ql_tests : List QlTest} {cells : Name → Cell Db Sarif Diff Records} {jobs : ℕ}

lemma script_returns :
    Returns (fun failed : Option Name => ∀ name ∈ failed, name = ql_test.ql_name)
      (runSingleTest S ql_test) := by
  have hown : ∀ name ∈ some ql_test.ql_name, name = ql_test.ql_name := by simp
  have hnone : ∀ name ∈ (none : Option Name), name = ql_test.ql_name := by simp
  unfold runSingleTest
  refine Returns.bind fun result_sarif => ?_
  split_ifs
  · exact returns_pure hnone
  · refine Returns.bind fun loaded => ?_
    match loaded with
    | none => exact returns_pure hown
    | some (counts, records) => exact Returns.bind fun _ => returns_pure hnone
  · exact returns_pure hown

/-! ### The loop and the pool -/

lemma failedTests_cons (t : QlTest) (failed : Option Name)
    (rest : List (QlTest × Except Error (Option Name))) :
    failedTests ((t, .ok failed) :: rest) = (failedTests rest).map (failed.toList ++ ·) := by
  unfold failedTests
  rw [List.all_cons, show (Except.ok failed : Except Error (Option Name)).isOk = true from rfl,
    Bool.true_and]
  split_ifs
  · cases failed <;> simp [Except.toOption]
  · rfl

lemma mem_failedTests {finished : List (QlTest × Except Error (Option Name))}
    {failed : List Name} (h : failedTests finished = some failed) {name : Name} :
    name ∈ failed ↔ ∃ x ∈ finished, x.2 = .ok (some name) := by
  unfold failedTests at h
  split_ifs at h
  obtain rfl := Option.some.inj h
  rw [List.mem_filterMap]
  refine exists_congr fun x => and_congr_right fun _ => ?_
  rcases x with ⟨t, e | failed⟩ <;> simp [Except.toOption]

lemma inOrder_eq : inOrder S ql_tests cells =
    (failedTests (runAll (key S) (script S) ql_tests cells).1).map fun failed =>
      (failed, (runAll (key S) (script S) ql_tests cells).2) := by
  induction ql_tests generalizing cells with
  | nil => simp [inOrder, runAll, failedTests]
  | cons t ts ih =>
    rw [inOrder, runAll]
    rcases hrun : (script S t).run (cells (key S t)) with ⟨e | failed, cell⟩
    · simp [failedTests, Except.isOk, Except.toBool]
    · simp only [ih, failedTests_cons, Option.map_map]
      rfl

/-- The order in which tests end is not seen in the set of those that failed. -/
lemma failedTests_perm {xs ys : List (QlTest × Except Error (Option Name))} (h : xs.Perm ys)
    (c : Name → Cell Db Sarif Diff Records) :
    (failedTests xs).map (fun failed => ending S (failed, c)) =
      (failedTests ys).map fun failed => ending S (failed, c) := by
  have hall : xs.all (fun x => x.2.isOk) = ys.all fun x => x.2.isOk := by
    rw [Bool.eq_iff_iff, List.all_eq_true, List.all_eq_true]
    exact forall_congr' fun x => imp_congr_left h.mem_iff
  unfold failedTests
  rw [hall]
  split_ifs
  · have hfailed := (h.filterMap fun x => x.2.toOption.join)
    simp only [Option.map_some, ending, List.toFinset_eq_of_perm _ _ hfailed]
  · rfl

lemma exists_of_ends {e : Option (Ending Records)} (hjobs : 0 < jobs) (h : Ends S jobs ql_tests e) :
    ∃ w, Runs S jobs ql_tests w ∧ Final w ∧
      e = (failedTests w.finished).map fun failed => ending S (failed, w.cells) := by
  unfold Ends at h
  split_ifs at h
  · refine ⟨_, reaches_runAll hjobs ql_tests S.before [], ⟨rfl, rfl⟩, ?_⟩
    rw [h, sequentialEnding, inOrder_eq, Option.map_map]
    rfl
  · exact h

lemma ends_eq (hkeys : (ql_tests.map (key S)).Nodup) {e : Option (Ending Records)}
    (hjobs : 0 < jobs) (h : Ends S jobs ql_tests e) : e = sequentialEnding S ql_tests := by
  obtain ⟨w, hruns, hfinal, rfl⟩ := exists_of_ends hjobs h
  obtain ⟨hcells, hfinished⟩ := Apart.eq_runAll hkeys hruns hfinal
  rw [failedTests_perm hfinished, hcells, sequentialEnding, inOrder_eq, Option.map_map]
  rfl

lemma ends_kept (hkeys : (ql_tests.map (key S)).Nodup) {e : Ending Records} (hjobs : 0 < jobs)
    (h : Ends S jobs ql_tests (some e)) {t : QlTest} (ht : t ∈ ql_tests) :
    e.rows t.ql_name = (alone S t).2.rows t.ql_name ∧
      (t.ql_name ∈ e.failed ↔ (alone S t).1 = .ok (some t.ql_name)) := by
  obtain ⟨w, hruns, hfinal, he⟩ := exists_of_ends hjobs h
  have hapart := apart_initial.reaches hkeys hruns
  obtain ⟨failed, hfailed, rfl⟩ := Option.map_eq_some_iff.mp he.symm
  refine ⟨?_, ?_⟩
  · exact congrArg (fun c => c.rows t.ql_name) (hapart.cells_eq hfinal ht)
  · have hresult : ∀ x, x ∈ w.finished ↔ ∃ t' ∈ ql_tests, (t', (alone S t').1) = x := by
      intro x
      rw [(hapart.finished_eq hfinal).mem_iff, List.mem_map]
      rfl
    have hmem : t.ql_name ∈ (ending S (failed, w.cells)).failed ↔ t.ql_name ∈ failed :=
      List.mem_toFinset
    rw [hmem, mem_failedTests hfailed]
    constructor
    · rintro ⟨x, hx, hname⟩
      obtain ⟨t', ht', rfl⟩ := (hresult x).mp hx
      -- a test returns no name but its own, and the names are different
      have hsame : t.ql_name = t'.ql_name := script_returns _ _ hname t.ql_name rfl
      have hkey : key S t = key S t' := congrArg (List.map S.normcase) hsame
      obtain rfl := List.inj_on_of_nodup_map hkeys ht ht' hkey
      exact hname
    · intro hname
      exact ⟨_, (hresult _).mpr ⟨t, ht, rfl⟩, hname⟩

/-! ### When the tests keep apart -/

lemma sameName_around (before after name name' : Name) :
    SameName S (before ++ name ++ after) (before ++ name' ++ after) ↔ SameName S name name' := by
  simp [SameName]

lemma pathsApart_iff {path : QlTest → Name} (before after : Name)
    (hpath : ∀ t, path t = before ++ t.ql_name ++ after) :
    PathsApart S (ql_tests.map path) ↔ (ql_tests.map (key S)).Nodup := by
  rw [PathsApart, List.pairwise_map, List.Nodup, List.pairwise_map]
  simp only [hpath, sameName_around]
  exact Iff.rfl

/-- **Tests are isolated exactly if the file system tells their names apart.** -/
lemma isolated_iff : Isolated S ql_tests ↔ (ql_tests.map (key S)).Nodup := by
  have hpath : ∀ t, workingPath S t = (S.g_test_dir ++ "\\working\\".toList) ++ t.ql_name ++
      ['\\'] := fun t => rfl
  refine ⟨fun h => (pathsApart_iff _ _ hpath).mp h.working, fun h => ?_⟩
  refine
    { working := (pathsApart_iff _ _ hpath).mpr h
      testDB := (pathsApart_iff (S.g_test_dir ++ "\\TestDB\\".toList) ['\\'] fun t => rfl).mpr h
      analysis :=
        (pathsApart_iff (S.g_analysis_file_dir ++ ['\\']) (outputFile S) fun t => rfl).mpr h
      rows := ?_
      ends := fun jobs w hjobs _ => exists_final hjobs w
      same := fun jobs e hjobs he => ends_eq h hjobs he
      kept := fun jobs e hjobs he t ht => ends_kept h hjobs he ht }
  have hnames : ((ql_tests.map QlTest.ql_name).map (List.map S.normcase)).Nodup := by
    rw [List.map_map]
    exact h
  exact hnames.of_map _

/-- The names of the tests are those of the directories of the queries. -/
lemma keys_nodup_iff (h : testsFound S.normcase S.override_template S.g_template_dir S.directory =
    some ql_tests) :
    (ql_tests.map (key S)).Nodup ↔ ∀ q q', Tested S.normcase S.directory q →
      Tested S.normcase S.directory q' → SameFolder S q q' → q = q' := by
  obtain ⟨queries, hnodup, hmem, hnames⟩ := testsFound_names h
  have hmap : queries.map (fun q => q.folder.map (List.map S.normcase)) =
      (ql_tests.map (key S)).map some := by
    rw [List.map_map]
    clear h hnodup hmem
    induction hnames with
    | nil => rfl
    | cons hqt _ ih => simp [ih, hqt.1, key]
  have hsome : (ql_tests.map (key S)).Nodup ↔ ((ql_tests.map (key S)).map some).Nodup :=
    (List.nodup_map_iff (Option.some_injective _)).symm
  rw [hsome, ← hmap, List.nodup_map_iff_inj_on hnodup]
  simp only [hmem]
  exact ⟨fun h q q' hq hq' => h q hq q' hq', fun h q hq q' hq' => h q q' hq hq'⟩

/-- **The tests that are found keep apart, so that runs on any number of workers end as the
sequential run, iff no two of their queries lie in directories of one name, or one of them has
no directory `drivers` on its path and no test is run.** -/
theorem found_isolated_iff (S : Setup Db Sarif Diff Records) :
    (∀ ql_tests, testsFound S.normcase S.override_template S.g_template_dir S.directory =
      some ql_tests → Isolated S ql_tests) ↔
      ((∀ q, Tested S.normcase S.directory q → "drivers".toList ∈ q.root) →
        ∀ q q', Tested S.normcase S.directory q → Tested S.normcase S.directory q' →
          SameFolder S q q' → q = q') := by
  rw [← testsFound_isSome]
  constructor
  · rintro h ⟨ql_tests, hfound⟩
    exact (keys_nodup_iff hfound).mp (isolated_iff.mp (h ql_tests hfound))
  · intro h ql_tests hfound
    exact isolated_iff.mpr ((keys_nodup_iff hfound).mpr (h ⟨ql_tests, hfound⟩))

end Exactness

/-- Two queries beside one driver snippet. -/
def twoQueries : Folder where
  path := ["repo".toList]
  entries := .dir "drivers".toList (.dir "general".toList (.dir "IrqlTooHigh".toList
    (.file "driver_snippet.c".toList [] (.file "A.ql".toList [] (.file "B.ql".toList [] .nil)))
    .nil) .nil) .nil

/-- Everything succeeds, and the results of an analysis are the name of its query. -/
def allSucceed : Setup Unit Name Unit Name where
  msbuild := fun _ w => (true, w)
  createDatabase := fun _ w _ => (true, w, some ())
  analyze := fun ql_test _ _ => (true, ql_test.ql_file.getLast?)
  sarifDiff := fun _ _ _ _ => (true, some ())
  load := fun sarif => sarif.map fun name => (⟨0, 1, 0⟩, name)
  normcase := Char.toLower
  directory := twoQueries
  g_template_dir := "templates\\".toList
  g_test_dir := "test".toList
  g_analysis_file_dir := "test\\AnalysisFiles".toList
  templates := fun _ => some (.dir "driver".toList .nil .nil)
  before := fun _ =>
    { working := none, testDB := none, analysis := none, diff := none, rows := fun _ => none
      db_create_failures := [] }

/-- The test for a query in the directory. -/
def testOf (file : Name) : QlTest where
  use_ntifs := ['0']
  use_cpp := false
  template := "templates\\WDMTestTemplate".toList
  path := ["repo".toList, "drivers".toList, "general".toList, "IrqlTooHigh".toList]
  ql_file := ["repo".toList, "drivers".toList, "general".toList, "IrqlTooHigh".toList, file]
  ql_name := "IrqlTooHigh".toList
  ql_type := "general".toList
  ql_location := []

def testA : QlTest := testOf "A.ql".toList

def testB : QlTest := testOf "B.ql".toList

/-- The two tests share their directories and their row, and which result is left there depends
on the order of their steps: in the loop the first one is lost, on two workers the second one
can be. -/
theorem twoQueries_overwritten :
    testsFound allSucceed.normcase allSucceed.override_template allSucceed.g_template_dir
        allSucceed.directory = some [testA, testB] ∧
      ¬ Isolated allSucceed [testA, testB] ∧
      (alone allSucceed testA).2.rows testA.ql_name = some (1, "A.ql".toList) ∧
      (∃ e, sequentialEnding allSucceed [testA, testB] = some e ∧
        e.rows testA.ql_name = some (1, "B.ql".toList)) ∧
      ∃ e, Ends allSucceed 2 [testA, testB] (some e) ∧
        e.rows testA.ql_name = some (1, "A.ql".toList) := by
  refine ⟨by decide +kernel, fun h => ?_, by decide +kernel, ⟨_, rfl, by decide +kernel⟩, ?_⟩
  · exact absurd h.rows (by decide)
  · have hstart : Relation.ReflTransGen (Step (key allSucceed) (script allSucceed) 2)
        (initial [testA, testB] allSucceed.before)
        ⟨allSucceed.before, [], [(testA, script allSucceed testA)] ++
          (testB, script allSucceed testB) :: [], []⟩ :=
      .head (.start (by decide)) (.single (.start (by decide)))
    have hB := hstart.trans (reaches_run (script allSucceed testB) testB []
      [(testA, script allSucceed testA)] [] [] allSucceed.before)
    have hA := hB.trans (reaches_run (script allSucceed testA) testA [] [] [] _ _)
    refine ⟨_, ⟨_, hA, ⟨rfl, rfl⟩, rfl⟩, ?_⟩
    decide +kernel

end DriverQueries.ParallelRuns
