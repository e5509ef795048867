import DriverQueries.FindTests
import DriverQueries.Text
import Mathlib.Data.List.Dedup
import Mathlib.Logic.Function.Basic

/-!
The test script on external drivers: solutions are read and built, a database is created for
each of their configurations, and every query is run on every database.

Builds and analyses may fail in any way. The run leaves out what fails and goes on, so that it
should be complete: every query is run on every database that was created. It is shown when it
is.
-/

namespace DriverQueries.ExternalDrivers

open FindTests

/-! ### Texts -/

/-- The characters that `strip` removes. -/
def IsSpace (c : Char) : Prop :=
  c.toNat ∈ [9, 10, 11, 12, 13, 28, 29, 30, 31, 32, 133, 160, 5760, 8232, 8233, 8239, 8287, 12288] ∨
    (8192 ≤ c.toNat ∧ c.toNat ≤ 8202)

instance (c : Char) : Decidable (IsSpace c) := inferInstanceAs (Decidable (_ ∨ _))

def strip (s : Name) : Name :=
  ((s.dropWhile fun c => IsSpace c).reverse.dropWhile fun c => IsSpace c).reverse

/-- `s.find(key)`, if it is found. -/
def find (key s : Name) : Option ℕ := (Text.indexOf key s).head?

/-- `s[s.find(key):]` if the key is in the text, and the text if not. -/
def fromKey (key s : Name) : Name := s.drop ((find key s).getD 0)

/-- `s.replace(key, "")`, where some characters are still part of an occurrence. -/
def removeFrom (key : Name) : ℕ → Name → Name
  | _, [] => []
  | n + 1, _ :: s => removeFrom key n s
  | 0, c :: s =>
    if key <+: c :: s then removeFrom key (key.length - 1) s else c :: removeFrom key 0 s

def removeAll (key s : Name) : Name := removeFrom key 0 s

/-- `s.split(c)[-1]`. -/
def lastPart (c : Char) (s : Name) : Name := (s.splitOn c).getLastD []

/-! ### Configurations -/

structure DriverArgs where
  no_build : Bool := false
  debug_only : Bool := false
  release_only : Bool := false
  build_database_only : Bool := false
  override_template : Option Name := none

structure Solution where
  path : Name
  content : Name

inductive Error
  | indexError | attributeError | valueError
  deriving DecidableEq

def globalSection : Name := "GlobalSection(SolutionConfigurationPlatforms)".toList

/-- The lines of the section with the configurations, from the end of the line it begins on. -/
def sectionLines (content : Name) : Option (List Name) := do
  let i ← find globalSection content
  let rest := (content.drop i).dropWhile (· ≠ '\n')
  let end_index ← find "EndGlobalSection".toList rest
  pure (((rest.take end_index).splitOn '\n').filter fun line => strip line ≠ [])

/-- The parts of a line before its equals sign. -/
def configParts (line : Name) : List Name :=
  let line := fromKey "Release".toList (fromKey "Debug".toList line)
  ((strip ((line.splitOn '=').headD [])).filter fun c => c ∉ [' ', '\n', '\t']).splitOn '|'

def allowedPlatforms : List Name :=
  ["x64".toList, "x86".toList, "ARM".toList, "ARM64".toList]

/-- The configuration and platform of a line, if they are asked for. -/
def asked (args : DriverArgs) (config platform : Name) : Bool :=
  platform ∈ allowedPlatforms ∧
    ¬ (args.debug_only ∧ ¬ "Debug".toList <:+: config) ∧
    ¬ (args.release_only ∧ ¬ "Release".toList <:+: config)

/-- What the lines add to the set of configurations. -/
def configsOf (args : DriverArgs) : List Name → Except Error (List (Name × Name))
  | [] => .ok []
  | line :: lines =>
    match configParts line with
    | config :: platform :: _ =>
      (configsOf args lines).map fun configs =>
        if asked args config platform then (config, platform) :: configs else configs
    | _ => .error .indexError

/-- `find_project_configs`, where a solution without the section makes it return None. -/
def findProjectConfigs (args : DriverArgs) :
    List Solution → Except Error (Option (List (Solution × List (Name × Name))))
  | [] => .ok (some [])
  | sln :: slns =>
    match sectionLines sln.content with
    | none => .ok none
    | some lines => do
      let configs ← configsOf args lines
      let rest ← findProjectConfigs args slns
      pure (rest.map fun rest => (sln, configs) :: rest)

/-- `test_setup_external_drivers`. A build that fails is only reported, and what is looped over
must not be None. -/
def testSetupExternalDrivers (args : DriverArgs) (slns : List Solution) :
    Except Error (Option (List (Solution × List (Name × Name)))) := do
  let configs ← findProjectConfigs args slns
  if args.no_build then pure configs
  else
    match configs with
    | none => .error .attributeError
    | some configs => pure (some configs)

/-! ### The run -/

/-- The solutions and queries, and the outcomes of what the script runs. -/
structure Setup (Sarif Records : Type) where
  args : DriverArgs
  cwd : Name
  driver_sln_files : List Solution
  paths_nodup : (driver_sln_files.map Solution.path).Nodup
  ql_tests : List (Query × QlTestAttributes)
  g_template_dir : Name
  /-- The folders of the existing database, if one is given. -/
  existing_database : Option (List Name) := none
  /-- The order in which a set of configurations is iterated. -/
  iterate : List (Name × Name) → List (Name × Name)
  mem_iterate : ∀ configs x, x ∈ iterate configs ↔ x ∈ configs
  nodup_iterate : ∀ configs, (iterate configs).Nodup
  /-- Whether the database of a configuration is created. -/
  create : Solution → Name → Name → Bool
  /-- The outcome of the analysis with a number: an exception, or None, or the results. -/
  analyze : ℕ → QlTest → Name → Except Unit (Option Sarif)
  sarifResults : Sarif → Except Unit (Counts × Records)

section Runs

variable {Sarif Records : Type} (S : Setup Sarif Records)

def dbLocation (sln : Solution) (config platform : Name) : Name :=
  S.cwd ++ "\\dbs\\".toList ++ removeAll ".sln".toList (lastPart '\\' sln.path) ++
    '_' :: config ++ '_' :: platform

/-- The databases that are created, in order. Those that fail are left out. -/
def createdDatabases (configs : List (Solution × List (Name × Name))) : List Name :=
  match S.existing_database with
  | some folders => folders
  | none => configs.flatMap fun x =>
    ((S.iterate x.2).filter fun c => S.create x.1 c.1 c.2).map fun c =>
      dbLocation S x.1 c.1 c.2

/-- The loops: how many pairs have been taken up, which with what success, and the rows. -/
structure Progress (Records : Type) where
  count : ℕ
  analyzed : List (QlTest × Name × Bool)
  rows : Name × Name → Option (ℕ × Records)

def analyzePair (ql_test : QlTest) (p : Progress Records) (db : Name) : Progress Records :=
  let failed := { p with
    count := p.count + 1, analyzed := p.analyzed ++ [(ql_test, db, false)] }
  match S.analyze p.count ql_test db with
  | .error _ => failed
  | .ok none => failed
  | .ok (some result_sarif) =>
    match S.sarifResults result_sarif with
    | .error _ => failed
    | .ok (counts, records) =>
      { count := p.count + 1
        analyzed := p.analyzed ++ [(ql_test, db, true)]
        rows := Function.update p.rows (lastPart '\\' db, ql_test.ql_name)
          (some (counts.error + counts.warning + counts.note, records)) }

def analyzeAll (dbs : List Name) (p : Progress Records) (ql_tests : List QlTest) :
    Progress Records :=
  ql_tests.foldl (fun p ql_test => dbs.foldl (analyzePair S ql_test) p) p

def Progress.start : Progress Records := { count := 0, analyzed := [], rows := fun _ => none }

/-- What a run leaves behind, and the exception that has ended it, if one has. -/
structure Outcome (Records : Type) where
  raised : Option Error
  created : List Name
  progress : Progress Records

def runTestsExternalDrivers : Outcome Records :=
  match testSetupExternalDrivers S.args S.driver_sln_files with
  | .error e => ⟨some e, [], .start⟩
  | .ok none => ⟨none, [], .start⟩
  | .ok (some configs) =>
    let created := createdDatabases S configs
    if ¬ S.args.build_database_only then ⟨none, created, .start⟩
    else
      match parseAttributes S.args.override_template S.g_template_dir S.ql_tests with
      | none => ⟨some .valueError, created, .start⟩
      | some ql_tests => ⟨none, created, analyzeAll S created .start ql_tests⟩

/-- The configurations of the solution cannot be read: it has no section with them, or a line of
the section has no platform. -/
def Unparsable (args : DriverArgs) (sln : Solution) : Prop :=
  match sectionLines sln.content with
  | none => True
  | some lines => ∃ e, configsOf args lines = .error e

/-- The run is complete: it analyzes every pair of a query and a database and has a row for
every pair that succeeds, unless only databases are asked for, when it analyzes none, and no
solution that cannot be read ends it with an exception. -/
structure Complete : Prop where
  analyzes : ¬ S.args.build_database_only →
    ∀ query ∈ S.ql_tests, ∀ db ∈ (runTestsExternalDrivers S).created,
      ∃ ql_test ok, ql_test.ql_file = query.1.path ∧
        (ql_test, db, ok) ∈ (runTestsExternalDrivers S).progress.analyzed
  rows : ¬ S.args.build_database_only →
    ∀ ql_test db, (ql_test, db, true) ∈ (runTestsExternalDrivers S).progress.analyzed →
      ((runTestsExternalDrivers S).progress.rows (lastPart '\\' db, ql_test.ql_name)).isSome
  builds_only : S.args.build_database_only →
    (runTestsExternalDrivers S).progress.analyzed = []
  no_exception : (∃ sln ∈ S.driver_sln_files, Unparsable S.args sln) →
    (runTestsExternalDrivers S).raised = none

/-! ### What is asked of the inputs -/

def FirstUnparsable (args : DriverArgs) (slns : List Solution) (sln : Solution) : Prop :=
  ∃ before after, slns = before ++ sln :: after ∧ (∀ s ∈ before, ¬ Unparsable args s) ∧
    Unparsable args sln

def configurations (args : DriverArgs) (sln : Solution) : List (Name × Name) :=
  match sectionLines sln.content with
  | none => []
  | some lines =>
    match configsOf args lines with
    | .error _ => []
    | .ok configs => configs

def HasDatabase : Prop :=
  match S.existing_database with
  | some folders => folders ≠ []
  | none => ∃ sln ∈ S.driver_sln_files, ∃ c ∈ configurations S.args sln, S.create sln c.1 c.2

/-- No query is to be analyzed: there is none, or where the script goes on to the analysis, all
are in the directories that tests are run in, or some query cannot be parsed. -/
def NoQuery : Prop :=
  if S.args.build_database_only then
    parseAttributes S.args.override_template S.g_template_dir S.ql_tests = none ∨
      ∀ query ∈ S.ql_tests, ¬ Kept query.1
  else S.ql_tests = []

end Runs

/-! ### Solutions -/

section Solutions

variable {args : DriverArgs} {slns : List Solution} {sln : Solution}

lemma exists_first_unparsable (h : ∃ sln ∈ slns, Unparsable args sln) :
    ∃ sln, FirstUnparsable args slns sln := by
  induction slns with
  | nil => simp at h
  | cons s slns ih =>
    by_cases hs : Unparsable args s
    · exact ⟨s, [], slns, rfl, by simp, hs⟩
    · obtain ⟨sln, before, after, rfl, hbefore, hsln⟩ := ih (by simpa [hs] using h)
      exact ⟨sln, s :: before, after, rfl, by simpa [hs] using hbefore, hsln⟩

lemma findProjectConfigs_cons (h : ¬ Unparsable args sln) :
    findProjectConfigs args (sln :: slns) =
      (findProjectConfigs args slns).map
        (Option.map fun rest => (sln, configurations args sln) :: rest) := by
  unfold Unparsable at h
  rw [findProjectConfigs, configurations]
  cases hlines : sectionLines sln.content with
  | none => simp [hlines] at h
  | some lines =>
    simp only [hlines] at h ⊢
    cases hconfigs : configsOf args lines with
    | error e => exact absurd ⟨e, hconfigs⟩ h
    | ok configs =>
      cases findProjectConfigs args slns <;> rfl

lemma findProjectConfigs_of_parsable (h : ∀ sln ∈ slns, ¬ Unparsable args sln) :
    findProjectConfigs args slns =
      .ok (some (slns.map fun sln => (sln, configurations args sln))) := by
  induction slns with
  | nil => rfl
  | cons sln slns ih =>
    rw [List.forall_mem_cons] at h
    rw [findProjectConfigs_cons h.1, ih h.2]
    rfl

/-- The first solution that cannot be read decides: without the section None is returned, and
without a platform an exception is raised. -/
lemma findProjectConfigs_of_first (h : FirstUnparsable args slns sln) :
    (sectionLines sln.content = none ∧ findProjectConfigs args slns = .ok none) ∨
      (sectionLines sln.content ≠ none ∧ ∃ e, findProjectConfigs args slns = .error e) := by
  obtain ⟨before, after, rfl, hbefore, hsln⟩ := h
  induction before with
  | nil =>
    unfold Unparsable at hsln
    rw [List.nil_append, findProjectConfigs]
    cases hlines : sectionLines sln.content with
    | none => exact Or.inl ⟨rfl, rfl⟩
    | some lines =>
      simp only [hlines] at hsln
      obtain ⟨e, he⟩ := hsln
      exact Or.inr ⟨by simp, e, by simp [he, bind, Except.bind]⟩
  | cons s before ih =>
    rw [List.forall_mem_cons] at hbefore
    rw [List.cons_append, findProjectConfigs_cons hbefore.1]
    obtain ⟨hnone, hfind⟩ | ⟨hsome, e, hfind⟩ := ih hbefore.2
    · exact Or.inl ⟨hnone, by simp [hfind, Except.map]⟩
    · exact Or.inr ⟨hsome, e, by simp [hfind, Except.map]⟩

end Solutions

section Exactness

variable {Sarif Records : Type} {S : Setup Sarif Records}

/-! ### The loops -/

/-- Every pair of the log that has succeeded has its row. -/
def Recorded (p : Progress Records) : Prop :=
  ∀ ql_test db, (ql_test, db, true) ∈ p.analyzed →
    (p.rows (lastPart '\\' db, ql_test.ql_name)).isSome

/-- What one turn of the loops does: the pair is taken up, and has a row if it succeeds. -/
lemma analyzePair_cases (t : QlTest) (p : Progress Records) (db : Name) :
    ((analyzePair S t p db).analyzed = p.analyzed ++ [(t, db, false)] ∧
      (analyzePair S t p db).rows = p.rows) ∨
    ∃ row, (analyzePair S t p db).analyzed = p.analyzed ++ [(t, db, true)] ∧
      (analyzePair S t p db).rows =
        Function.update p.rows (lastPart '\\' db, t.ql_name) (some row) := by
  unfold analyzePair
  rcases S.analyze p.count t db with e | _ | result_sarif
  · exact Or.inl ⟨rfl, rfl⟩
  · exact Or.inl ⟨rfl, rfl⟩
  · rcases hresults : S.sarifResults result_sarif with e | ⟨counts, records⟩
    · simp [hresults]
    · refine Or.inr ⟨(counts.error + counts.warning + counts.note, records), ?_, ?_⟩ <;>
        simp [hresults]

/-- The step lemma: no row is lost. -/
lemma Recorded.analyzePair {t : QlTest} {p : Progress Records} {db : Name} (h : Recorded p) :
    Recorded (analyzePair S t p db) := by
  intro t' db' hmem
  obtain ⟨hanalyzed, hrows⟩ | ⟨row, hanalyzed, hrows⟩ := analyzePair_cases (S := S) t p db
  · rw [hanalyzed, List.mem_append] at hmem
    rw [hrows]
    exact h t' db' (hmem.resolve_right (by simp))
  · rw [hanalyzed, List.mem_append] at hmem
    rw [hrows, Function.update_apply]
    split_ifs with hkey
    · rfl
    · refine h t' db' (hmem.resolve_right fun hlast => hkey ?_)
      obtain ⟨rfl, rfl, -⟩ : t' = t ∧ db' = db ∧ True := by simpa using hlast
      rfl

lemma Recorded.analyzeAll {ts : List QlTest} {dbs : List Name} {p : Progress Records}
    (h : Recorded p) : Recorded (analyzeAll S dbs p ts) := by
  have hinner : ∀ (t : QlTest) (ds : List Name) (q : Progress Records), Recorded q →
      Recorded (ds.foldl (ExternalDrivers.analyzePair S t) q) := by
    intro t ds
    induction ds with
    | nil => exact fun q hq => hq
    | cons d ds ih => exact fun q hq => ih _ hq.analyzePair
  unfold ExternalDrivers.analyzeAll
  induction ts generalizing p with
  | nil => exact h
  | cons t ts ih => exact ih (hinner t dbs p h)

/-- The pairs that have been taken up. -/
def pairs (p : Progress Records) : List (QlTest × Name) := p.analyzed.map fun x => (x.1, x.2.1)

/-- The loops take up every pair, in order. -/
lemma pairs_analyzeAll (ts : List QlTest) (dbs : List Name) (p : Progress Records) :
    pairs (analyzeAll S dbs p ts) = pairs p ++ ts.flatMap fun t => dbs.map fun db => (t, db) := by
  have hinner : ∀ (t : QlTest) (ds : List Name) (q : Progress Records),
      pairs (ds.foldl (analyzePair S t) q) = pairs q ++ ds.map fun db => (t, db) := by
    intro t ds
    induction ds with
    | nil => simp
    | cons d ds ih =>
      intro q
      have hstep : pairs (analyzePair S t q d) = pairs q ++ [(t, d)] := by
        obtain ⟨hanalyzed, -⟩ | ⟨row, hanalyzed, -⟩ := analyzePair_cases (S := S) t q d <;>
          simp [pairs, hanalyzed]
      rw [List.foldl_cons, ih, hstep, List.append_assoc, List.map_cons, List.singleton_append]
  unfold analyzeAll
  induction ts generalizing p with
  | nil => simp
  | cons t ts ih => rw [List.foldl_cons, ih, hinner, List.append_assoc, List.flatMap_cons]

lemma recorded_run : Recorded (runTestsExternalDrivers S).progress := by
  have hstart : Recorded (Progress.start : Progress Records) := fun t db hmem =>
    absurd hmem List.not_mem_nil
  unfold runTestsExternalDrivers
  split
  · exact hstart
  · exact hstart
  · dsimp only
    split_ifs
    · split
      · exact hstart
      · exact hstart.analyzeAll
    · exact hstart

/-! ### Runs -/

lemma run_of_first {sln : Solution}
    (h : FirstUnparsable S.args S.driver_sln_files sln) :
    (runTestsExternalDrivers S).created = [] ∧
      (runTestsExternalDrivers S).progress = .start ∧
      ((runTestsExternalDrivers S).raised = none ↔
        sectionLines sln.content = none ∧ S.args.no_build) := by
  unfold runTestsExternalDrivers testSetupExternalDrivers
  obtain ⟨hnone, hfind⟩ | ⟨hsome, e, hfind⟩ := findProjectConfigs_of_first h
  · cases hbuild : S.args.no_build <;> simp [hfind, hnone, bind, Except.bind, pure, Except.pure]
  · simp [hfind, hsome, bind, Except.bind]

lemma run_of_parsable (h : ∀ sln ∈ S.driver_sln_files, ¬ Unparsable S.args sln) :
    runTestsExternalDrivers S =
      let created := createdDatabases S
        (S.driver_sln_files.map fun sln => (sln, configurations S.args sln))
      if ¬ S.args.build_database_only then ⟨none, created, .start⟩
      else
        match parseAttributes S.args.override_template S.g_template_dir S.ql_tests with
        | none => ⟨some .valueError, created, .start⟩
        | some ql_tests => ⟨none, created, analyzeAll S created .start ql_tests⟩ := by
  have hsetup : testSetupExternalDrivers S.args S.driver_sln_files = .ok (some
      (S.driver_sln_files.map fun sln => (sln, configurations S.args sln))) := by
    unfold testSetupExternalDrivers
    rw [findProjectConfigs_of_parsable h]
    cases S.args.no_build <;> rfl
  unfold runTestsExternalDrivers
  rw [hsetup]

lemma created_ne_nil : createdDatabases S
    (S.driver_sln_files.map fun sln => (sln, configurations S.args sln)) ≠ [] ↔
      HasDatabase S := by
  unfold createdDatabases HasDatabase
  cases S.existing_database with
  | some folders => exact Iff.rfl
  | none =>
    simp only [ne_eq, List.flatMap_eq_nil_iff, List.map_eq_nil_iff, List.filter_eq_nil_iff,
      List.forall_mem_map, S.mem_iterate, not_forall, not_not, exists_prop]

lemma mapM_eq_nil_iff {α β : Type} {f : α → Option β} {xs : List α} :
    xs.mapM f = some [] ↔ xs = [] := by
  rw [mapM_eq_some_iff, List.forall₂_nil_right_iff]

/-- Nothing is parsed exactly if no query is kept. -/
lemma parsed_eq_nil_iff {ql_tests : List QlTest}
    (h : parseAttributes S.args.override_template S.g_template_dir S.ql_tests = some ql_tests) :
    ql_tests = [] ↔ ∀ query ∈ S.ql_tests, ¬ Kept query.1 := by
  have hparse : (S.ql_tests.filter fun query => Kept query.1).mapM
      (parseQuery S.args.override_template S.g_template_dir) = some ql_tests := h
  constructor
  · rintro rfl
    simpa [List.filter_eq_nil_iff] using mapM_eq_nil_iff.mp hparse
  · intro hall
    have hnil : (S.ql_tests.filter fun query => Kept query.1) = [] := by
      simpa [List.filter_eq_nil_iff] using hall
    rw [hnil] at hparse
    simpa using hparse.symm

lemma analyzed_eq_nil_iff {dbs : List Name} {ql_tests : List QlTest} :
    (analyzeAll S dbs .start ql_tests).analyzed = [] ↔ ql_tests = [] ∨ dbs = [] := by
  have hpairs : (analyzeAll S dbs .start ql_tests).analyzed = [] ↔
      ql_tests.flatMap (fun t => dbs.map fun db => (t, db)) = [] := by
    rw [← List.map_eq_nil_iff (f := fun x : QlTest × Name × Bool => (x.1, x.2.1))]
    change pairs _ = [] ↔ _
    rw [pairs_analyzeAll]
    rfl
  rw [hpairs]
  simp only [List.flatMap_eq_nil_iff, List.map_eq_nil_iff]
  cases ql_tests with
  | nil => simp
  | cons t ts => simp +contextual

lemma complete_iff_of_builds_only (h : ∀ sln ∈ S.driver_sln_files, ¬ Unparsable S.args sln)
    (hargs : S.args.build_database_only) : Complete S ↔ (HasDatabase S → NoQuery S) := by
  have hnone : Complete S ↔ (runTestsExternalDrivers S).progress.analyzed = [] := by
    refine ⟨fun hc => hc.builds_only hargs, fun hnil => ⟨fun hnot => absurd hargs hnot,
      fun _ => recorded_run, fun _ => hnil, fun ⟨sln, hmem, hsln⟩ => absurd hsln (h sln hmem)⟩⟩
  rw [hnone, run_of_parsable h, ← created_ne_nil, NoQuery, if_pos hargs]
  simp only [hargs, not_true_eq_false, if_false]
  cases hparse : parseAttributes S.args.override_template S.g_template_dir S.ql_tests with
  | none => simp [Progress.start]
  | some ql_tests =>
    simp only [analyzed_eq_nil_iff, parsed_eq_nil_iff hparse, reduceCtorEq, false_or]
    tauto

lemma complete_iff_of_analysis (h : ∀ sln ∈ S.driver_sln_files, ¬ Unparsable S.args sln)
    (hargs : ¬ S.args.build_database_only) : Complete S ↔ (HasDatabase S → NoQuery S) := by
  have hrun := run_of_parsable h
  rw [if_pos hargs] at hrun
  rw [← created_ne_nil, NoQuery, if_neg hargs]
  generalize createdDatabases S _ = created at hrun ⊢
  have hnone : (runTestsExternalDrivers S).progress.analyzed = [] := by rw [hrun]; rfl
  have hcreated : (runTestsExternalDrivers S).created = created := by rw [hrun]
  constructor
  · intro hc hne
    by_contra hq
    obtain ⟨query, hquery⟩ := List.exists_mem_of_ne_nil _ hq
    obtain ⟨db, hmem⟩ := List.exists_mem_of_ne_nil _ hne
    obtain ⟨t, ok, -, hpair⟩ := hc.analyzes hargs query hquery db (hcreated ▸ hmem)
    rw [hnone] at hpair
    exact List.not_mem_nil hpair
  · intro hpairs
    refine ⟨fun _ query hquery db hmem => ?_, fun _ => recorded_run, fun hyes => absurd hyes hargs,
      fun ⟨sln, hmem, hsln⟩ => absurd hsln (h sln hmem)⟩
    rw [hcreated] at hmem
    rw [hpairs (List.ne_nil_of_mem hmem)] at hquery
    exact absurd hquery List.not_mem_nil

lemma complete_iff_of_parsable (h : ∀ sln ∈ S.driver_sln_files, ¬ Unparsable S.args sln) :
    Complete S ↔ (HasDatabase S → NoQuery S) := by
  by_cases hargs : S.args.build_database_only
  · exact complete_iff_of_builds_only h hargs
  · exact complete_iff_of_analysis h hargs

/-- **The run is complete iff the first solution that cannot be read, if there is one, has no
section and nothing is built, and else no query or no database is there to be analyzed.** -/
theorem complete_iff (S : Setup Sarif Records) :
    Complete S ↔
      (∀ sln, FirstUnparsable S.args S.driver_sln_files sln →
        sectionLines sln.content = none ∧ S.args.no_build) ∧
      ((∀ sln ∈ S.driver_sln_files, ¬ Unparsable S.args sln) → HasDatabase S → NoQuery S) := by
  by_cases h : ∃ sln ∈ S.driver_sln_files, Unparsable S.args sln
  · obtain ⟨sln, hfirst⟩ := exists_first_unparsable h
    obtain ⟨hcreated, hprogress, hraised⟩ := run_of_first hfirst
    have hparsable : ¬ ∀ sln ∈ S.driver_sln_files, ¬ Unparsable S.args sln := by
      simpa using h
    -- the first solution that cannot be read ends the run, whatever comes after it
    constructor
    · intro hc
      refine ⟨fun sln' hfirst' => ?_, fun hall => absurd hall hparsable⟩
      exact (run_of_first hfirst').2.2.mp (hc.no_exception h)
    · rintro ⟨hall, -⟩
      refine ⟨fun _ query _ db hmem => ?_, fun _ => recorded_run, fun _ => ?_, fun _ => ?_⟩
      · rw [hcreated] at hmem
        exact absurd hmem List.not_mem_nil
      · rw [hprogress]
        rfl
      · exact hraised.mpr (hall sln hfirst)
  · have hparsable : ∀ sln ∈ S.driver_sln_files, ¬ Unparsable S.args sln := by simpa using h
    rw [complete_iff_of_parsable hparsable]
    constructor
    · refine fun hpairs => ⟨fun sln hfirst => ?_, fun _ => hpairs⟩
      obtain ⟨before, after, hslns, -, hsln⟩ := hfirst
      exact absurd hsln (hparsable sln (by simp [hslns]))
    · exact fun hc => hc.2 hparsable

end Exactness

/-- One query and a solution, for which everything succeeds. -/
def oneDriver (content : Name) : Setup Unit Unit where
  args := {}
  cwd := "test".toList
  driver_sln_files := [⟨"drivers\\sample.sln".toList, content⟩]
  paths_nodup := by simp
  ql_tests := [(⟨["repo".toList, "drivers".toList, "general".toList, "IrqlTooHigh".toList],
    "IrqlTooHigh.ql".toList⟩, ⟨false, false⟩)]
  g_template_dir := "templates\\".toList
  iterate := List.dedup
  mem_iterate := fun _ _ => List.mem_dedup
  nodup_iterate := List.nodup_dedup
  create := fun _ _ _ => true
  analyze := fun _ _ _ => .ok (some ())
  sarifResults := fun _ => .ok (⟨0, 1, 0⟩, ())

/-- The section of a solution with one configuration. -/
def sampleSolution : Name :=
  "Global\n\tGlobalSection(SolutionConfigurationPlatforms) = preSolution\n".toList ++
    "\t\tDebug|x64 = Debug|x64\n\tEndGlobalSection\n".toList

/-- The database that is created is not analyzed, and a solution without the section ends the
run with an exception. -/
theorem oneDriver_skipped :
    ((runTestsExternalDrivers (oneDriver sampleSolution)).created =
        ["test\\dbs\\sample_Debug_x64".toList] ∧
      (runTestsExternalDrivers (oneDriver sampleSolution)).progress.analyzed = [] ∧
      ¬ Complete (oneDriver sampleSolution)) ∧
    (runTestsExternalDrivers (oneDriver [])).raised = some .attributeError ∧
      ¬ Complete (oneDriver []) := by
  have hcreated : (runTestsExternalDrivers (oneDriver sampleSolution)).created =
      ["test\\dbs\\sample_Debug_x64".toList] := by decide +kernel
  have hanalyzed : (runTestsExternalDrivers (oneDriver sampleSolution)).progress.analyzed = [] := by
    decide +kernel
  have hraised : (runTestsExternalDrivers (oneDriver [])).raised = some .attributeError := by
    decide +kernel
  refine ⟨⟨hcreated, hanalyzed, fun hc => ?_⟩, hraised, fun hc => ?_⟩
  · obtain ⟨t, ok, -, hpair⟩ := hc.analyzes (by decide) _ (List.mem_singleton_self _) _
      (hcreated ▸ List.mem_singleton_self _)
    rw [hanalyzed] at hpair
    exact List.not_mem_nil hpair
  · have hnone := hc.no_exception ⟨⟨"drivers\\sample.sln".toList, []⟩, List.mem_singleton_self _,
      trivial⟩
    rw [hraised] at hnone
    exact absurd hnone (by decide)

end DriverQueries.ExternalDrivers
