import Mathlib.Data.Int.Notation
import Mathlib.Tactic.Common

/-!
The test script of the driver verification logs.

For a driver the script builds logs before and after an analysis, and compares the results of
the analysis with the expected ones. A command that was not started is told by an exit code put
there before. The script ends with `exit 1` at the first thing that is not as it should be; it
is shown when it does so for the right drivers.
-/

namespace DriverQueries.DvlTests

inductive Platform
  | x64 | arm64
  deriving DecidableEq

inductive Configuration
  | debug | release
  deriving DecidableEq

inductive CommandType
  | msbuild | dvl
  deriving DecidableEq

def Platform.name : Platform → String
  | .x64 => "x64"
  | .arm64 => "arm64"

def Configuration.name : Configuration → String
  | .debug => "Debug"
  | .release => "Release"

def platforms : List Platform := [.x64, .arm64]

def configurations : List Configuration := [.debug, .release]

/-- What the commands do for one driver: their exit codes, where `none` stands for a command that
was not started, and the results of the analysis, if there are any. The commands for the logs
are run without results of an analysis and again with them. -/
structure Outcomes (Sarif : Type) where
  msbuild : (test_empty : Bool) → Platform → Configuration → Option ℤ
  dvl : (test_empty : Bool) → Platform → Option ℤ
  createDatabase : Option ℤ
  analyze : Option ℤ
  sarif_out : Option Sarif
  expected_sarif : Sarif

/-- How results are compared: their part `runs`, its text as JSON, and the operator `-eq` on
texts, which does not see all differences. -/
structure Comparison (Sarif Runs : Type) where
  runs : Sarif → Runs
  convertToJson : Runs → String
  eq : String → String → Bool
  eq_self : ∀ s, eq s s = true

def notStarted : ℤ := 1234567891

def lastExitCode (code : Option ℤ) : ℤ := code.getD notStarted

section Script

variable {Sarif Runs : Type} (C : Comparison Sarif Runs) (O : Outcomes Sarif)

/-- The log of one build, for a configuration that must have one and for one that must not. -/
def createWithMsbuild (test_empty : Bool) (platform : Platform) (configuration : Configuration) :
    Except String Unit :=
  let command := "msbuild /target:dvl /p:Platform=" ++ platform.name ++ " /p:Configuration=" ++
    configuration.name
  let code := lastExitCode (O.msbuild test_empty platform configuration)
  if code = notStarted then
    .error ("FAIL -- Unexpected error creating DVL with " ++ platform.name ++ " " ++
      configuration.name ++ " using " ++ command)
  else if code ≠ 0 then
    if configuration = .release then
      .error ("FAIL -- Failed to create DVL with " ++ platform.name ++ " " ++
        configuration.name ++ " using " ++ command)
    else .ok ()
  else if configuration = .release then .ok ()
  else
    .error ("FAIL -- DVL should not be created with Debug configuration. Created DVL with " ++
      platform.name ++ " " ++ configuration.name ++ " using " ++ command)

/-- The log made by hand, for the release configuration only. -/
def createWithDvl (test_empty : Bool) (platform : Platform) (configuration : Configuration) :
    Except String Unit :=
  if configuration = .release then
    let code := lastExitCode (O.dvl test_empty platform)
    if code = notStarted then
      .error ("FAIL -- Unexpected error creating DVL with " ++ platform.name ++ " " ++
        configuration.name)
    else if code ≠ 0 then
      .error ("FAIL -- Empty DVL should be created without a sarif file.  " ++ platform.name ++
        " using dvl.exe")
    else .ok ()
  else .ok ()

def createDvl (command_type : CommandType) (test_empty : Bool) (platform : Platform)
    (configuration : Configuration) : Except String Unit :=
  match command_type with
  | .msbuild => createWithMsbuild O test_empty platform configuration
  | .dvl => createWithDvl O test_empty platform configuration

/-- `Test-DVL`, in a directory with results of an analysis or without. -/
def testDvl (command_type : CommandType) (test_empty found_sarif : Bool) : Except String Unit :=
  platforms.forM fun platform => configurations.forM fun configuration =>
    if test_empty ∧ found_sarif then
      .error "FAIL -- Sarif file found! There should be no sarif file at this point!"
    else if ¬ test_empty ∧ ¬ found_sarif then .error "FAIL -- Sarif file not found!"
    else createDvl O command_type test_empty platform configuration

def testCodeql : Except String Sarif :=
  let codeql_db_exit_code := lastExitCode O.createDatabase
  if codeql_db_exit_code = notStarted then
    .error "FAIL -- Unexpected error creating CodeQL database"
  else if codeql_db_exit_code ≠ 0 then .error "Failed to create CodeQL database"
  else
    let codeql_analyze_exit_code := lastExitCode O.analyze
    if codeql_analyze_exit_code = notStarted then
      .error "FAIL -- Unexpected error creating CodeQL database"
    else
      match O.sarif_out with
      | none => .error "FAIL -- Sarif file not found after running codeql analyze!"
      | some sarif_out =>
        if codeql_analyze_exit_code ≠ 0 then .error "FAIL -- Failed to analyze CodeQL database"
        else .ok sarif_out

/-- The JSON texts of the two results are the same to the comparison. -/
def SameText (sarif_out : Sarif) : Prop :=
  C.eq (C.convertToJson (C.runs sarif_out)) (C.convertToJson (C.runs O.expected_sarif)) = true

instance (sarif_out : Sarif) : Decidable (SameText C O sarif_out) :=
  inferInstanceAs (Decidable (_ = _))

def compareResults (sarif_out : Sarif) : Except String Unit :=
  if SameText C O sarif_out then .error "FAIL -- Sarif file does not match expected sarif file"
  else .ok ()

/-- `Test-Driver`. All results of earlier analyses are deleted at the start. -/
def testDriver : Except String Unit := do
  testDvl O .msbuild true false
  testDvl O .dvl true false
  let sarif_out ← testCodeql O
  compareResults C O sarif_out
  testDvl O .msbuild false true
  testDvl O .dvl false true

/-! ### What the script asks for -/

/-- The creations that must succeed do, and those that must fail are started and fail. -/
structure LogsCreated : Prop where
  release : ∀ test_empty platform, O.msbuild test_empty platform .release = some 0
  byHand : ∀ test_empty platform, O.dvl test_empty platform = some 0
  debug : ∀ test_empty platform,
    ∃ code, O.msbuild test_empty platform .debug = some code ∧ code ≠ 0

/-- The database is created and analyzed, with these results. -/
structure Analyzed (sarif_out : Sarif) : Prop where
  database : O.createDatabase = some 0
  analysis : O.analyze = some 0
  produced : O.sarif_out = some sarif_out

def Meets : Prop :=
  LogsCreated O ∧ ∃ sarif_out, Analyzed O sarif_out ∧
    C.runs sarif_out = C.runs O.expected_sarif

/-- Some debug build ends with the exit code that stands for one that was not started. -/
def DebugNotStarted : Prop :=
  ∃ test_empty platform, O.msbuild test_empty platform .debug = some notStarted

end Script

/-! ### What the script checks -/

lemma bind_eq_ok {ε α β : Type} {x : Except ε α} {f : α → Except ε β} {b : β} :
    (x >>= f) = .ok b ↔ ∃ a, x = .ok a ∧ f a = .ok b := by
  cases x <;> simp [bind, Except.bind]

lemma forM_eq_ok {ε α : Type} {f : α → Except ε Unit} (xs : List α) :
    xs.forM f = .ok () ↔ ∀ x ∈ xs, f x = .ok () := by
  induction xs with
  | nil => simp [List.forM, pure, Except.pure]
  | cons x xs ih =>
    rw [List.forall_mem_cons, ← ih]
    change (f x >>= fun _ => xs.forM f) = _ ↔ _
    rw [bind_eq_ok]
    exact ⟨fun ⟨_, hx, hxs⟩ => ⟨hx, hxs⟩, fun ⟨hx, hxs⟩ => ⟨(), hx, hxs⟩⟩

lemma guard_eq_ok {ε α : Type} {p : Prop} [Decidable p] {e : ε} {x : Except ε α} {b : α} :
    (if p then .error e else x) = .ok b ↔ ¬ p ∧ x = .ok b := by
  by_cases hp : p <;> simp [hp]

lemma notStarted_ne_zero : notStarted ≠ 0 := by decide

section Exactness

variable {Sarif Runs : Type} {C : Comparison Sarif Runs} {O : Outcomes Sarif}

lemma lastExitCode_eq_zero {code : Option ℤ} : lastExitCode code = 0 ↔ code = some 0 := by
  cases code <;> simp [lastExitCode, notStarted]

lemma lastExitCode_failed {code : Option ℤ} :
    (lastExitCode code ≠ notStarted ∧ lastExitCode code ≠ 0) ↔
      ∃ c, code = some c ∧ c ≠ 0 ∧ c ≠ notStarted := by
  cases code with
  | none => simp [lastExitCode]
  | some c => simp [lastExitCode, and_comm]

lemma createWithMsbuild_release (test_empty : Bool) (platform : Platform) :
    createWithMsbuild O test_empty platform .release = .ok () ↔
      O.msbuild test_empty platform .release = some 0 := by
  rw [← lastExitCode_eq_zero]
  simp only [createWithMsbuild, guard_eq_ok, if_true, not_not, and_true]
  exact and_iff_right_of_imp fun hcode hstart => notStarted_ne_zero (hstart.symm.trans hcode)

lemma createWithMsbuild_debug (test_empty : Bool) (platform : Platform) :
    createWithMsbuild O test_empty platform .debug = .ok () ↔
      ∃ c, O.msbuild test_empty platform .debug = some c ∧ c ≠ 0 ∧ c ≠ notStarted := by
  rw [← lastExitCode_failed]
  simp only [createWithMsbuild, guard_eq_ok, reduceCtorEq, if_false]
  refine and_congr_right fun _ => ?_
  by_cases hcode : lastExitCode (O.msbuild test_empty platform .debug) = 0 <;> simp [hcode]

lemma createWithDvl_iff (test_empty : Bool) (platform : Platform)
    (configuration : Configuration) :
    createWithDvl O test_empty platform configuration = .ok () ↔
      (configuration = .release → O.dvl test_empty platform = some 0) := by
  rw [← lastExitCode_eq_zero]
  unfold createWithDvl
  split_ifs with hrelease
  · simp only [guard_eq_ok, not_not, and_true, hrelease, true_imp_iff]
    exact and_iff_right_of_imp fun hcode hstart => notStarted_ne_zero (hstart.symm.trans hcode)
  · simp [hrelease]

lemma testDvl_eq_ok (command_type : CommandType) (test_empty : Bool) :
    testDvl O command_type test_empty (!test_empty) = .ok () ↔ ∀ platform configuration,
      createDvl O command_type test_empty platform configuration = .ok () := by
  have hplatforms : ∀ platform, platform ∈ platforms := by
    intro platform
    cases platform <;> decide
  have hconfigurations : ∀ configuration, configuration ∈ configurations := by
    intro configuration
    cases configuration <;> decide
  simp only [testDvl, forM_eq_ok, guard_eq_ok, hplatforms, hconfigurations, true_imp_iff]
  cases test_empty <;> simp

lemma testDvl_msbuild (test_empty : Bool) :
    testDvl O .msbuild test_empty (!test_empty) = .ok () ↔ ∀ platform,
      O.msbuild test_empty platform .release = some 0 ∧
        ∃ c, O.msbuild test_empty platform .debug = some c ∧ c ≠ 0 ∧ c ≠ notStarted := by
  rw [testDvl_eq_ok]
  refine forall_congr' fun platform => ⟨fun h => ?_, fun h configuration => ?_⟩
  · exact ⟨(createWithMsbuild_release _ _).mp (h .release),
      (createWithMsbuild_debug _ _).mp (h .debug)⟩
  · cases configuration with
    | debug => exact (createWithMsbuild_debug _ _).mpr h.2
    | release => exact (createWithMsbuild_release _ _).mpr h.1

lemma testDvl_dvl (test_empty : Bool) :
    testDvl O .dvl test_empty (!test_empty) = .ok () ↔
      ∀ platform, O.dvl test_empty platform = some 0 := by
  rw [testDvl_eq_ok]
  refine forall_congr' fun platform => ⟨fun h => ?_, fun h configuration => ?_⟩
  · exact (createWithDvl_iff _ _ _).mp (h .release) rfl
  · exact (createWithDvl_iff _ _ _).mpr fun _ => h

lemma testCodeql_eq_ok {sarif_out : Sarif} :
    testCodeql O = .ok sarif_out ↔ Analyzed O sarif_out := by
  have hsplit : Analyzed O sarif_out ↔
      O.createDatabase = some 0 ∧ O.analyze = some 0 ∧ O.sarif_out = some sarif_out :=
    ⟨fun h => ⟨h.database, h.analysis, h.produced⟩, fun ⟨hdb, han, hout⟩ => ⟨hdb, han, hout⟩⟩
  rw [hsplit, ← lastExitCode_eq_zero, ← lastExitCode_eq_zero]
  unfold testCodeql
  simp only [guard_eq_ok, not_not]
  cases O.sarif_out with
  | none => simp
  | some out =>
    simp only [guard_eq_ok, not_not, Except.ok.injEq, Option.some.injEq]
    constructor
    · rintro ⟨-, hdb, -, han, hout⟩
      exact ⟨hdb, han, hout⟩
    · rintro ⟨hdb, han, hout⟩
      refine ⟨fun h => ?_, hdb, fun h => ?_, han, hout⟩
      · exact notStarted_ne_zero (h.symm.trans hdb)
      · exact notStarted_ne_zero (h.symm.trans han)

/-- The logs are created as they should be in both runs, if no exit code is taken for that of a
command that was not started. -/
lemma logs_iff : (LogsCreated O ∧ ¬ DebugNotStarted O) ↔ ∀ test_empty,
    testDvl O .msbuild test_empty (!test_empty) = .ok () ∧
      testDvl O .dvl test_empty (!test_empty) = .ok () := by
  simp only [testDvl_msbuild, testDvl_dvl]
  constructor
  · rintro ⟨⟨hrelease, hbyHand, hdebug⟩, hstarted⟩ test_empty
    refine ⟨fun platform => ⟨hrelease test_empty platform, ?_⟩, hbyHand test_empty⟩
    obtain ⟨c, hc, hne⟩ := hdebug test_empty platform
    exact ⟨c, hc, hne, fun h => hstarted ⟨test_empty, platform, h ▸ hc⟩⟩
  · intro h
    refine ⟨⟨fun e p => ((h e).1 p).1, fun e p => (h e).2 p, fun e p => ?_⟩, ?_⟩
    · obtain ⟨c, hc, hne, -⟩ := ((h e).1 p).2
      exact ⟨c, hc, hne⟩
    · rintro ⟨e, p, hsentinel⟩
      obtain ⟨c, hc, -, hne⟩ := ((h e).1 p).2
      exact hne (Option.some.inj (hc.symm.trans hsentinel))

/-- **The script finishes exactly if the logs are created as they should be, no debug build ends
with the exit code of one not started, and the results of the analysis do not have the text of
the expected ones.** -/
lemma testDriver_eq_ok : testDriver C O = .ok () ↔
    (LogsCreated O ∧ ¬ DebugNotStarted O) ∧
      ∃ sarif_out, Analyzed O sarif_out ∧ ¬ SameText C O sarif_out := by
  have hcompare : ∀ out, compareResults C O out = .ok () ↔ ¬ SameText C O out := by
    intro out
    simp [compareResults]
  simp only [logs_iff, Bool.forall_bool, Bool.not_true, Bool.not_false, testDriver, bind_eq_ok,
    testCodeql_eq_ok, hcompare]
  constructor
  · rintro ⟨_, hbuild, _, hhand, out, hout, _, htext, _, hbuild', hhand'⟩
    exact ⟨⟨⟨hbuild', hhand'⟩, hbuild, hhand⟩, out, hout, htext⟩
  · rintro ⟨⟨⟨hbuild', hhand'⟩, hbuild, hhand⟩, out, hout, htext⟩
    exact ⟨(), hbuild, (), hhand, out, hout, (), htext, (), hbuild', hhand'⟩

lemma sameText_of_runs {sarif_out : Sarif} (h : C.runs sarif_out = C.runs O.expected_sarif) :
    SameText C O sarif_out := by
  rw [SameText, h]
  exact C.eq_self _

/-- **The script finishes for the drivers that are as they should be iff something else than the
results is not as it should be, or the results differ from the expected ones and are rejected
all the same**: their texts are the same to the comparison, or the exit code of a debug build is
taken for that of a command that was not started. -/
theorem finishes_iff_meets_iff (C : Comparison Sarif Runs) (O : Outcomes Sarif) :
    (testDriver C O = .ok () ↔ Meets C O) ↔
      (LogsCreated O → ∀ sarif_out, Analyzed O sarif_out →
        C.runs sarif_out ≠ C.runs O.expected_sarif ∧
          (SameText C O sarif_out ∨ DebugNotStarted O)) := by
  rw [testDriver_eq_ok, Meets]
  by_cases hlogs : LogsCreated O
  · simp only [hlogs, true_and, true_imp_iff]
    by_cases hout : ∃ sarif_out, Analyzed O sarif_out
    · obtain ⟨out, hout⟩ := hout
      have honly : ∀ out', Analyzed O out' → out' = out := fun out' hout' =>
        Option.some.inj (hout'.produced.symm.trans hout.produced)
      have hexists : ∀ p : Sarif → Prop, (∃ out', Analyzed O out' ∧ p out') ↔ p out := fun p =>
        ⟨fun ⟨out', hout', hp⟩ => honly out' hout' ▸ hp, fun hp => ⟨out, hout, hp⟩⟩
      have hforall : ∀ p : Sarif → Prop, (∀ out', Analyzed O out' → p out') ↔ p out := fun p =>
        ⟨fun h => h out hout, fun hp out' hout' => honly out' hout' ▸ hp⟩
      have hsame : C.runs out = C.runs O.expected_sarif → SameText C O out := sameText_of_runs
      rw [hexists, hexists, hforall]
      tauto
    · have hnone : ∀ p : Sarif → Prop, ¬ ∃ out', Analyzed O out' ∧ p out' := fun p ⟨out', h, _⟩ =>
        hout ⟨out', h⟩
      simp only [hnone, and_false, true_iff]
      exact fun out' h => absurd ⟨out', h⟩ hout
  · simp [hlogs]

end Exactness

/-- Everything is as it should be, but for the results, which are given. -/
def outcomes (sarif_out : String) : Outcomes String where
  msbuild := fun _ _ configuration => some (if configuration = .release then 0 else 1)
  dvl := fun _ _ => some 0
  createDatabase := some 0
  analyze := some 0
  sarif_out := some sarif_out
  expected_sarif := "[]"

def sameString : Comparison String String where
  runs := id
  convertToJson := id
  eq := fun s t => s = t
  eq_self := by simp

/-- Results that are as expected end the script, and others let it finish. -/
theorem expected_rejected :
    (testDriver sameString (outcomes "[]") =
        .error "FAIL -- Sarif file does not match expected sarif file" ∧
      Meets sameString (outcomes "[]")) ∧
    (testDriver sameString (outcomes "[1]") = .ok () ∧ ¬ Meets sameString (outcomes "[1]")) := by
  have hlogs : ∀ out, LogsCreated (outcomes out) := fun out =>
    ⟨fun _ _ => rfl, fun _ _ => rfl, fun _ _ => ⟨1, rfl, by decide⟩⟩
  have hout : ∀ out, Analyzed (outcomes out) out := fun out => ⟨rfl, rfl, rfl⟩
  refine ⟨⟨by decide, hlogs _, _, hout _, rfl⟩, by decide, ?_⟩
  rintro ⟨-, out, hanalyzed, hruns⟩
  obtain rfl : "[1]" = out := Option.some.inj hanalyzed.produced
  exact absurd hruns (by decide)

end DriverQueries.DvlTests
