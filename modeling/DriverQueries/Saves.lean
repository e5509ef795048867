import DriverQueries.Calls

/-!
The save a restore undoes.

`getMostRecentRaise` of a restore keeps a matching save unless some other matching save can
be reached from it, before the restore or after it. What it should keep are the reaching
definitions: the saves that lead to the restore with no other matching save on the way. Here
it is shown for either kind of restore when the two are the same.
-/

namespace DriverQueries.Saves

open Relation DriverQueries.Sal DriverQueries.Paths DriverQueries.Database DriverQueries.Calls

/-! ### An example -/

/-- An annotation with another macro in its arguments, as `_IRQL_saves_global_(kind, slot)`
and `_IRQL_saves_` have it. -/
def invocation (name : String) (args : List String) : SALAnnotation :=
  { getMacroName := name, getExpandedArgument := args, inner := true }

/-- The two functions of a lock: `acquire` and `release`, each with the lock as parameter. -/
structure LockApi where
  acquire : FunctionInfo
  release : FunctionInfo

def globalLock : LockApi where
  acquire :=
    { getName := "AcquireLock", getParameter := [⟨"lock", []⟩],
      declAnnotations := [invocation "_IRQL_saves_global_" ["LockState", "lock"]] }
  release :=
    { getName := "ReleaseLock", getParameter := [⟨"lock", []⟩],
      declAnnotations := [invocation "_IRQL_restores_global_" ["LockState", "lock"]] }

def parameterLock : LockApi where
  acquire :=
    { getName := "AcquireLock", getParameter := [⟨"lock", [invocation "_IRQL_saves_" []]⟩] }
  release :=
    { getName := "ReleaseLock", getParameter := [⟨"lock", [invocation "_IRQL_restores_" []]⟩] }

/-- `void routine() { acquire(lock); release(lock); acquire(lock); release(lock); }`. The
calls are the nodes 2, 4, 6 and 8, each after the node of its argument. -/
def lockTwice (api : LockApi) : Program (Fin 3) (Fin 12) where
  function f := [{ getName := "routine" }, api.acquire, api.release].getD f { getName := "" }
  getBlock f := if f = 0 then some 0 else none
  exitNode f := [9, 10, 11].getD f 9
  getASuccessor n := if n < 9 then [n + 1] else []
  getControlFlowScope n := if n = 10 then some 1 else if n = 11 then some 2 else some 0
  getTarget n := if n = 2 ∨ n = 6 then some 1 else if n = 4 ∨ n = 8 then some 2 else none
  getArgument n := if n = 2 ∨ n = 4 ∨ n = 6 ∨ n = 8 then [n - 1] else []
  toString n := if n = 1 ∨ n = 3 ∨ n = 5 ∨ n = 7 then "lock" else ""
  successor_scope := by decide
  exit_scope := by decide
  exit_enclosing := by decide
  block_scope := by decide
  block_enclosing := by decide

variable {Fn Node : Type} (P : Program Fn Node) (r : Node)

/-! ### Restoring from a global state -/

section Global

open RestoresGlobalIrqlCall

/-- **The most recent saves of a global restore are exactly the saves that reach it, and a
restore that a save leads to has one, iff no save that reaches it leads to another save.** -/
theorem restoresGlobal_mostRecent_iff :
    ((∀ s, getMostRecentRaise P r s ↔ ReachingDef P.Edge (MatchingSave P r) s r) ∧
        ((∃ s, MatchingSave P r s ∧ ReflTransGen P.Edge s r) →
          ∃ s, getMostRecentRaise P r s)) ↔
      ∀ s d, ReachingDef P.Edge (MatchingSave P r) s r → MatchingSave P r d →
        ReflTransGen P.Edge s d → d = s := by
  unfold getMostRecentRaise
  rw [unkilled_self_iff, and_iff_left_iff_imp]
  rintro h ⟨s, hs, hsr⟩
  obtain ⟨d, hd⟩ := exists_reachingDef hs hsr
  exact ⟨d, (unkilled_self_iff.mpr h d).mpr hd⟩

/-- The first release has no most recent save: from the first acquire, which is the only
call before it, the second one can be reached. -/
theorem lockTwice_first_release_unsaved :
    RestoresGlobalIrqlCall (lockTwice globalLock) 4 ∧
      MatchingSave (lockTwice globalLock) 4 2 ∧
      ReachingDef (lockTwice globalLock).Edge (MatchingSave (lockTwice globalLock) 4) 2 4 ∧
      ∀ s, ¬ getMostRecentRaise (lockTwice globalLock) 4 s := by
  decide

end Global

/-! ### Restoring from a parameter -/

section Parameter

open IrqlRestoreCall

variable [DecidableEq Node]

/-- The matching saves in the function of the restore. -/
def LocalSave (s : Node) : Prop :=
  MatchingSave P r s ∧ P.getControlFlowScope s = P.getControlFlowScope r

instance [DecidableEq Fn] : DecidablePred (LocalSave P r) :=
  fun _ => inferInstanceAs (Decidable (_ ∧ _))

lemma reachingDef_localSave {s : Node} :
    ReachingDef P.Edge (LocalSave P r) s r ↔ ReachingDef P.Edge (MatchingSave P r) s r := by
  refine ⟨fun h => ?_, fun h => ?_⟩
  all_goals
    refine (reachingDef_congr fun d hsd => ?_).mp h
    have hscope := (P.reach_scope hsd).trans (P.reach_scope h.reach).symm
    simp only [LocalSave, hscope, and_true]

/-- **The most recent saves of a restore are exactly the saves of its function that reach it
iff no save that reaches it leads to another one that also saves globally, and every other
save that leads to it does.** -/
theorem irqlRestore_mostRecent_iff :
    (∀ s, getMostRecentRaise P r s ↔ ReachingDef P.Edge (LocalSave P r) s r) ↔
      (∀ s d, ReachingDef P.Edge (LocalSave P r) s r → MatchingGlobalSave P r d →
        ReflTransGen P.Edge s d → d = s) ∧
      ∀ s, MatchingSave P r s → ReflTransGen P.Edge s r →
        ¬ ReachingDef P.Edge (LocalSave P r) s r →
          ∃ d, d ≠ s ∧ ReflTransGen P.Edge s d ∧ MatchingGlobalSave P r d := by
  simp only [reachingDef_localSave]
  exact unkilled_iff_reachingDef_iff

end Parameter

/-- The second release has the first acquire among its most recent saves, although the
second acquire is on the only path between them. -/
theorem lockTwice_second_release_stale :
    IrqlRestoreCall (lockTwice parameterLock) 8 ∧
      IrqlRestoreCall.getMostRecentRaise (lockTwice parameterLock) 8 2 ∧
      ¬ ReachingDef (lockTwice parameterLock).Edge (LocalSave (lockTwice parameterLock) 8) 2 8 := by
  decide

end DriverQueries.Saves
