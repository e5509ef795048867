import DriverQueries.Changing
import DriverQueries.Runs

/-!
The reports about functions that do not restore the IRQL.

Two queries compare the levels estimated at the body of a function with those estimated at
its exit, any of the first with any of the second. So a function that ends every run at the
IRQL it was entered at is reported as soon as it is entered at two of them.
-/

namespace DriverQueries.Reports

open Relation DriverQueries.Sal DriverQueries.Database DriverQueries.Calls DriverQueries.Paths
open DriverQueries.CopyRules DriverQueries.Cascade DriverQueries.Changing DriverQueries.Runs

variable {Fn Node : Type} [DecidableEq Fn] [DecidableEq Node] [Fintype Node]
variable (P : Program Fn Node) (f : Fn)

/-! ### The two queries -/

/-- The part of the two queries about levels. The exit of a function is the function. -/
def LevelsDiffer (irqlLevelEntry irqlLevelExit : ℤ) : Prop :=
  (∃ entryCfn ∈ P.getBlock f, getPotentialExitIrqlAtCfn P entryCfn irqlLevelEntry) ∧
    getPotentialExitIrqlAtCfn P (P.exitNode f) irqlLevelExit ∧ irqlLevelEntry ≠ irqlLevelExit

/-- The part of `IrqlInconsistentWithRequired` about the function. -/
def RequiresSameAndChanges : Prop :=
  IrqlRequiresSameAnnotatedFunction (P.function f) ∧
    ∃ fc, FunctionCall P fc ∧ getEnclosingFunction P fc = some f ∧ isIrqlChangingCall P fc

/-- The part of `IrqlFunctionNotAnnotated` about the function. -/
def CallsChangingFunction : Prop :=
  ¬ IrqlChangesFunction (P.function f) ∧
    ∃ fc, P.CallTo IrqlChangesFunction fc ∧ getEnclosingFunction P fc = some f

/-- `IrqlInconsistentWithRequired` selects the function with the two levels. -/
def IrqlInconsistentWithRequired (irqlLevelEntry irqlLevelExit : ℤ) : Prop :=
  RequiresSameAndChanges P f ∧ LevelsDiffer P f irqlLevelEntry irqlLevelExit

/-- `IrqlFunctionNotAnnotated` selects the function with the two levels. -/
def IrqlFunctionNotAnnotated (irqlLevelEntry irqlLevelExit : ℤ) : Prop :=
  CallsChangingFunction P f ∧ LevelsDiffer P f irqlLevelEntry irqlLevelExit

def NotReported : Prop :=
  (¬ ∃ i j, IrqlInconsistentWithRequired P f i j) ∧ ¬ ∃ i j, IrqlFunctionNotAnnotated P f i j

instance : Decidable (RequiresSameAndChanges P f) := by
  unfold RequiresSameAndChanges getEnclosingFunction; infer_instance

instance : Decidable (CallsChangingFunction P f) := by
  unfold CallsChangingFunction getEnclosingFunction; infer_instance

/-! ### When a function is not reported -/

lemma levelsDiffer_iff {i j : ℤ} :
    LevelsDiffer P f i j ↔ (∃ b ∈ P.getBlock f, getPotentialExitIrqlAtCfnInternal P b i) ∧
      getPotentialExitIrqlAtCfnInternal P (P.exitNode f) j ∧ i ≠ j := by
  have hexit : ∀ s ∈ P.getEnclosingStmt (P.exitNode f), P.getParent s = none := by
    simp [P.exit_enclosing f]
  unfold LevelsDiffer
  rw [potential_iff_internal P hexit]
  refine and_congr_left fun _ => exists_congr fun b => and_congr_right fun hb => ?_
  exact potential_iff_internal P (P.block_enclosing f b hb)

/-- **The levels differ whenever some run enters the function at one IRQL and some run leaves it
at another**, be it the same call of the function or not. -/
theorem levelsDiffer_of_runs {W : World P} (h : Estimable W) (hsaved : SavedOnly W)
    (htruth : Truthful W) {c c' : Config Node} (hc : Reachable W c) (hc' : Reachable W c')
    (hbody : c.node ∈ P.getBlock f) (hexit : c'.node = P.exitNode f) (hne : c.irql ≠ c'.irql) :
    LevelsDiffer P f c.irql c'.irql := by
  have hsound := h.sound hsaved htruth hc
  have hsound' := h.sound hsaved htruth hc'
  exact (levelsDiffer_iff P f).mpr ⟨⟨c.node, hbody, hsound.node⟩, hexit ▸ hsound'.node, hne⟩

lemma notReported_iff :
    NotReported P f ↔
      (RequiresSameAndChanges P f ∨ CallsChangingFunction P f → ¬ ∃ i j, LevelsDiffer P f i j) := by
  unfold NotReported IrqlInconsistentWithRequired IrqlFunctionNotAnnotated
  rw [or_imp]
  simp only [exists_and_left, not_and]

end DriverQueries.Reports
