import DriverQueries.Precision

/-!
Functions that end at the IRQL they were entered at.

Where the estimate is exact, a function that ends every run at the IRQL it was entered at is
reported exactly when it is entered at two of them: the two queries compare the one with the other.
-/

namespace DriverQueries.Balance

open Relation DriverQueries.Sal DriverQueries.Database DriverQueries.Calls DriverQueries.CopyRules
open DriverQueries.Cascade DriverQueries.Runs DriverQueries.Reports DriverQueries.Activations
open DriverQueries.Precision

variable {Fn Node : Type} {P : Program Fn Node} {W : World P} {f : Fn} {b : Node} {c : Config Node}

/-- A run at the exit of the function is at the IRQL at which it has entered it: the one before the
call, or the one that the program was started at. -/
structure Balanced (W : World P) (f : Fn) : Prop where
  called : ∀ c, Reachable W c → c.node = P.exitNode f → ∀ fr ∈ c.frames.head?, c.irql = fr.irql
  started : ∀ s c, Start P s → ReflTransGen (Step W) s c → c.node = P.exitNode f →
    c.frames = [] → c.irql = s.irql

/-- All runs enter the function at one IRQL. -/
def EnteredAtOne (W : World P) (f : Fn) : Prop :=
  ∀ b ∈ P.getBlock f, ∀ v w, RunAt W b v → RunAt W b w → v = w

/-- A run at the exit has entered a balanced function at the IRQL that it is at. -/
lemma Balanced.runAt_body (h : Balanced W f) (hb : b ∈ P.getBlock f) (hc : Reachable W c)
    (hexit : c.node = P.exitNode f) : RunAt W b c.irql := by
  obtain ⟨s, hs, hrun⟩ := hc
  have hreach : Reachable W c := ⟨s, hs, hrun⟩
  have hscope : P.getControlFlowScope c.node = some f := by rw [hexit, P.exit_scope]
  cases hfr : c.frames with
  | nil =>
    -- the program was started at the function
    obtain ⟨-, -, g, hg, -⟩ := id hs
    have hrooted := rooted_of_run hs hg hrun
    rw [hfr] at hrooted
    obtain rfl : f = g := Option.some.inj (hscope.symm.trans hrooted)
    exact ⟨s, ⟨s, hs, .refl⟩, Option.mem_unique hg hb, (h.started s c hs hrun hexit hfr).symm⟩
  | cons fr frames =>
    have hnested := nested_of_reachable hreach
    rw [hfr] at hnested
    obtain ⟨⟨g, hg, -, hscope'⟩, -⟩ := hnested
    obtain rfl : f = g := Option.some.inj (hscope.symm.trans hscope')
    obtain ⟨d, hd, hedge, hirql, hraise, hrest⟩ :=
      (path_of_reachable hreach).frames fr (hfr ▸ List.mem_cons_self)
    rw [h.called c hreach hexit fr (by simp [hfr]), ← hirql]
    exact runAt_of_step hd (.enter hedge hraise hrest hg hb)

section Exact

variable [DecidableEq Fn] [DecidableEq Node] [Fintype Node]

/-- The levels at the body and at the exit of the function are exact: it is in a program of the kind
for which the estimate is, and all nodes that its levels are copied from are run. -/
structure ExactLevels (W : World P) (f : Fn) : Prop where
  plain : Plain W
  body : ∀ b ∈ P.getBlock f, ∀ m, ReflTransGen (copiesFrom P) b m → Live W m
  exit : ∀ m, ReflTransGen (copiesFrom P) (P.exitNode f) m → Live W m

lemma levelsDiffer_iff_runs (h : ExactLevels W f) {i j : ℤ} :
    LevelsDiffer P f i j ↔
      (∃ b ∈ P.getBlock f, RunAt W b i) ∧ RunAt W (P.exitNode f) j ∧ i ≠ j := by
  unfold LevelsDiffer
  rw [potential_iff_runAt h.plain h.exit]
  refine and_congr_left fun _ => exists_congr fun b => and_congr_right fun hb => ?_
  exact potential_iff_runAt h.plain (h.body b hb)

/-- Every level of an annotation of a function can be evaluated, and so can every raise. -/
def Evaluable (P : Program Fn Node) : Prop :=
  (∀ g, ∀ a ∈ getFuncIrqlAnnotation (P.function g), ¬ Unevaluable P.macros a) ∧
    ∀ n, KeRaiseIrqlCall P n → (keRaiseIrqlLevel P n).isSome

end Exact

lemma balanced_work {sal : List SALAnnotation} (hsal : sal = [] ∨ sal = [sameIrql]) :
    Balanced (oldWorld sal) 2 where
  called c hc hexit fr hfr := by
    have hframes : ∀ c ∈ twoRuns, c.node = 10 → ∀ fr ∈ c.frames.head?, c.irql = fr.irql := by decide
    exact hframes c (mem_twoRuns sal hsal hc) hexit fr hfr
  started s c hs hrun hexit hnil := by
    have hframes : ∀ c ∈ twoRuns, c.node = 10 → c.frames ≠ [] := by decide
    exact absurd hnil (hframes c (mem_twoRuns sal hsal ⟨s, hs, hrun⟩) hexit)

lemma evaluable_work {sal : List SALAnnotation} (hsal : sal = [] ∨ sal = [sameIrql]) :
    Evaluable (twoCallers sal) := by
  unfold Evaluable Unevaluable
  obtain rfl | rfl := hsal <;> decide

lemma levelsDiffer_work {sal : List SALAnnotation} (hsal : sal = [] ∨ sal = [sameIrql]) :
    LevelsDiffer (twoCallers sal) 2 0 1 := by
  have hentry : getPotentialExitIrqlAtCfnInternal (twoCallers sal) 6 0 := by
    obtain rfl | rfl := hsal <;> decide
  have hexit : getPotentialExitIrqlAtCfnInternal (twoCallers sal) 10 1 := by
    obtain rfl | rfl := hsal <;> decide
  exact ⟨⟨6, rfl, Or.inl hentry⟩, Or.inl hexit, by decide⟩

end DriverQueries.Balance
