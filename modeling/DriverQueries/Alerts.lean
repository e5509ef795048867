import DriverQueries.FalseBranch
import DriverQueries.FirstNodes
import DriverQueries.Precision
import DriverQueries.SetEvent
import DriverQueries.WhenCondition

/-!
What the alerts about IRQLs say of the runs.

A call is reported when the least level estimated before it is above what its annotation allows,
or the greatest one below. So an alert speaks of all levels that are estimated there, and where
the estimate contains every run it is true of every run. A run that is at a wrong IRQL is not
enough for an alert: where the estimate is exact, a call is reported only if every run that comes
to it is wrong, and always then, unless its annotation or its place in a dead branch excuses it.
-/

namespace DriverQueries.Alerts

open Relation DriverQueries.Sal DriverQueries.Database DriverQueries.Calls DriverQueries.CopyRules
open DriverQueries.Cascade DriverQueries.Runs DriverQueries.Precision DriverQueries.FirstNodes

/-- A program with the values of its constant expressions, the trees of its functions, and the
places of its nodes in them. -/
structure AlertProgram (Fn Node : Type) extends Program Fn Node where
  getValue : Node → Option ℤ := fun _ => none
  getBody : Fn → Option Bodies.Node := fun _ => none
  place : Node → Bodies.Path := fun _ => []
  names_nodup : ∀ f, ((function f).getParameter.map fun p => p.getName.toList).Nodup

variable {Fn Node : Type}

/-! ### The queries about calls -/

section Queries

def constants (getValue : Node → Option ℤ) : List Parameter → List Node → List (List Char × ℤ)
  | p :: ps, a :: as =>
    (getValue a).toList.map (fun v => (p.getName.toList, v)) ++ constants getValue ps as
  | _, _ => []

lemma constants_sublist (getValue : Node → Option ℤ) (ps : List Parameter) (as : List Node) :
    ((constants getValue ps as).map Prod.fst).Sublist (ps.map fun p => p.getName.toList) := by
  fun_induction constants getValue ps as with
  | case1 p ps a as ih =>
    cases getValue a with
    | none => exact ih.cons _
    | some v => exact ih.cons_cons _
  | case2 => exact List.nil_sublist _

variable (P : AlertProgram Fn Node)

def callSite (call : Node) : WhenCondition.Call where
  parameters := constants P.getValue
    ((P.getTarget call).toList.flatMap fun f => (P.function f).getParameter) (P.getArgument call)
  names_nodup := by
    refine (constants_sublist P.getValue _ _).nodup ?_
    cases P.getTarget call with
    | none => exact List.nodup_nil
    | some f => simpa using P.names_nodup f

/-- The branch is the second child of its `if`. -/
def isInConstantFalseBranch (call : Node) : Prop :=
  ∃ f ∈ P.getControlFlowScope call, ∃ body ∈ P.getBody f, ∃ b,
    FalseBranch.StmtChild body (b ++ [1]) (P.place call) ∧ FalseBranch.ConstantFalse body b

/-- The clauses that the two queries about restricted calls share. An annotation of the class, or
one that requires a level, has the requirement, and the call is not excused. -/
def Restricted (strict : SALAnnotation → Prop) (call prior : Node) (irqlRequirement : ℤ) : Prop :=
  (P.getControlFlowScope call).isSome ∧ P.Edge prior call ∧
    (∃ irqlFunc ∈ P.getTarget call, ∃ ifa ∈ getFuncIrqlAnnotation (P.function irqlFunc),
      (strict ifa ∨ IrqlRequiresAnnotation ifa) ∧ irqlRequirement ∈ getIrqlLevel P.macros ifa ∧
        irqlRequirement ≠ -1 ∧
        ¬ WhenCondition.WhenConditionIsFalseAtCallSite ifa (callSite P call)) ∧
    ¬ isInConstantFalseBranch P call

variable [DecidableEq Fn] [DecidableEq Node] [Fintype Node]

/-- `irqlRequirement > max(getPotentialExitIrqlAtCfn(prior))`. -/
def Below (irqlRequirement : ℤ) (prior : Node) : Prop :=
  ∃ m, IsGreatest {v | getPotentialExitIrqlAtCfn P.toProgram prior v} m ∧ m < irqlRequirement

/-- `IrqlTooHigh` selects the call with the requirement. -/
def IrqlTooHigh (call prior : Node) (irqlRequirement : ℤ) : Prop :=
  Restricted P IrqlMaxAnnotation call prior irqlRequirement ∧
    SetEvent.IrqlTooHigh P.toProgram irqlRequirement prior

def IrqlTooLow (call prior : Node) (irqlRequirement : ℤ) : Prop :=
  Restricted P IrqlMinAnnotation call prior irqlRequirement ∧ Below P irqlRequirement prior

def RaisesTo (call prior : Node) (irqlRequirement : ℤ) : Prop :=
  KeRaiseIrqlCall P.toProgram call ∧ P.Edge prior call ∧
    irqlRequirement ∈ keRaiseIrqlLevel P.toProgram call ∧ irqlRequirement ≠ -1

/-- `IrqlLoweredImproperly` selects the call with the requirement. -/
def IrqlLoweredImproperly (call prior : Node) (irqlRequirement : ℤ) : Prop :=
  RaisesTo P call prior irqlRequirement ∧ SetEvent.IrqlTooHigh P.toProgram irqlRequirement prior

end Queries

/-! ### Alerts and runs -/

section Runs

variable [DecidableEq Fn] [DecidableEq Node] [Fintype Node] {P : AlertProgram Fn Node}
variable {W : World P.toProgram} {prior : Node} {r : ℤ}

lemma below_iff : Below P r prior ↔
    SetEvent.Bound P.toProgram prior ∧
      ∀ v, getPotentialExitIrqlAtCfn P.toProgram prior v → v < r := by
  refine ⟨fun ⟨m, hm, hlt⟩ => ⟨⟨m, hm.1⟩, fun v hv => (hm.2 hv).trans_lt hlt⟩, fun ⟨hb, hall⟩ => ?_⟩
  obtain ⟨m, hm, hmax⟩ := Set.exists_max_image _ id (SetEvent.potential_finite prior) hb
  exact ⟨m, ⟨hm, hmax⟩, hall m hm⟩

/-- **Every alert is true of every run.** In a program in which the estimate contains all runs, a
run that is before a call reported as at too high an IRQL, or as lowering with a raise, is above
the level of the alert, one before a call reported as at too low an IRQL is below it, and so is a
run at a statement that is reported as setting the IRQL too high or too low. -/
theorem alerts_true (h : Estimable W) (hsaved : SavedOnly W) (htruth : Truthful W)
    {c : Config Node} (hc : Reachable W c) :
    (∀ call r, IrqlTooHigh P call c.node r ∨ IrqlLoweredImproperly P call c.node r → r < c.irql) ∧
      (∀ call r, IrqlTooLow P call c.node r → c.irql < r) ∧
      (∀ f r, IrqlSetTooHigh P.toProgram f r c.node → r < c.irql) ∧
      ∀ f r, IrqlSetTooLow P.toProgram f r c.node → c.irql < r := by
  have hlevel : getPotentialExitIrqlAtCfn P.toProgram c.node c.irql :=
    .inl (h.sound hsaved htruth hc).node
  refine ⟨fun call r h => ?_, fun call r h => ?_, fun f r h => ?_, fun f r h => ?_⟩
  · have htest : SetEvent.IrqlTooHigh P.toProgram r c.node := by
      rcases h with h | h
      · exact h.2
      · exact h.2
    exact (SetEvent.irqlTooHigh_iff.mp htest).2 _ hlevel
  · exact (below_iff.mp h.2).2 _ hlevel
  · obtain ⟨-, ⟨-, -, ⟨least, hleast, hlt⟩, -⟩, -⟩ := h
    exact hlt.trans_le (hleast.2 hlevel)
  · obtain ⟨-, ⟨-, -, ⟨greatest, hgreatest, hlt⟩, -⟩, -⟩ := h
    exact (hgreatest.2 hlevel).trans_lt hlt

/-- A statement about the levels at a node whose estimate is exact is one about its runs. -/
lemma forall_levels_iff (hplain : Plain W)
    (hlive : ∀ m, ReflTransGen (copiesFrom P.toProgram) prior m → Live W m)
    {p : ℤ → Prop} :
    (SetEvent.Bound P.toProgram prior ∧
      ∀ v, getPotentialExitIrqlAtCfn P.toProgram prior v → p v) ↔
      ∀ c, Reachable W c → c.node = prior → p c.irql := by
  have hlevel : ∀ c, Reachable W c → c.node = prior →
      getPotentialExitIrqlAtCfn P.toProgram prior c.irql :=
    fun c hc hn => hn ▸ .inl (hplain.internal_of_run hc)
  refine ⟨fun ⟨_, h⟩ c hc hn => h _ (hlevel c hc hn), fun h => ⟨?_, ?_⟩⟩
  · obtain ⟨c, hc, hn⟩ := hlive prior .refl
    exact ⟨c.irql, hlevel c hc hn⟩
  · intro v hv
    obtain ⟨c, hc, hn, rfl⟩ := runAt_of_potential hplain hlive hv
    exact h c hc hn

/-- **Where the estimate before a call is exact, the call is reported with a level iff the query's
conditions on the call hold and every run before the call is above the level**, or below it for
the query about too low an IRQL. -/
theorem alerts_exact (hplain : Plain W)
    (hlive : ∀ m, ReflTransGen (copiesFrom P.toProgram) prior m → Live W m)
    (call : Node) (r : ℤ) :
    (IrqlTooHigh P call prior r ↔ Restricted P IrqlMaxAnnotation call prior r ∧
      ∀ c, Reachable W c → c.node = prior → r < c.irql) ∧
    (IrqlTooLow P call prior r ↔ Restricted P IrqlMinAnnotation call prior r ∧
      ∀ c, Reachable W c → c.node = prior → c.irql < r) ∧
    (IrqlLoweredImproperly P call prior r ↔ RaisesTo P call prior r ∧
      ∀ c, Reachable W c → c.node = prior → r < c.irql) := by
  have habove : SetEvent.IrqlTooHigh P.toProgram r prior ↔
      ∀ c, Reachable W c → c.node = prior → r < c.irql :=
    SetEvent.irqlTooHigh_iff.trans (forall_levels_iff hplain hlive)
  have hbelow : Below P r prior ↔
      ∀ c, Reachable W c → c.node = prior → c.irql < r :=
    below_iff.trans (forall_levels_iff hplain hlive)
  exact ⟨and_congr_right fun _ => habove, and_congr_right fun _ => hbelow,
    and_congr_right fun _ => habove⟩

end Runs

/-! ### An example -/

/-- The program in which `helper` is called at `DISPATCH_LEVEL` and requires at most `APC_LEVEL`. -/
def helperAlerts : AlertProgram Activations.WorkRoutine (Fin 13) :=
  { workAboveMax with names_nodup := by decide }

lemma helper_restricted : Restricted helperAlerts IrqlMaxAnnotation 5 4 1 := by
  refine ⟨by decide, by decide, ⟨.helper, by decide, ?_⟩, ?_⟩
  · refine ⟨{ getMacroName := "_IRQL_requires_max_", getUnexpandedArgument := ["APC_LEVEL"] },
      by decide, by decide, by decide, by decide, ?_⟩
    rintro ⟨hwhen, -⟩
    exact absurd hwhen (by decide)
  · rintro ⟨f, -, body, hbody, -⟩
    exact absurd hbody (by simp [helperAlerts])

lemma helper_tooHigh : SetEvent.IrqlTooHigh helperAlerts.toProgram 1 4 := by
  have hlevel : ∀ v, getPotentialExitIrqlAtCfn helperAlerts.toProgram 4 v ↔ v = 2 := by
    intro v
    have hraise : branch helperAlerts.toProgram 4 = .keRaise := by decide
    rw [potential_iff_internal _ (by decide), internal_eq, cascadeBody_branch, hraise]
    exact (Option.mem_some_iff (a := v) (b := 2)).trans eq_comm
  refine SetEvent.irqlTooHigh_iff.mpr ⟨⟨2, (hlevel 2).mpr rfl⟩, fun v hv => ?_⟩
  rw [(hlevel v).mp hv]
  decide

theorem alerts_true_helper : IrqlTooHigh helperAlerts 5 4 1 ∧ (1 : ℤ) < 2 := by
  have hreach : Reachable aboveMaxWorld ⟨4, 2, [⟨1, 0⟩], [(4, 0)]⟩ :=
    reachable_workRuns (by decide)
  have halert : IrqlTooHigh helperAlerts 5 4 1 := ⟨helper_restricted, helper_tooHigh⟩
  exact ⟨halert, (alerts_true (P := helperAlerts) work_plain.toEstimable work_plain.savedOnly
    work_plain.truthful hreach).1 5 1 (.inl halert)⟩

theorem alerts_exact_helper : IrqlTooHigh helperAlerts 5 4 1 := by
  have hruns : ∀ c ∈ workRuns, c.node = 4 → 1 < c.irql := by decide
  have hcopied : ∀ m, ReflTransGen (copiesFrom workAboveMax) 4 m →
      ∃ c ∈ workRuns, c.node = m := by decide +kernel
  refine (alerts_exact (P := helperAlerts) work_plain (fun m hm => ?_) 5 1).1.mpr
    ⟨helper_restricted, fun c hc => hruns c (mem_workRuns hc)⟩
  obtain ⟨c, hc, hcm⟩ := hcopied m hm
  exact ⟨c, reachable_workRuns hc, hcm⟩

end DriverQueries.Alerts
