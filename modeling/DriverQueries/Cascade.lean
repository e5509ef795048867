import DriverQueries.Calls
import DriverQueries.CopyRules
import DriverQueries.EntryLevels

/-!
The IRQL estimate of a control-flow node.

The cascade decides by the kind of node where its levels come from. Only four branches have
levels of their own; the others copy the levels of other nodes: predecessors, predecessors of
the matching raise or save, the exit of a called function, the nodes before the call sites.
So the recursive predicate is the least relation of copying rules, and it is shown to be the
least solution of the equation of the library. The last definition adds the fallback for
nodes in loops where the cascade is silent.
-/

namespace DriverQueries.Cascade

open Relation DriverQueries.Text DriverQueries.Sal DriverQueries.Database DriverQueries.Calls
open DriverQueries.CopyRules DriverQueries.EntryLevels

variable {Fn Node : Type} (P : Program Fn Node)

/-- The cascade's ways of giving a node its levels. -/
inductive Branch
  | keRaise | keLower | restoresGlobal | irqlRestore | raises | requiresSame | call
  | predecessor | caller | allowable | zero
  deriving DecidableEq

/-- `callerPredecessor`: the node comes right before a call of the function. -/
def callerPredecessor (callee : Fn) (n : Node) : Prop :=
  ∃ c ∈ P.getASuccessor n, P.getTarget c = some callee

/-- The scope of the node is an `IrqlRestrictsFunction` with an entry level other than -1. -/
def HasAllowableLevel (n : Node) : Prop :=
  ∃ f ∈ P.getControlFlowScope n, IrqlRestrictsFunction (P.function f) ∧
    ∃ v ∈ getAllowableIrqlLevel P.macros (P.function f), v ≠ -1

variable [DecidableEq Fn] [DecidableEq Node] [Fintype Node]

instance (callee : Fn) : DecidablePred (callerPredecessor P callee) :=
  fun _ => inferInstanceAs (Decidable (∃ c ∈ _, _))
instance : DecidablePred (HasAllowableLevel P) := fun _ => inferInstanceAs (Decidable (∃ f ∈ _, _))

/-- The branch the cascade takes at a node. -/
def branch (n : Node) : Branch :=
  if KeRaiseIrqlCall P n then .keRaise
  else if KeLowerIrqlCall P n then .keLower
  else if RestoresGlobalIrqlCall P n then .restoresGlobal
  else if IrqlRestoreCall P n then .irqlRestore
  else if P.CallTo IrqlRaisesAnnotatedFunction n then .raises
  else if P.CallTo IrqlRequiresSameAnnotatedFunction n then .requiresSame
  else if FunctionCall P n then .call
  else if ∃ m, P.Edge m n then .predecessor
  else if ∃ m, ∃ f ∈ P.getControlFlowScope n, callerPredecessor P f m then .caller
  else if HasAllowableLevel P n then .allowable
  else .zero

omit [DecidableEq Fn] [DecidableEq Node] [Fintype Node] in
lemma no_class_of_not_call {n : Node} (h : ¬ FunctionCall P n) :
    ¬ KeRaiseIrqlCall P n ∧ ¬ KeLowerIrqlCall P n ∧ ¬ RestoresGlobalIrqlCall P n ∧
      ¬ IrqlRestoreCall P n ∧ ∀ cls, ¬ P.CallTo cls n := by
  have hcls : ∀ cls, ¬ P.CallTo cls n := fun cls hc => h (.of_callTo P hc)
  exact ⟨fun hn => h (.of_name P hn), fun hn => h (.of_name P hn), hcls _, hcls _, hcls⟩

lemma branch_of_not_call {n : Node} (h : ¬ FunctionCall P n) :
    branch P n = if ∃ m, P.Edge m n then .predecessor
      else if ∃ m, ∃ f ∈ P.getControlFlowScope n, callerPredecessor P f m then .caller
      else if HasAllowableLevel P n then .allowable
      else .zero := by
  obtain ⟨hraise, hlower, hglobal, hrestore, hcls⟩ := no_class_of_not_call P h
  unfold branch
  rw [if_neg hraise, if_neg hlower, if_neg hglobal, if_neg hrestore, if_neg (hcls _),
    if_neg (hcls _), if_neg h]

lemma branch_of_call {n : Node} (h : FunctionCall P n) (hraise : ¬ KeRaiseIrqlCall P n)
    (hlower : ¬ KeLowerIrqlCall P n) (hglobal : ¬ RestoresGlobalIrqlCall P n)
    (hrestore : ¬ IrqlRestoreCall P n) :
    branch P n = if P.CallTo IrqlRaisesAnnotatedFunction n then .raises
      else if P.CallTo IrqlRequiresSameAnnotatedFunction n then .requiresSame
      else .call := by
  unfold branch
  rw [if_neg hraise, if_neg hlower, if_neg hglobal, if_neg hrestore, if_pos h]

lemma branch_keRaise_iff {n : Node} : branch P n = .keRaise ↔ KeRaiseIrqlCall P n := by
  refine ⟨fun h => ?_, fun h => if_pos h⟩
  by_contra hn
  rw [branch, if_neg hn] at h
  simp only [apply_ite (· = Branch.keRaise), reduceCtorEq, ite_self] at h

lemma callTo_of_branch_raises {n : Node} (h : branch P n = .raises) :
    P.CallTo IrqlRaisesAnnotatedFunction n := by
  by_contra hn
  simp only [branch, if_neg hn, apply_ite (· = Branch.raises), reduceCtorEq, ite_self] at h

lemma callTo_of_branch_requiresSame {n : Node} (h : branch P n = .requiresSame) :
    P.CallTo IrqlRequiresSameAnnotatedFunction n := by
  by_contra hn
  simp only [branch, if_neg hn, apply_ite (· = Branch.requiresSame), reduceCtorEq, ite_self] at h

lemma hasAllowableLevel_of_branch {n : Node} (h : branch P n = .allowable) :
    HasAllowableLevel P n := by
  by_contra hn
  simp only [branch, if_neg hn, apply_ite (· = Branch.allowable), reduceCtorEq, ite_self] at h

lemma branch_of_edge {n m : Node} (h : P.Edge m n) :
    branch P n ≠ .caller ∧ branch P n ≠ .allowable ∧ branch P n ≠ .zero := by
  have hpred : ∃ m, P.Edge m n := ⟨m, h⟩
  refine ⟨fun hb => ?_, fun hb => ?_, fun hb => ?_⟩
  · simp only [branch, if_pos hpred, apply_ite (· = Branch.caller), reduceCtorEq, ite_self] at hb
  · simp only [branch, if_pos hpred, apply_ite (· = Branch.allowable), reduceCtorEq, ite_self] at hb
  · simp only [branch, if_pos hpred, apply_ite (· = Branch.zero), reduceCtorEq, ite_self] at hb

/-- The levels the branch of a node has of its own. -/
def levelSource (n : Node) (v : ℤ) : Prop :=
  match branch P n with
  | .keRaise => v ∈ keRaiseIrqlLevel P n
  | .raises => ∃ g ∈ P.getTarget n, v ∈ annotatedLevels IrqlRaisesAnnotation P.macros (P.function g)
  | .allowable => ∃ f ∈ P.getControlFlowScope n, v ∈ getAllowableIrqlLevel P.macros (P.function f)
  | .zero => v = 0
  | _ => False

/-- The nodes whose levels the branch of a node copies. -/
def copiesFrom (n m : Node) : Prop :=
  match branch P n with
  | .keLower => ∃ kric, getMostRecentRaiseInterprocedural P n kric ∧ P.Edge m kric
  | .restoresGlobal => ∃ sgic, RestoresGlobalIrqlCall.getMostRecentRaise P n sgic ∧ P.Edge m sgic
  | .irqlRestore => ∃ sgic, IrqlRestoreCall.getMostRecentRaise P n sgic ∧ P.Edge m sgic
  | .requiresSame => P.Edge m n
  | .call => ∃ g ∈ P.getTarget n, P.getAnExitPointOfFunction g m
  | .predecessor => P.Edge m n
  | .caller => ∃ f ∈ P.getControlFlowScope n, callerPredecessor P f m
  | _ => False

instance (n : Node) (v : ℤ) : Decidable (levelSource P n v) := by
  unfold levelSource; split <;> infer_instance

instance : DecidableRel (copiesFrom P) := by
  intro n m; unfold copiesFrom; split <;> infer_instance

/-- `getPotentialExitIrqlAtCfnInternal` has the result `v` at the node. -/
def getPotentialExitIrqlAtCfnInternal : Node → ℤ → Prop :=
  Derives (levelSource P) (copiesFrom P)

instance (n : Node) (v : ℤ) : Decidable (getPotentialExitIrqlAtCfnInternal P n v) :=
  decidableDerives n v

/-! ### The equation of the library -/

/-- `functionExitIrql`, for the predicate `self` in place of the cascade. -/
def functionExitIrql (self : Node → ℤ → Prop) (f : Fn) (v : ℤ) : Prop :=
  ∃ m, P.getAnExitPointOfFunction f m ∧ self m v

/-- The values of `self` right before one of the nodes. -/
def Before (self : Node → ℤ → Prop) (nodes : Node → Prop) (v : ℤ) : Prop :=
  ∃ s, nodes s ∧ ∃ m, P.Edge m s ∧ self m v

/-- The body of `getPotentialExitIrqlAtCfnInternal`, with `self` for the recursive calls. -/
def cascadeBody (self : Node → ℤ → Prop) (cfn : Node) (v : ℤ) : Prop :=
  if KeRaiseIrqlCall P cfn then v ∈ keRaiseIrqlLevel P cfn
  else if KeLowerIrqlCall P cfn then
    Before P self (getMostRecentRaiseInterprocedural P cfn) v
  else if RestoresGlobalIrqlCall P cfn then
    Before P self (RestoresGlobalIrqlCall.getMostRecentRaise P cfn) v
  else if IrqlRestoreCall P cfn then
    Before P self (IrqlRestoreCall.getMostRecentRaise P cfn) v
  else if P.CallTo IrqlRaisesAnnotatedFunction cfn then
    ∃ g ∈ P.getTarget cfn, v ∈ annotatedLevels IrqlRaisesAnnotation P.macros (P.function g)
  else if P.CallTo IrqlRequiresSameAnnotatedFunction cfn then ∃ m, P.Edge m cfn ∧ self m v
  else if FunctionCall P cfn then ∃ g ∈ P.getTarget cfn, functionExitIrql P self g v
  else if ∃ m, P.Edge m cfn then ∃ m, P.Edge m cfn ∧ self m v
  else if ∃ m, ∃ f ∈ P.getControlFlowScope cfn, callerPredecessor P f m then
    ∃ m, (∃ f ∈ P.getControlFlowScope cfn, callerPredecessor P f m) ∧ self m v
  else if HasAllowableLevel P cfn then
    ∃ f ∈ P.getControlFlowScope cfn, v ∈ getAllowableIrqlLevel P.macros (P.function f)
  else v = 0

omit [DecidableEq Fn] [DecidableEq Node] [Fintype Node] in
lemma before_iff (self : Node → ℤ → Prop) (nodes : Node → Prop) (v : ℤ) :
    Before P self nodes v ↔ ∃ m, (∃ s, nodes s ∧ P.Edge m s) ∧ self m v := by
  unfold Before
  refine ⟨fun h => ?_, fun h => ?_⟩
  · obtain ⟨s, hs, m, hm, hv⟩ := h
    exact ⟨m, ⟨s, hs, hm⟩, hv⟩
  · obtain ⟨m, ⟨s, hs, hm⟩, hv⟩ := h
    exact ⟨s, hs, m, hm, hv⟩

omit [DecidableEq Fn] [DecidableEq Node] [Fintype Node] in
lemma targetExit_iff (self : Node → ℤ → Prop) (n : Node) (v : ℤ) :
    (∃ g ∈ P.getTarget n, functionExitIrql P self g v) ↔
      ∃ m, (∃ g ∈ P.getTarget n, P.getAnExitPointOfFunction g m) ∧ self m v := by
  unfold functionExitIrql
  refine ⟨fun h => ?_, fun h => ?_⟩
  · obtain ⟨g, hg, m, hm, hv⟩ := h
    exact ⟨m, ⟨g, hg, hm⟩, hv⟩
  · obtain ⟨m, ⟨g, hg, hm⟩, hv⟩ := h
    exact ⟨g, hg, m, hm, hv⟩

/-- The part of the body that is for one branch. -/
def branchBody (self : Node → ℤ → Prop) (cfn : Node) (v : ℤ) : Branch → Prop
  | .keRaise => v ∈ keRaiseIrqlLevel P cfn
  | .keLower => Before P self (getMostRecentRaiseInterprocedural P cfn) v
  | .restoresGlobal => Before P self (RestoresGlobalIrqlCall.getMostRecentRaise P cfn) v
  | .irqlRestore => Before P self (IrqlRestoreCall.getMostRecentRaise P cfn) v
  | .raises =>
    ∃ g ∈ P.getTarget cfn, v ∈ annotatedLevels IrqlRaisesAnnotation P.macros (P.function g)
  | .requiresSame | .predecessor => ∃ m, P.Edge m cfn ∧ self m v
  | .call => ∃ g ∈ P.getTarget cfn, functionExitIrql P self g v
  | .caller => ∃ m, (∃ f ∈ P.getControlFlowScope cfn, callerPredecessor P f m) ∧ self m v
  | .allowable =>
    ∃ f ∈ P.getControlFlowScope cfn, v ∈ getAllowableIrqlLevel P.macros (P.function f)
  | .zero => v = 0

lemma cascadeBody_branch (self : Node → ℤ → Prop) (n : Node) (v : ℤ) :
    cascadeBody P self n v ↔ branchBody P self n v (branch P n) := by
  rw [cascadeBody, branch]
  simp only [apply_ite (branchBody P self n v)]
  rfl

/-- The body has the levels of the node's own and those of the nodes it copies from. -/
lemma cascadeBody_iff (self : Node → ℤ → Prop) (n : Node) (v : ℤ) :
    cascadeBody P self n v ↔ levelSource P n v ∨ ∃ m, copiesFrom P n m ∧ self m v := by
  rw [cascadeBody_branch]
  unfold levelSource copiesFrom
  cases branch P n <;>
    simp only [branchBody, before_iff, targetExit_iff, false_or, false_and, exists_false, or_false]

/-- **The cascade solves the equation of the library.** -/
theorem internal_eq (n : Node) (v : ℤ) :
    getPotentialExitIrqlAtCfnInternal P n v ↔
      cascadeBody P (getPotentialExitIrqlAtCfnInternal P) n v := by
  rw [cascadeBody_iff]
  exact derives_unfold

/-- **The cascade is the least solution.** -/
theorem internal_least {self : Node → ℤ → Prop} (hself : ∀ n v, cascadeBody P self n v → self n v)
    {n : Node} {v : ℤ} (h : getPotentialExitIrqlAtCfnInternal P n v) : self n v :=
  h.least fun m w hw => hself m w ((cascadeBody_iff P self m w).mpr hw)

/-! ### The fallback -/

/-- `Stmt.getParentStmt`. -/
def getParentStmt (n : Node) : Option Node := (P.getParent n).filter P.isStmt

/-- The two statements have one parent statement. -/
def Siblings (s t : Node) : Prop := ∃ p ∈ getParentStmt P s, p ∈ getParentStmt P t

/-- `cfnStmt.getParent+() = l`. -/
def ParentPlus (s l : Node) : Prop := TransGen (fun x y => y ∈ P.getParent x) s l

instance : DecidableRel (Siblings P) := fun _ _ => inferInstanceAs (Decidable (∃ p ∈ _, _))
instance : DecidableRel (ParentPlus P) := fun _ _ => inferInstanceAs (Decidable (TransGen _ _ _))

def astLevelExitIrqlFallback (cfn : Node) (v : ℤ) : Prop :=
  ∃ cfnStmt ∈ P.getEnclosingStmt cfn, ∃ prev l, P.isStmt prev ∧ P.isLoop l ∧
    ParentPlus P cfnStmt l ∧ Siblings P prev cfnStmt ∧
    P.startLine prev < P.startLine cfnStmt ∧
    (¬ ∃ closer, P.isStmt closer ∧ Siblings P closer cfnStmt ∧
      P.startLine closer < P.startLine cfnStmt ∧ P.startLine prev < P.startLine closer) ∧
    getPotentialExitIrqlAtCfnInternal P prev v

/-- `getPotentialExitIrqlAtCfn` has the result `v` at the node. -/
def getPotentialExitIrqlAtCfn (cfn : Node) (v : ℤ) : Prop :=
  getPotentialExitIrqlAtCfnInternal P cfn v ∨
    ((¬ ∃ w, getPotentialExitIrqlAtCfnInternal P cfn w) ∧ astLevelExitIrqlFallback P cfn v)

/-- A property of levels that holds wherever they arise holds of every result. -/
lemma potential_of_source {p : ℤ → Prop} (hp : ∀ n v, levelSource P n v → p v) {n : Node} {v : ℤ}
    (h : getPotentialExitIrqlAtCfn P n v) : p v := by
  obtain h | ⟨-, h⟩ := h
  · exact h.of_source hp
  · obtain ⟨s, hs, prev, l, -, -, -, -, -, -, h⟩ := h
    exact h.of_source hp

lemma potential_iff_internal {n : Node} {v : ℤ}
    (h : ∀ s ∈ P.getEnclosingStmt n, P.getParent s = none) :
    getPotentialExitIrqlAtCfn P n v ↔ getPotentialExitIrqlAtCfnInternal P n v := by
  refine ⟨fun hv => ?_, Or.inl⟩
  obtain hv | ⟨-, s, hs, prev, l, -, -, -, hsib, -⟩ := hv
  · exact hv
  · obtain ⟨p, -, hp⟩ := hsib
    simp [getParentStmt, h s hs] at hp

end DriverQueries.Cascade
