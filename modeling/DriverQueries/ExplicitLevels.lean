import DriverQueries.Cascade

/-!
The cascade of explicit levels, against the cascade of all estimates.

The explicit cascade has no branch for calls without annotations, and no levels for nodes that
nothing comes before. So past such a call it goes on to the nodes before the call, while the
other cascade goes on to the exit of the called function. Where it meets no such call it is a
restriction of the other one.
-/

namespace DriverQueries.ExplicitLevels

open Relation DriverQueries.Sal DriverQueries.Database DriverQueries.Calls
open DriverQueries.CopyRules DriverQueries.EntryLevels DriverQueries.Cascade

variable {Fn Node : Type} (P : Program Fn Node) [DecidableEq Fn] [DecidableEq Node] [Fintype Node]

def explicitBranch (n : Node) : Branch :=
  match branch P n with
  | .call | .allowable | .zero => if ∃ m, P.Edge m n then .predecessor else .caller
  | b => b

def explicitSource (n : Node) (v : ℤ) : Prop :=
  match explicitBranch P n with
  | .keRaise => v ∈ keRaiseIrqlLevel P n
  | .raises => ∃ g ∈ P.getTarget n, v ∈ annotatedLevels IrqlRaisesAnnotation P.macros (P.function g)
  | _ => False

def explicitCopies (n m : Node) : Prop :=
  match explicitBranch P n with
  | .keLower => ∃ kric, getMostRecentRaiseInterprocedural P n kric ∧ P.Edge m kric
  | .restoresGlobal => ∃ sgic, RestoresGlobalIrqlCall.getMostRecentRaise P n sgic ∧ P.Edge m sgic
  | .irqlRestore => ∃ sgic, IrqlRestoreCall.getMostRecentRaise P n sgic ∧ P.Edge m sgic
  | .requiresSame => P.Edge m n
  | .predecessor => P.Edge m n
  | .caller => ∃ f ∈ P.getControlFlowScope n, callerPredecessor P f m
  | _ => False

instance (n : Node) (v : ℤ) : Decidable (explicitSource P n v) := by
  unfold explicitSource; split <;> infer_instance

instance : DecidableRel (explicitCopies P) := by
  intro n m; unfold explicitCopies; split <;> infer_instance

def getExplicitExitIrqlAtCfn : Node → ℤ → Prop :=
  Derives (explicitSource P) (explicitCopies P)

instance (n : Node) (v : ℤ) : Decidable (getExplicitExitIrqlAtCfn P n v) := decidableDerives n v

/-! ### The equation of the library -/

/-- The body of `getExplicitExitIrqlAtCfn`, with `self` for the recursive calls. -/
def explicitBody (self : Node → ℤ → Prop) (cfn : Node) (v : ℤ) : Prop :=
  if KeRaiseIrqlCall P cfn then v ∈ keRaiseIrqlLevel P cfn
  else if KeLowerIrqlCall P cfn then
    Before P self (getMostRecentRaiseInterprocedural P cfn) v
  else if RestoresGlobalIrqlCall P cfn then
    Before P self (RestoresGlobalIrqlCall.getMostRecentRaise P cfn) v
  else if IrqlRestoreCall P cfn then
    Before P self (IrqlRestoreCall.getMostRecentRaise P cfn) v
  else if P.CallTo IrqlRaisesAnnotatedFunction cfn then
    ∃ g ∈ P.getTarget cfn, v ∈ annotatedLevels IrqlRaisesAnnotation P.macros (P.function g)
  else if P.CallTo IrqlRequiresSameAnnotatedFunction cfn then ∃ m, P.Edge m cfn ∧ self m v
  else if ∃ m, P.Edge m cfn then ∃ m, P.Edge m cfn ∧ self m v
  else ∃ m, (∃ f ∈ P.getControlFlowScope cfn, callerPredecessor P f m) ∧ self m v

lemma explicitBranch_of_last {n : Node} (hraise : ¬ KeRaiseIrqlCall P n)
    (hlower : ¬ KeLowerIrqlCall P n) (hglobal : ¬ RestoresGlobalIrqlCall P n)
    (hrestore : ¬ IrqlRestoreCall P n) (hraises : ¬ P.CallTo IrqlRaisesAnnotatedFunction n)
    (hsame : ¬ P.CallTo IrqlRequiresSameAnnotatedFunction n) :
    explicitBranch P n = if ∃ m, P.Edge m n then .predecessor else .caller := by
  unfold explicitBranch branch
  rw [if_neg hraise, if_neg hlower, if_neg hglobal, if_neg hrestore, if_neg hraises, if_neg hsame]
  by_cases hcall : FunctionCall P n
  · simp only [if_pos hcall]
  by_cases hpred : ∃ m, P.Edge m n
  · simp only [if_neg hcall, if_pos hpred]
  simp only [if_neg hcall, if_neg hpred]
  split_ifs <;> rfl

lemma explicitBody_iff (self : Node → ℤ → Prop) (n : Node) (v : ℤ) :
    explicitBody P self n v ↔ explicitSource P n v ∨ ∃ m, explicitCopies P n m ∧ self m v := by
  by_cases hraise : KeRaiseIrqlCall P n
  · simp only [explicitBody, explicitSource, explicitCopies, explicitBranch, branch, if_pos hraise,
      false_and, exists_false, or_false]
  by_cases hlower : KeLowerIrqlCall P n
  · simp only [explicitBody, explicitSource, explicitCopies, explicitBranch, branch, if_neg hraise,
      if_pos hlower, before_iff, false_or]
  by_cases hglobal : RestoresGlobalIrqlCall P n
  · simp only [explicitBody, explicitSource, explicitCopies, explicitBranch, branch, if_neg hraise,
      if_neg hlower, if_pos hglobal, before_iff, false_or]
  by_cases hrestore : IrqlRestoreCall P n
  · simp only [explicitBody, explicitSource, explicitCopies, explicitBranch, branch, if_neg hraise,
      if_neg hlower, if_neg hglobal, if_pos hrestore, before_iff, false_or]
  by_cases hraises : P.CallTo IrqlRaisesAnnotatedFunction n
  · simp only [explicitBody, explicitSource, explicitCopies, explicitBranch, branch, if_neg hraise,
      if_neg hlower, if_neg hglobal, if_neg hrestore, if_pos hraises, false_and, exists_false,
      or_false]
  by_cases hsame : P.CallTo IrqlRequiresSameAnnotatedFunction n
  · simp only [explicitBody, explicitSource, explicitCopies, explicitBranch, branch, if_neg hraise,
      if_neg hlower, if_neg hglobal, if_neg hrestore, if_neg hraises, if_pos hsame, false_or]
  have hbranch := explicitBranch_of_last P hraise hlower hglobal hrestore hraises hsame
  unfold explicitBody explicitSource explicitCopies
  rw [hbranch, if_neg hraise, if_neg hlower, if_neg hglobal, if_neg hrestore, if_neg hraises,
    if_neg hsame]
  split_ifs <;> simp only [false_or]

/-- **The relation solves the equation of the library.** -/
theorem explicit_eq (n : Node) (v : ℤ) :
    getExplicitExitIrqlAtCfn P n v ↔ explicitBody P (getExplicitExitIrqlAtCfn P) n v := by
  rw [explicitBody_iff]
  exact derives_unfold

/-- **It is the least solution.** -/
theorem explicit_least {self : Node → ℤ → Prop} (hself : ∀ n v, explicitBody P self n v → self n v)
    {n : Node} {v : ℤ} (h : getExplicitExitIrqlAtCfn P n v) : self n v :=
  h.least fun m w hw => hself m w ((explicitBody_iff P self m w).mpr hw)

/-! ### Comparison -/

/-- A call for which the other cascade asks the exit of the called function. -/
def UnannotatedCall (n : Node) : Prop := branch P n = .call

instance : DecidablePred (UnannotatedCall P) := fun _ => inferInstanceAs (Decidable (_ = _))

variable {P} {n m : Node} {v : ℤ}

/-- Nothing comes before a node with an entry level, so the explicit cascade is silent there. -/
lemma explicit_of_entry (h : branch P n = .allowable ∨ branch P n = .zero) :
    explicitBranch P n = .caller ∧
      ¬ ∃ m, ∃ f ∈ P.getControlFlowScope n, callerPredecessor P f m := by
  have hedge : ¬ ∃ m, P.Edge m n := by
    rintro ⟨m, hm⟩
    obtain ⟨-, hallow, hzero⟩ := branch_of_edge P hm
    exact h.elim hallow hzero
  refine ⟨?_, fun hcaller => ?_⟩
  · unfold explicitBranch
    rcases h with h | h <;> simp only [h, if_neg hedge]
  · rcases h with h | h <;>
      simp only [branch, if_pos hcaller, apply_ite (· = Branch.allowable),
        apply_ite (· = Branch.zero), reduceCtorEq, ite_self] at h

lemma explicitBranch_eq (hcall : ¬ UnannotatedCall P n)
    (hentry : ¬ (branch P n = .allowable ∨ branch P n = .zero)) :
    explicitBranch P n = branch P n := by
  unfold explicitBranch
  split
  · next h => exact absurd h hcall
  · next h => exact absurd (.inl h) hentry
  · next h => exact absurd (.inr h) hentry
  · rfl

lemma levelSource_of_explicit (hcall : ¬ UnannotatedCall P n) (h : explicitSource P n v) :
    levelSource P n v := by
  unfold explicitSource at h
  by_cases hentry : branch P n = .allowable ∨ branch P n = .zero
  · rw [(explicit_of_entry hentry).1] at h
    exact h.elim
  · rw [explicitBranch_eq hcall hentry] at h
    unfold levelSource
    cases hbranch : branch P n <;> rw [hbranch] at h <;> first | exact h | exact h.elim

lemma copiesFrom_of_explicit (hcall : ¬ UnannotatedCall P n) (h : explicitCopies P n m) :
    copiesFrom P n m := by
  unfold explicitCopies at h
  by_cases hentry : branch P n = .allowable ∨ branch P n = .zero
  · obtain ⟨hbranch, hnone⟩ := explicit_of_entry hentry
    rw [hbranch] at h
    exact absurd ⟨m, h⟩ hnone
  · rw [explicitBranch_eq hcall hentry] at h
    unfold copiesFrom
    cases hbranch : branch P n <;> rw [hbranch] at h <;> first | exact h | exact h.elim

/-- **Where the explicit copying from a node meets no call without annotations, every explicit level
of the node is among its levels.** -/
theorem explicit_subset_potential
    (hcalls : ∀ c, ReflTransGen (explicitCopies P) n c → ¬ UnannotatedCall P c) :
    ∀ v, getExplicitExitIrqlAtCfn P n v → getPotentialExitIrqlAtCfn P n v := by
  intro v h
  rcases h.or_past (fun _ _ => levelSource_of_explicit) (fun _ _ => copiesFrom_of_explicit) with
    h | ⟨c, hc, hcall, -⟩
  · exact .inl h
  · exact absurd hcall (hcalls c (ReflTransGen.mono (fun _ _ hstep => hstep.2) _ _ hc))

/-! ### A call in between -/

inductive Routine
  | work | raise | keRaiseIrql | keRaiseIrqlToDPCLevel
  deriving DecidableEq

inductive Place
  | workBody | raiseToApc | apcLevel | callOfRaise | workExit
  | raiseBody | raiseToDpc | raiseExit | keRaiseExit | keRaiseToDpcExit
  deriving DecidableEq

instance : Fintype Routine :=
  ⟨{.work, .raise, .keRaiseIrql, .keRaiseIrqlToDPCLevel}, fun f => by cases f <;> decide⟩

instance : Fintype Place :=
  ⟨{.workBody, .raiseToApc, .apcLevel, .callOfRaise, .workExit, .raiseBody, .raiseToDpc,
    .raiseExit, .keRaiseExit, .keRaiseToDpcExit}, fun n => by cases n <;> decide⟩

/-- `void work() { KeRaiseIrql(APC_LEVEL, &old); raise(); }`, with
`void raise() { KeRaiseIrqlToDPCLevel(); }`. -/
def raiseInCallee : Program Routine Place where
  function
    | .work => { getName := "work" }
    | .raise => { getName := "raise" }
    | .keRaiseIrql => { getName := "KeRaiseIrql" }
    | .keRaiseIrqlToDPCLevel => { getName := "KeRaiseIrqlToDPCLevel" }
  getBlock
    | .work => some .workBody
    | .raise => some .raiseBody
    | _ => none
  exitNode
    | .work => .workExit
    | .raise => .raiseExit
    | .keRaiseIrql => .keRaiseExit
    | .keRaiseIrqlToDPCLevel => .keRaiseToDpcExit
  getASuccessor
    | .workBody => [.raiseToApc]
    | .raiseToApc => [.callOfRaise]
    | .callOfRaise => [.workExit]
    | .raiseBody => [.raiseToDpc]
    | .raiseToDpc => [.raiseExit]
    | _ => []
  getControlFlowScope
    | .raiseBody | .raiseToDpc | .raiseExit => some .raise
    | .keRaiseExit => some .keRaiseIrql
    | .keRaiseToDpcExit => some .keRaiseIrqlToDPCLevel
    | _ => some .work
  getTarget
    | .raiseToApc => some .keRaiseIrql
    | .callOfRaise => some .raise
    | .raiseToDpc => some .keRaiseIrqlToDPCLevel
    | _ => none
  getArgument n := if n = .raiseToApc then [.apcLevel] else []
  literalValue n := if n = .apcLevel then some "1" else none
  successor_scope := by decide
  exit_scope := by decide
  exit_enclosing := by decide
  block_scope := by decide
  block_enclosing := by decide

theorem explicit_subset_potential_raiseExit :
    getPotentialExitIrqlAtCfn raiseInCallee .raiseExit 2 :=
  explicit_subset_potential (by decide) 2
    (.copy (m := .raiseToDpc) (by decide) (.arise (by decide)))

/-- After the call of `raise` the explicit level is the one before it. -/
theorem explicit_not_potential :
    getExplicitExitIrqlAtCfn raiseInCallee .callOfRaise 1 ∧
      ¬ getPotentialExitIrqlAtCfn raiseInCallee .callOfRaise 1 := by
  constructor
  · exact .copy (m := .raiseToApc) (by decide) (.arise (by decide))
  · rw [potential_iff_internal _ (by decide)]
    decide +kernel

end DriverQueries.ExplicitLevels
