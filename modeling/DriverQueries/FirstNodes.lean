import DriverQueries.Totality

/-!
The reports about functions that set the IRQL too high or too low.

Two queries look for the nodes of a function at which all estimated levels are above, or below,
what its annotations allow, and keep only the first ones: those that no such node leads to. In
a loop every violating node can be led to by another one. Here it is shown that a violation is
hidden exactly when the cycles of violating nodes lead to all violating nodes.
-/

namespace DriverQueries.FirstNodes

open Relation DriverQueries.Text DriverQueries.Sal DriverQueries.Database DriverQueries.Calls
open DriverQueries.Paths DriverQueries.CopyRules DriverQueries.EntryLevels
open DriverQueries.Cascade DriverQueries.Totality

variable {Fn Node : Type} [DecidableEq Fn] [DecidableEq Node] [Fintype Node]
variable (P : Program Fn Node) (irqlFunc : Fn)

/-! ### The two queries -/

def tooHighForFunc (irqlRequirement : ℤ) (statement : Node) : Prop :=
  IrqlRestrictsFunction (P.function irqlFunc) ∧
    P.getControlFlowScope statement = some irqlFunc ∧
    (∃ least, IsLeast {v | getPotentialExitIrqlAtCfn P statement v} least ∧
      irqlRequirement < least) ∧
    irqlRequirement ≠ -1

def tooLowForFunc (irqlRequirement : ℤ) (statement : Node) : Prop :=
  IrqlRestrictsFunction (P.function irqlFunc) ∧
    P.getControlFlowScope statement = some irqlFunc ∧
    (∃ greatest, IsGreatest {v | getPotentialExitIrqlAtCfn P statement v} greatest ∧
      irqlRequirement > greatest) ∧
    irqlRequirement ≠ -1

/-- The levels that `IrqlSetTooHigh` compares with. A raising annotation counts where no other
maximum is given, unless the function requires a minimum above the level it raises to. -/
def HighRequirement (irqlRequirement : ℤ) : Prop :=
  irqlRequirement ∈ annotatedLevels IrqlAlwaysMaxAnnotation P.macros (P.function irqlFunc) ∨
    (¬ IrqlAlwaysMaxFunction (P.function irqlFunc) ∧
      irqlRequirement ∈ annotatedLevels IrqlRaisesAnnotation P.macros (P.function irqlFunc) ∧
      ¬ ∃ minAnno ∈ getFuncIrqlAnnotation (P.function irqlFunc), IrqlMinAnnotation minAnno ∧
        ∃ level ∈ getIrqlLevel P.macros minAnno, irqlRequirement < level)

/-- The levels that `IrqlSetTooLow` compares with. -/
def LowRequirement (irqlRequirement : ℤ) : Prop :=
  irqlRequirement ∈ annotatedLevels IrqlAlwaysMinAnnotation P.macros (P.function irqlFunc)

def NoOtherNode (violates : Node → Prop) (statement : Node) : Prop :=
  ¬ ∃ otherNode, P.getControlFlowScope otherNode = some irqlFunc ∧
    P.Edge otherNode statement ∧ violates otherNode

/-- `IrqlSetTooHigh` selects the node. -/
def IrqlSetTooHigh (irqlRequirement : ℤ) (statement : Node) : Prop :=
  HighRequirement P irqlFunc irqlRequirement ∧ tooHighForFunc P irqlFunc irqlRequirement statement ∧
    NoOtherNode P irqlFunc (tooHighForFunc P irqlFunc irqlRequirement) statement

def IrqlSetTooLow (irqlRequirement : ℤ) (statement : Node) : Prop :=
  LowRequirement P irqlFunc irqlRequirement ∧ tooLowForFunc P irqlFunc irqlRequirement statement ∧
    NoOtherNode P irqlFunc (tooLowForFunc P irqlFunc irqlRequirement) statement

/-- Some node that is reached from the entry of the function violates. -/
def ReachableViolation (violates : Node → Prop) : Prop :=
  ∃ b ∈ P.getBlock irqlFunc, ∃ n, ReflTransGen P.Edge b n ∧ violates n

/-- Inside the set of violating nodes, cycles lead to all of them. -/
def AllAfterCycles (violates : Node → Prop) : Prop :=
  ∀ n, violates n → AfterCycle P.Edge violates n

variable {P irqlFunc}

/-! ### When a violation is hidden -/

omit [DecidableEq Fn] [DecidableEq Node] [Fintype Node] in
/-- Where violations stay in the function, the kept nodes are the first ones. -/
lemma first_iff {violates : Node → Prop} {statement : Node}
    (hscope : ∀ n, violates n → P.getControlFlowScope n = some irqlFunc) :
    violates statement ∧ NoOtherNode P irqlFunc violates statement ↔
      First P.Edge violates statement := by
  refine and_congr_right fun _ => not_congr ⟨fun h => ?_, fun h => ?_⟩
  · obtain ⟨n, -, hedge, hn⟩ := h
    exact ⟨n, hn, hedge⟩
  · obtain ⟨n, hn, hedge⟩ := h
    exact ⟨n, hscope n hn, hedge, hn⟩

omit [DecidableEq Fn] [DecidableEq Node] in
lemma kept_of_violation_iff {violates : Node → Prop}
    (hscope : ∀ n, violates n → P.getControlFlowScope n = some irqlFunc) :
    (ReachableViolation P irqlFunc violates →
        ∃ n, violates n ∧ NoOtherNode P irqlFunc violates n) ↔
      (ReachableViolation P irqlFunc violates → ¬ AllAfterCycles P violates) := by
  refine imp_congr_right fun _ => ?_
  simp only [first_iff hscope, exists_first_iff, AllAfterCycles, not_forall, exists_prop]

/-- **A reachable violation has a selected node iff the cycles of violating nodes do not lead to
all violating nodes**, for both queries. -/
theorem selected_of_violation_iff (irqlRequirement : ℤ) :
    ((HighRequirement P irqlFunc irqlRequirement →
        ReachableViolation P irqlFunc (tooHighForFunc P irqlFunc irqlRequirement) →
          ∃ n, IrqlSetTooHigh P irqlFunc irqlRequirement n) ↔
      (HighRequirement P irqlFunc irqlRequirement →
        ReachableViolation P irqlFunc (tooHighForFunc P irqlFunc irqlRequirement) →
          ¬ AllAfterCycles P (tooHighForFunc P irqlFunc irqlRequirement))) ∧
    ((LowRequirement P irqlFunc irqlRequirement →
        ReachableViolation P irqlFunc (tooLowForFunc P irqlFunc irqlRequirement) →
          ∃ n, IrqlSetTooLow P irqlFunc irqlRequirement n) ↔
      (LowRequirement P irqlFunc irqlRequirement →
        ReachableViolation P irqlFunc (tooLowForFunc P irqlFunc irqlRequirement) →
          ¬ AllAfterCycles P (tooLowForFunc P irqlFunc irqlRequirement))) := by
  refine ⟨imp_congr_right fun hreq => ?_, imp_congr_right fun hreq => ?_⟩
  · rw [← kept_of_violation_iff fun n hn => hn.2.1]
    simp only [IrqlSetTooHigh, and_iff_right hreq]
  · rw [← kept_of_violation_iff fun n hn => hn.2.1]
    simp only [IrqlSetTooLow, and_iff_right hreq]

/-! ### A hidden violation -/

inductive LoopFn
  | routine | lower | raise
  deriving DecidableEq

/-- `_IRQL_always_function_max_(APC_LEVEL) void routine(KIRQL old)
{ KeLowerIrql(old); while (more) { KeRaiseIrqlToDPCLevel(); } }`. The nodes are the body, the
lowering statement with its argument and call, the loop with its condition, the raising statement
and its call, and the exits of the three functions. -/
def raiseInLoop : Program LoopFn (Fin 11) where
  macros := wdm
  function
    | .routine =>
      { getName := "routine", getParameter := [⟨"old", []⟩], declAnnotations :=
          [{ getMacroName := "_IRQL_always_function_max_",
             getUnexpandedArgument := ["APC_LEVEL"] }] }
    | .lower => { getName := "KeLowerIrql" }
    | .raise => { getName := "KeRaiseIrqlToDPCLevel" }
  getBlock f := if f = .routine then some 0 else none
  exitNode
    | .routine => 8
    | .lower => 9
    | .raise => 10
  getASuccessor n := if n < 5 then [n + 1] else if n = 5 then [6, 8] else if n = 6 then [7]
    else if n = 7 then [5] else []
  getControlFlowScope n := some (if n = 9 then .lower else if n = 10 then .raise else .routine)
  getTarget n := if n = 3 then some .lower else if n = 7 then some .raise else none
  getArgument n := if n = 3 then [2] else []
  getEnclosingStmt n := if n = 0 then some 0 else if n < 4 then some 1 else if n < 6 then some 4
    else if n < 8 then some 6 else none
  getParent n := if n = 1 ∨ n = 4 then some 0 else if n = 6 then some 4 else none
  isStmt n := n = 0 ∨ n = 1 ∨ n = 4 ∨ n = 6
  isLoop n := n = 4
  startLine n := n
  successor_scope := by decide
  exit_scope f := by cases f <;> decide
  exit_enclosing f := by cases f <;> decide
  block_scope f := by cases f <;> decide
  block_enclosing f := by cases f <;> decide

/-- The nodes of the loop from its condition on, and the exit behind it. -/
def afterRaise (n : Fin 11) : Prop := n = 5 ∨ n = 6 ∨ n = 7 ∨ n = 8

instance : DecidablePred afterRaise := fun _ => inferInstanceAs (Decidable (_ ∨ _))

/-- They are at the level of the raise. -/
lemma raiseInLoop_two {n : Fin 11} (hn : afterRaise n) (v : ℤ) :
    getPotentialExitIrqlAtCfn raiseInLoop n v ↔ v = 2 := by
  have hlevels : ∀ n, afterRaise n → ReflTransGen (copiesFrom raiseInLoop) n 7 ∧
      ∀ m, ReflTransGen (copiesFrom raiseInLoop) n m → HasOwnLevel raiseInLoop m → m = 7 := by
    decide +kernel
  have hraise : ∀ w, levelSource raiseInLoop 7 w ↔ w = 2 := by
    intro w
    unfold levelSource
    rw [show branch raiseInLoop 7 = .keRaise by decide]
    exact Option.mem_some_iff.trans eq_comm
  obtain ⟨hreach, honly⟩ := hlevels n hn
  have htwo : getPotentialExitIrqlAtCfnInternal raiseInLoop n 2 :=
    derives_iff_reach.mpr ⟨7, hreach, (hraise 2).mpr rfl⟩
  refine ⟨fun h => ?_, fun h => h ▸ Or.inl htwo⟩
  obtain h | ⟨hsilent, -⟩ := h
  · obtain ⟨m, hm, hv⟩ := derives_iff_reach.mp h
    obtain rfl := honly m hm (exists_levelSource_iff.mp ⟨v, hv⟩)
    exact (hraise v).mp hv
  · exact absurd ⟨2, htwo⟩ hsilent

lemma raiseInLoop_before {n : Fin 11} (hn : ¬ afterRaise n)
    (hscope : raiseInLoop.getControlFlowScope n = some .routine) :
    getPotentialExitIrqlAtCfn raiseInLoop n 0 ∨
      ¬ ∃ v, getPotentialExitIrqlAtCfn raiseInLoop n v := by
  have hcases : ∀ n, ¬ afterRaise n → raiseInLoop.getControlFlowScope n = some .routine →
      getPotentialExitIrqlAtCfnInternal raiseInLoop n 0 ∨
        ¬ (LeadsToLevel raiseInLoop n ∨
          ∃ prev, ClosestBefore raiseInLoop n prev ∧ LeadsToLevel raiseInLoop prev) := by
    decide +kernel
  rw [exists_potential_iff]
  exact (hcases n hn hscope).imp_left Or.inl

lemma raiseInLoop_tooHigh (n : Fin 11) :
    tooHighForFunc raiseInLoop .routine 1 n ↔ afterRaise n := by
  refine ⟨fun h => ?_, fun h => ?_⟩
  · obtain ⟨-, hscope, ⟨least, hleast, hlt⟩, -⟩ := h
    by_contra hn
    obtain hzero | hsilent := raiseInLoop_before hn hscope
    · have := hleast.2 hzero
      omega
    · exact hsilent ⟨least, hleast.1⟩
  · have hscope : ∀ n, afterRaise n → raiseInLoop.getControlFlowScope n = some .routine := by decide
    refine ⟨by decide, hscope n h, ⟨2, ⟨(raiseInLoop_two h 2).mpr rfl, fun v hv => ?_⟩, by omega⟩,
      by omega⟩
    exact ((raiseInLoop_two h v).mp hv).ge

/-- The raise in the loop is above the level the function is never to exceed, and nothing is
selected: the condition of the loop, reached from the raise only, leads back to it. -/
theorem raiseInLoop_hidden :
    HighRequirement raiseInLoop .routine 1 ∧
      ReachableViolation raiseInLoop .routine (tooHighForFunc raiseInLoop .routine 1) ∧
      ¬ ∃ n, IrqlSetTooHigh raiseInLoop .routine 1 n := by
  refine ⟨Or.inl (by decide), ⟨0, rfl, 7, by decide, (raiseInLoop_tooHigh 7).mpr (by decide)⟩, ?_⟩
  rintro ⟨n, -, hn, hfirst⟩
  have hbefore : ∀ n, afterRaise n → ∃ m, afterRaise m ∧ raiseInLoop.Edge m n := by decide
  obtain ⟨m, hm, hedge⟩ := hbefore n ((raiseInLoop_tooHigh n).mp hn)
  have hviolates := (raiseInLoop_tooHigh m).mpr hm
  exact hfirst ⟨m, hviolates.2.1, hedge, hviolates⟩

end DriverQueries.FirstNodes
