import DriverQueries.Sal

/-!
The database the IRQL library reads.

A program is a set of functions and a set of control-flow nodes. Expressions and statements
are nodes, a call is a node with a target, and every function is a node of its own, the exit
of its control flow. Edges stay inside one function. What the extractor knows and the library
only looks up (texts, arguments, parents, lines, data flow) are fields.
-/

namespace DriverQueries.Database

open DriverQueries.Text DriverQueries.Sal

/-! ### Functions -/

structure Parameter where
  getName : String
  annotations : List SALAnnotation := []
  deriving DecidableEq

/-- A function with the annotations of its declaration entries, of the typedefs these use,
and of the role type it is expected to have where it is assigned to a dispatch table. -/
structure FunctionInfo where
  getName : String
  getParameter : List Parameter := []
  declAnnotations : List SALAnnotation := []
  typedefAnnotations : List SALAnnotation := []
  roleTypeAnnotations : List SALAnnotation := []
  pagedFunctionDeclaration : Bool := false
  deriving DecidableEq

variable (f : FunctionInfo) (ms : List Macro)

/-- `IrqlRestrictsFunction.getFuncIrqlAnnotation`. -/
def getFuncIrqlAnnotation : List SALAnnotation :=
  (f.declAnnotations ++ f.typedefAnnotations ++ f.roleTypeAnnotations).filter
    fun a => IrqlFunctionAnnotation a

def IrqlRestrictsFunction : Prop := getFuncIrqlAnnotation f ≠ []

instance : DecidablePred IrqlRestrictsFunction := fun _ => inferInstanceAs (Decidable (¬ _))

def AnnotatedFunction (cls : SALAnnotation → Prop) (f : FunctionInfo) : Prop :=
  ∃ a ∈ getFuncIrqlAnnotation f, cls a

instance (cls : SALAnnotation → Prop) [DecidablePred cls] :
    DecidablePred (AnnotatedFunction cls) :=
  fun _ => inferInstanceAs (Decidable (∃ a ∈ _, _))

/-- `getIrqlLevel` of a function restricted by annotations of the class. -/
def annotatedLevels (cls : SALAnnotation → Prop) [DecidablePred cls] (ms : List Macro)
    (f : FunctionInfo) : List ℤ :=
  getFuncIrqlAnnotation f |>.filter (fun a => cls a) |>.flatMap (getIrqlLevel ms)

lemma mem_annotatedLevels {cls : SALAnnotation → Prop} [DecidablePred cls] {v : ℤ} :
    v ∈ annotatedLevels cls ms f ↔
      ∃ a ∈ getFuncIrqlAnnotation f, cls a ∧ v ∈ getIrqlLevel ms a := by
  simp only [annotatedLevels, List.mem_flatMap, List.mem_filter, decide_eq_true_eq, and_assoc]

abbrev IrqlRequiresAnnotatedFunction := AnnotatedFunction IrqlRequiresAnnotation
abbrev IrqlRaisesAnnotatedFunction := AnnotatedFunction IrqlRaisesAnnotation
abbrev IrqlAlwaysMaxFunction := AnnotatedFunction IrqlAlwaysMaxAnnotation

def IrqlRequiresSameAnnotatedFunction : Prop := ∃ a ∈ f.declAnnotations, IrqlSameAnnotation a

instance : DecidablePred IrqlRequiresSameAnnotatedFunction :=
  fun _ => inferInstanceAs (Decidable (∃ a ∈ _, _))

/-- The fields `irqlKind` and `irqlParamIndex` of a function whose declaration carries an
annotation of the class: its first argument and the parameters its second one names. -/
def globalFields (cls : SALAnnotation → Prop) [DecidablePred cls] (f : FunctionInfo) :
    List (String × ℕ) :=
  (f.declAnnotations.filter fun a => cls a).flatMap fun a =>
    a.getExpandedArgument[0]?.toList.flatMap fun irqlKind =>
      a.getExpandedArgument[1]?.toList.flatMap fun arg =>
        (f.getParameter.zipIdx.filter fun p => matchesPattern p.1.getName arg).map
          fun p => (irqlKind, p.2)

def IrqlSavesGlobalAnnotatedFunction : Prop := globalFields IrqlSavesGlobalAnnotation f ≠ []

def IrqlRestoresGlobalAnnotatedFunction : Prop :=
  globalFields IrqlRestoresGlobalAnnotation f ≠ []

instance : DecidablePred IrqlSavesGlobalAnnotatedFunction :=
  fun _ => inferInstanceAs (Decidable (¬ _))
instance : DecidablePred IrqlRestoresGlobalAnnotatedFunction :=
  fun _ => inferInstanceAs (Decidable (¬ _))

/-- The indices of the parameters with an annotation of the class. -/
def parameterSlots (cls : SALAnnotation → Prop) [DecidablePred cls] (f : FunctionInfo) :
    List ℕ :=
  (f.getParameter.zipIdx.filter fun p => ∃ a ∈ p.1.annotations, cls a).map (·.2)

def IrqlSavesToParameterFunction : Prop := parameterSlots IrqlSaveAnnotation f ≠ []

def IrqlSavesViaReturnFunction : Prop := ∃ a ∈ f.declAnnotations, IrqlSaveAnnotation a

def IrqlRestoreAnnotatedFunction : Prop := parameterSlots IrqlRestoreAnnotation f ≠ []

instance : DecidablePred IrqlSavesToParameterFunction :=
  fun _ => inferInstanceAs (Decidable (¬ _))
instance : DecidablePred IrqlSavesViaReturnFunction :=
  fun _ => inferInstanceAs (Decidable (∃ a ∈ _, _))
instance : DecidablePred IrqlRestoreAnnotatedFunction :=
  fun _ => inferInstanceAs (Decidable (¬ _))

def IrqlSavesFunction : Prop := IrqlSavesToParameterFunction f ∨ IrqlSavesViaReturnFunction f

/-- `IrqlChangesFunction`, the union of its subclasses. -/
def IrqlChangesFunction : Prop :=
  IrqlRaisesAnnotatedFunction f ∨ IrqlSavesGlobalAnnotatedFunction f ∨
    IrqlRestoresGlobalAnnotatedFunction f

instance : DecidablePred IrqlSavesFunction := fun _ => inferInstanceAs (Decidable (_ ∨ _))
instance : DecidablePred IrqlChangesFunction := fun _ => inferInstanceAs (Decidable (_ ∨ _))

/-! ### Programs -/

/-- The functions and control-flow nodes of a database. -/
structure Program (Fn Node : Type) where
  macros : List Macro := []
  function : Fn → FunctionInfo
  getBlock : Fn → Option Node
  /-- The function as a control-flow node. -/
  exitNode : Fn → Node
  getASuccessor : Node → List Node
  getControlFlowScope : Node → Option Fn
  /-- The target of a call, for the nodes that are calls. -/
  getTarget : Node → Option Fn
  getArgument : Node → List Node := fun _ => []
  children : Node → List (ℤ × Node) := fun _ => []
  toString : Node → String := fun _ => ""
  /-- The value of a literal, for the nodes that are literals. -/
  literalValue : Node → Option String := fun _ => none
  /-- The two sides of every assignment. -/
  assignExprs : List (Node × Node) := []
  /-- `IrqlRaiseLowerFlow.flow`, from one expression to another. -/
  flow : Node → Node → Bool := fun _ _ => false
  getEnclosingStmt : Node → Option Node := fun _ => none
  getParent : Node → Option Node := fun _ => none
  isStmt : Node → Bool := fun _ => false
  isLoop : Node → Bool := fun _ => false
  startLine : Node → ℤ := fun _ => 0
  successor_scope : ∀ n, ∀ m ∈ getASuccessor n, getControlFlowScope m = getControlFlowScope n
  exit_scope : ∀ f, getControlFlowScope (exitNode f) = some f
  exit_enclosing : ∀ f, getEnclosingStmt (exitNode f) = none
  block_scope : ∀ f, ∀ b ∈ getBlock f, getControlFlowScope b = some f
  block_enclosing : ∀ f, ∀ b ∈ getBlock f, ∀ s ∈ getEnclosingStmt b, getParent s = none

namespace Program

variable {Fn Node : Type} (P : Program Fn Node)

def Edge (n m : Node) : Prop := m ∈ P.getASuccessor n

def CallTo (cls : FunctionInfo → Prop) (n : Node) : Prop :=
  ∃ g ∈ P.getTarget n, cls (P.function g)

def functionExit (n : Node) : Prop := ∃ f ∈ P.getControlFlowScope n, P.exitNode f = n

def getAnExitPointOfFunction (f : Fn) (n : Node) : Prop :=
  P.getControlFlowScope n = some f ∧ P.functionExit n

lemma getAnExitPointOfFunction_iff (f : Fn) (n : Node) :
    P.getAnExitPointOfFunction f n ↔ n = P.exitNode f := by
  refine ⟨fun h => ?_, fun h => ?_⟩
  · obtain ⟨hscope, g, hg, hexit⟩ := h
    rw [hscope] at hg
    rw [← hexit, Option.mem_some_iff.mp hg]
  · subst h
    exact ⟨P.exit_scope f, f, P.exit_scope f, rfl⟩

lemma reach_scope {n m : Node} (h : Relation.ReflTransGen P.Edge n m) :
    P.getControlFlowScope m = P.getControlFlowScope n := by
  induction h with
  | refl => rfl
  | tail _ hyz ih => exact (P.successor_scope _ _ hyz).trans ih

variable [DecidableEq Fn] [DecidableEq Node]

instance : DecidableRel P.Edge := fun _ _ => inferInstanceAs (Decidable (_ ∈ _))
instance (cls : FunctionInfo → Prop) [DecidablePred cls] : DecidablePred (P.CallTo cls) :=
  fun _ => inferInstanceAs (Decidable (∃ g ∈ _, _))
instance : DecidablePred P.functionExit := fun _ => inferInstanceAs (Decidable (∃ f ∈ _, _))
instance (f : Fn) : DecidablePred (P.getAnExitPointOfFunction f) :=
  fun _ => inferInstanceAs (Decidable (_ ∧ _))

end Program

/-! ### An example -/

/-- Three of the levels of wdm.h. -/
def wdm : List Macro :=
  [⟨"PASSIVE_LEVEL", "PASSIVE_LEVEL", "0", "wdm.h"⟩, ⟨"APC_LEVEL", "APC_LEVEL", "1", "wdm.h"⟩,
    ⟨"DISPATCH_LEVEL", "DISPATCH_LEVEL", "2", "wdm.h"⟩]

/-- `void routine() { callee(); }`. The nodes are the body of the routine, the call and the
exits of the two functions. -/
def oneCall (ms : List Macro) (callee : FunctionInfo) : Program (Fin 2) (Fin 4) where
  macros := ms
  function f := if f = 0 then { getName := "routine" } else callee
  getBlock f := if f = 0 then some 0 else none
  exitNode f := if f = 0 then 2 else 3
  getASuccessor n := if n < 2 then [n + 1] else []
  getControlFlowScope n := if n = 3 then some 1 else some 0
  getTarget n := if n = 1 then some 1 else none
  successor_scope := by decide
  exit_scope := by decide
  exit_enclosing := by decide
  block_scope := by decide
  block_enclosing := by decide

end DriverQueries.Database
