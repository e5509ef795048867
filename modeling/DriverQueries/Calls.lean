import DriverQueries.Database
import DriverQueries.Paths

/-!
The calls that change, save or restore the IRQL.

Each class of calls is a predicate of nodes. A restore looks for the matching save before it:
a save that leads to it and from which no other matching save can be reached.
-/

namespace DriverQueries.Calls

open Relation DriverQueries.Text DriverQueries.Sal DriverQueries.Paths DriverQueries.Database

variable {Fn Node : Type} (P : Program Fn Node)

def CallToName (names : List String) : Node → Prop := P.CallTo fun f => f.getName ∈ names

def FunctionCall (n : Node) : Prop := (P.getTarget n).isSome

def KeRaiseIrqlCall : Node → Prop :=
  CallToName P ["KeRaiseIrql", "KfRaiseIrql", "KeRaiseIrqlToDPCLevel", "KfRaiseIrqlToDPCLevel"]

def KeLowerIrqlCall : Node → Prop := CallToName P ["KeLowerIrql", "KfLowerIrql"]

def SavesGlobalIrqlCall : Node → Prop := P.CallTo IrqlSavesGlobalAnnotatedFunction

def RestoresGlobalIrqlCall : Node → Prop := P.CallTo IrqlRestoresGlobalAnnotatedFunction

def IrqlSaveCall : Node → Prop := P.CallTo IrqlSavesFunction

def IrqlRestoreCall : Node → Prop := P.CallTo IrqlRestoreAnnotatedFunction

section

variable [DecidableEq Fn] [DecidableEq Node]

instance (names : List String) : DecidablePred (CallToName P names) :=
  inferInstanceAs (DecidablePred (P.CallTo _))
instance : DecidablePred (FunctionCall P) := fun _ => inferInstanceAs (Decidable (_ = true))
instance : DecidablePred (KeRaiseIrqlCall P) := inferInstanceAs (DecidablePred (CallToName P _))
instance : DecidablePred (KeLowerIrqlCall P) := inferInstanceAs (DecidablePred (CallToName P _))
instance : DecidablePred (SavesGlobalIrqlCall P) := inferInstanceAs (DecidablePred (P.CallTo _))
instance : DecidablePred (RestoresGlobalIrqlCall P) :=
  inferInstanceAs (DecidablePred (P.CallTo _))
instance : DecidablePred (IrqlSaveCall P) := inferInstanceAs (DecidablePred (P.CallTo _))
instance : DecidablePred (IrqlRestoreCall P) := inferInstanceAs (DecidablePred (P.CallTo _))

end

lemma FunctionCall.of_callTo {cls : FunctionInfo → Prop} {n : Node} (h : P.CallTo cls n) :
    FunctionCall P n := by
  obtain ⟨g, hg, -⟩ := h
  exact Option.isSome_iff_exists.mpr ⟨g, hg⟩

lemma FunctionCall.of_name {names : List String} {n : Node} (h : CallToName P names n) :
    FunctionCall P n := .of_callTo P h

/-! ### Raising and lowering -/

/-- `KeRaiseIrqlCall.getIrqlLevel`. -/
def keRaiseIrqlLevel (n : Node) : Option ℤ :=
  if CallToName P ["KeRaiseIrqlToDPCLevel", "KfRaiseIrqlToDPCLevel"] n then some 2
  else (P.getArgument n)[0]?.bind fun arg => (P.literalValue arg).bind toInt

/-- `KeLowerIrqlCall.getMostRecentRaiseInterprocedural` of `n` has the result `kric`. -/
def getMostRecentRaiseInterprocedural (n kric : Node) : Prop :=
  KeRaiseIrqlCall P kric ∧ ∃ arg ∈ P.getArgument n, P.flow kric arg

instance (n : Node) [DecidableEq Fn] : DecidablePred (getMostRecentRaiseInterprocedural P n) :=
  fun _ => inferInstanceAs (Decidable (_ ∧ _))

/-! ### The same location -/

def getChild (n : Node) (i : ℤ) : List Node :=
  ((P.children n).filter fun c => c.1 = i).map (·.2)

/-- `exprsMatchText`. The text of the second expression is the pattern. -/
def exprsMatchText (e1 e2 : Node) : Prop :=
  (matchesPattern (P.toString e1) (P.toString e2) ∧ P.children e1 ≠ [] ∧
    ∃ c1 ∈ getChild P e1 0, ∃ c2 ∈ getChild P e2 0,
      matchesPattern (P.toString c1) (P.toString c2)) ∨
  (P.children e1 = [] ∧ P.children e2 = [])

instance [DecidableEq Node] (e1 e2 : Node) : Decidable (exprsMatchText P e1 e2) :=
  inferInstanceAs (Decidable (_ ∨ _))

/-- The slots of the target of a call, for the slots a function has. -/
def targetSlots (slots : FunctionInfo → List ℕ) (n : Node) : List ℕ :=
  (P.getTarget n).toList.flatMap fun g => slots (P.function g)

/-- An argument of `n` in one of its slots. -/
def slotArguments (slots : FunctionInfo → List ℕ) (n : Node) : List Node :=
  (targetSlots P slots n).filterMap fun i => (P.getArgument n)[i]?

def globalSlots (cls : SALAnnotation → Prop) [DecidablePred cls] (f : FunctionInfo) : List ℕ :=
  (globalFields cls f).map (·.2)

/-- `getIrqlKind` of the target of a call. -/
def targetKinds (cls : SALAnnotation → Prop) [DecidablePred cls] (n : Node) : List String :=
  (P.getTarget n).toList.flatMap fun g => (globalFields cls (P.function g)).map (·.1)

/-- `IrqlSaveCall.getSavedValue`. -/
def getSavedValue (n : Node) [DecidableEq Node] : List Node :=
  if P.CallTo IrqlSavesViaReturnFunction n then
    (P.assignExprs.filter fun ae => ae.2 = n).map (·.1)
  else []

/-- Some argument of `xs` is textually one of `ys`. -/
def SomeMatch (xs ys : List Node) : Prop := ∃ x ∈ xs, ∃ y ∈ ys, exprsMatchText P x y

instance [DecidableEq Node] (xs ys : List Node) : Decidable (SomeMatch P xs ys) :=
  inferInstanceAs (Decidable (∃ x ∈ _, _))

namespace RestoresGlobalIrqlCall

def matchingSaveCall (n sgic : Node) : Prop :=
  SomeMatch P (slotArguments P (globalSlots IrqlRestoresGlobalAnnotation) n)
      (slotArguments P (globalSlots IrqlSavesGlobalAnnotation) sgic) ∧
    ∃ k ∈ targetKinds P IrqlRestoresGlobalAnnotation n,
      k ∈ targetKinds P IrqlSavesGlobalAnnotation sgic

/-- The save calls of the same kind and location. -/
def MatchingSave (n sgic : Node) : Prop := SavesGlobalIrqlCall P sgic ∧ matchingSaveCall P n sgic

/-- `getMostRecentRaise` of `n` has the result `sgic`. -/
def getMostRecentRaise (n sgic : Node) : Prop :=
  Unkilled P.Edge (MatchingSave P n) (MatchingSave P n) sgic n

variable [DecidableEq Fn] [DecidableEq Node]

instance (n : Node) : DecidablePred (matchingSaveCall P n) :=
  fun _ => inferInstanceAs (Decidable (_ ∧ _))
instance (n : Node) : DecidablePred (MatchingSave P n) :=
  fun _ => inferInstanceAs (Decidable (_ ∧ _))
instance [Fintype Node] (n : Node) : DecidablePred (getMostRecentRaise P n) :=
  fun _ => decidableUnkilled _ _

end RestoresGlobalIrqlCall

namespace IrqlRestoreCall

/-- The comparison of the scopes belongs to the second way of matching only. -/
def matchingSaveCall [DecidableEq Node] (n sgic : Node) : Prop :=
  SomeMatch P (slotArguments P (parameterSlots IrqlRestoreAnnotation) n)
      (slotArguments P (parameterSlots IrqlSaveAnnotation) sgic) ∨
  ((P.CallTo IrqlSavesViaReturnFunction sgic ∧
      SomeMatch P (slotArguments P (parameterSlots IrqlRestoreAnnotation) n)
        (getSavedValue P sgic)) ∧
    ∃ f ∈ P.getControlFlowScope n, f ∈ P.getControlFlowScope sgic)

variable [DecidableEq Node]

def MatchingSave (n sgic : Node) : Prop := IrqlSaveCall P sgic ∧ matchingSaveCall P n sgic

/-- The calls that drop a save: `matchingSaveCall` holds of saves only. -/
def MatchingGlobalSave (n sgic2 : Node) : Prop :=
  SavesGlobalIrqlCall P sgic2 ∧ MatchingSave P n sgic2

/-- `getMostRecentRaise` of `n` has the result `sgic`. -/
def getMostRecentRaise (n sgic : Node) : Prop :=
  Unkilled P.Edge (MatchingSave P n) (MatchingGlobalSave P n) sgic n

variable [DecidableEq Fn]

instance (n : Node) : DecidablePred (matchingSaveCall P n) :=
  fun _ => inferInstanceAs (Decidable (_ ∨ _))
instance (n : Node) : DecidablePred (MatchingSave P n) :=
  fun _ => inferInstanceAs (Decidable (_ ∧ _))
instance (n : Node) : DecidablePred (MatchingGlobalSave P n) :=
  fun _ => inferInstanceAs (Decidable (_ ∧ _))
instance [Fintype Node] (n : Node) : DecidablePred (getMostRecentRaise P n) :=
  fun _ => decidableUnkilled _ _

end IrqlRestoreCall

end DriverQueries.Calls
