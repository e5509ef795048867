import Mathlib.Logic.Relation
import DriverQueries.Text

/-!
The calls of registry functions in the queries on driver isolation.

A call is classified as a read or as a write by the name of its function, by the names of the macros
its arguments are written with, and by the value of its second argument. The paths that handles are
opened with are texts that flow to it.
-/

namespace DriverQueries.DriverIsolation

open Relation DriverQueries.Text

/-- The expressions of a database. The calls are those with a target, which is the name of the
function; `getMacroName` has the names of the macro invocations that the expression is. -/
structure Expressions (E : Type) where
  getParent : E → Option E
  getValue : E → Option String
  getType : E → String
  getTarget : E → Option String
  getArgument : E → List E
  getMacroName : E → List String

def MatchesAny (name : String) (patterns : List String) : Prop :=
  ∃ p ∈ patterns, matchesPattern name p

instance (name : String) (patterns : List String) : Decidable (MatchesAny name patterns) :=
  inferInstanceAs (Decidable (∃ p ∈ _, _))

/-! ### Functions -/

def rtlNames : List String :=
  ["RtlCreateRegistryKey", "RtlCheckRegistryKey", "RtlDeleteRegistryValue", "RtlWriteRegistryValue",
    "RtlQueryRegistryValues", "RtlxQueryRegistryValues", "RtlQueryRegistryValuesEx"]

def zwNames : List String :=
  ["ZwCreateKey", "ZwCreateKeyTransacted", "ZwDeleteKey", "ZwDeleteValueKey", "ZwOpenKey",
    "ZwOpenKeyTransacted", "ZwOpenKeyEx", "ZwOpenKeyTransactedEx", "ZwQueryKey", "ZwRenameKey",
    "ZwSetInformationKey", "ZwSetValueKey", "ZwQueryValueKey"]

def RtlRegistryIsolationFunction (name : String) : Prop := MatchesAny name rtlNames

def ZwRegistryIsolationFunction (name : String) : Prop := MatchesAny name zwNames

def WdfRegistryIsolationFunction (name : String) : Prop :=
  matchesPattern name "WdfRegistry%" ∧ ¬ matchesPattern name "WdfRegistryClose"

def RegistryIsolationFunction (name : String) : Prop :=
  RtlRegistryIsolationFunction name ∨ ZwRegistryIsolationFunction name ∨
    WdfRegistryIsolationFunction name

instance : DecidablePred ZwRegistryIsolationFunction :=
  fun _ => inferInstanceAs (Decidable (MatchesAny _ _))
instance : DecidablePred RegistryIsolationFunction :=
  fun _ => inferInstanceAs (Decidable (MatchesAny _ _ ∨ MatchesAny _ _ ∨ _ ∧ ¬ _))

lemma mem_of_matchesAny {name : String} {patterns : List String}
    (hplain : ∀ p ∈ patterns, Plain p.toList) (h : MatchesAny name patterns) : name ∈ patterns := by
  obtain ⟨p, hp, hmatch⟩ := h
  have heq : p = name := String.toList_injective (like_plain (hplain p hp) hmatch)
  exact heq ▸ hp

/-! ### Calls -/

variable {E : Type} (X : Expressions E)

def CallTo (cls : String → Prop) (f : E) : Prop := ∃ name ∈ X.getTarget f, cls name

def RegistryIsolationFunctionCall (f : E) : Prop := CallTo X RegistryIsolationFunction f

variable {X} in
lemma callTo_iff {cls : String → Prop} {f : E} {name : String} (h : X.getTarget f = some name) :
    CallTo X cls f ↔ cls name := by
  simp [CallTo, h]

def ReadFunction (name : String) : Prop := MatchesAny name ["ZwQueryKey", "ZwQueryValueKey"]

def WriteFunction (name : String) : Prop :=
  MatchesAny name ["ZwDeleteKey", "ZwDeleteValueKey", "ZwSetValueKey"]

def ZwFunction (name : String) : Prop := matchesPattern name "Zw%"

/-- Some argument has the type of access masks, and some argument is a macro of a right. -/
def MacroArgument (f : E) : Prop :=
  (∃ a ∈ X.getArgument f, matchesPattern (X.getType a) "ACCESS_MASK") ∧
    ∃ a ∈ X.getArgument f, ∃ m ∈ X.getMacroName a,
      MatchesAny m ["KEY_QUERY_VALUE", "KEY_ENUMERATE_SUB_KEYS", "KEY_CREATE_LINK", "KEY_NOTIFY",
        "KEY_READ", "KEY_EXECUTE"]

/-- The value of the second argument is that of a right. -/
def ValueArgument (f : E) : Prop :=
  ∃ e ∈ (X.getArgument f)[1]?, ∃ v ∈ X.getValue e, v ∈ ["131097", "1", "8", "32", "16"]

def zwRead (f : E) : Prop :=
  RegistryIsolationFunctionCall X f ∧
    (CallTo X ReadFunction f ∨ (CallTo X ZwFunction f ∧ MacroArgument X f) ∨
      (CallTo X ZwFunction f ∧ ValueArgument X f))

def zwWrite (f : E) : Prop :=
  RegistryIsolationFunctionCall X f ∧
    (CallTo X WriteFunction f ∨ (CallTo X ZwFunction f ∧ ¬ zwRead X f))

def zwCall (f : E) : Prop := zwRead X f ∨ zwWrite X f

section

variable [DecidableEq E]

instance (cls : String → Prop) [DecidablePred cls] : DecidablePred (CallTo X cls) :=
  fun _ => inferInstanceAs (Decidable (∃ name ∈ _, _))
instance : DecidablePred (RegistryIsolationFunctionCall X) :=
  inferInstanceAs (DecidablePred (CallTo X _))
instance : DecidablePred ReadFunction := fun _ => inferInstanceAs (Decidable (MatchesAny _ _))
instance : DecidablePred WriteFunction := fun _ => inferInstanceAs (Decidable (MatchesAny _ _))
instance : DecidablePred ZwFunction := fun _ => inferInstanceAs (Decidable (_ = true))
instance : DecidablePred (MacroArgument X) :=
  fun _ => inferInstanceAs (Decidable ((∃ a ∈ _, _) ∧ ∃ a ∈ _, ∃ m ∈ _, MatchesAny _ _))
instance : DecidablePred (ValueArgument X) :=
  fun _ => inferInstanceAs (Decidable (∃ e ∈ _, ∃ v ∈ _, _))
instance : DecidablePred (zwRead X) := fun _ => inferInstanceAs (Decidable (_ ∧ (_ ∨ _ ∨ _)))
instance : DecidablePred (zwWrite X) := fun _ => inferInstanceAs (Decidable (_ ∧ (_ ∨ _)))

end

/-! ### Paths of the registry -/

/-- The value of the expression, in lower case, matches the pattern. -/
def ValueMatches (pattern : String) (e : E) : Prop :=
  ∃ v ∈ X.getValue e, like pattern.toList (toLowerCase v)

def pathWriteException : E → Prop :=
  ValueMatches X "\\registry\\machine\\hardware\\devicemap\\serialcomm%"

def pathException (e : E) : Prop :=
  ValueMatches X "%registry\\machine\\software%" e ∨ ValueMatches X "%registry\\machine\\system%" e

def allowedPath (e : E) : Prop :=
  ValueMatches X "%registry%machine%hardware%" e ∨ pathException X e

/-! ### Flows -/

/-- The nodes of the data flow. -/
structure Nodes (E Node : Type) where
  asIndirectExpr : Node → Option E
  asIndirectArgument : Node → Option E

def Parent (e p : E) : Prop := X.getParent e = some p

end DriverQueries.DriverIsolation
