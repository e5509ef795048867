import DriverQueries.Text

/-!
The callback routines of WDM drivers, and the entries of the dispatch table that they handle.

A function is a callback routine by the typedefs of its declarations. It handles an entry of the
dispatch table if a DriverEntry assigns it there, and one routine may be assigned to several entries
by a chain of assignments, each of which is the right-hand side of the one before.
-/

namespace DriverQueries.WdmDrivers

open DriverQueries.Text

/-! ### Callback routines -/

structure TypedefType where
  getName : String
  getFile : String
  deriving DecidableEq

def WdmRoleTypeType (t : TypedefType) : Prop :=
  ∃ p ∈ ["DRIVER_INITIALIZE", "DRIVER_STARTIO", "DRIVER_UNLOAD", "DRIVER_ADD_DEVICE",
    "DRIVER_DISPATCH", "IO_COMPLETION_ROUTINE", "DRIVER_CANCEL", "IO_DPC_ROUTINE",
    "KDEFERRED_ROUTINE", "KSERVICE_ROUTINE", "REQUEST_POWER_COMPLETE", "WORKER_THREAD_ROUTINE"],
    matchesPattern t.getName p

instance : DecidablePred WdmRoleTypeType := fun _ => inferInstanceAs (Decidable (∃ p ∈ _, _))

def WdmCallbackRoutineTypedef (t : TypedefType) : Prop :=
  WdmRoleTypeType t ∧ matchesPattern t.getFile "wdm.h"

instance : DecidablePred WdmCallbackRoutineTypedef :=
  fun _ => inferInstanceAs (Decidable (_ ∧ _))

/-! ### Assignments -/

/-- A field of what an expression points to, with the name of the type of the variable, if the
expression is the access of one. -/
structure PointerFieldAccess where
  qualifierType : Option String
  deriving DecidableEq

/-- The left-hand side of an assignment: an array expression, with its base if this is a field, and
with its offset if this is a literal, or another expression. -/
inductive LValue
  | arrayExpr (arrayBase : Option PointerFieldAccess) (arrayOffset : Option ℕ)
  | other
  deriving DecidableEq

/-- The right-hand side of an assignment. -/
inductive RValue (Fn : Type)
  | functionAccess (target : Fn)
  | assignExpr (lvalue : LValue) (rvalue : RValue Fn)
  | other
  deriving DecidableEq

structure AssignExpr (Fn : Type) where
  getLValue : LValue
  getRValue : RValue Fn
  deriving DecidableEq

/-- A driver: the typedefs of the declarations of each function, and the assignments in each
function, those on the right-hand side of others among them. -/
structure Driver (Fn : Type) where
  typedefs : Fn → List TypedefType
  assigns : Fn → List (AssignExpr Fn)
  chained : ∀ f ae, ae ∈ assigns f → ∀ l r, ae.getRValue = .assignExpr l r → ⟨l, r⟩ ∈ assigns f

variable {Fn : Type} (D : Driver Fn)

/-- The values of the field `callbackType`. -/
def callbackType (f : Fn) : List TypedefType :=
  (D.typedefs f).filter fun t => WdmCallbackRoutineTypedef t

def WdmCallbackRoutine (f : Fn) : Prop := callbackType D f ≠ []

/-- A callback routine with a type of this name. -/
def CallbackOf (name : String) (f : Fn) : Prop :=
  ∃ t ∈ callbackType D f, matchesPattern t.getName name

def WdmDriverEntry (f : Fn) : Prop := CallbackOf D "DRIVER_INITIALIZE" f

instance : DecidablePred (WdmCallbackRoutine D) := fun _ => inferInstanceAs (Decidable (¬ _))
instance (name : String) : DecidablePred (CallbackOf D name) :=
  fun _ => inferInstanceAs (Decidable (∃ t ∈ _, _))
instance : DecidablePred (WdmDriverEntry D) := inferInstanceAs (DecidablePred (CallbackOf D _))

lemma WdmCallbackRoutine.of_callbackOf {name : String} {f : Fn} (h : CallbackOf D name f) :
    WdmCallbackRoutine D f := by
  obtain ⟨t, ht, -⟩ := h
  exact List.ne_nil_of_mem ht

/-- `isCallbackRoutineAssignment` of an assignment with this right-hand side. -/
def isCallbackRoutineAssignment : RValue Fn → Prop
  | .functionAccess f => WdmCallbackRoutine D f
  | .assignExpr _ r => isCallbackRoutineAssignment r
  | .other => False

/-- `getTarget` of an assignment with this right-hand side. -/
def getTarget : RValue Fn → Option Fn
  | .functionAccess f => if WdmCallbackRoutine D f then some f else none
  | .assignExpr _ r => getTarget r
  | .other => none

lemma getTarget_isSome {r : RValue Fn} :
    (getTarget D r).isSome ↔ isCallbackRoutineAssignment D r := by
  induction r with
  | functionAccess f =>
    unfold getTarget isCallbackRoutineAssignment
    split_ifs with h
    · simp [h]
    · simp [h]
  | assignExpr l r ih => exact ih
  | other => simp [getTarget, isCallbackRoutineAssignment]

/-! ### Dispatch routines -/

/-- The entry of the dispatch table that the left-hand side is. -/
def dispatchEntry : LValue → Option ℕ
  | .arrayExpr (some ⟨some driverObject⟩) arrayOffset =>
    if matchesPattern driverObject "PDRIVER_OBJECT" then arrayOffset else none
  | _ => none

/-- A dispatch routine, with values of the fields `dispatchType` and `driverEntry`. -/
structure WdmDispatchRoutine (f : Fn) (dispatchType : ℕ) (driverEntry : Fn) : Prop where
  dispatch : CallbackOf D "DRIVER_DISPATCH" f
  entry : WdmDriverEntry D driverEntry
  assigned : ∃ cra ∈ D.assigns driverEntry, isCallbackRoutineAssignment D cra.getRValue ∧
    dispatchEntry cra.getLValue = some dispatchType ∧ getTarget D cra.getRValue = some f

variable {D}

lemma WdmDispatchRoutine.of_assigned {f driverEntry : Fn} {k : ℕ} {cra : AssignExpr Fn}
    (hf : CallbackOf D "DRIVER_DISPATCH" f) (he : WdmDriverEntry D driverEntry)
    (hcra : cra ∈ D.assigns driverEntry) (hk : dispatchEntry cra.getLValue = some k)
    (ht : getTarget D cra.getRValue = some f) : WdmDispatchRoutine D f k driverEntry :=
  ⟨hf, he, cra, hcra, (getTarget_isSome D).mp (Option.isSome_iff_exists.mpr ⟨f, ht⟩), hk, ht⟩

end DriverQueries.WdmDrivers
