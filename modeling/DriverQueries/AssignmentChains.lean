import DriverQueries.WdmDrivers

/-!
Chains of assignments of a callback routine.

One routine is assigned to several places by `a1 = (a2 = (… = F))`. Three predicates follow the
right-hand sides to the end of such a chain, and the target of an assignment is found in two stages.
All of them come to the function at the end, from every assignment of the chain.
-/

namespace DriverQueries.AssignmentChains

open DriverQueries.Text DriverQueries.WdmDrivers

variable {Fn : Type} (D : Driver Fn)

/-! ### The predicates -/

def CallbackRoutineAssignment (ae : AssignExpr Fn) : Prop :=
  isCallbackRoutineAssignment D ae.getRValue

/-- `getTarget_aux` of an assignment with this right-hand side. -/
def getTarget_aux : RValue Fn → Option Fn
  | .functionAccess f => if WdmCallbackRoutine D f then some f else none
  | .assignExpr _ r => getTarget_aux r
  | .other => none

/-- `CallbackRoutineAssignment.getTarget`. Only what is assigned by an assignment is looked at by
the auxiliary predicate. -/
def getTarget (ae : AssignExpr Fn) : Option Fn :=
  match ae.getRValue with
  | .functionAccess f => if WdmCallbackRoutine D f then some f else none
  | .assignExpr _ r => getTarget_aux D r
  | .other => none

/-- Following the assignments on the right-hand side leads to the access of a function of the
class. -/
def EndsIn (cls : Fn → Prop) : RValue Fn → Prop
  | .functionAccess f => cls f
  | .assignExpr _ r => EndsIn cls r
  | .other => False

def IsDispatchRoutine (f : Fn) : Prop :=
  ∃ dispatchType driverEntry, WdmDispatchRoutine D f dispatchType driverEntry

/-- The predicate of the query on the dispatch table. -/
def dispatchRoutineExists (ae : AssignExpr Fn) : Prop := EndsIn (IsDispatchRoutine D) ae.getRValue

def roleTypeAssignment (ae : AssignExpr Fn) : Prop := EndsIn (IsDispatchRoutine D) ae.getRValue

/-! ### Chains -/

/-- What is assigned at the end: the access of a function, or another expression that is no
assignment. -/
def operand : Option Fn → RValue Fn
  | some f => .functionAccess f
  | none => .other

/-- `a1 = (a2 = (… = F))`. -/
def chain : List LValue → Option Fn → RValue Fn
  | [], F => operand F
  | a :: as, F => .assignExpr a (chain as F)

def links : List LValue → Option Fn → List (AssignExpr Fn)
  | [], _ => []
  | a :: as, F => ⟨a, chain as F⟩ :: links as F

lemma endsIn_chain {cls : Fn → Prop} (as : List LValue) (F : Option Fn) :
    EndsIn cls (chain as F) ↔ ∃ f ∈ F, cls f := by
  induction as with
  | nil =>
    cases F with
    | none => simp [chain, operand, EndsIn]
    | some f => simp [chain, operand, EndsIn]
  | cons a as ih => exact ih

lemma getRValue_of_link {as : List LValue} {F : Option Fn} {ae : AssignExpr Fn}
    (h : ae ∈ links as F) : ∃ bs, ae.getRValue = chain bs F := by
  induction as with
  | nil => exact absurd h List.not_mem_nil
  | cons a as ih =>
    obtain rfl | h := List.mem_cons.mp h
    · exact ⟨as, rfl⟩
    · exact ih h

variable {D}

lemma isCallbackRoutineAssignment_iff (r : RValue Fn) :
    isCallbackRoutineAssignment D r ↔ EndsIn (WdmCallbackRoutine D) r := by
  induction r with
  | functionAccess f => exact Iff.rfl
  | assignExpr a r ih => exact ih
  | other => exact Iff.rfl

lemma getTarget_eq (ae : AssignExpr Fn) : getTarget D ae = WdmDrivers.getTarget D ae.getRValue := by
  have haux : ∀ r, getTarget_aux D r = WdmDrivers.getTarget D r := by
    intro r
    induction r with
    | functionAccess f => rfl
    | assignExpr a r ih => exact ih
    | other => rfl
  unfold getTarget
  cases ae.getRValue with
  | functionAccess f => rfl
  | assignExpr a r => exact haux r
  | other => rfl

lemma getTarget_chain (as : List LValue) (F : Option Fn) :
    WdmDrivers.getTarget D (chain as F) = F.filter fun f => WdmCallbackRoutine D f := by
  induction as with
  | nil =>
    cases F with
    | none => rfl
    | some f => simp [chain, operand, WdmDrivers.getTarget, Option.filter_some]
  | cons a as ih => exact ih

/-- **In a chain of any length, each assignment is one of a callback routine, or has a dispatch
routine for the query and for the role types, iff the expression at the end is an access of one, and
its target is that routine.** -/
theorem chain_law (D : Driver Fn) (as : List LValue) (F : Option Fn) :
    ∀ ae ∈ links as F,
      (CallbackRoutineAssignment D ae ↔ ∃ f ∈ F, WdmCallbackRoutine D f) ∧
      (dispatchRoutineExists D ae ↔ ∃ f ∈ F, IsDispatchRoutine D f) ∧
      (roleTypeAssignment D ae ↔ ∃ f ∈ F, IsDispatchRoutine D f) ∧
      ∀ f ∈ F, WdmCallbackRoutine D f → ∀ g, g ∈ getTarget D ae ↔ g = f := by
  intro ae hae
  obtain ⟨bs, hbs⟩ := getRValue_of_link hae
  refine ⟨?_, ?_, ?_, fun f hf hcallback g => ?_⟩
  · rw [CallbackRoutineAssignment, hbs, isCallbackRoutineAssignment_iff, endsIn_chain]
  · rw [dispatchRoutineExists, hbs, endsIn_chain]
  · rw [roleTypeAssignment, hbs, endsIn_chain]
  · obtain rfl := Option.mem_def.mp hf
    rw [getTarget_eq, hbs, getTarget_chain, Option.filter_some, if_pos (decide_eq_true hcallback)]
    simp [eq_comm]

/-! ### Chains in a DriverEntry -/

section DriverEntry

variable {driverEntry f : Fn} {a : LValue} {as : List LValue} {F : Option Fn} {ae : AssignExpr Fn}

lemma links_subset (h : ⟨a, chain as F⟩ ∈ D.assigns driverEntry) :
    ∀ ae ∈ links (a :: as) F, ae ∈ D.assigns driverEntry := by
  induction as generalizing a with
  | nil =>
    intro ae hae
    obtain rfl := List.mem_singleton.mp hae
    exact h
  | cons b bs ih =>
    intro ae hae
    obtain rfl | hae := List.mem_cons.mp hae
    · exact h
    · exact ih (D.chained driverEntry _ h b (chain bs F) rfl) ae hae

lemma dispatchRoutine_of_link (hentry : WdmDriverEntry D driverEntry)
    (hfirst : ⟨a, chain as (some f)⟩ ∈ D.assigns driverEntry)
    (hdispatch : CallbackOf D "DRIVER_DISPATCH" f) (hae : ae ∈ links (a :: as) (some f)) {k : ℕ}
    (hk : dispatchEntry ae.getLValue = some k) : WdmDispatchRoutine D f k driverEntry := by
  have hcallback : WdmCallbackRoutine D f := .of_callbackOf D hdispatch
  obtain ⟨bs, hbs⟩ := getRValue_of_link hae
  refine .of_assigned hdispatch hentry (links_subset hfirst ae hae) hk ?_
  rw [hbs, getTarget_chain, Option.filter_some, if_pos (decide_eq_true hcallback)]

/-- The assignment is reported as one of no dispatch routine. -/
def NonDispatchFunction (D : Driver Fn) (driverEntry : Fn) (ae : AssignExpr Fn) : Prop :=
  ae ∈ D.assigns driverEntry ∧ WdmDriverEntry D driverEntry ∧ ¬ dispatchRoutineExists D ae ∧
    ∃ driverObject arrayOffset, ae.getLValue = .arrayExpr (some ⟨some driverObject⟩) arrayOffset ∧
      matchesPattern driverObject "PDRIVER_OBJECT"

/-- **No assignment of a chain is reported that assigns a routine of the right type to some
entry.** -/
theorem links_not_reported (hentry : WdmDriverEntry D driverEntry)
    (hfirst : ⟨a, chain as (some f)⟩ ∈ D.assigns driverEntry)
    (hdispatch : CallbackOf D "DRIVER_DISPATCH" f)
    (hsome : ∃ ae ∈ links (a :: as) (some f), ∃ k, dispatchEntry ae.getLValue = some k) :
    ∀ ae ∈ links (a :: as) (some f), ¬ NonDispatchFunction D driverEntry ae := by
  obtain ⟨ae', hae', k, hk⟩ := hsome
  rintro ae hae ⟨-, -, hnone, -⟩
  obtain ⟨bs, hbs⟩ := getRValue_of_link hae
  refine hnone ?_
  rw [dispatchRoutineExists, hbs, endsIn_chain]
  exact ⟨f, rfl, k, driverEntry, dispatchRoutine_of_link hentry hfirst hdispatch hae' hk⟩

end DriverEntry

/-! ### One routine for three entries -/

inductive ChainRoutine
  | dispatchAll | driverEntry
  deriving DecidableEq

def majorFunction (k : ℕ) : LValue := .arrayExpr (some ⟨some "PDRIVER_OBJECT"⟩) (some k)

/-- A chain assigns the routine to the entries 0, 2 and 14. -/
def threeEntries : Driver ChainRoutine where
  typedefs f :=
    match f with
    | .dispatchAll => [⟨"DRIVER_DISPATCH", "wdm.h"⟩]
    | .driverEntry => [⟨"DRIVER_INITIALIZE", "wdm.h"⟩]
  assigns f :=
    match f with
    | .dispatchAll => []
    | .driverEntry => links [majorFunction 0, majorFunction 2, majorFunction 14] (some .dispatchAll)
  chained f ae h l r hr := by
    cases f with
    | dispatchAll => exact absurd h List.not_mem_nil
    | driverEntry =>
      simp only [links, List.mem_cons, List.not_mem_nil, or_false] at h ⊢
      obtain rfl | rfl | rfl := h
      · exact Or.inr (Or.inl (by simpa [chain, eq_comm] using hr))
      · exact Or.inr (Or.inr (by simpa [chain, eq_comm] using hr))
      · simp [chain, operand] at hr

def secondEntry : AssignExpr ChainRoutine :=
  ⟨majorFunction 2, chain [majorFunction 14] (some .dispatchAll)⟩

theorem chain_law_threeEntries :
    CallbackRoutineAssignment threeEntries secondEntry ∧
      getTarget threeEntries secondEntry = some .dispatchAll := by
  have hcallback : WdmCallbackRoutine threeEntries .dispatchAll := by decide
  obtain ⟨hassign, -, -, htarget⟩ := chain_law threeEntries
    [majorFunction 0, majorFunction 2, majorFunction 14] (some .dispatchAll) secondEntry
    (List.mem_cons_of_mem _ List.mem_cons_self)
  exact ⟨hassign.mpr ⟨_, rfl, hcallback⟩, (htarget _ rfl hcallback _).mpr rfl⟩

end DriverQueries.AssignmentChains
