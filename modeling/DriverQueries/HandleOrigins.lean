import DriverQueries.CopyRules
import DriverQueries.DriverIsolation

/-!
The calls that handles come from.

A handle flows from its access in one call to the object attributes that are passed to another. The
recursion follows these flows back until it comes to a call without one, and it gives nothing where
it does not come to such a call: on a cycle, or at an access that is in no call.
-/

namespace DriverQueries.HandleOrigins

open Relation DriverQueries.Paths DriverQueries.CopyRules DriverQueries.DriverIsolation

variable {E Node : Type} (X : Expressions E) (N : Nodes E Node) (flow : Node → Node → Prop)

def FunctionCall (fc : E) : Prop := (X.getTarget fc).isSome

def FlowsTo (source : Node) (fc : E) : Prop :=
  ∃ sink, flow source sink ∧ ∃ e ∈ N.asIndirectArgument sink, e ∈ X.getArgument fc

def HasFlow (fc : E) : Prop := ∃ source, FlowsTo X N flow source fc

/-- A flow to the call begins in the other call. -/
def ComesFrom (fc fc' : E) : Prop :=
  ∃ source, FlowsTo X N flow source fc ∧
    ∃ e ∈ N.asIndirectExpr source, TransGen (Parent X) e fc' ∧ FunctionCall X fc'

def nonNullRootDirFlowFirstCall (fc result : E) : Prop :=
  Derives (fun fc result => ¬ HasFlow X N flow fc ∧ result = fc) (ComesFrom X N flow) fc result

/-- The calls that the recursion is to find. -/
structure FindsOrigins (fc : E) : Prop where
  found : ∃ result, nonNullRootDirFlowFirstCall X N flow fc result
  origin : ∀ result, nonNullRootDirFlowFirstCall X N flow fc result →
    ¬ HasFlow X N flow result ∧ ReflTransGen (ComesFrom X N flow) fc result

variable {X N flow} {fc result : E}

lemma ComesFrom.hasFlow {fc' : E} (h : ComesFrom X N flow fc fc') : HasFlow X N flow fc := by
  obtain ⟨source, hflow, -⟩ := h
  exact ⟨source, hflow⟩

open Classical in
/-- The equation of the source. -/
lemma firstCall_eq :
    nonNullRootDirFlowFirstCall X N flow fc result ↔
      if HasFlow X N flow fc then
        ∃ fc', ComesFrom X N flow fc fc' ∧ nonNullRootDirFlowFirstCall X N flow fc' result
      else result = fc := by
  unfold nonNullRootDirFlowFirstCall
  rw [derives_unfold]
  split_ifs with hflow
  · exact or_iff_right fun h => h.1 hflow
  · refine ⟨fun h => ?_, fun h => Or.inl ⟨hflow, h⟩⟩
    obtain ⟨-, h⟩ | ⟨fc', hfrom, -⟩ := h
    · exact h
    · exact absurd hfrom.hasFlow hflow

lemma firstCall_iff :
    nonNullRootDirFlowFirstCall X N flow fc result ↔
      ReflTransGen (ComesFrom X N flow) fc result ∧ ¬ HasFlow X N flow result := by
  refine derives_iff_reach.trans ⟨fun h => ?_, fun ⟨hreach, hflow⟩ => ⟨result, hreach, hflow, rfl⟩⟩
  obtain ⟨m, hreach, hflow, rfl⟩ := h
  exact ⟨hreach, hflow⟩

/-- **Every result is an origin, and there is one iff the flows lead back to a call without
any.** -/
theorem findsOrigins_iff :
    FindsOrigins X N flow fc ↔
      ∃ origin, ReflTransGen (ComesFrom X N flow) fc origin ∧ ¬ HasFlow X N flow origin := by
  refine ⟨fun h => ?_, fun ⟨origin, h⟩ => ⟨⟨origin, firstCall_iff.mpr h⟩, fun result hr => ?_⟩⟩
  · obtain ⟨result, hresult⟩ := h.found
    exact ⟨result, firstCall_iff.mp hresult⟩
  · exact (firstCall_iff.mp hr).symm

/-- **Where all flows begin in calls, an origin is found iff cycles of flows do not lead to all the
calls that the handle comes from.** -/
theorem exists_origin_iff [Finite E]
    (hsource : ∀ m, ReflTransGen (ComesFrom X N flow) fc m → HasFlow X N flow m →
      ∃ m', ComesFrom X N flow m m') :
    (∃ origin, ReflTransGen (ComesFrom X N flow) fc origin ∧ ¬ HasFlow X N flow origin) ↔
      ∃ m, ReflTransGen (ComesFrom X N flow) fc m ∧
        ¬ AfterCycle (fun x y => ComesFrom X N flow y x)
          (ReflTransGen (ComesFrom X N flow) fc) m := by
  rw [← exists_first_iff]
  refine exists_congr fun m => and_congr_right fun hm => not_congr ⟨fun h => ?_, fun h => ?_⟩
  · obtain ⟨m', hm'⟩ := hsource m hm h
    exact ⟨m', hm.tail hm', hm'⟩
  · obtain ⟨m', -, hm'⟩ := h
    exact hm'.hasFlow

/-! ### A key that is opened again -/

/-- `ZwOpenKey(&handle, KEY_READ, &attributes)`, and an access of a handle outside all calls. -/
inductive Point
  | openKey | handle | access | attributes | outside
  deriving DecidableEq

def reopen : Expressions Point where
  getParent e := if e = .openKey ∨ e = .outside then none else some .openKey
  getValue _ := none
  getType e := if e = .handle ∨ e = .outside then "HANDLE" else "OBJECT_ATTRIBUTES *"
  getTarget e := if e = .openKey then some "ZwOpenKey" else none
  getArgument e := if e = .openKey then [.handle, .access, .attributes] else []
  getMacroName _ := []

/-- The nodes of the expressions. -/
def nodes : Nodes Point Point := ⟨some, some⟩

/-- The access of the handle flows to the attributes. -/
def flowFrom (first source sink : Point) : Prop := source = first ∧ sink = .attributes

lemma hasFlow_openKey (first : Point) : HasFlow reopen nodes (flowFrom first) .openKey :=
  ⟨first, .attributes, ⟨rfl, rfl⟩, .attributes, rfl, by decide⟩

/-- With the root directory set to the handle of the round before, and with one set to a handle
from outside, the recursion finds nothing. -/
theorem reopen_finds_nothing :
    (∀ result, ¬ nonNullRootDirFlowFirstCall reopen nodes (flowFrom .handle) .openKey result) ∧
      ∀ result, ¬ nonNullRootDirFlowFirstCall reopen nodes (flowFrom .outside) .openKey result := by
  have hstays : ∀ {h fc}, ReflTransGen (ComesFrom reopen nodes (flowFrom h)) .openKey fc →
      HasFlow reopen nodes (flowFrom h) fc := by
    intro h fc hreach
    obtain rfl | ⟨m, -, -, -, e, -, -, hcall⟩ := (ReflTransGen.cases_tail_iff _ _ _).mp hreach
    · exact hasFlow_openKey h
    · have heq : fc = .openKey := by
        by_contra hne
        simp [FunctionCall, reopen, hne] at hcall
      exact heq ▸ hasFlow_openKey h
  refine ⟨fun result h => ?_, fun result h => ?_⟩
  · obtain ⟨hreach, hflow⟩ := firstCall_iff.mp h
    exact hflow (hstays hreach)
  · obtain ⟨hreach, hflow⟩ := firstCall_iff.mp h
    exact hflow (hstays hreach)

end DriverQueries.HandleOrigins
