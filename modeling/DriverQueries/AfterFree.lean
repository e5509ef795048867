import DriverQueries.Paths

/-!
Uses of a stack variable after a call that frees its memory.

Two configurations of one reachability analysis, one for calls that free and one for calls
that may do so, are classes of strings. Both are inhabited by one string, and what a string
has as sources and barriers is what any of its classes says.
-/

namespace DriverQueries.AfterFree

open Relation DriverQueries.Paths

/-! ### Programs -/

/-- The expressions and control-flow nodes `E` of a program, its variables `V` and its
functions `Fn`. Data flow, dereferences and definitions are taken from the CodeQL library. -/
structure Code (E V Fn : Type) where
  getASuccessor : E → List E
  getAChild : E → List E
  isAccess : E → Bool
  /-- The variable of a variable access. -/
  getTarget : E → Option V
  isStackVariable : V → Bool
  /-- The qualifier of a `PointerFieldAccess`. -/
  getQualifier : E → Option E
  /-- The target of a call. `delete` is an expression of its own, and no call. -/
  getCallTarget : E → Option Fn
  hasGlobalOrStdName : Fn → Option String
  getArgument : E → List E
  deleteExpr : E → Option E
  deleteArrayExpr : E → Option E
  getEnclosingFunction : E → Option Fn
  getParameter : Fn → List V
  hasEntryPoint : Fn → Bool
  getAnArgumentSubExpr : E → ℕ → E → Prop
  passesByReference : E → ℕ → E → Prop
  dereferenced : E → Prop
  definitionBarrier : V → E → Prop
  dataFlow : E → E → Prop

variable {E V Fn : Type} (C : Code E V Fn)

def Child (e d : E) : Prop := d ∈ C.getAChild e

/-- `va.getTarget() = v or va.getAChild*().(Access).getTarget() = v`. -/
def AccessOf (va : E) (v : V) : Prop :=
  C.getTarget va = some v ∨ ∃ d, ReflTransGen (Child C) va d ∧ C.getTarget d = some v

/-- An access of `v`, or of a field through a pointer `v`. -/
def AccessOrFieldOf (va : E) (v : V) : Prop :=
  AccessOf C va v ∨ ∃ q ∈ C.getQualifier va, C.getTarget q = some v

/-! ### Calls that free -/

def freesFirst : List String :=
  ["ExFreePool", "ExFreePoolWithTag", "IoFreeMdl", "IoFreeIrp", "NdisFreeMemory",
    "NdisFreeMemoryWithTag", "NdisFreeMdl", "NdisFreeGenericObject", "NdisFreeNetBufferPool",
    "NdisFreeNetBufferListPool", "free"]

def freesSecond : List String :=
  ["NdisFreeMemoryWithTagPriority", "StorPortFreePool", "StorPortFreeMdl"]

/-- `va` is the argument number `i` of a call `e` of a function with a name of the list. -/
def ArgumentOf (names : List String) (i : ℕ) (e va : E) : Prop :=
  ∃ g ∈ C.getCallTarget e, (∃ name ∈ C.hasGlobalOrStdName g, name ∈ names) ∧
    (C.getArgument e)[i]? = some va

def isFreeExpr (e : E) (v : V) (va : E) : Prop :=
  C.isAccess va ∧ AccessOf C va v ∧
    (ArgumentOf C freesFirst 0 e va ∨ ArgumentOf C freesSecond 1 e va ∨
      C.deleteExpr e = some va ∨ C.deleteArrayExpr e = some va)

def FunctionCall (e : E) : Prop := (C.getCallTarget e).isSome

/-- The sinks of `ArgumentFLowsToFreeCall`. A `delete` is no `FunctionCall`. -/
def isFreeSink (sink : E) : Prop :=
  ∃ call v a, FunctionCall C call ∧
    (sink = a ∨ ReflTransGen (Child C) sink a ∨ C.getQualifier sink = some a) ∧
    isFreeExpr C call v a

/-- `ArgumentFLowsToFreeCall::flow`. -/
def ArgumentFLowsToFreeCall (source sink : E) : Prop :=
  C.isAccess source ∧ isFreeSink C sink ∧ C.dataFlow source sink

def isPotentiallyFreeFunction (f : Fn) (n : ℕ) : Prop :=
  ∃ va v sink, ArgumentFLowsToFreeCall C va sink ∧ (C.getTarget va).isSome ∧
    AccessOrFieldOf C va v ∧ C.getEnclosingFunction va = some f ∧ (C.getParameter f)[n]? = some v

def isPotentiallyFreeExpr (e : E) (v : V) (va : E) : Prop :=
  isFreeExpr C e v va ∨
    (C.isAccess va ∧ AccessOf C va v ∧ ∃ f n, C.getCallTarget e = some f ∧
      isPotentiallyFreeFunction C f n ∧ (C.getArgument e)[n]? = some va)

def isPotentiallyFreeExprEx (e : E) (v : V) (va actualFreeArg : E) : Prop :=
  (isPotentiallyFreeExpr C e v va ∧ va = actualFreeArg) ∨
    (ArgumentFLowsToFreeCall C va actualFreeArg ∧ FunctionCall C e ∧
      va ∈ C.getArgument e ∧ AccessOrFieldOf C va v)

/-! ### Dereferences -/

/-- `isDerefExpr`, with `isDerefByCallExpr` as its last two constructors. -/
inductive isDerefExpr : E → V → Prop
  | direct {e : E} {v : V} (htarget : C.getTarget e = some v) (h : C.dereferenced e) :
      isDerefExpr e v
  -- the target is a library function
  | library {c e : E} {i : ℕ} {v : V} (htarget : C.getTarget e = some v)
      (hsub : C.getAnArgumentSubExpr c i e) (hvalue : ¬ C.passesByReference c i e)
      (hlibrary : ∀ g ∈ C.getCallTarget c, C.hasEntryPoint g = false) : isDerefExpr e v
  -- the target dereferences the parameter
  | parameter {c e e' : E} {i : ℕ} {v p : V} {g : Fn} (htarget : C.getTarget e = some v)
      (hsub : C.getAnArgumentSubExpr c i e) (hvalue : ¬ C.passesByReference c i e)
      (hcall : C.getCallTarget c = some g) (hparameter : (C.getParameter g)[i]? = some p)
      (h : isDerefExpr e' p) : isDerefExpr e v

/-! ### Configurations -/

/-- A subclass of `StackVariableReachability`, with the string that its instance is. -/
structure Configuration (E V : Type) where
  this : String
  isSource : E → V → Prop
  isSink : E → V → Prop
  isBarrier : E → V → Prop

def UseAfterPotentiallyFreeReachability : Configuration E V where
  this := "UseAfterFree"
  isSource node v := ∃ va a, isPotentiallyFreeExprEx C node v va a
  isSink := isDerefExpr C
  isBarrier node v := C.definitionBarrier v node ∨ ∃ va a, isPotentiallyFreeExprEx C node v va a

def UseAfterFreeReachability : Configuration E V where
  this := "UseAfterFree"
  isSource node v := ∃ va, isFreeExpr C node v va
  isSink := isDerefExpr C
  isBarrier node v := C.definitionBarrier v node ∨ ∃ va, isFreeExpr C node v va

def configurations : List (Configuration E V) :=
  [UseAfterPotentiallyFreeReachability C, UseAfterFreeReachability C]

/-- The value of a member predicate of a string: what any of its classes has. -/
def dispatch (member : Configuration E V → E → V → Prop) (r : String) (node : E) (v : V) : Prop :=
  ∃ c ∈ configurations C, c.this = r ∧ member c node v

def Edge (x y : E) : Prop := y ∈ C.getASuccessor x

/-- `StackVariableReachability.reaches`, for an instance `r`. -/
def reaches (r : String) (source : E) (v : V) (sink : E) : Prop :=
  C.isStackVariable v ∧ dispatch C Configuration.isSource r source v ∧
    dispatch C Configuration.isSink r sink v ∧
    ClearRun (Edge C) (fun node => dispatch C Configuration.isBarrier r node v) source sink

/-! ### The two analyses -/

def Frees (v : V) (node : E) : Prop := ∃ va, isFreeExpr C node v va

/-- The node may free the memory of `v`, through a wrapper or a flow. -/
def MayFree (v : V) (node : E) : Prop := ∃ va a, isPotentiallyFreeExprEx C node v va a

/-- Some path from a call that frees `v` to a dereference passes no definition of `v` and no
other such call. -/
def UsedAfterFree (free : E) (v : V) (use : E) : Prop :=
  C.isStackVariable v ∧ Frees C v free ∧ isDerefExpr C use v ∧
    ClearRun (Edge C) (fun node => C.definitionBarrier v node ∨ Frees C v node) free use

variable {C} {v : V} {node free use : E}

lemma Frees.mayFree (h : Frees C v node) : MayFree C v node := by
  obtain ⟨va, h⟩ := h
  exact ⟨va, va, .inl ⟨.inl h, rfl⟩⟩

/-- The string has the sources and barriers of both classes, and these are those of the less
precise one. -/
lemma dispatch_iff :
    (dispatch C Configuration.isSource (UseAfterFreeReachability C).this node v ↔
        MayFree C v node) ∧
      (dispatch C Configuration.isSink (UseAfterFreeReachability C).this node v ↔
        isDerefExpr C node v) ∧
      (dispatch C Configuration.isBarrier (UseAfterFreeReachability C).this node v ↔
        C.definitionBarrier v node ∨ MayFree C v node) := by
  have hfree : Frees C v node → MayFree C v node := Frees.mayFree
  have hunion : ∀ member : Configuration E V → E → V → Prop,
      dispatch C member (UseAfterFreeReachability C).this node v ↔
        member (UseAfterPotentiallyFreeReachability C) node v ∨
          member (UseAfterFreeReachability C) node v := by
    intro member
    simp [dispatch, configurations, UseAfterPotentiallyFreeReachability, UseAfterFreeReachability]
  refine ⟨?_, ?_, ?_⟩
  · rw [hunion]
    exact or_iff_left_of_imp hfree
  · rw [hunion]
    exact or_self_iff
  · rw [hunion]
    exact or_iff_left_of_imp fun h => h.imp id hfree

lemma reaches_iff :
    reaches C (UseAfterFreeReachability C).this free v use ↔
      C.isStackVariable v ∧ MayFree C v free ∧ isDerefExpr C use v ∧
        ClearRun (Edge C) (fun node => C.definitionBarrier v node ∨ MayFree C v node) free use := by
  simp only [reaches, dispatch_iff.1, dispatch_iff.2.1, dispatch_iff.2.2]

/-- **The precise analysis does what it says exactly if a call that only may free starts no
clear path to the use, and cuts not all clear paths from one that frees.** -/
theorem reaches_iff_usedAfterFree_iff :
    (reaches C (UseAfterFreeReachability C).this free v use ↔ UsedAfterFree C free v use) ↔
      (C.isStackVariable v → isDerefExpr C use v →
        (MayFree C v free → ¬ Frees C v free →
          ¬ ClearRun (Edge C) (fun node => C.definitionBarrier v node ∨ MayFree C v node)
            free use) ∧
        (Frees C v free →
          ClearRun (Edge C) (fun node => C.definitionBarrier v node ∨ Frees C v node) free use →
          ClearRun (Edge C) (fun node => C.definitionBarrier v node ∨ MayFree C v node)
            free use)) := by
  rw [reaches_iff]
  constructor
  · intro h hstack hderef
    refine ⟨fun hmay hnot hrun => ?_, fun hfree hrun => ?_⟩
    · exact hnot (h.mp ⟨hstack, hmay, hderef, hrun⟩).2.1
    · exact (h.mpr ⟨hstack, hfree, hderef, hrun⟩).2.2.2
  · intro h
    constructor
    · rintro ⟨hstack, hmay, hderef, hrun⟩
      have hfree : Frees C v free := by
        by_contra hnot
        exact (h hstack hderef).1 hmay hnot hrun
      exact ⟨hstack, hfree, hderef, hrun.mono fun _ => Or.imp id Frees.mayFree⟩
    · rintro ⟨hstack, hfree, hderef, hrun⟩
      exact ⟨hstack, hfree.mayFree, hderef, (h hstack hderef).2 hfree hrun⟩

theorem reaches_of_no_wrapper (h : ∀ node, MayFree C v node → Frees C v node) :
    reaches C (UseAfterFreeReachability C).this free v use ↔ UsedAfterFree C free v use := by
  have hiff : ∀ node, MayFree C v node ↔ Frees C v node := fun node => ⟨h node, Frees.mayFree⟩
  simp only [reaches_iff, UsedAfterFree, hiff]

/-! ### A wrapper between the free and the use -/

/-- `ExFreePool(p); Cleanup(p); *p`, with `void Cleanup(void *x) { ExFreePool(x); }`. The calls
are the nodes 0, 2 and 5, their arguments 1, 3 and 6, and the use is 4. -/
def freeThenWrapper : Code ℕ String String where
  getASuccessor
    | 1 => [0]
    | 0 => [3]
    | 3 => [2]
    | 2 => [4]
    | 6 => [5]
    | _ => []
  getAChild
    | 0 => [1]
    | 2 => [3]
    | 5 => [6]
    | _ => []
  isAccess e := e ∈ [1, 3, 4, 6]
  getTarget e := if e ∈ [1, 3, 4] then some "p" else if e = 6 then some "x" else none
  isStackVariable _ := true
  getQualifier _ := none
  getCallTarget
    | 0 | 5 => some "ExFreePool"
    | 2 => some "Cleanup"
    | _ => none
  hasGlobalOrStdName g := some g
  getArgument
    | 0 => [1]
    | 2 => [3]
    | 5 => [6]
    | _ => []
  deleteExpr _ := none
  deleteArrayExpr _ := none
  getEnclosingFunction e := if e ∈ [5, 6] then some "Cleanup" else some "f"
  getParameter g := if g = "Cleanup" then ["x"] else []
  hasEntryPoint g := g ∈ ["Cleanup", "f"]
  getAnArgumentSubExpr c i e := (c, i, e) ∈ [(0, 0, 1), (2, 0, 3), (5, 0, 6)]
  passesByReference _ _ _ := False
  dereferenced e := e = 4
  definitionBarrier _ _ := False
  dataFlow source sink := source = sink ∨ (source, sink) = (3, 6)

lemma frees_first : Frees freeThenWrapper "p" 0 :=
  ⟨1, rfl, .inl rfl, .inl ⟨"ExFreePool", rfl, ⟨"ExFreePool", rfl, by decide⟩, rfl⟩⟩

lemma not_frees_wrapper : ∀ e ∈ [2, 3], ¬ Frees freeThenWrapper "p" e := by
  rintro e he ⟨va, -, -, h⟩
  simp only [List.mem_cons, List.not_mem_nil, or_false] at he
  rcases he with rfl | rfl <;>
    simp [ArgumentOf, freeThenWrapper, freesFirst, freesSecond] at h

lemma mayFree_wrapper : MayFree freeThenWrapper "p" 2 := by
  have hfree : isFreeExpr freeThenWrapper 5 "x" 6 :=
    ⟨rfl, .inl rfl, .inl ⟨"ExFreePool", rfl, ⟨"ExFreePool", rfl, by decide⟩, rfl⟩⟩
  have hflow : ArgumentFLowsToFreeCall freeThenWrapper 6 6 :=
    ⟨rfl, ⟨5, "x", 6, rfl, .inl rfl, hfree⟩, .inl rfl⟩
  have hfunction : isPotentiallyFreeFunction freeThenWrapper "Cleanup" 0 :=
    ⟨6, "x", 6, hflow, rfl, .inl (.inl rfl), rfl, rfl⟩
  exact ⟨3, 3, .inl ⟨.inr ⟨rfl, .inl rfl, "Cleanup", 0, rfl, hfunction, rfl⟩, rfl⟩⟩

lemma deref_use : isDerefExpr freeThenWrapper 4 "p" := .direct rfl rfl

theorem reaches_not_usedAfterFree :
    (UsedAfterFree freeThenWrapper 0 "p" 4 ∧
      ¬ reaches freeThenWrapper (UseAfterFreeReachability freeThenWrapper).this 0 "p" 4) ∧
    (reaches freeThenWrapper (UseAfterFreeReachability freeThenWrapper).this 2 "p" 4 ∧
      ¬ UsedAfterFree freeThenWrapper 2 "p" 4) := by
  refine ⟨⟨?_, ?_⟩, ?_, ?_⟩
  · refine ⟨rfl, frees_first, deref_use, 2, ?_, by simp [Edge, freeThenWrapper]⟩
    have hstep : ∀ e ∈ [2, 3], ¬ (freeThenWrapper.definitionBarrier "p" e ∨
        Frees freeThenWrapper "p" e) := fun e he h => h.elim id (not_frees_wrapper e he)
    refine .tail (.single ⟨?_, hstep 3 (by decide)⟩) ⟨?_, hstep 2 (by decide)⟩
    · simp [Edge, freeThenWrapper]
    · simp [Edge, freeThenWrapper]
  · rw [reaches_iff]
    rintro ⟨-, -, -, c, hpath, hc⟩
    -- from the first call on, the search stops at the wrapper, which it takes for a free
    have hinv : c ∈ [0, 3] := by
      clear hc
      induction hpath with
      | refl => decide
      | @tail x y _ hstep ih =>
        obtain ⟨hedge, hbarrier⟩ := hstep
        simp only [List.mem_cons, List.not_mem_nil, or_false] at ih
        rcases ih with rfl | rfl
        · simp only [Edge, freeThenWrapper, List.mem_cons, List.not_mem_nil, or_false] at hedge
          simp [hedge]
        · simp only [Edge, freeThenWrapper, List.mem_cons, List.not_mem_nil, or_false] at hedge
          exact absurd (.inr (hedge ▸ mayFree_wrapper)) hbarrier
    simp only [List.mem_cons, List.not_mem_nil, or_false] at hinv
    rcases hinv with rfl | rfl <;> simp [Edge, freeThenWrapper] at hc
  · rw [reaches_iff]
    exact ⟨rfl, mayFree_wrapper, deref_use, 2, .refl, by simp [Edge, freeThenWrapper]⟩
  · rintro ⟨-, hfree, -⟩
    exact not_frees_wrapper 2 (by decide) hfree

end DriverQueries.AfterFree
