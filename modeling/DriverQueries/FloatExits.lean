import DriverQueries.Blocks
import DriverQueries.Changing
import Mathlib.Data.Fintype.Option

/-!
Functions that save or restore the floating-point state for their caller.

Two queries look for a path on which such a function makes no save, or no restore. Both only ask
which basic blocks a block leads to. So one of them decides whether there is a save in the block
of the entry, and the other whether there is a restore in the block of each exit.
-/

namespace DriverQueries.FloatExits

open Relation DriverQueries.Text DriverQueries.Sal DriverQueries.Database DriverQueries.Calls
open DriverQueries.Paths DriverQueries.Changing DriverQueries.Blocks

variable {Fn Node : Type} (P : Program Fn Node)

/-! ### The queries -/

/-- Where values go: `ExprInVoidContext`, `definition(_, e)` and `definitionUsePair(_, e, _)`. -/
structure ValueUses (Node : Type) where
  exprInVoidContext : Node → Bool
  definition : Node → Bool
  definitionUsePair : Node → Bool

variable (U : ValueUses Node)

def SafeFloatAccessFuncCall : Node → Prop :=
  CallToName P ["KeSaveFloatingPointState", "EngSaveFloatingPointState"]

def SafeFloatRestoreFuncCall : Node → Prop :=
  CallToName P ["KeRestoreFloatingPointState", "EngRestoreFloatingPointState"]

def SafeFloatRestoreFunc (f : Fn) : Prop :=
  (P.function f).getName ∈ ["KeRestoreFloatingPointState", "EngRestoreFloatingPointState"]

/-- `KernelFloatAnnotatedFunction`, for the name of the macro. -/
def KernelFloatAnnotatedFunction (macroName : String) (f : Fn) : Prop :=
  ∃ a ∈ (P.function f).declAnnotations ++ (P.function f).typedefAnnotations,
    matchesPattern a.getMacroName macroName

/-- The value of the call is not used, or the variable it is saved to is not. -/
def returnUnused (fc : Node) : Prop :=
  U.exprInVoidContext fc ∨ ∃ e ∈ P.getParent fc, U.definition e ∧ ¬ U.definitionUsePair e

/-- A node that `bb` is related to is in the basic block of a call of the class. -/
def sees (reach : Node → Node → Prop) (cls : Node → Prop) (f : Fn) (bb : Node) : Prop :=
  ∃ call node, (∃ n b, reach bb n ∧ BlockOf P.Edge b n ∧ BlockOf P.Edge b node) ∧
    (∃ b, BlockOf P.Edge b call ∧ BlockOf P.Edge b node) ∧ cls call ∧
    getEnclosingFunction P call = some f

/-- A basic block is given by its first node, `bb.getNode(0)`. -/
def floatExit (macroName : String) (reach : Node → Node → Prop) (cls : Node → Prop) (f : Fn) :
    Prop :=
  KernelFloatAnnotatedFunction P macroName f ∧
    ∃ unusedFc bb, FunctionCall P unusedFc ∧ StartsBlock P.Edge bb ∧
      ((getEnclosingFunction P bb = some f ∧ ¬ sees P reach cls f bb) ∨
        (cls unusedFc ∧ getEnclosingFunction P unusedFc = some f ∧ returnUnused P U unusedFc))

def FloatUnsafeExit (f : Fn) : Prop :=
  floatExit P U "_Kernel_float_saved_" (fun bb n => ReflTransGen P.Edge n bb)
    (SafeFloatAccessFuncCall P) f

def FloatSafeExit (f : Fn) : Prop :=
  floatExit P U "_Kernel_float_restored_" (fun bb n => ReflTransGen P.Edge bb n)
    (SafeFloatRestoreFuncCall P) f ∧ ¬ SafeFloatRestoreFunc P f

section

variable [DecidableEq Fn]

instance : DecidablePred (SafeFloatAccessFuncCall P) :=
  inferInstanceAs (DecidablePred (CallToName P _))
instance : DecidablePred (SafeFloatRestoreFuncCall P) :=
  inferInstanceAs (DecidablePred (CallToName P _))
instance : DecidablePred (SafeFloatRestoreFunc P) := fun _ => inferInstanceAs (Decidable (_ ∈ _))
instance (macroName : String) : DecidablePred (KernelFloatAnnotatedFunction P macroName) :=
  fun _ => inferInstanceAs (Decidable (∃ a ∈ _, _))

end

/-! ### Paths -/

/-- The body of the function begins at `e`, and every node is on a path to an exit. -/
structure Flow (f : Fn) (e : Node) : Prop where
  entry : getEnclosingFunction P e = some f
  no_predecessor : ∀ m, ¬ P.Edge m e
  reached : ∀ n, getEnclosingFunction P n = some f → ReflTransGen P.Edge e n
  exits : ∀ n, getEnclosingFunction P n = some f →
    ∃ x, (∀ m, ¬ P.Edge x m) ∧ ReflTransGen P.Edge n x

/-- Some path from the entry to an exit has no call of the class. -/
def SomePathWithout (cls : Node → Prop) (e : Node) : Prop :=
  ∃ x, (∀ m, ¬ P.Edge x m) ∧ Avoids P.Edge cls e x

def InBlockOf (cls : Node → Prop) (n : Node) : Prop :=
  ∃ b call, BlockOf P.Edge b n ∧ BlockOf P.Edge b call ∧ cls call

/-- The basic block of every exit has a call of the class. -/
def InBlocksOfExits (cls : Node → Prop) (f : Fn) : Prop :=
  ∀ x, getEnclosingFunction P x = some f → (∀ m, ¬ P.Edge x m) → InBlockOf P cls x

def ReturnsUsed (cls : Node → Prop) (f : Fn) : Prop :=
  ∀ fc, cls fc → getEnclosingFunction P fc = some f → ¬ returnUnused P U fc

section

variable [DecidableEq Fn] [DecidableEq Node] [Fintype Node] (cls : Node → Prop) [DecidablePred cls]

instance : DecidablePred (SomePathWithout P cls) := fun _ => inferInstanceAs (Decidable (∃ _, _))
instance : DecidablePred (InBlockOf P cls) := fun _ => inferInstanceAs (Decidable (∃ _, _))
instance : DecidablePred (InBlocksOfExits P cls) := fun _ => inferInstanceAs (Decidable (∀ _, _))

end

variable {P U} {f : Fn} {e : Node} {cls : Node → Prop}

lemma scope_of_reach {n m : Node} (h : ReflTransGen P.Edge n m)
    (hn : getEnclosingFunction P n = some f) : getEnclosingFunction P m = some f :=
  (P.reach_scope h).trans hn

lemma scope_of_blockOf {b n : Node} (h : BlockOf P.Edge b n)
    (hn : getEnclosingFunction P n = some f) :
    getEnclosingFunction P b = some f :=
  (P.reach_scope (h.2.lift id fun _ _ => Link.edge)).symm.trans hn

lemma scope_of_blockOf' {b n : Node} (h : BlockOf P.Edge b n)
    (hb : getEnclosingFunction P b = some f) : getEnclosingFunction P n = some f :=
  (P.reach_scope (h.2.lift id fun _ _ => Link.edge)).trans hb

lemma sees_iff {reach : Node → Node → Prop} {bb : Node} :
    sees P reach cls f bb ↔ ∃ n b call, reach bb n ∧ BlockOf P.Edge b n ∧ BlockOf P.Edge b call ∧
      cls call ∧ getEnclosingFunction P call = some f := by
  refine ⟨fun h => ?_, fun h => ?_⟩
  · obtain ⟨call, node, ⟨n, b, hn, hbn, hb⟩, ⟨b', hcall, hb'⟩, hcls, hscope⟩ := h
    obtain rfl := hb.unique hb'
    exact ⟨n, b, call, hn, hbn, hcall, hcls, hscope⟩
  · obtain ⟨n, b, call, hn, hbn, hcall, hcls, hscope⟩ := h
    exact ⟨call, n, ⟨n, b, hn, hbn, hbn⟩, ⟨b, hcall, hbn⟩, hcls, hscope⟩

/-- Where all values are used, a report is about a block of the function. -/
lemma floatExit_iff {macroName : String} {reach : Node → Node → Prop}
    (hcall : ∃ n, FunctionCall P n) (hannotated : KernelFloatAnnotatedFunction P macroName f)
    (hused : ReturnsUsed P U cls f) :
    floatExit P U macroName reach cls f ↔
      ∃ bb, StartsBlock P.Edge bb ∧ getEnclosingFunction P bb = some f ∧
        ¬ sees P reach cls f bb := by
  refine ⟨fun h => ?_, fun h => ?_⟩
  · obtain ⟨-, fc, bb, -, hbb, ⟨hscope, hsees⟩ | ⟨hcls, hscope, hunused⟩⟩ := h
    · exact ⟨bb, hbb, hscope, hsees⟩
    · exact absurd hunused (hused fc hcls hscope)
  · obtain ⟨bb, hbb, hscope, hsees⟩ := h
    obtain ⟨fc, hfc⟩ := hcall
    exact ⟨hannotated, fc, bb, hfc, hbb, Or.inl ⟨hscope, hsees⟩⟩

/-! ### What the queries decide -/

lemma inBlockOf_entry_iff (hflow : Flow P f e) :
    InBlockOf P cls e ↔ ∃ call, BlockOf P.Edge e call ∧ cls call := by
  refine ⟨fun h => ?_, fun h => ?_⟩
  · obtain ⟨b, call, hb, hcall, hcls⟩ := h
    obtain rfl := eq_of_blockOf_entry hflow.no_predecessor hb
    exact ⟨call, hcall, hcls⟩
  · obtain ⟨call, hcall, hcls⟩ := h
    exact ⟨e, call, blockOf_entry hflow.no_predecessor, hcall, hcls⟩

lemma unseen_backward_iff (hflow : Flow P f e) :
    (∃ bb, StartsBlock P.Edge bb ∧ getEnclosingFunction P bb = some f ∧
        ¬ sees P (fun bb n => ReflTransGen P.Edge n bb) cls f bb) ↔ ¬ InBlockOf P cls e := by
  rw [inBlockOf_entry_iff hflow]
  refine ⟨fun h hin => ?_, fun h => ?_⟩
  · obtain ⟨bb, -, hscope, hsees⟩ := h
    obtain ⟨call, hcall, hcls⟩ := hin
    exact hsees (sees_iff.mpr ⟨e, e, call, hflow.reached bb hscope,
      blockOf_entry hflow.no_predecessor, hcall, hcls, scope_of_blockOf' hcall hflow.entry⟩)
  · refine ⟨e, startsBlock_entry hflow.no_predecessor, hflow.entry, fun hsees => h ?_⟩
    obtain ⟨n, b, call, hn, hb, hcall, hcls, -⟩ := sees_iff.mp hsees
    obtain rfl := eq_of_reach_entry hflow.no_predecessor hn
    obtain rfl := eq_of_blockOf_entry hflow.no_predecessor hb
    exact ⟨call, hcall, hcls⟩

/-- Some block leads to no restore iff the block of some exit has none. -/
lemma unseen_forward_iff (hflow : Flow P f e) :
    (∃ bb, StartsBlock P.Edge bb ∧ getEnclosingFunction P bb = some f ∧
        ¬ sees P (fun bb n => ReflTransGen P.Edge bb n) cls f bb) ↔
      ¬ InBlocksOfExits P cls f := by
  refine ⟨fun h hin => ?_, fun h => ?_⟩
  · obtain ⟨bb, -, hscope, hsees⟩ := h
    obtain ⟨x, hx, hbx⟩ := hflow.exits bb hscope
    have hscope' := scope_of_reach hbx hscope
    obtain ⟨b, call, hb, hcall, hcls⟩ := hin x hscope' hx
    exact hsees (sees_iff.mpr ⟨x, b, call, hbx, hb, hcall, hcls,
      scope_of_blockOf' hcall (scope_of_blockOf hb hscope')⟩)
  · unfold InBlocksOfExits at h
    push Not at h
    obtain ⟨x, hscope, hx, hin⟩ := h
    obtain ⟨b, hb⟩ := exists_blockOf hflow.no_predecessor (hflow.reached x hscope)
    refine ⟨b, hb.1, scope_of_blockOf hb hscope, fun hsees => hin ?_⟩
    obtain ⟨n, b', call, hn, hb', hcall, hcls, -⟩ := sees_iff.mp hsees
    obtain rfl := hb'.unique (blockOf_of_reach hx hb hn)
    exact ⟨b', call, hb, hcall, hcls⟩

lemma not_somePathWithout_of_entry (hflow : Flow P f e) (h : InBlockOf P cls e) :
    ¬ SomePathWithout P cls e := by
  rintro ⟨x, hx, havoids⟩
  obtain ⟨call, hcall, hcls⟩ := (inBlockOf_entry_iff hflow).mp h
  exact not_avoids_of_links_exit hx hcall.2 hcls havoids

lemma not_somePathWithout_of_exits (hflow : Flow P f e) (h : InBlocksOfExits P cls f) :
    ¬ SomePathWithout P cls e := by
  rintro ⟨x, hx, havoids⟩
  have hex : ReflTransGen P.Edge e x := havoids.2.lift id fun _ _ hxy => hxy.1
  obtain ⟨b, call, hb, hcall, hcls⟩ := h x (scope_of_reach hex hflow.entry) hx
  exact not_avoids_of_links hflow.no_predecessor (links_exit hx hb hcall) hcls havoids

/-- **Where the block of the entry saves, or some path does not save, the one query reports the
functions with a path that does not save, and nowhere else; so does the other where the blocks of
all exits restore, or some path does not restore.** -/
theorem path_law_iff (hcall : ∃ n, FunctionCall P n) (hflow : Flow P f e) :
    (KernelFloatAnnotatedFunction P "_Kernel_float_saved_" f →
      ReturnsUsed P U (SafeFloatAccessFuncCall P) f →
      ((FloatUnsafeExit P U f ↔ SomePathWithout P (SafeFloatAccessFuncCall P) e) ↔
        InBlockOf P (SafeFloatAccessFuncCall P) e ∨
          SomePathWithout P (SafeFloatAccessFuncCall P) e)) ∧
    (KernelFloatAnnotatedFunction P "_Kernel_float_restored_" f →
      ReturnsUsed P U (SafeFloatRestoreFuncCall P) f → ¬ SafeFloatRestoreFunc P f →
      ((FloatSafeExit P U f ↔ SomePathWithout P (SafeFloatRestoreFuncCall P) e) ↔
        InBlocksOfExits P (SafeFloatRestoreFuncCall P) f ∨
          SomePathWithout P (SafeFloatRestoreFuncCall P) e)) := by
  refine ⟨fun hannotated hused => ?_, fun hannotated hused hapi => ?_⟩
  · have hreport : FloatUnsafeExit P U f ↔ ¬ InBlockOf P (SafeFloatAccessFuncCall P) e :=
      (floatExit_iff hcall hannotated hused).trans (unseen_backward_iff hflow)
    have hentry : InBlockOf P (SafeFloatAccessFuncCall P) e →
        ¬ SomePathWithout P (SafeFloatAccessFuncCall P) e := not_somePathWithout_of_entry hflow
    rw [hreport]
    tauto
  · have hreport : FloatSafeExit P U f ↔ ¬ InBlocksOfExits P (SafeFloatRestoreFuncCall P) f := by
      rw [FloatSafeExit, and_iff_left hapi]
      exact (floatExit_iff hcall hannotated hused).trans (unseen_forward_iff hflow)
    have hexits : InBlocksOfExits P (SafeFloatRestoreFuncCall P) f →
        ¬ SomePathWithout P (SafeFloatRestoreFuncCall P) e := not_somePathWithout_of_exits hflow
    rw [hreport]
    tauto

/-! ### A save and a restore in both branches -/

/-- `if (c) { save; restore; } else { save; restore; }` in a function with both annotations. The
nodes are the body, the condition, the four calls, and the exits of the three functions. -/
def bothBranches : Program (Option Bool) (Fin 9) where
  function f :=
    match f with
    | none => { getName := "routine", declAnnotations :=
        [{ getMacroName := "_Kernel_float_saved_" },
          { getMacroName := "_Kernel_float_restored_" }] }
    | some true => { getName := "KeSaveFloatingPointState" }
    | some false => { getName := "KeRestoreFloatingPointState" }
  getBlock f := if f = none then some 0 else none
  exitNode f :=
    match f with
    | none => 6
    | some true => 7
    | some false => 8
  getASuccessor n := if n = 1 then [2, 4] else if n = 3 then [6] else if n < 6 then [n + 1] else []
  getControlFlowScope n := if n = 7 then some (some true) else if n = 8 then some (some false)
    else some none
  getTarget n := if n = 2 ∨ n = 4 then some (some true)
    else if n = 3 ∨ n = 5 then some (some false) else none
  successor_scope := by decide
  exit_scope := by decide
  exit_enclosing := by decide
  block_scope := by decide
  block_enclosing := by decide

def allUsed : ValueUses (Fin 9) where
  exprInVoidContext _ := false
  definition _ := false
  definitionUsePair _ := false

lemma flow_bothBranches : Flow bothBranches none 0 where
  entry := by decide
  no_predecessor := by decide
  reached := by decide
  exits := by decide

lemma returnsUsed_bothBranches (cls : Fin 9 → Prop) :
    ReturnsUsed bothBranches allUsed cls none := by
  rintro fc - - (h | ⟨e, he, -⟩)
  · exact Bool.false_ne_true h
  · exact absurd he (by simp [bothBranches])

lemma annotated_bothBranches :
    KernelFloatAnnotatedFunction bothBranches "_Kernel_float_saved_" none ∧
      KernelFloatAnnotatedFunction bothBranches "_Kernel_float_restored_" none := by
  decide

theorem path_law_iff_bothBranches :
    ((FloatUnsafeExit bothBranches allUsed none ↔
        SomePathWithout bothBranches (SafeFloatAccessFuncCall bothBranches) 0) ↔
      InBlockOf bothBranches (SafeFloatAccessFuncCall bothBranches) 0 ∨
        SomePathWithout bothBranches (SafeFloatAccessFuncCall bothBranches) 0) ∧
    ((FloatSafeExit bothBranches allUsed none ↔
        SomePathWithout bothBranches (SafeFloatRestoreFuncCall bothBranches) 0) ↔
      InBlocksOfExits bothBranches (SafeFloatRestoreFuncCall bothBranches) none ∨
        SomePathWithout bothBranches (SafeFloatRestoreFuncCall bothBranches) 0) := by
  have hlaw := path_law_iff (U := allUsed) ⟨2, by decide⟩ flow_bothBranches
  exact ⟨hlaw.1 annotated_bothBranches.1 (returnsUsed_bothBranches _),
    hlaw.2 annotated_bothBranches.2 (returnsUsed_bothBranches _) (by decide)⟩

/-- Every path saves and restores, and both queries report the function. -/
theorem bothBranches_reported :
    (FloatUnsafeExit bothBranches allUsed none ∧
      ¬ SomePathWithout bothBranches (SafeFloatAccessFuncCall bothBranches) 0) ∧
    FloatSafeExit bothBranches allUsed none ∧
      ¬ SomePathWithout bothBranches (SafeFloatRestoreFuncCall bothBranches) 0 := by
  have hcall : ∃ n, FunctionCall bothBranches n := ⟨2, by decide⟩
  refine ⟨⟨?_, by decide⟩, ⟨?_, by decide⟩, by decide⟩
  · refine (floatExit_iff hcall annotated_bothBranches.1 (returnsUsed_bothBranches _)).mpr ?_
    exact (unseen_backward_iff flow_bothBranches).mpr (by decide)
  · refine (floatExit_iff hcall annotated_bothBranches.2 (returnsUsed_bothBranches _)).mpr ?_
    exact (unseen_forward_iff flow_bothBranches).mpr (by decide)

end DriverQueries.FloatExits
