import Mathlib.Data.Int.Order.Basic
import DriverQueries.Text

/-!
SAL annotations, and the IRQL they name.

An annotation is a macro invocation with its arguments. It is an IRQL annotation of a
function in direct form, `_IRQL_requires_max_(DISPATCH_LEVEL)`, or as the second argument of
a `_When_`. The class that reads it takes its fields from every way in which its
characteristic predicate holds, so an annotation has a list of readings, and each member
predicate of the class collects its results from all of them.
-/

namespace DriverQueries.Sal

open DriverQueries.Text

/-! ### The macros of wdm.h -/

structure Macro where
  name : String
  head : String
  body : String
  file : String
  deriving DecidableEq, Repr

/-- `IrqlMacro.irqlLevelAsInt`, with no result for a macro that is no `IrqlMacro`. -/
def irqlLevelAsInt (m : Macro) : Option ℤ :=
  if matchesPattern m.name "%_LEVEL" ∧ m.file = "wdm.h" then
    (toInt m.body).filter fun i => 0 ≤ i ∧ i ≤ 31
  else none

def irqlMacros (ms : List Macro) : List (Macro × ℤ) :=
  ms.filterMap fun m => (irqlLevelAsInt m).map fun i => (m, i)

def getGlobalMaxIrqlLevel (ms : List Macro) : List ℤ :=
  ((irqlMacros ms).filter fun im =>
    ¬ ∃ im2 ∈ irqlMacros ms, im2.1 ≠ im.1 ∧ im2.2 > im.2).map fun im => im.2

/-- `IrqlValue`: a real level, between 0 and the global maximum. -/
def IrqlValue (ms : List Macro) (v : ℤ) : Prop :=
  ∃ M ∈ getGlobalMaxIrqlLevel ms, 0 ≤ v ∧ v ≤ M

instance (ms : List Macro) (v : ℤ) : Decidable (IrqlValue ms v) :=
  inferInstanceAs (Decidable (∃ M ∈ _, _))

lemma le_globalMax {ms : List Macro} {M : ℤ} (hM : M ∈ getGlobalMaxIrqlLevel ms)
    {im : Macro × ℤ} (him : im ∈ irqlMacros ms) : im.2 ≤ M := by
  simp only [getGlobalMaxIrqlLevel, List.mem_map, List.mem_filter, decide_eq_true_eq] at hM
  obtain ⟨im', ⟨him', hmax⟩, rfl⟩ := hM
  by_contra hlt
  refine hmax ⟨im, him, ?_, by omega⟩
  intro heq
  simp only [irqlMacros, List.mem_filterMap, Option.map_eq_some_iff] at him him'
  obtain ⟨m, -, i, hi, rfl⟩ := him
  obtain ⟨m', -, i', hi', rfl⟩ := him'
  simp only at heq
  rw [heq, hi'] at hi
  simp only [Option.some.injEq] at hi
  simp only at hlt
  omega

lemma irqlMacros_nonneg {ms : List Macro} {im : Macro × ℤ} (h : im ∈ irqlMacros ms) :
    0 ≤ im.2 := by
  simp only [irqlMacros, List.mem_filterMap, Option.map_eq_some_iff] at h
  obtain ⟨m, -, i, hi, rfl⟩ := h
  unfold irqlLevelAsInt at hi
  split_ifs at hi
  simp only [Option.filter_eq_some_iff, decide_eq_true_eq] at hi
  exact hi.2.1

lemma globalMax_unique {ms : List Macro} {M M' : ℤ} (h : M ∈ getGlobalMaxIrqlLevel ms)
    (h' : M' ∈ getGlobalMaxIrqlLevel ms) : M = M' := by
  have mem : ∀ {N : ℤ}, N ∈ getGlobalMaxIrqlLevel ms → ∃ im ∈ irqlMacros ms, im.2 = N := by
    intro N hN
    simp only [getGlobalMaxIrqlLevel, List.mem_map, List.mem_filter] at hN
    obtain ⟨im, ⟨him, -⟩, rfl⟩ := hN
    exact ⟨im, him, rfl⟩
  obtain ⟨im, him, rfl⟩ := mem h
  obtain ⟨im', him', rfl⟩ := mem h'
  exact le_antisymm (le_globalMax h' him) (le_globalMax h him')

/-! ### Annotations -/

/-- A top-level invocation of a SAL macro. `inner` says that some macro invocation has
this one as its parent. -/
structure SALAnnotation where
  getMacroName : String
  getUnexpandedArgument : List String := []
  getExpandedArgument : List String := []
  inner : Bool := false
  deriving DecidableEq, Repr

/-- The fields of `IrqlFunctionAnnotation`, in one way its characteristic predicate holds. -/
structure Reading where
  irqlLevel : String
  irqlAnnotationName : String
  innerAnnotationName : String
  deriving DecidableEq, Repr

/-- The direct forms that carry a level. -/
def directNames : List String :=
  ["__drv_requiresIRQL", "_IRQL_requires_", "_drv_minIRQL", "_IRQL_requires_min_",
    "_drv_maxIRQL", "_IRQL_requires_max_", "__drv_raisesIRQL", "_IRQL_raises_",
    "__drv_maxFunctionIRQL", "_IRQL_always_function_max_", "__drv_minFunctionIRQL",
    "_IRQL_always_function_min_"]

def savesNames : List String := ["__drv_savesIRQL", "_IRQL_saves_"]

/-- The names looked for inside a `_When_`. -/
def whenNames : List String :=
  ["__drv_requiresIRQL", "_IRQL_requires_", "_drv_minIRQL", "_drv_maxIRQL",
    "_IRQL_requires_max_", "_IRQL_raises_", "__drv_maxFunctionIRQL",
    "_IRQL_always_function_max_", "__drv_minFunctionIRQL", "_IRQL_always_function_min_"]

/-- The level texts cut out of the inner annotation of a `_When_`. The two searches for the
opening bracket are independent of each other. -/
def whenLevels (full name : List Char) : List (List Char) :=
  (indexOf (name ++ ['(']) full).flatMap fun i =>
    (indexOf (name ++ ['(']) full).filterMap fun j =>
      (indexOfFrom [')'] 0 (j + 1 + name.length) full).bind fun e =>
        substring full (i + 1 + name.length) e

/-- The characteristic predicate of `IrqlFunctionAnnotation`. -/
def readings (a : SALAnnotation) : List Reading :=
  (if a.getMacroName ∈ directNames then
    a.getUnexpandedArgument[0]?.toList.map fun level =>
      ⟨level, a.getMacroName, a.getMacroName⟩
  else []) ++
  (if a.getMacroName ∈ savesNames then
    [⟨"NA_IRQL_SAVES", a.getMacroName, a.getMacroName⟩]
  else []) ++
  (if a.getMacroName = "_When_" then
    a.getUnexpandedArgument[1]?.toList.flatMap fun full =>
      (whenNames.filter fun name => matchesPattern full (name ++ "%")).flatMap fun name =>
        (whenLevels full.toList name.toList).map fun level =>
          ⟨String.ofList level, a.getMacroName, name⟩
  else [])

def IrqlFunctionAnnotation (a : SALAnnotation) : Prop := readings a ≠ []

instance : DecidablePred IrqlFunctionAnnotation :=
  fun _ => inferInstanceAs (Decidable (¬ _))

def getIrqlMacroName (a : SALAnnotation) : List String :=
  (readings a).map fun r =>
    if a.getMacroName = "_When_" then r.innerAnnotationName else r.irqlAnnotationName

def getIrqlLevelString (a : SALAnnotation) : List String := (readings a).map (·.irqlLevel)

/-- Some level text of `a` is a pattern that the head of the macro matches. -/
def HeadMatches (a : SALAnnotation) (m : Macro) : Prop :=
  ∃ l ∈ getIrqlLevelString a, matchesPattern m.head l

instance (a : SALAnnotation) : DecidablePred (HeadMatches a) :=
  fun _ => inferInstanceAs (Decidable (∃ l ∈ _, _))

def getIrqlLevel (ms : List Macro) (a : SALAnnotation) : List ℤ :=
  if ¬ IrqlFunctionAnnotation a then []
  else if "DPC_LEVEL" ∈ getIrqlLevelString a then [2]
  else if ∃ im ∈ irqlMacros ms, HeadMatches a im.1 then
    ((irqlMacros ms).filter fun im => HeadMatches a im.1).map fun im => im.2
  else if ∃ l ∈ getIrqlLevelString a, (toInt l).isSome then
    (getIrqlLevelString a).filterMap toInt
  else [-1]

/-- No level text of `a` is one that `getIrqlLevel` can evaluate. -/
def Unevaluable (ms : List Macro) (a : SALAnnotation) : Prop :=
  "DPC_LEVEL" ∉ getIrqlLevelString a ∧ (∀ im ∈ irqlMacros ms, ¬ HeadMatches a im.1) ∧
    ∀ l ∈ getIrqlLevelString a, toInt l = none

/-- The levels `getIrqlLevel` can return. -/
lemma mem_getIrqlLevel {ms : List Macro} {a : SALAnnotation} {v : ℤ}
    (h : v ∈ getIrqlLevel ms a) :
    v = 2 ∨ (∃ im ∈ irqlMacros ms, im.2 = v) ∨ (∃ l ∈ getIrqlLevelString a, toInt l = some v) ∨
      (v = -1 ∧ Unevaluable ms a) := by
  unfold getIrqlLevel at h
  split_ifs at h with hcls hdpc hmac hint
  · exact Or.inl (by simpa using h)
  · simp only [List.mem_map, List.mem_filter] at h
    obtain ⟨im, ⟨him, -⟩, rfl⟩ := h
    exact Or.inr (Or.inl ⟨im, him, rfl⟩)
  · obtain ⟨l, hl, hv⟩ := List.mem_filterMap.mp h
    exact Or.inr (Or.inr (Or.inl ⟨l, hl, hv⟩))
  · refine Or.inr (Or.inr (Or.inr ⟨by simpa using h, hdpc, ?_, ?_⟩))
    · exact fun im him hm => hmac ⟨im, him, hm⟩
    · intro l hl
      by_contra hne
      exact hint ⟨l, hl, Option.isSome_iff_ne_none.mpr hne⟩
  · simp at h

lemma getIrqlLevel_unevaluable {ms : List Macro} {a : SALAnnotation}
    (ha : IrqlFunctionAnnotation a) (h : Unevaluable ms a) : getIrqlLevel ms a = [-1] := by
  obtain ⟨hdpc, hmac, hint⟩ := h
  have hmac' : ¬ ∃ im ∈ irqlMacros ms, HeadMatches a im.1 := fun ⟨im, him, hm⟩ => hmac im him hm
  have hint' : ¬ ∃ l ∈ getIrqlLevelString a, (toInt l).isSome := by
    intro ⟨l, hl, hs⟩
    simp [hint l hl] at hs
  unfold getIrqlLevel
  rw [if_neg (not_not_intro ha), if_neg hdpc, if_neg hmac', if_neg hint']

lemma getIrqlLevel_ne_nil (ms : List Macro) {a : SALAnnotation}
    (ha : IrqlFunctionAnnotation a) : getIrqlLevel ms a ≠ [] := by
  unfold getIrqlLevel
  rw [if_neg (not_not_intro ha)]
  split_ifs with hdpc hmac hint
  · exact List.cons_ne_nil _ _
  · obtain ⟨im, him, hm⟩ := hmac
    refine List.ne_nil_of_mem (a := im.2) (List.mem_map.mpr ⟨im, ?_, rfl⟩)
    exact List.mem_filter.mpr ⟨him, decide_eq_true hm⟩
  · obtain ⟨l, hl, hs⟩ := hint
    obtain ⟨i, hi⟩ := Option.isSome_iff_exists.mp hs
    exact List.ne_nil_of_mem (List.mem_filterMap.mpr ⟨l, hl, hi⟩)
  · exact List.cons_ne_nil _ _

/-! ### The classes of annotations -/

def HasIrqlMacroName (names : List String) (a : SALAnnotation) : Prop :=
  ∃ n ∈ getIrqlMacroName a, n ∈ names

instance (names : List String) : DecidablePred (HasIrqlMacroName names) :=
  fun _ => inferInstanceAs (Decidable (∃ n ∈ _, _))

def IrqlMaxAnnotation : SALAnnotation → Prop :=
  HasIrqlMacroName ["_drv_maxIRQL", "_IRQL_requires_max_"]

def IrqlRaisesAnnotation : SALAnnotation → Prop :=
  HasIrqlMacroName ["__drv_raisesIRQL", "_IRQL_raises_"]

def IrqlMinAnnotation : SALAnnotation → Prop :=
  HasIrqlMacroName ["_drv_minIRQL", "_IRQL_requires_min_"]

def IrqlRequiresAnnotation : SALAnnotation → Prop :=
  HasIrqlMacroName ["__drv_requiresIRQL", "_IRQL_requires_"]

def IrqlAlwaysMaxAnnotation : SALAnnotation → Prop :=
  HasIrqlMacroName ["__drv_maxFunctionIRQL", "_IRQL_always_function_max_"]

def IrqlAlwaysMinAnnotation : SALAnnotation → Prop :=
  HasIrqlMacroName ["__drv_minFunctionIRQL", "_IRQL_always_function_min_"]

def IrqlSaveAnnotation : SALAnnotation → Prop := HasIrqlMacroName savesNames

instance : DecidablePred IrqlMaxAnnotation := inferInstanceAs (DecidablePred (HasIrqlMacroName _))
instance : DecidablePred IrqlRaisesAnnotation :=
  inferInstanceAs (DecidablePred (HasIrqlMacroName _))
instance : DecidablePred IrqlMinAnnotation := inferInstanceAs (DecidablePred (HasIrqlMacroName _))
instance : DecidablePred IrqlRequiresAnnotation :=
  inferInstanceAs (DecidablePred (HasIrqlMacroName _))
instance : DecidablePred IrqlAlwaysMaxAnnotation :=
  inferInstanceAs (DecidablePred (HasIrqlMacroName _))
instance : DecidablePred IrqlAlwaysMinAnnotation :=
  inferInstanceAs (DecidablePred (HasIrqlMacroName _))
instance : DecidablePred IrqlSaveAnnotation := inferInstanceAs (DecidablePred (HasIrqlMacroName _))

def IrqlSameAnnotation (a : SALAnnotation) : Prop :=
  a.getMacroName ∈ ["__drv_sameIRQL", "_IRQL_requires_same_"]

/-- `IrqlRestoreAnnotation`, with what it inherits from `IrqlParameterAnnotation`. -/
def IrqlRestoreAnnotation (a : SALAnnotation) : Prop :=
  a.getMacroName ∈ ["__drv_restoresIRQL", "_IRQL_restores_", "__drv_savesIRQL", "_IRQL_saves_"] ∧
    a.inner ∧ a.getMacroName ∈ ["__drv_restoresIRQL", "_IRQL_restores_"]

def IrqlSavesGlobalAnnotation (a : SALAnnotation) : Prop :=
  a.getMacroName ∈ ["__drv_savesIRQLGlobal", "_IRQL_saves_global_"] ∧ a.inner

def IrqlRestoresGlobalAnnotation (a : SALAnnotation) : Prop :=
  a.getMacroName ∈ ["__drv_restoresIRQLGlobal", "_IRQL_restores_global_"] ∧ a.inner

instance : DecidablePred IrqlSameAnnotation := fun _ => inferInstanceAs (Decidable (_ ∈ _))
instance : DecidablePred IrqlRestoreAnnotation := fun _ => inferInstanceAs (Decidable (_ ∧ _))
instance : DecidablePred IrqlSavesGlobalAnnotation := fun _ => inferInstanceAs (Decidable (_ ∧ _))
instance : DecidablePred IrqlRestoresGlobalAnnotation :=
  fun _ => inferInstanceAs (Decidable (_ ∧ _))

lemma HasIrqlMacroName.isFunction {names : List String} {a : SALAnnotation}
    (h : HasIrqlMacroName names a) : IrqlFunctionAnnotation a := by
  obtain ⟨n, hn, -⟩ := h
  intro hnil
  simp [getIrqlMacroName, hnil] at hn

end DriverQueries.Sal
