import DriverQueries.Database
import Mathlib.Data.Int.Range

/-!
The IRQLs a function may be entered at.

The annotations of a function give lower and upper bounds on its entry level; where one kind
is missing, a default stands in. Every bound is a level of the machine, and so is every entry
level as long as `DISPATCH_LEVEL` is one.
-/

namespace DriverQueries.EntryLevels

open DriverQueries.Text DriverQueries.Sal DriverQueries.Database

variable {ms : List Macro} {f : FunctionInfo} {v M : ℤ}

/-- The bounds from the annotations of the first class, else of the second, else of
`_IRQL_requires_`, else of a paged function. Only levels of the machine count. -/
def bounds (strict always : SALAnnotation → Prop) [DecidablePred strict] [DecidablePred always]
    (paged : ℤ) (ms : List Macro) (f : FunctionInfo) : List ℤ :=
  (if AnnotatedFunction strict f then annotatedLevels strict ms f
    else if AnnotatedFunction always f then annotatedLevels always ms f
    else if IrqlRequiresAnnotatedFunction f then annotatedLevels IrqlRequiresAnnotation ms f
    else if f.pagedFunctionDeclaration then [paged]
    else []).filter fun v => IrqlValue ms v

def hasUpperBound : List Macro → FunctionInfo → List ℤ :=
  bounds IrqlMaxAnnotation IrqlAlwaysMaxAnnotation 1

def hasLowerBound : List Macro → FunctionInfo → List ℤ :=
  bounds IrqlMinAnnotation IrqlAlwaysMinAnnotation 0

/-- The values of the range `[lo .. hi]` for any of the bounds. -/
def ranges (lo hi : List ℤ) : List ℤ :=
  lo.flatMap fun l => hi.flatMap fun h => Int.range l (h + 1)

def getAllowableIrqlLevel (ms : List Macro) (f : FunctionInfo) : List ℤ :=
  ranges (hasLowerBound ms f) (hasUpperBound ms f) ++
  (if hasLowerBound ms f = [] then ranges [0] (hasUpperBound ms f) else []) ++
  (if hasUpperBound ms f = [] ∧ ∃ l ∈ hasLowerBound ms f, 2 < l then
    ranges (hasLowerBound ms f) (getGlobalMaxIrqlLevel ms) else []) ++
  (if hasUpperBound ms f = [] ∧ ∃ l ∈ hasLowerBound ms f, l ≤ 2 then
    ranges (hasLowerBound ms f) [2] else [])

lemma mem_ranges {lo hi : List ℤ} : v ∈ ranges lo hi ↔ ∃ l ∈ lo, ∃ h ∈ hi, l ≤ v ∧ v ≤ h := by
  simp only [ranges, List.mem_flatMap, Int.mem_range_iff, Int.lt_add_one_iff]

lemma irqlValue_iff (hM : M ∈ getGlobalMaxIrqlLevel ms) : IrqlValue ms v ↔ 0 ≤ v ∧ v ≤ M := by
  refine ⟨fun h => ?_, fun h => ⟨M, hM, h⟩⟩
  obtain ⟨M', hM', h⟩ := h
  rwa [globalMax_unique hM hM']

lemma irqlValue_of_mem_bounds {strict always : SALAnnotation → Prop} [DecidablePred strict]
    [DecidablePred always] {paged : ℤ} (h : v ∈ bounds strict always paged ms f) :
    IrqlValue ms v := by
  unfold bounds at h
  exact of_decide_eq_true (List.mem_filter.mp h).2

lemma exists_bounds (h : v ∈ getAllowableIrqlLevel ms f) :
    ∃ l u, (l = 0 ∨ l ∈ hasLowerBound ms f) ∧
      (u = 2 ∨ u ∈ hasUpperBound ms f ∨ u ∈ getGlobalMaxIrqlLevel ms) ∧ l ≤ v ∧ v ≤ u := by
  simp only [getAllowableIrqlLevel, List.mem_append] at h
  obtain ((h | h) | h) | h := h
  · obtain ⟨l, hl, u, hu, hlv, hvu⟩ := mem_ranges.mp h
    exact ⟨l, u, Or.inr hl, Or.inr (Or.inl hu), hlv, hvu⟩
  all_goals
    split_ifs at h
    · obtain ⟨l, hl, u, hu, hlv, hvu⟩ := mem_ranges.mp h
      refine ⟨l, u, ?_, ?_, hlv, hvu⟩ <;> simp_all
    · exact absurd h List.not_mem_nil

lemma allowable_nonneg (h : v ∈ getAllowableIrqlLevel ms f) : 0 ≤ v := by
  obtain ⟨l, u, rfl | hl, -, hlv, -⟩ := exists_bounds h
  · exact hlv
  · obtain ⟨M, -, h0, -⟩ := irqlValue_of_mem_bounds hl
    exact h0.trans hlv

/-- **Every entry level is a level of the machine**, if `DISPATCH_LEVEL` is. -/
theorem irqlValue_of_allowable (hdispatch : IrqlValue ms 2)
    (h : v ∈ getAllowableIrqlLevel ms f) : IrqlValue ms v := by
  obtain ⟨M, hM, -, h2⟩ := hdispatch
  obtain ⟨l, u, -, hu, -, hvu⟩ := exists_bounds h
  have huM : u ≤ M := by
    obtain rfl | hu | hu := hu
    · exact h2
    · exact ((irqlValue_iff hM).mp (irqlValue_of_mem_bounds hu)).2
    · exact (globalMax_unique hu hM).le
  exact ⟨M, hM, allowable_nonneg h, hvu.trans huM⟩

end DriverQueries.EntryLevels
