import DriverQueries.Runs
import Mathlib.Data.Int.ConditionallyCompleteOrder
import Mathlib.Order.ConditionallyCompleteLattice.Basic

/-!
What the entry of a function is estimated at.

The bounds of a function are two finite sets of levels. The entry levels are the intervals between
them, and the entry of a function without call sites has just these, or zero if there are none.
-/

namespace DriverQueries.Entries

open DriverQueries.Sal DriverQueries.Database DriverQueries.Calls DriverQueries.CopyRules
open DriverQueries.EntryLevels DriverQueries.Cascade DriverQueries.Runs

/-! ### Intervals between bounds -/

/-- The levels between two sets of bounds, with the defaults for bounds that are missing. -/
structure BetweenBounds (Lo Hi : Set ℤ) (M : ℤ) (A : Set ℤ) : Prop where
  both : Lo.Nonempty → Hi.Nonempty → A = ⋃ l ∈ Lo, ⋃ u ∈ Hi, Set.Icc l u
  no_lower : Lo = ∅ → A = ⋃ u ∈ Hi, Set.Icc 0 u
  no_upper : Hi = ∅ → Lo.Nonempty →
    Lo ⊆ A ∧ (∀ v ∈ A, v ≤ M) ∧ ((∀ l ∈ Lo, l ≤ 2) → ∀ v ∈ A, v ≤ 2)
  level : ∀ v ∈ A, v ≠ -1 ∧ v ≤ M
  empty : A = ∅ → (Lo = ∅ ∧ Hi = ∅) ∨ (Lo.Nonempty ∧ Hi.Nonempty ∧ ∀ l ∈ Lo, ∀ u ∈ Hi, u < l)

/-- The entry levels for the values of `hasLowerBound`, `hasUpperBound` and
`getGlobalMaxIrqlLevel`. -/
def levelsBetween (lower upper max : List ℤ) : List ℤ :=
  ranges lower upper ++
  (if lower = [] then ranges [0] upper else []) ++
  (if upper = [] ∧ ∃ l ∈ lower, 2 < l then ranges lower max else []) ++
  (if upper = [] ∧ ∃ l ∈ lower, l ≤ 2 then ranges lower [2] else [])

lemma getAllowableIrqlLevel_eq (ms : List Macro) (f : FunctionInfo) :
    getAllowableIrqlLevel ms f =
      levelsBetween (hasLowerBound ms f) (hasUpperBound ms f) (getGlobalMaxIrqlLevel ms) := rfl

variable {lower upper max : List ℤ} {M v : ℤ}

lemma mem_levelsBetween_both (hl : lower ≠ []) (hu : upper ≠ []) :
    v ∈ levelsBetween lower upper max ↔ ∃ l ∈ lower, ∃ u ∈ upper, l ≤ v ∧ v ≤ u := by
  simp only [levelsBetween, if_neg hl, hu, false_and, if_false, List.append_nil, mem_ranges]

lemma mem_levelsBetween_nil_lower :
    v ∈ levelsBetween [] upper max ↔ ∃ u ∈ upper, 0 ≤ v ∧ v ≤ u := by
  simp [levelsBetween, mem_ranges]

lemma mem_levelsBetween_nil_upper :
    v ∈ levelsBetween lower [] max ↔
      ((∃ l ∈ lower, 2 < l) ∧ ∃ l ∈ lower, ∃ m ∈ max, l ≤ v ∧ v ≤ m) ∨
        ((∃ l ∈ lower, l ≤ 2) ∧ ∃ l ∈ lower, l ≤ v ∧ v ≤ 2) := by
  have hite : ∀ (p : Prop) [Decidable p] (xs : List ℤ),
      v ∈ (if p then xs else []) ↔ p ∧ v ∈ xs := by
    intro p _ xs
    split_ifs with hp <;> simp [hp]
  simp only [levelsBetween, List.mem_append, hite, mem_ranges, true_and]
  simp

lemma lower_mem (hmax : ∀ m, m ∈ max ↔ m = M) (hlower : ∀ l ∈ lower, 0 ≤ l ∧ l ≤ M) {l : ℤ}
    (hl : l ∈ lower) (hu : upper = [] ∨ ∃ u ∈ upper, l ≤ u) :
    l ∈ levelsBetween lower upper max := by
  obtain rfl | ⟨u, hu, hlu⟩ := hu
  · refine mem_levelsBetween_nil_upper.mpr ?_
    rcases lt_or_ge 2 l with h | h
    · exact Or.inl ⟨⟨l, hl, h⟩, l, hl, M, (hmax M).mpr rfl, le_rfl, (hlower l hl).2⟩
    · exact Or.inr ⟨⟨l, hl, h⟩, l, hl, le_rfl, h⟩
  · exact (mem_levelsBetween_both (List.ne_nil_of_mem hl) (List.ne_nil_of_mem hu)).mpr
      ⟨l, hl, u, hu, le_rfl, hlu⟩

lemma level_of_mem (hmax : ∀ m, m ∈ max ↔ m = M) (hlower : ∀ l ∈ lower, 0 ≤ l ∧ l ≤ M)
    (hupper : ∀ u ∈ upper, 0 ≤ u ∧ u ≤ M) (h2 : 2 ≤ M) (hv : v ∈ levelsBetween lower upper max) :
    0 ≤ v ∧ v ≤ M := by
  by_cases hl : lower = []
  · subst hl
    obtain ⟨u, hu, h0, hvu⟩ := mem_levelsBetween_nil_lower.mp hv
    exact ⟨h0, hvu.trans (hupper u hu).2⟩
  by_cases hu : upper = []
  · subst hu
    obtain ⟨-, l, hl, m, hm, hlv, hvm⟩ | ⟨-, l, hl, hlv, hv2⟩ := mem_levelsBetween_nil_upper.mp hv
    · exact ⟨(hlower l hl).1.trans hlv, hvm.trans ((hmax m).mp hm).le⟩
    · exact ⟨(hlower l hl).1.trans hlv, hv2.trans h2⟩
  · obtain ⟨l, hl, u, hu, hlv, hvu⟩ := (mem_levelsBetween_both hl hu).mp hv
    exact ⟨(hlower l hl).1.trans hlv, hvu.trans (hupper u hu).2⟩

lemma eq_nil_of_empty {xs : List ℤ} (h : {x | x ∈ xs} = ∅) : xs = [] :=
  List.eq_nil_iff_forall_not_mem.mpr fun x hx => Set.notMem_empty x (h ▸ hx)

lemma bounds_of_no_level (hlower : ∀ l ∈ lower, 0 ≤ l ∧ l ≤ M)
    (hupper : ∀ u ∈ upper, 0 ≤ u ∧ u ≤ M) (hmax : ∀ m, m ∈ max ↔ m = M)
    (hnone : ∀ v, v ∉ levelsBetween lower upper max) :
    (lower = [] ∧ upper = []) ∨
      (lower ≠ [] ∧ upper ≠ [] ∧ ∀ l ∈ lower, ∀ u ∈ upper, u < l) := by
  rcases eq_or_ne lower [] with rfl | hne
  · refine Or.inl ⟨rfl, List.eq_nil_iff_forall_not_mem.mpr fun u hu => hnone 0 ?_⟩
    exact mem_levelsBetween_nil_lower.mpr ⟨u, hu, le_rfl, (hupper u hu).1⟩
  · obtain ⟨l, hl⟩ := List.exists_mem_of_ne_nil lower hne
    refine Or.inr ⟨hne, fun hu => hnone l (lower_mem hmax hlower hl (Or.inl hu)), ?_⟩
    intro l hl u hu
    by_contra hle
    exact hnone l (lower_mem hmax hlower hl (Or.inr ⟨u, hu, not_lt.mp hle⟩))

/-- **The entry levels are the intervals between the bounds.** -/
theorem betweenBounds (hlower : ∀ l ∈ lower, 0 ≤ l ∧ l ≤ M) (hupper : ∀ u ∈ upper, 0 ≤ u ∧ u ≤ M)
    (hmax : ∀ m, m ∈ max ↔ m = M) (h2 : 2 ≤ M) :
    BetweenBounds {l | l ∈ lower} {u | u ∈ upper} M {v | v ∈ levelsBetween lower upper max} where
  both := by
    rintro ⟨l, hl⟩ ⟨u, hu⟩
    ext v
    simp only [Set.mem_ofPred_eq, Set.mem_iUnion, Set.mem_Icc, exists_prop,
      mem_levelsBetween_both (List.ne_nil_of_mem hl) (List.ne_nil_of_mem hu)]
  no_lower := by
    intro hl
    obtain rfl : lower = [] := eq_nil_of_empty hl
    ext v
    simp only [Set.mem_ofPred_eq, Set.mem_iUnion, Set.mem_Icc, exists_prop,
      mem_levelsBetween_nil_lower]
  no_upper := by
    intro hu hne
    obtain rfl : upper = [] := eq_nil_of_empty hu
    refine ⟨fun l hl => lower_mem hmax hlower hl (Or.inl rfl), fun v hv => ?_,
      fun hall v hv => ?_⟩
    · exact (level_of_mem hmax hlower hupper h2 hv).2
    · obtain ⟨⟨l, hl, hlt⟩, -⟩ | ⟨-, l, hl, -, hv2⟩ := mem_levelsBetween_nil_upper.mp hv
      · exact absurd (hall l hl) (not_le.mpr hlt)
      · exact hv2
  level := by
    intro v hv
    obtain ⟨h0, hM⟩ := level_of_mem hmax hlower hupper h2 hv
    exact ⟨by omega, hM⟩
  empty hempty := by
    have hnone : ∀ v, v ∉ levelsBetween lower upper max := fun v hv =>
      Set.notMem_empty v (hempty ▸ hv)
    obtain ⟨hl, hu⟩ | ⟨hl, hu, hlt⟩ := bounds_of_no_level hlower hupper hmax hnone
    · exact Or.inl ⟨by simp [hl], by simp [hu]⟩
    · exact Or.inr ⟨List.exists_mem_of_ne_nil lower hl, List.exists_mem_of_ne_nil upper hu, hlt⟩

/-! ### The entry of a function -/

section Entry

variable {Fn Node : Type} [DecidableEq Fn] [DecidableEq Node] [Fintype Node] {P : Program Fn Node}
variable {f : Fn} {b : Node}

/-- The entry of a function without call sites has the entry levels of the function, or zero. -/
lemma internal_entry_iff (hentry : EntryNodes P) (hb : b ∈ P.getBlock f)
    (hcallers : ∀ n, P.getTarget n ≠ some f) (hrestricts : IrqlRestrictsFunction (P.function f)) :
    getPotentialExitIrqlAtCfnInternal P b v ↔
      v ∈ getAllowableIrqlLevel P.macros (P.function f) ∨
        getAllowableIrqlLevel P.macros (P.function f) = [] ∧ v = 0 := by
  have hscope : P.getControlFlowScope b = some f := P.block_scope f b hb
  have hbranch := branch_entry hentry hb hcallers
  have hlevels : HasAllowableLevel P b ↔ getAllowableIrqlLevel P.macros (P.function f) ≠ [] := by
    simp only [HasAllowableLevel, hscope, Option.mem_some_iff, exists_eq_left', hrestricts,
      true_and]
    refine ⟨?_, fun hne => ?_⟩
    · rintro ⟨v, hv, -⟩
      exact List.ne_nil_of_mem hv
    · obtain ⟨v, hv⟩ := List.exists_mem_of_ne_nil _ hne
      have h0 := allowable_nonneg hv
      exact ⟨v, hv, by omega⟩
  unfold getPotentialExitIrqlAtCfnInternal
  rw [derives_unfold]
  by_cases hallow : HasAllowableLevel P b
  · rw [if_pos hallow] at hbranch
    have hne := hlevels.mp hallow
    simp [levelSource, copiesFrom, hbranch, hscope, hne]
  · rw [if_neg hallow] at hbranch
    have hnil := not_not.mp (hlevels.not.mp hallow)
    simp [levelSource, copiesFrom, hbranch, hnil]

/-- **The entry levels are the intervals between the bounds, and they are what the entry of a
restricted function without call sites is estimated at, or zero if there are none.** -/
theorem entry_intervals (hM : M ∈ getGlobalMaxIrqlLevel P.macros) (h2 : 2 ≤ M) :
    (∀ lower upper, (∀ l ∈ lower, 0 ≤ l ∧ l ≤ M) → (∀ u ∈ upper, 0 ≤ u ∧ u ≤ M) →
      BetweenBounds {l | l ∈ lower} {u | u ∈ upper} M
        {v | v ∈ levelsBetween lower upper (getGlobalMaxIrqlLevel P.macros)}) ∧
    (∀ f, BetweenBounds {l | l ∈ hasLowerBound P.macros f} {u | u ∈ hasUpperBound P.macros f} M
      {v | v ∈ getAllowableIrqlLevel P.macros f}) ∧
    ∀ f, ∀ b ∈ P.getBlock f, EntryNodes P → (∀ n, P.getTarget n ≠ some f) →
      IrqlRestrictsFunction (P.function f) → ∀ v, getPotentialExitIrqlAtCfn P b v ↔
        v ∈ getAllowableIrqlLevel P.macros (P.function f) ∨
          getAllowableIrqlLevel P.macros (P.function f) = [] ∧ v = 0 := by
  have hmax : ∀ m, m ∈ getGlobalMaxIrqlLevel P.macros ↔ m = M :=
    fun m => ⟨fun hm => globalMax_unique hm hM, fun hm => hm ▸ hM⟩
  have hlevel : ∀ {l}, IrqlValue P.macros l → 0 ≤ l ∧ l ≤ M := fun hl => (irqlValue_iff hM).mp hl
  refine ⟨fun lower upper hlower hupper => betweenBounds hlower hupper hmax h2, fun f => ?_,
    fun f b hb hentry hcallers hrestricts v => ?_⟩
  · rw [getAllowableIrqlLevel_eq]
    exact betweenBounds (fun l hl => hlevel (irqlValue_of_mem_bounds hl))
      (fun u hu => hlevel (irqlValue_of_mem_bounds hu)) hmax h2
  · rw [potential_iff_internal P (P.block_enclosing f b hb)]
    exact internal_entry_iff hentry hb hcallers hrestricts

end Entry

/-- `VOID routine() { }` with the annotations. The nodes are its body and its exit. -/
def emptyRoutine (annotations : List SALAnnotation) : Program Unit Bool where
  macros := wdm
  function _ := { getName := "routine", declAnnotations := annotations }
  getBlock _ := some true
  exitNode _ := false
  getASuccessor n := if n then [false] else []
  getControlFlowScope _ := some ()
  getTarget _ := none
  successor_scope _ _ _ := rfl
  exit_scope _ := rfl
  exit_enclosing _ := rfl
  block_scope _ _ _ := rfl
  block_enclosing _ _ _ s hs := absurd hs (by simp)

def requiresMaxApc : SALAnnotation :=
  { getMacroName := "_IRQL_requires_max_", getUnexpandedArgument := ["APC_LEVEL"],
    getExpandedArgument := ["1"] }

theorem entry_intervals_requiresMaxApc :
    getPotentialExitIrqlAtCfn (emptyRoutine [requiresMaxApc]) true 1 ∧
      ¬ getPotentialExitIrqlAtCfn (emptyRoutine [requiresMaxApc]) true 2 := by
  have hM : 2 ∈ getGlobalMaxIrqlLevel wdm := by decide
  have hentry : EntryNodes (emptyRoutine [requiresMaxApc]) := by unfold EntryNodes; decide
  have hiff := (entry_intervals (P := emptyRoutine [requiresMaxApc]) hM le_rfl).2.2 () true rfl
    hentry (by simp [emptyRoutine]) (by decide)
  exact ⟨(hiff 1).mpr (Or.inl (by decide)), fun h => absurd ((hiff 2).mp h) (by decide)⟩

end DriverQueries.Entries
