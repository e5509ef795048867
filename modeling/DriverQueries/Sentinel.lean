import DriverQueries.Cascade

/-!
The range of the estimated levels.

Every level the cascade starts from is a literal, an annotation level, an entry level or
zero, so the estimate stays in the range of the machine when these do. The one that need not
is the level of a raising annotation: where its text cannot be evaluated the level is -1, and
the branch for raising calls takes it as it is.
-/

namespace DriverQueries.Sentinel

open DriverQueries.Text DriverQueries.Sal DriverQueries.Database DriverQueries.Calls
open DriverQueries.EntryLevels DriverQueries.Cascade

variable {Fn Node : Type} (P : Program Fn Node)

/-- The literals of raising calls and the integers of annotations are levels of the machine. -/
structure LevelsInRange : Prop where
  literal : ∀ n, KeRaiseIrqlCall P n → ∀ arg ∈ (P.getArgument n)[0]?,
    ∀ s ∈ P.literalValue arg, ∀ v ∈ toInt s, IrqlValue P.macros v
  integer : ∀ f, ∀ a ∈ getFuncIrqlAnnotation (P.function f), ∀ l ∈ getIrqlLevelString a,
    ∀ v ∈ toInt l, IrqlValue P.macros v

variable {P}

lemma LevelsInRange.irqlValue_getIrqlLevel (hP : LevelsInRange P) (hdispatch : IrqlValue P.macros 2)
    {f : Fn} {a : SALAnnotation} (ha : a ∈ getFuncIrqlAnnotation (P.function f))
    (heval : ¬ Unevaluable P.macros a) {v : ℤ} (hv : v ∈ getIrqlLevel P.macros a) :
    IrqlValue P.macros v := by
  obtain rfl | ⟨im, him, rfl⟩ | ⟨l, hl, hint⟩ | ⟨-, hun⟩ := mem_getIrqlLevel hv
  · exact hdispatch
  · obtain ⟨M, hM, -⟩ := hdispatch
    exact ⟨M, hM, irqlMacros_nonneg him, le_globalMax hM him⟩
  · exact hP.integer f a ha l hl v hint
  · exact absurd hun heval

lemma LevelsInRange.irqlValue_keRaise [DecidableEq Fn] (hP : LevelsInRange P)
    (hdispatch : IrqlValue P.macros 2) {n : Node} (hn : KeRaiseIrqlCall P n) {v : ℤ}
    (hv : v ∈ keRaiseIrqlLevel P n) : IrqlValue P.macros v := by
  unfold keRaiseIrqlLevel at hv
  split_ifs at hv
  · rwa [Option.mem_some_iff.mp hv] at hdispatch
  · obtain ⟨arg, harg, hv⟩ := Option.bind_eq_some_iff.mp hv
    obtain ⟨s, hs, hv⟩ := Option.bind_eq_some_iff.mp hv
    exact hP.literal n hn arg harg s hs v hv

variable [DecidableEq Fn] [DecidableEq Node] [Fintype Node]

/-- No call that the cascade takes as raising has a target with a level it cannot evaluate. -/
def RaisesEvaluable (P : Program Fn Node) : Prop :=
  ∀ n, branch P n = .raises → ∀ g ∈ P.getTarget n, ∀ a ∈ getFuncIrqlAnnotation (P.function g),
    IrqlRaisesAnnotation a → ¬ Unevaluable P.macros a

lemma levelSource_raises {n : Node} (hn : branch P n = .raises) {v : ℤ} :
    levelSource P n v ↔ ∃ g ∈ P.getTarget n, ∃ a ∈ getFuncIrqlAnnotation (P.function g),
      IrqlRaisesAnnotation a ∧ v ∈ getIrqlLevel P.macros a := by
  unfold levelSource
  simp only [hn, mem_annotatedLevels]

lemma irqlValue_of_levelSource (hP : LevelsInRange P) (hdispatch : IrqlValue P.macros 2)
    (hraises : RaisesEvaluable P) {n : Node} {v : ℤ} (h : levelSource P n v) :
    IrqlValue P.macros v := by
  cases hb : branch P n with
  | raises =>
    obtain ⟨g, hg, a, ha, hcls, hv⟩ := (levelSource_raises hb).mp h
    exact hP.irqlValue_getIrqlLevel hdispatch ha (hraises n hb g hg a ha hcls) hv
  | keRaise =>
    unfold levelSource at h
    rw [hb] at h
    exact hP.irqlValue_keRaise hdispatch ((branch_keRaise_iff P).mp hb) h
  | allowable =>
    unfold levelSource at h
    rw [hb] at h
    obtain ⟨f, -, hv⟩ := h
    exact irqlValue_of_allowable hdispatch hv
  | zero =>
    unfold levelSource at h
    rw [hb] at h
    obtain ⟨M, hM, h0, h2⟩ := hdispatch
    exact h ▸ ⟨M, hM, le_refl 0, by omega⟩
  | keLower | restoresGlobal | irqlRestore | requiresSame | call | predecessor | caller =>
    unfold levelSource at h
    rw [hb] at h
    exact h.elim

def raisesTo (level : String) : FunctionInfo :=
  { getName := "RaiseTo", getParameter := [⟨"NewIrql", []⟩],
    declAnnotations := [{ getMacroName := "_IRQL_raises_", getUnexpandedArgument := [level] }] }

/-- **Every estimated level is a level of the machine iff every raising call has a level that
can be evaluated.** -/
theorem potential_irqlValue_iff (hP : LevelsInRange P) (hdispatch : IrqlValue P.macros 2) :
    (∀ n v, getPotentialExitIrqlAtCfn P n v → IrqlValue P.macros v) ↔ RaisesEvaluable P := by
  refine ⟨fun h n hn g hg a ha hcls hun => ?_, fun h n v hv => ?_⟩
  · have hfun : IrqlFunctionAnnotation a := hcls.isFunction
    have hlevel : (-1 : ℤ) ∈ getIrqlLevel P.macros a := by
      simp [getIrqlLevel_unevaluable hfun hun]
    have hsource : levelSource P n (-1) := (levelSource_raises hn).mpr ⟨g, hg, a, ha, hcls, hlevel⟩
    obtain ⟨M, -, h0, -⟩ := h n (-1) (Or.inl (.arise hsource))
    omega
  · exact potential_of_source P (fun m w => irqlValue_of_levelSource hP hdispatch h) hv

theorem potential_irqlValue_dispatch :
    RaisesEvaluable (oneCall wdm (raisesTo "DISPATCH_LEVEL")) ∧
      ∀ n v, getPotentialExitIrqlAtCfn (oneCall wdm (raisesTo "DISPATCH_LEVEL")) n v →
        IrqlValue wdm v := by
  have hrange : LevelsInRange (oneCall wdm (raisesTo "DISPATCH_LEVEL")) := ⟨by decide, by decide⟩
  have heval : RaisesEvaluable (oneCall wdm (raisesTo "DISPATCH_LEVEL")) := by
    unfold RaisesEvaluable Unevaluable
    decide
  exact ⟨heval, (potential_irqlValue_iff hrange (by decide)).mpr heval⟩

/-- With the level of a parameter, -1 is estimated after the call. -/
theorem raisesTo_parameter_sentinel :
    LevelsInRange (oneCall wdm (raisesTo "NewIrql")) ∧ IrqlValue wdm 2 ∧
      getPotentialExitIrqlAtCfn (oneCall wdm (raisesTo "NewIrql")) 2 (-1) := by
  refine ⟨⟨by decide, by decide⟩, by decide, Or.inl ?_⟩
  decide

end DriverQueries.Sentinel
