import DriverQueries.Cascade

/-!
Programs that the library cannot tell apart.

Of an annotation the library asks in which classes it is, which levels it has, what its
arguments are and whether it has an inner invocation. When the annotations of a program are
replaced by others with the same answers, the functions keep their bounds and the cascade takes
the same branches, so every level stays the same.
-/

namespace DriverQueries.SameLevels

open DriverQueries.Text DriverQueries.Sal DriverQueries.Database DriverQueries.Calls
open DriverQueries.Paths DriverQueries.CopyRules DriverQueries.EntryLevels DriverQueries.Cascade

/-! ### Annotations that are alike -/

/-- The lists of names that decide in which class an annotation is. -/
def classNames : List (List String) :=
  [["_drv_maxIRQL", "_IRQL_requires_max_"], ["__drv_raisesIRQL", "_IRQL_raises_"],
    ["_drv_minIRQL", "_IRQL_requires_min_"], ["__drv_requiresIRQL", "_IRQL_requires_"],
    ["__drv_maxFunctionIRQL", "_IRQL_always_function_max_"],
    ["__drv_minFunctionIRQL", "_IRQL_always_function_min_"], savesNames,
    ["__drv_sameIRQL", "_IRQL_requires_same_"], ["__drv_restoresIRQL", "_IRQL_restores_"],
    ["__drv_savesIRQLGlobal", "_IRQL_saves_global_"],
    ["__drv_restoresIRQLGlobal", "_IRQL_restores_global_"], directNames,
    ["__drv_restoresIRQL", "_IRQL_restores_", "__drv_savesIRQL", "_IRQL_saves_"], ["_When_"]]

/-- The library tells the two annotations apart in nothing but their names. -/
structure Alike (a b : SALAnnotation) : Prop where
  isFunction : IrqlFunctionAnnotation a ↔ IrqlFunctionAnnotation b
  hasName : ∀ names ∈ classNames, HasIrqlMacroName names a ↔ HasIrqlMacroName names b
  macroName : ∀ names ∈ classNames, a.getMacroName ∈ names ↔ b.getMacroName ∈ names
  level : ∀ ms v, v ∈ getIrqlLevel ms a ↔ v ∈ getIrqlLevel ms b
  expanded : a.getExpandedArgument = b.getExpandedArgument
  inner : a.inner = b.inner

lemma Alike.refl (a : SALAnnotation) : Alike a a :=
  ⟨.rfl, fun _ _ => .rfl, fun _ _ => .rfl, fun _ _ => .rfl, rfl, rfl⟩

/-! ### Functions that are alike -/

def onAnnotations (h : List SALAnnotation → List SALAnnotation) (f : FunctionInfo) :
    FunctionInfo :=
  { f with
    getParameter := f.getParameter.map fun p => { p with annotations := h p.annotations }
    declAnnotations := h f.declAnnotations
    typedefAnnotations := h f.typedefAnnotations
    roleTypeAnnotations := h f.roleTypeAnnotations }

def annotations (f : FunctionInfo) : List SALAnnotation :=
  f.declAnnotations ++ f.typedefAnnotations ++ f.roleTypeAnnotations ++
    f.getParameter.flatMap (·.annotations)

/-- What the library knows of the two functions is the same. -/
structure FunctionAlike (f f' : FunctionInfo) : Prop where
  name : f.getName = f'.getName
  paged : f.pagedFunctionDeclaration = f'.pagedFunctionDeclaration
  restricts : IrqlRestrictsFunction f ↔ IrqlRestrictsFunction f'
  annotated : ∀ names ∈ classNames,
    AnnotatedFunction (HasIrqlMacroName names) f ↔ AnnotatedFunction (HasIrqlMacroName names) f'
  levels : ∀ names ∈ classNames, ∀ ms v, v ∈ annotatedLevels (HasIrqlMacroName names) ms f ↔
    v ∈ annotatedLevels (HasIrqlMacroName names) ms f'
  same : IrqlRequiresSameAnnotatedFunction f ↔ IrqlRequiresSameAnnotatedFunction f'
  savesViaReturn : IrqlSavesViaReturnFunction f ↔ IrqlSavesViaReturnFunction f'
  savesGlobal : globalFields IrqlSavesGlobalAnnotation f = globalFields IrqlSavesGlobalAnnotation f'
  restoresGlobal :
    globalFields IrqlRestoresGlobalAnnotation f = globalFields IrqlRestoresGlobalAnnotation f'
  saves : parameterSlots IrqlSaveAnnotation f = parameterSlots IrqlSaveAnnotation f'
  restores : parameterSlots IrqlRestoreAnnotation f = parameterSlots IrqlRestoreAnnotation f'

section Functions

variable {f : FunctionInfo} {g : SALAnnotation → SALAnnotation}

lemma filter_map_alike {p : SALAnnotation → Prop} [DecidablePred p] {l : List SALAnnotation}
    (h : ∀ a ∈ l, p a ↔ p (g a)) : (l.map g).filter (p ·) = (l.filter (p ·)).map g := by
  rw [List.filter_map]
  refine congrArg (List.map g) (List.filter_congr fun a ha => ?_)
  exact decide_eq_decide.mpr (h a ha).symm

lemma getFunc_map (h : ∀ a ∈ annotations f, Alike a (g a)) :
    getFuncIrqlAnnotation (onAnnotations (List.map g) f) =
      ( getFuncIrqlAnnotation f).map g := by
  unfold getFuncIrqlAnnotation onAnnotations
  simp only [← List.map_append]
  refine filter_map_alike fun a ha => (h a ?_).isFunction
  exact List.mem_append_left _ ha

lemma mem_getFunc {a : SALAnnotation} (ha : a ∈ getFuncIrqlAnnotation f) : a ∈ annotations f :=
  List.mem_append_left _ (List.mem_of_mem_filter ha)

lemma decl_mem {a : SALAnnotation} (ha : a ∈ f.declAnnotations) : a ∈ annotations f :=
  List.mem_append_left _ (List.mem_append_left _ (List.mem_append_left _ ha))

lemma parameter_mem {p : Parameter} (hp : p ∈ f.getParameter) {a : SALAnnotation}
    (ha : a ∈ p.annotations) : a ∈ annotations f :=
  List.mem_append_right _ (List.mem_flatMap.mpr ⟨p, hp, ha⟩)

lemma exists_map_iff {p : SALAnnotation → Prop} {l : List SALAnnotation}
    (h : ∀ a ∈ l, p a ↔ p (g a)) : (∃ a ∈ l, p a) ↔ ∃ a ∈ l.map g, p a := by
  simp only [List.mem_map, exists_exists_and_eq_and]
  exact exists_congr fun a => and_congr_right fun ha => h a ha

lemma annotated_map (h : ∀ a ∈ annotations f, Alike a (g a)) {cls : SALAnnotation → Prop}
    (hcls : ∀ a b, Alike a b → (cls a ↔ cls b)) :
    AnnotatedFunction cls f ↔ AnnotatedFunction cls (onAnnotations (List.map g) f) := by
  unfold AnnotatedFunction
  rw [getFunc_map h]
  exact exists_map_iff fun a ha => hcls _ _ (h a (mem_getFunc ha))

lemma levels_map (h : ∀ a ∈ annotations f, Alike a (g a)) {cls : SALAnnotation → Prop}
    [DecidablePred cls] (hcls : ∀ a b, Alike a b → (cls a ↔ cls b)) (ms : List Macro) (v : ℤ) :
    v ∈ annotatedLevels cls ms f ↔
      v ∈ annotatedLevels cls ms (onAnnotations (List.map g) f) := by
  rw [mem_annotatedLevels, mem_annotatedLevels, getFunc_map h]
  refine exists_map_iff fun a ha => ?_
  have halike := h a (mem_getFunc ha)
  exact and_congr (hcls _ _ halike) (halike.level ms v)

lemma globalFields_map (h : ∀ a ∈ annotations f, Alike a (g a)) {cls : SALAnnotation → Prop}
    [DecidablePred cls] (hcls : ∀ a b, Alike a b → (cls a ↔ cls b)) :
    globalFields cls f = globalFields cls (onAnnotations (List.map g) f) := by
  unfold globalFields
  have hdecl : (onAnnotations (List.map g) f).declAnnotations = f.declAnnotations.map g := rfl
  rw [hdecl, filter_map_alike fun a ha => hcls _ _ (h a (decl_mem ha)), List.flatMap_map]
  refine List.flatMap_congr fun a ha => ?_
  have halike := h a (decl_mem (List.mem_of_mem_filter ha))
  rw [← halike.expanded]
  simp only [onAnnotations, List.zipIdx_map, List.filter_map, List.map_map, Function.comp_def,
    Prod.map_fst, Prod.map_snd, id]

lemma parameterSlots_map (h : ∀ a ∈ annotations f, Alike a (g a)) {cls : SALAnnotation → Prop}
    [DecidablePred cls] (hcls : ∀ a b, Alike a b → (cls a ↔ cls b)) :
    parameterSlots cls f = parameterSlots cls (onAnnotations (List.map g) f) := by
  unfold parameterSlots
  simp only [onAnnotations, List.zipIdx_map, List.filter_map, List.map_map, Function.comp_def,
    Prod.map_fst, Prod.map_snd, id]
  refine congrArg (List.map _) (List.filter_congr fun p hp => ?_)
  have hmem : p.1 ∈ f.getParameter := List.fst_mem_of_mem_zipIdx hp
  exact decide_eq_decide.mpr (exists_map_iff fun a ha => hcls _ _ (h a (parameter_mem hmem ha)))

/-- A function is like the one with like annotations. -/
lemma functionAlike_map (h : ∀ a ∈ annotations f, Alike a (g a)) :
    FunctionAlike f (onAnnotations (List.map g) f) where
  name := rfl
  paged := rfl
  restricts := by
    unfold IrqlRestrictsFunction
    rw [getFunc_map h, Ne, Ne, List.map_eq_nil_iff]
  annotated names hnames := annotated_map h fun _ _ hab => hab.hasName names hnames
  levels names hnames := levels_map h fun _ _ hab => hab.hasName names hnames
  same := exists_map_iff fun a ha => (h a (decl_mem ha)).macroName _ (by decide)
  savesViaReturn := exists_map_iff fun a ha => (h a (decl_mem ha)).hasName _ (by decide)
  savesGlobal := globalFields_map h fun _ _ hab =>
    and_congr (hab.macroName _ (by decide)) (by rw [hab.inner])
  restoresGlobal := globalFields_map h fun _ _ hab =>
    and_congr (hab.macroName _ (by decide)) (by rw [hab.inner])
  saves := parameterSlots_map h fun _ _ hab => hab.hasName _ (by decide)
  restores := parameterSlots_map h fun _ _ hab =>
    and_congr (hab.macroName _ (by decide))
      (and_congr (by rw [hab.inner]) (hab.macroName _ (by decide)))

end Functions

/-! ### Programs that are alike -/

section Programs

variable {Fn Node : Type} [DecidableEq Fn] [DecidableEq Node] [Fintype Node]

def onFunctions (k : FunctionInfo → FunctionInfo) (P : Program Fn Node) : Program Fn Node :=
  { P with function := fun f => k (P.function f) }

/-- The two programs are given the same levels. -/
structure SameResults (P Q : Program Fn Node) : Prop where
  upper : ∀ f v, v ∈ hasUpperBound P.macros (P.function f) ↔
    v ∈ hasUpperBound Q.macros (Q.function f)
  lower : ∀ f v, v ∈ hasLowerBound P.macros (P.function f) ↔
    v ∈ hasLowerBound Q.macros (Q.function f)
  allowable : ∀ f v, v ∈ getAllowableIrqlLevel P.macros (P.function f) ↔
    v ∈ getAllowableIrqlLevel Q.macros (Q.function f)
  potential : ∀ n v, getPotentialExitIrqlAtCfn P n v ↔ getPotentialExitIrqlAtCfn Q n v

variable {P : Program Fn Node} {k : FunctionInfo → FunctionInfo} {ms : List Macro}
  {f f' : FunctionInfo}

/-- The bounds of functions that are alike. -/
lemma FunctionAlike.mem_bounds_iff (h : FunctionAlike f f') {strict always : List String}
    (hstrict : strict ∈ classNames) (halways : always ∈ classNames) (paged v : ℤ) :
    v ∈ bounds (HasIrqlMacroName strict) (HasIrqlMacroName always) paged ms f ↔
      v ∈ bounds (HasIrqlMacroName strict) (HasIrqlMacroName always) paged ms f' := by
  have hrequires : IrqlRequiresAnnotatedFunction f ↔ IrqlRequiresAnnotatedFunction f' :=
    h.annotated _ (by decide)
  have hlevels : v ∈ annotatedLevels IrqlRequiresAnnotation ms f ↔
      v ∈ annotatedLevels IrqlRequiresAnnotation ms f' := h.levels _ (by decide) ms v
  unfold bounds
  simp only [List.mem_filter, h.annotated _ hstrict, h.annotated _ halways, hrequires, ← h.paged]
  refine and_congr_left fun _ => ?_
  split_ifs
  · exact h.levels _ hstrict ms v
  · exact h.levels _ halways ms v
  · exact hlevels
  · rfl
  · rfl

lemma FunctionAlike.mem_upper_iff (h : FunctionAlike f f') (v : ℤ) :
    v ∈ hasUpperBound ms f ↔ v ∈ hasUpperBound ms f' :=
  h.mem_bounds_iff (by decide) (by decide) 1 v

lemma FunctionAlike.mem_lower_iff (h : FunctionAlike f f') (v : ℤ) :
    v ∈ hasLowerBound ms f ↔ v ∈ hasLowerBound ms f' :=
  h.mem_bounds_iff (by decide) (by decide) 0 v

lemma eq_nil_congr {α : Type} {l l' : List α} (h : ∀ v, v ∈ l ↔ v ∈ l') : l = [] ↔ l' = [] := by
  rw [List.eq_nil_iff_forall_not_mem, List.eq_nil_iff_forall_not_mem]
  exact forall_congr' fun v => not_congr (h v)

lemma FunctionAlike.mem_allowable_iff (h : FunctionAlike f f') (v : ℤ) :
    v ∈ getAllowableIrqlLevel ms f ↔ v ∈ getAllowableIrqlLevel ms f' := by
  have hupper : ∀ v, v ∈ hasUpperBound ms f ↔ v ∈ hasUpperBound ms f' := h.mem_upper_iff
  have hlower : ∀ v, v ∈ hasLowerBound ms f ↔ v ∈ hasLowerBound ms f' := h.mem_lower_iff
  unfold getAllowableIrqlLevel
  simp only [eq_nil_congr hupper, eq_nil_congr hlower, hlower, List.mem_append]
  refine or_congr (or_congr (or_congr ?_ ?_) ?_) ?_
  · simp only [mem_ranges, hupper, hlower]
  all_goals
    split_ifs
    · simp only [mem_ranges, hupper, hlower]
    · rfl

variable (h : ∀ f, FunctionAlike (P.function f) (k (P.function f)))

include h

omit [DecidableEq Fn] [DecidableEq Node] [Fintype Node] in
lemma callTo_iff {cls : FunctionInfo → Prop}
    (hcls : ∀ f f', FunctionAlike f f' → (cls f ↔ cls f')) (n : Node) :
    P.CallTo cls n ↔ (onFunctions k P).CallTo cls n :=
  exists_congr fun g => and_congr_right fun _ => hcls _ _ (h g)

omit [DecidableEq Fn] [DecidableEq Node] [Fintype Node] in
lemma callToName_iff (names : List String) (n : Node) :
    CallToName P names n ↔ CallToName (onFunctions k P) names n :=
  callTo_iff h (fun _ _ hf => by rw [hf.name]) n

omit [DecidableEq Fn] [DecidableEq Node] [Fintype Node] in
lemma annotatedCall_iff {names : List String} (hnames : names ∈ classNames) (n : Node) :
    P.CallTo (AnnotatedFunction (HasIrqlMacroName names)) n ↔
      (onFunctions k P).CallTo (AnnotatedFunction (HasIrqlMacroName names)) n :=
  callTo_iff h (fun _ _ hf => hf.annotated names hnames) n

omit [DecidableEq Fn] [DecidableEq Node] [Fintype Node] in
lemma slotArguments_eq {slots : FunctionInfo → List ℕ}
    (hslots : ∀ f f', FunctionAlike f f' → slots f = slots f') (n : Node) :
    slotArguments P slots n = slotArguments (onFunctions k P) slots n := by
  have htarget : targetSlots P slots n = targetSlots (onFunctions k P) slots n :=
    List.flatMap_congr fun g _ => hslots _ _ (h g)
  unfold slotArguments
  rw [htarget]
  rfl

omit [DecidableEq Fn] [DecidableEq Node] [Fintype Node] in
lemma restoresGlobal_matching (n s : Node) :
    RestoresGlobalIrqlCall.MatchingSave P n s ↔
      RestoresGlobalIrqlCall.MatchingSave (onFunctions k P) n s := by
  have hsave : SavesGlobalIrqlCall P s ↔ SavesGlobalIrqlCall (onFunctions k P) s :=
    callTo_iff h (fun _ _ hf => by rw [IrqlSavesGlobalAnnotatedFunction, hf.savesGlobal,
      ← IrqlSavesGlobalAnnotatedFunction]) s
  have hrestores : slotArguments P (globalSlots IrqlRestoresGlobalAnnotation) n =
      slotArguments (onFunctions k P) (globalSlots IrqlRestoresGlobalAnnotation) n :=
    slotArguments_eq h (fun _ _ hf => congrArg _ hf.restoresGlobal) n
  have hsaves : slotArguments P (globalSlots IrqlSavesGlobalAnnotation) s =
      slotArguments (onFunctions k P) (globalSlots IrqlSavesGlobalAnnotation) s :=
    slotArguments_eq h (fun _ _ hf => congrArg _ hf.savesGlobal) s
  have hkinds : targetKinds P IrqlRestoresGlobalAnnotation n =
      targetKinds (onFunctions k P) IrqlRestoresGlobalAnnotation n :=
    List.flatMap_congr fun g _ => congrArg _ (h g).restoresGlobal
  have hkinds' : targetKinds P IrqlSavesGlobalAnnotation s =
      targetKinds (onFunctions k P) IrqlSavesGlobalAnnotation s :=
    List.flatMap_congr fun g _ => congrArg _ (h g).savesGlobal
  unfold RestoresGlobalIrqlCall.MatchingSave RestoresGlobalIrqlCall.matchingSaveCall
  rw [hsave, hrestores, hsaves, hkinds, hkinds']
  rfl

omit [DecidableEq Fn] [Fintype Node] in
lemma restore_matching (n s : Node) :
    IrqlRestoreCall.MatchingSave P n s ↔ IrqlRestoreCall.MatchingSave (onFunctions k P) n s := by
  have hreturn : P.CallTo IrqlSavesViaReturnFunction s ↔
      (onFunctions k P).CallTo IrqlSavesViaReturnFunction s :=
    callTo_iff h (fun _ _ hf => hf.savesViaReturn) s
  have hsave : IrqlSaveCall P s ↔ IrqlSaveCall (onFunctions k P) s :=
    callTo_iff h (fun _ _ hf => by
      rw [IrqlSavesFunction, IrqlSavesFunction, IrqlSavesToParameterFunction,
        IrqlSavesToParameterFunction, hf.saves, hf.savesViaReturn]) s
  have hrestores : slotArguments P (parameterSlots IrqlRestoreAnnotation) n =
      slotArguments (onFunctions k P) (parameterSlots IrqlRestoreAnnotation) n :=
    slotArguments_eq h (fun _ _ hf => hf.restores) n
  have hsaves : slotArguments P (parameterSlots IrqlSaveAnnotation) s =
      slotArguments (onFunctions k P) (parameterSlots IrqlSaveAnnotation) s :=
    slotArguments_eq h (fun _ _ hf => hf.saves) s
  have hvalue : getSavedValue P s = getSavedValue (onFunctions k P) s := by
    unfold getSavedValue
    simp only [hreturn]
    rfl
  unfold IrqlRestoreCall.MatchingSave IrqlRestoreCall.matchingSaveCall
  rw [hsave, hreturn, hrestores, hsaves, hvalue]
  rfl

omit [DecidableEq Fn] [DecidableEq Node] [Fintype Node] in
lemma globalRaise_iff (n s : Node) :
    RestoresGlobalIrqlCall.getMostRecentRaise P n s ↔
      RestoresGlobalIrqlCall.getMostRecentRaise (onFunctions k P) n s := by
  unfold RestoresGlobalIrqlCall.getMostRecentRaise Unkilled
  simp only [restoresGlobal_matching h]
  rfl

omit [DecidableEq Fn] [Fintype Node] in
lemma restoreRaise_iff (n s : Node) :
    IrqlRestoreCall.getMostRecentRaise P n s ↔
      IrqlRestoreCall.getMostRecentRaise (onFunctions k P) n s := by
  have hsave : ∀ n, SavesGlobalIrqlCall P n ↔ SavesGlobalIrqlCall (onFunctions k P) n :=
    callTo_iff h fun _ _ hf => by rw [IrqlSavesGlobalAnnotatedFunction, hf.savesGlobal,
      ← IrqlSavesGlobalAnnotatedFunction]
  unfold IrqlRestoreCall.getMostRecentRaise Unkilled IrqlRestoreCall.MatchingGlobalSave
  simp only [restore_matching h, hsave]
  rfl

omit [DecidableEq Fn] [DecidableEq Node] [Fintype Node] in
lemma hasAllowableLevel_iff (n : Node) :
    HasAllowableLevel P n ↔ HasAllowableLevel (onFunctions k P) n := by
  refine exists_congr fun f => and_congr_right fun _ => and_congr (h f).restricts ?_
  exact exists_congr fun v => and_congr_left fun _ => (h f).mem_allowable_iff v

lemma branch_eq (n : Node) : branch P n = branch (onFunctions k P) n := by
  have hraise : KeRaiseIrqlCall P n ↔ KeRaiseIrqlCall (onFunctions k P) n := callToName_iff h _ n
  have hlower : KeLowerIrqlCall P n ↔ KeLowerIrqlCall (onFunctions k P) n := callToName_iff h _ n
  have hglobal : RestoresGlobalIrqlCall P n ↔ RestoresGlobalIrqlCall (onFunctions k P) n :=
    callTo_iff h (fun _ _ hf => by rw [IrqlRestoresGlobalAnnotatedFunction, hf.restoresGlobal,
      ← IrqlRestoresGlobalAnnotatedFunction]) n
  have hrestore : IrqlRestoreCall P n ↔ IrqlRestoreCall (onFunctions k P) n :=
    callTo_iff h (fun _ _ hf => by rw [IrqlRestoreAnnotatedFunction, hf.restores,
      ← IrqlRestoreAnnotatedFunction]) n
  have hraises : P.CallTo IrqlRaisesAnnotatedFunction n ↔
      (onFunctions k P).CallTo IrqlRaisesAnnotatedFunction n := annotatedCall_iff h (by decide) n
  have hsame : P.CallTo IrqlRequiresSameAnnotatedFunction n ↔
      (onFunctions k P).CallTo IrqlRequiresSameAnnotatedFunction n :=
    callTo_iff h (fun _ _ hf => hf.same) n
  unfold branch
  simp only [hraise, hlower, hglobal, hrestore, hraises, hsame, hasAllowableLevel_iff h]
  rfl

lemma levelSource_iff (n : Node) (v : ℤ) :
    levelSource P n v ↔ levelSource (onFunctions k P) n v := by
  have hdpc : CallToName P ["KeRaiseIrqlToDPCLevel", "KfRaiseIrqlToDPCLevel"] n ↔
      CallToName (onFunctions k P) ["KeRaiseIrqlToDPCLevel", "KfRaiseIrqlToDPCLevel"] n :=
    callToName_iff h _ n
  have hraises : ∀ g, v ∈ annotatedLevels IrqlRaisesAnnotation P.macros (P.function g) ↔
      v ∈ annotatedLevels IrqlRaisesAnnotation P.macros (k (P.function g)) :=
    fun g => (h g).levels _ (by decide) _ v
  unfold levelSource
  rw [← branch_eq h]
  cases branch P n with
  | keRaise =>
    simp only [keRaiseIrqlLevel, hdpc]
    rfl
  | raises => exact exists_congr fun g => and_congr_right fun _ => hraises g
  | allowable => exact exists_congr fun f => and_congr_right fun _ => (h f).mem_allowable_iff v
  | zero => rfl
  | keLower | restoresGlobal | irqlRestore | requiresSame | call | predecessor | caller => rfl

lemma copiesFrom_iff (n m : Node) : copiesFrom P n m ↔ copiesFrom (onFunctions k P) n m := by
  unfold copiesFrom
  rw [← branch_eq h]
  cases branch P n with
  | keLower =>
    have hraise : ∀ s, KeRaiseIrqlCall P s ↔ KeRaiseIrqlCall (onFunctions k P) s :=
      callToName_iff h _
    simp only [getMostRecentRaiseInterprocedural, hraise]
    rfl
  | restoresGlobal => exact exists_congr fun s => and_congr_left fun _ => globalRaise_iff h n s
  | irqlRestore => exact exists_congr fun s => and_congr_left fun _ => restoreRaise_iff h n s
  | keRaise | raises | requiresSame | call | predecessor | caller | allowable | zero => rfl

lemma internal_iff (n : Node) (v : ℤ) :
    getPotentialExitIrqlAtCfnInternal P n v ↔
      getPotentialExitIrqlAtCfnInternal (onFunctions k P) n v := by
  have hsource : levelSource P = levelSource (onFunctions k P) :=
    funext₂ fun n v => propext (levelSource_iff h n v)
  have hcopies : copiesFrom P = copiesFrom (onFunctions k P) :=
    funext₂ fun n m => propext (copiesFrom_iff h n m)
  unfold getPotentialExitIrqlAtCfnInternal
  rw [hsource, hcopies]

/-- **Programs whose functions are alike are given the same levels.** -/
theorem sameResults_of_alike : SameResults P (onFunctions k P) where
  upper f v := (h f).mem_upper_iff v
  lower f v := (h f).mem_lower_iff v
  allowable f v := (h f).mem_allowable_iff v
  potential n v := by
    unfold getPotentialExitIrqlAtCfn astLevelExitIrqlFallback
    simp only [internal_iff h]
    rfl

end Programs

end DriverQueries.SameLevels
