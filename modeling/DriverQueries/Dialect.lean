import DriverQueries.SameLevels
import DriverQueries.WhenForm

/-!
The two dialects of the IRQL annotations.

The classes of annotations list two spellings each, one for Windows 7 and one for Windows 8.
The database holds an annotation only when the name of its macro is one a SAL macro can have,
and inside a `_When_` only some of the names are looked for. Two programs that differ in the
spellings only are given the same levels as long as both spellings are read; a set of
spellings with one that is not has programs that are given different levels.
-/

namespace DriverQueries.Dialect

open DriverQueries.Text DriverQueries.Sal DriverQueries.WhenForm DriverQueries.Database
open DriverQueries.EntryLevels DriverQueries.Cascade DriverQueries.SameLevels

/-! ### Spellings -/

/-- The spellings the classes list together, the one for Windows 7 first. -/
def listedTogether : List (String × String) :=
  [("_drv_maxIRQL", "_IRQL_requires_max_"), ("__drv_raisesIRQL", "_IRQL_raises_"),
    ("_drv_minIRQL", "_IRQL_requires_min_"), ("__drv_requiresIRQL", "_IRQL_requires_"),
    ("__drv_maxFunctionIRQL", "_IRQL_always_function_max_"),
    ("__drv_minFunctionIRQL", "_IRQL_always_function_min_"),
    ("__drv_savesIRQL", "_IRQL_saves_"), ("__drv_restoresIRQL", "_IRQL_restores_"),
    ("__drv_sameIRQL", "_IRQL_requires_same_"), ("__drv_savesIRQLGlobal", "_IRQL_saves_global_"),
    ("__drv_restoresIRQLGlobal", "_IRQL_restores_global_")]

def listedNames : List String := listedTogether.flatMap fun p => [p.1, p.2]

/-- The spelling listed with the name; any other name has one spelling. -/
def otherSpelling (name : String) : String :=
  match listedTogether.find? fun p => p.1 = name ∨ p.2 = name with
  | some p => if p.1 = name then p.2 else p.1
  | none => name

/-- The names that `SALMacro` lets through. -/
def SALMacroName (name : String) : Prop :=
  matchesPattern name "\\_%\\_" ∨ matchesPattern name "\\_\\_%"

instance : DecidablePred SALMacroName := fun _ => inferInstanceAs (Decidable (_ ∨ _))

/-- A spelling as the name of an annotation, or as the name of one inside a `_When_`. -/
inductive Spelling
  | direct (name : String)
  | inside (name : String)
  deriving DecidableEq

/-- `b` is the annotation `a` in the other spelling, for the spellings in `S`. -/
inductive Respelled (S : Set Spelling) : SALAnnotation → SALAnnotation → Prop
  | direct (a : SALAnnotation) (h : Spelling.direct a.getMacroName ∈ S) :
      Respelled S a { a with getMacroName := otherSpelling a.getMacroName }
  | inside (C N L : String) (hN : N ∈ directNames) (hL : '(' ∉ L.toList ∧ ')' ∉ L.toList)
      (h : Spelling.inside N ∈ S) :
      Respelled S (conditional C N L) (conditional C (otherSpelling N) L)

def Interchangeable : Spelling → Prop
  | .direct name => SALMacroName name ↔ SALMacroName (otherSpelling name)
  | .inside name => name ∈ whenNames ↔ otherSpelling name ∈ whenNames

instance : DecidablePred Interchangeable
  | .direct _ => inferInstanceAs (Decidable (_ ↔ _))
  | .inside _ => inferInstanceAs (Decidable (_ ↔ _))

lemma otherSpelling_of_not_listed {name : String} (h : name ∉ listedNames) :
    otherSpelling name = name := by
  have hfind : listedTogether.find? (fun p => p.1 = name ∨ p.2 = name) = none := by
    refine List.find?_eq_none.mpr fun p hp hname => h ?_
    refine List.mem_flatMap.mpr ⟨p, hp, ?_⟩
    simp only [List.mem_cons, List.not_mem_nil, or_false]
    exact (of_decide_eq_true hname).imp Eq.symm Eq.symm
  rw [otherSpelling, hfind]

lemma mem_classNames_iff (names : List String) (hnames : names ∈ classNames) (name : String) :
    otherSpelling name ∈ names ↔ name ∈ names := by
  by_cases hname : name ∈ listedNames
  · have hlisted : ∀ names ∈ classNames, ∀ name ∈ listedNames,
        (otherSpelling name ∈ names ↔ name ∈ names) := by decide +kernel
    exact hlisted names hnames name hname
  · rw [otherSpelling_of_not_listed hname]

/-! ### Annotations in the other spelling -/

variable {a b : SALAnnotation} {S : Set Spelling}

lemma name_of_reading (h : a.getMacroName ≠ "_When_") {r : Reading} (hr : r ∈ readings a) :
    r.irqlAnnotationName = a.getMacroName := by
  unfold readings at hr
  rw [if_neg h, List.append_nil] at hr
  obtain hr | hr := List.mem_append.mp hr
  · split_ifs at hr
    · obtain ⟨level, -, rfl⟩ := List.mem_map.mp hr
      rfl
    · exact absurd hr List.not_mem_nil
  · split_ifs at hr
    · rw [List.mem_singleton.mp hr]
    · exact absurd hr List.not_mem_nil

lemma hasIrqlMacroName_iff (h : a.getMacroName ≠ "_When_") (names : List String) :
    HasIrqlMacroName names a ↔ IrqlFunctionAnnotation a ∧ a.getMacroName ∈ names := by
  unfold HasIrqlMacroName getIrqlMacroName IrqlFunctionAnnotation
  simp only [if_neg h]
  refine ⟨fun ⟨n, hn, hmem⟩ => ?_, fun ⟨hne, hmem⟩ => ?_⟩
  · obtain ⟨r, hr, rfl⟩ := List.mem_map.mp hn
    exact ⟨List.ne_nil_of_mem hr, name_of_reading h hr ▸ hmem⟩
  · obtain ⟨r, hr⟩ := List.exists_mem_of_ne_nil _ hne
    exact ⟨_, List.mem_map.mpr ⟨r, hr, rfl⟩, (name_of_reading h hr).symm ▸ hmem⟩

lemma levelString_respelled (h : a.getMacroName ≠ "_When_")
    (h' : otherSpelling a.getMacroName ≠ "_When_") :
    getIrqlLevelString { a with getMacroName := otherSpelling a.getMacroName } =
      getIrqlLevelString a := by
  have hdirect := mem_classNames_iff directNames (by decide) a.getMacroName
  have hsaves := mem_classNames_iff savesNames (by decide) a.getMacroName
  unfold getIrqlLevelString readings
  simp only [hdirect, hsaves, if_neg h, if_neg h', List.append_nil, List.map_append]
  congr 1
  · split_ifs
    · simp only [List.map_map, Function.comp_def]
    · rfl
  · split_ifs <;> rfl

lemma isFunction_iff : IrqlFunctionAnnotation a ↔ getIrqlLevelString a ≠ [] := by
  unfold IrqlFunctionAnnotation getIrqlLevelString
  rw [Ne, Ne, List.map_eq_nil_iff]

/-- An annotation in the other spelling is like it. -/
lemma alike_direct (a : SALAnnotation) :
    Alike a { a with getMacroName := otherSpelling a.getMacroName } := by
  by_cases hwhen : a.getMacroName = "_When_"
  · have hother : otherSpelling a.getMacroName = a.getMacroName := by rw [hwhen]; decide
    rw [hother]
    exact .refl a
  have hother : otherSpelling a.getMacroName ≠ "_When_" := by
    intro h
    have hmem := (mem_classNames_iff ["_When_"] (by decide) a.getMacroName).mp
      (List.mem_singleton.mpr h)
    exact hwhen (List.mem_singleton.mp hmem)
  have hstring := levelString_respelled hwhen hother
  have hfunction : IrqlFunctionAnnotation a ↔
      IrqlFunctionAnnotation { a with getMacroName := otherSpelling a.getMacroName } := by
    rw [isFunction_iff, isFunction_iff, hstring]
  refine ⟨hfunction, fun names hnames => ?_, fun names hnames => ?_, fun ms v => ?_, rfl, rfl⟩
  · rw [hasIrqlMacroName_iff hwhen, hasIrqlMacroName_iff hother, hfunction,
      mem_classNames_iff names hnames]
  · exact (mem_classNames_iff names hnames a.getMacroName).symm
  · exact getIrqlLevel_congr hfunction (fun l => by rw [hstring]) v

section Inside

variable {C N L : String}

lemma mem_readings_plain (hN : N ∈ directNames) (hL : '(' ∉ L.toList ∧ ')' ∉ L.toList)
    (r : Reading) : r ∈ readings (conditional C N L) ↔ N ∈ whenNames ∧ r = ⟨L, "_When_", N⟩ := by
  rw [mem_readings_conditional hN hL.2]
  refine ⟨fun h => ?_, Or.inl⟩
  obtain h | ⟨n, -, -, k, hk, -⟩ := h
  · exact h
  · have hbracket : '(' ∈ L.toList.drop k := hk.subset (by simp)
    exact absurd (List.mem_of_mem_drop hbracket) hL.1

lemma levelString_plain (hN : N ∈ directNames) (hL : '(' ∉ L.toList ∧ ')' ∉ L.toList)
    (l : String) : l ∈ getIrqlLevelString (conditional C N L) ↔ N ∈ whenNames ∧ l = L := by
  unfold getIrqlLevelString
  rw [List.mem_map]
  refine ⟨fun ⟨r, hr, hl⟩ => ?_, fun ⟨hwhen, hl⟩ => ?_⟩
  · obtain ⟨hwhen, rfl⟩ := (mem_readings_plain hN hL r).mp hr
    exact ⟨hwhen, hl.symm⟩
  · exact ⟨_, (mem_readings_plain hN hL _).mpr ⟨hwhen, rfl⟩, hl.symm⟩

lemma isFunction_plain (hN : N ∈ directNames) (hL : '(' ∉ L.toList ∧ ')' ∉ L.toList) :
    IrqlFunctionAnnotation (conditional C N L) ↔ N ∈ whenNames := by
  rw [isFunction_iff]
  refine ⟨fun h => ?_, fun h => ?_⟩
  · obtain ⟨l, hl⟩ := List.exists_mem_of_ne_nil _ h
    exact ((levelString_plain hN hL l).mp hl).1
  · exact List.ne_nil_of_mem ((levelString_plain hN hL L).mpr ⟨h, rfl⟩)

lemma hasName_plain (hN : N ∈ directNames) (hL : '(' ∉ L.toList ∧ ')' ∉ L.toList)
    (names : List String) :
    HasIrqlMacroName names (conditional C N L) ↔ N ∈ whenNames ∧ N ∈ names := by
  unfold HasIrqlMacroName
  rw [macroName_conditional]
  refine ⟨fun ⟨n, hn, hmem⟩ => ?_, fun ⟨hwhen, hmem⟩ => ?_⟩
  · obtain ⟨r, hr, rfl⟩ := List.mem_map.mp hn
    obtain ⟨hwhen, rfl⟩ := (mem_readings_plain hN hL r).mp hr
    exact ⟨hwhen, hmem⟩
  · exact ⟨N, List.mem_map.mpr ⟨_, (mem_readings_plain hN hL _).mpr ⟨hwhen, rfl⟩, rfl⟩, hmem⟩

lemma alike_inside (hN : N ∈ directNames) (hL : '(' ∉ L.toList ∧ ')' ∉ L.toList)
    (h : Interchangeable (.inside N)) :
    Alike (conditional C N L) (conditional C (otherSpelling N) L) := by
  have hN' : otherSpelling N ∈ directNames :=
    (mem_classNames_iff directNames (by decide) N).mpr hN
  have hwhen : N ∈ whenNames ↔ otherSpelling N ∈ whenNames := h
  have hfunction : IrqlFunctionAnnotation (conditional C N L) ↔
      IrqlFunctionAnnotation (conditional C (otherSpelling N) L) := by
    rw [isFunction_plain hN hL, isFunction_plain hN' hL, hwhen]
  refine ⟨hfunction, fun names hnames => ?_, fun _ _ => .rfl, fun ms v => ?_, rfl, rfl⟩
  · rw [hasName_plain hN hL, hasName_plain hN' hL, hwhen, mem_classNames_iff names hnames]
  · refine getIrqlLevel_congr hfunction (fun l => ?_) v
    rw [levelString_plain hN hL, levelString_plain hN' hL, hwhen]

end Inside

lemma Respelled.alike (hS : ∀ s ∈ S, Interchangeable s) (h : Respelled S a b) : Alike a b := by
  cases h with
  | direct a _ => exact alike_direct a
  | inside C N L hN hL h => exact alike_inside hN hL (hS _ h)

lemma Respelled.carried_iff (hS : ∀ s ∈ S, Interchangeable s) (h : Respelled S a b) :
    SALMacroName a.getMacroName ↔ SALMacroName b.getMacroName := by
  cases h with
  | direct a h => exact hS _ h
  | inside C N L _ _ _ => rfl

/-! ### Programs in two dialects -/

section Database

variable {Fn Node : Type} [DecidableEq Fn] [DecidableEq Node] [Fintype Node]

/-- The annotations that the database holds. -/
def carried (l : List SALAnnotation) : List SALAnnotation :=
  l.filter fun a => SALMacroName a.getMacroName

/-- What the library sees of the program. -/
def database (P : Program Fn Node) : Program Fn Node := onFunctions (onAnnotations carried) P

/-- The program with every annotation replaced. -/
def replaced (g : SALAnnotation → SALAnnotation) (P : Program Fn Node) : Program Fn Node :=
  onFunctions (onAnnotations (List.map g)) P

/-- Every annotation of the program is replaced by itself in the other spelling. -/
def Respells (S : Set Spelling) (P : Program Fn Node) (g : SALAnnotation → SALAnnotation) : Prop :=
  ∀ f, ∀ a ∈ annotations (P.function f), Respelled S a (g a)

omit [DecidableEq Fn] [DecidableEq Node] [Fintype Node] in
lemma mem_annotations_carried {f : FunctionInfo}
    (ha : a ∈ annotations (onAnnotations carried f)) : a ∈ annotations f := by
  simp only [annotations, onAnnotations, carried, List.mem_append, List.mem_flatMap,
    List.mem_map, exists_exists_and_eq_and, List.mem_filter] at ha ⊢
  obtain ((ha | ha) | ha) | ⟨p, hp, ha⟩ := ha
  · exact Or.inl (Or.inl (Or.inl ha.1))
  · exact Or.inl (Or.inl (Or.inr ha.1))
  · exact Or.inl (Or.inr ha.1)
  · exact Or.inr ⟨p, hp, ha.1⟩

/-- Replacing and filtering commute. -/
lemma carried_map {f : FunctionInfo} {g : SALAnnotation → SALAnnotation}
    (h : ∀ a ∈ annotations f, SALMacroName a.getMacroName ↔ SALMacroName (g a).getMacroName) :
    onAnnotations carried (onAnnotations (List.map g) f) =
      onAnnotations (List.map g) (onAnnotations carried f) := by
  have hlist : ∀ l : List SALAnnotation, (∀ a ∈ l, a ∈ annotations f) →
      carried (l.map g) = (carried l).map g := fun l hl =>
    filter_map_alike fun a ha => h a (hl a ha)
  unfold onAnnotations
  simp only [List.map_map]
  rw [hlist f.declAnnotations fun a ha => decl_mem ha,
    hlist f.typedefAnnotations fun a ha =>
      List.mem_append_left _ (List.mem_append_left _ (List.mem_append_right _ ha)),
    hlist f.roleTypeAnnotations fun a ha => List.mem_append_left _ (List.mem_append_right _ ha)]
  have hparameter : ∀ p ∈ f.getParameter, carried (p.annotations.map g) =
      (carried p.annotations).map g := fun p hp => hlist _ fun a ha => parameter_mem hp ha
  congr 1
  refine List.map_congr_left fun p hp => ?_
  simp only [Function.comp_apply, hparameter p hp]

lemma sameResults_of_interchangeable {S : Set Spelling} (hS : ∀ s ∈ S, Interchangeable s)
    {P : Program Fn Node} {g : SALAnnotation → SALAnnotation} (hg : Respells S P g) :
    SameResults (database P) (database (replaced g P)) := by
  have hcommute : database (replaced g P) =
      onFunctions (onAnnotations (List.map g)) (database P) := by
    unfold database replaced onFunctions
    congr 1
    funext f
    exact carried_map fun a ha => (hg f a ha).carried_iff hS
  rw [hcommute]
  refine sameResults_of_alike fun f => functionAlike_map fun a ha => ?_
  exact (hg f a (mem_annotations_carried ha)).alike hS

end Database

/-! ### Spellings that are not both read -/

/-- `void routine() { callee(); }` with the annotation on the callee. -/
def annotatedCallee (a : SALAnnotation) : Program (Fin 2) (Fin 4) :=
  oneCall wdm { getName := "callee", declAnnotations := [a] }

/-- With one annotation or the other on the callee, a bound of some function or the level of
some node is `APC_LEVEL` or is not. -/
def ToldApart (a b : SALAnnotation) : Prop :=
  (∃ f, ¬ (1 ∈ hasUpperBound wdm ((database (annotatedCallee a)).function f) ↔
      1 ∈ hasUpperBound wdm ((database (annotatedCallee b)).function f))) ∨
  (∃ f, ¬ (1 ∈ hasLowerBound wdm ((database (annotatedCallee a)).function f) ↔
      1 ∈ hasLowerBound wdm ((database (annotatedCallee b)).function f))) ∨
  ∃ n, ¬ (getPotentialExitIrqlAtCfnInternal (database (annotatedCallee a)) n 1 ↔
      getPotentialExitIrqlAtCfnInternal (database (annotatedCallee b)) n 1)

instance (a b : SALAnnotation) : Decidable (ToldApart a b) :=
  inferInstanceAs (Decidable (_ ∨ _))

lemma ToldApart.not_sameResults (h : ToldApart a b) :
    ¬ SameResults (database (annotatedCallee a)) (database (annotatedCallee b)) := by
  intro hsame
  obtain ⟨f, h⟩ | ⟨f, h⟩ | ⟨n, h⟩ := h
  · exact h (hsame.upper f 1)
  · exact h (hsame.lower f 1)
  · have hnone : ∀ a, ∀ s ∈ (database (annotatedCallee a)).getEnclosingStmt n,
        (database (annotatedCallee a)).getParent s = none := fun _ _ _ => rfl
    rw [← potential_iff_internal _ (hnone a), ← potential_iff_internal _ (hnone b)] at h
    exact h (hsame.potential n 1)

lemma toldApart_direct : ∀ name ∈ listedNames, ¬ Interchangeable (.direct name) →
    ToldApart (direct name "APC_LEVEL") (direct (otherSpelling name) "APC_LEVEL") := by
  decide +kernel

lemma toldApart_inside : ∀ name ∈ directNames, ¬ Interchangeable (.inside name) →
    ToldApart (conditional "Wait==0" name "APC_LEVEL")
      (conditional "Wait==0" (otherSpelling name) "APC_LEVEL") := by
  decide +kernel

lemma directNames_of_not_interchangeable {name : String} (h : ¬ Interchangeable (.inside name)) :
    name ∈ directNames := by
  have hwhen : ∀ name ∈ whenNames, name ∈ directNames := by decide
  have hclass := mem_classNames_iff directNames (by decide) name
  by_contra hname
  refine h (iff_of_false (fun hw => hname (hwhen name hw)) fun hw => ?_)
  exact hname (hclass.mp (hwhen _ hw))

lemma respells_callee {b : SALAnnotation} (h : Respelled S a b) :
    Respells S (annotatedCallee a) fun _ => b := by
  have hmem : ∀ f, ∀ a' ∈ annotations ((annotatedCallee a).function f), a' = a := by
    intro f a' ha'
    by_cases hf : f = 0
    · subst hf
      exact absurd ha' List.not_mem_nil
    · have hcallee : (annotatedCallee a).function f =
          { getName := "callee", declAnnotations := [a] } := if_neg hf
      rw [hcallee] at ha'
      exact List.mem_singleton.mp ha'
  intro f a' ha'
  rw [hmem f a' ha']
  exact h

lemma replaced_callee (a b : SALAnnotation) :
    replaced (fun _ => b) (annotatedCallee a) = annotatedCallee b := by
  unfold replaced annotatedCallee onFunctions oneCall
  congr 1
  funext f
  by_cases hf : f = 0
  · simp only [if_pos hf]
    rfl
  · simp only [if_neg hf]
    rfl

/-- **Programs in the two dialects are given the same levels, whatever the program, iff both
spellings are read of every annotation that is respelled.** -/
theorem sameResults_iff_interchangeable (S : Set Spelling) :
    (∀ (Fn Node : Type) [DecidableEq Fn] [DecidableEq Node] [Fintype Node]
        (P : Program Fn Node) (g : SALAnnotation → SALAnnotation), Respells S P g →
      SameResults (database P) (database (replaced g P))) ↔
      ∀ s ∈ S, Interchangeable s := by
  refine ⟨fun h s hs => ?_, fun h Fn Node _ _ _ P g hg => sameResults_of_interchangeable h hg⟩
  by_contra hbad
  have hcallee : ∀ a b, Respelled S a b →
      SameResults (database (annotatedCallee a)) (database (annotatedCallee b)) := by
    intro a b hab
    have hsame := h _ _ (annotatedCallee a) _ (respells_callee hab)
    rwa [replaced_callee] at hsame
  cases s with
  | direct name =>
    have hlisted : name ∈ listedNames := by
      by_contra hname
      exact hbad (by rw [Interchangeable, otherSpelling_of_not_listed hname])
    refine (toldApart_direct name hlisted hbad).not_sameResults (hcallee _ _ ?_)
    exact .direct (direct name "APC_LEVEL") hs
  | inside name =>
    have hname := directNames_of_not_interchangeable hbad
    refine (toldApart_inside name hname hbad).not_sameResults (hcallee _ _ ?_)
    exact .inside "Wait==0" name "APC_LEVEL" hname (by decide) hs

theorem drvMax_unread :
    Respells {.direct "_IRQL_requires_max_"}
        (annotatedCallee (direct "_IRQL_requires_max_" "APC_LEVEL"))
        (fun _ => direct "_drv_maxIRQL" "APC_LEVEL") ∧
      hasUpperBound wdm ((database (annotatedCallee
        (direct "_IRQL_requires_max_" "APC_LEVEL"))).function 1) = [1] ∧
      hasUpperBound wdm ((database (annotatedCallee
        (direct "_drv_maxIRQL" "APC_LEVEL"))).function 1) = [] := by
  refine ⟨?_, by decide, by decide⟩
  have hname : direct "_drv_maxIRQL" "APC_LEVEL" =
      { direct "_IRQL_requires_max_" "APC_LEVEL" with
        getMacroName := otherSpelling "_IRQL_requires_max_" } := by decide
  rw [hname]
  exact respells_callee (.direct _ rfl)

end DriverQueries.Dialect
