import DriverQueries.Runs

/-!
Where the estimate has a value at all.

The cascade is silent at a raising call whose level is no literal, and every branch that
copies levels is silent where all nodes it copies from are. So a node has a value exactly
when the copies lead to a node with a level of its own, and otherwise when the fallback for
loops finds such a node. Along the paths from the entry of a function that nothing calls,
only calls can begin a silence.
-/

namespace DriverQueries.Totality

open Relation DriverQueries.Sal DriverQueries.Database DriverQueries.Calls
open DriverQueries.CopyRules DriverQueries.EntryLevels DriverQueries.Cascade DriverQueries.Runs

variable {Fn Node : Type} [DecidableEq Fn] [DecidableEq Node] [Fintype Node]
variable (P : Program Fn Node)

/-- The branch of the node has a level that is copied from no other node. -/
def HasOwnLevel (n : Node) : Prop :=
  match branch P n with
  | .keRaise => (keRaiseIrqlLevel P n).isSome
  | .raises | .allowable | .zero => True
  | _ => False

/-- The copies of the cascade lead from the node to one with a level of its own. -/
def LeadsToLevel (n : Node) : Prop := ∃ m, ReflTransGen (copiesFrom P) n m ∧ HasOwnLevel P m

instance : DecidablePred (HasOwnLevel P) := by
  intro n; unfold HasOwnLevel; split <;> infer_instance

instance : DecidablePred (LeadsToLevel P) := fun _ => inferInstanceAs (Decidable (∃ _, _))

/-- `prev` is a closest sibling before the statement of the node, which is in a loop. -/
def ClosestBefore (cfn prev : Node) : Prop :=
  ∃ cfnStmt ∈ P.getEnclosingStmt cfn, ∃ l, P.isStmt prev ∧ P.isLoop l ∧
    ParentPlus P cfnStmt l ∧ Siblings P prev cfnStmt ∧
    P.startLine prev < P.startLine cfnStmt ∧
    ¬ ∃ closer, P.isStmt closer ∧ Siblings P closer cfnStmt ∧
      P.startLine closer < P.startLine cfnStmt ∧ P.startLine prev < P.startLine closer

instance : DecidableRel (ClosestBefore P) :=
  fun _ _ => inferInstanceAs (Decidable (∃ s ∈ _, ∃ _, _))

variable {P} {n m : Node}

/-! ### Levels of a node's own -/

omit [DecidableEq Node] [Fintype Node] in
lemma exists_annotatedLevel {cls : SALAnnotation → Prop} [DecidablePred cls]
    (hcls : ∀ a, cls a → IrqlFunctionAnnotation a) {g : FunctionInfo} {ms : List Macro}
    (h : AnnotatedFunction cls g) : ∃ v, v ∈ annotatedLevels cls ms g := by
  obtain ⟨a, ha, hc⟩ := h
  obtain ⟨v, hv⟩ := List.exists_mem_of_ne_nil _ (getIrqlLevel_ne_nil ms (hcls a hc))
  exact ⟨v, (mem_annotatedLevels _ _).mpr ⟨a, ha, hc, hv⟩⟩

lemma exists_levelSource_iff : (∃ v, levelSource P n v) ↔ HasOwnLevel P n := by
  unfold levelSource HasOwnLevel
  cases hb : branch P n with
  | keRaise => simp only [Option.mem_def, Option.isSome_iff_exists]
  | raises =>
    refine iff_of_true ?_ trivial
    obtain ⟨g, hg, hraises⟩ := callTo_of_branch_raises P hb
    obtain ⟨v, hv⟩ := exists_annotatedLevel (fun _ => HasIrqlMacroName.isFunction) hraises
    exact ⟨v, g, hg, hv⟩
  | allowable =>
    refine iff_of_true ?_ trivial
    obtain ⟨f, hf, -, v, hv, -⟩ := hasAllowableLevel_of_branch P hb
    exact ⟨v, f, hf, hv⟩
  | zero => exact iff_of_true ⟨0, rfl⟩ trivial
  | keLower | restoresGlobal | irqlRestore | requiresSame | call | predecessor | caller =>
    simp only [exists_false]

lemma exists_internal_iff :
    (∃ v, getPotentialExitIrqlAtCfnInternal P n v) ↔ LeadsToLevel P n := by
  unfold getPotentialExitIrqlAtCfnInternal LeadsToLevel
  simp only [exists_derives_iff, exists_levelSource_iff]

/-- The values of the fallback are those of the cascade at the closest siblings. -/
lemma fallback_iff {v : ℤ} :
    astLevelExitIrqlFallback P n v ↔
      ∃ prev, ClosestBefore P n prev ∧ getPotentialExitIrqlAtCfnInternal P prev v := by
  unfold astLevelExitIrqlFallback ClosestBefore
  refine ⟨fun h => ?_, fun h => ?_⟩
  · obtain ⟨s, hs, prev, l, hprev, hl, hparent, hsib, hline, hclosest, hv⟩ := h
    exact ⟨prev, ⟨s, hs, l, hprev, hl, hparent, hsib, hline, hclosest⟩, hv⟩
  · obtain ⟨prev, ⟨s, hs, l, hprev, hl, hparent, hsib, hline, hclosest⟩, hv⟩ := h
    exact ⟨s, hs, prev, l, hprev, hl, hparent, hsib, hline, hclosest, hv⟩

lemma exists_fallback_iff :
    (∃ v, astLevelExitIrqlFallback P n v) ↔
      ∃ prev, ClosestBefore P n prev ∧ LeadsToLevel P prev := by
  simp only [fallback_iff, ← exists_internal_iff]
  rw [exists_comm]
  simp only [exists_and_left]

lemma exists_potential_iff :
    (∃ v, getPotentialExitIrqlAtCfn P n v) ↔
      LeadsToLevel P n ∨ ∃ prev, ClosestBefore P n prev ∧ LeadsToLevel P prev := by
  unfold getPotentialExitIrqlAtCfn
  rw [exists_or, exists_and_left, exists_internal_iff, exists_fallback_iff, or_and_left,
    and_iff_right (em _)]

/-! ### Paths from an entry -/

variable (P) in
/-- A call at which the cascade can fall silent: a raise with no literal level, a lower or a
restore with no level before a raise or save that matches it, and a call of a function at
whose exit there is no level. -/
def SilentCall (n : Node) : Prop :=
  match branch P n with
  | .keRaise => keRaiseIrqlLevel P n = none
  | .keLower | .restoresGlobal | .irqlRestore | .call =>
    ¬ ∃ m, copiesFrom P n m ∧ LeadsToLevel P m
  | _ => False

lemma LeadsToLevel.copy (h : copiesFrom P n m) (hm : LeadsToLevel P m) : LeadsToLevel P n := by
  obtain ⟨k, hk, hown⟩ := hm
  exact ⟨k, hk.head h, hown⟩

lemma leadsToLevel_entry (hentry : EntryNodes P) {f : Fn} {b : Node} (hb : b ∈ P.getBlock f)
    (hcallers : ∀ c, P.getTarget c ≠ some f) : LeadsToLevel P b := by
  refine ⟨b, .refl, ?_⟩
  unfold HasOwnLevel
  rw [branch_entry hentry hb hcallers]
  by_cases hallow : HasAllowableLevel P b
  · rw [if_pos hallow]
    trivial
  · rw [if_neg hallow]
    trivial

lemma LeadsToLevel.step (h : LeadsToLevel P n) (hnm : P.Edge n m) (hm : ¬ SilentCall P m) :
    LeadsToLevel P m := by
  cases hb : branch P m with
  | keRaise =>
    refine ⟨m, .refl, ?_⟩
    unfold SilentCall at hm
    unfold HasOwnLevel
    rw [hb] at hm ⊢
    exact Option.isSome_iff_ne_none.mpr hm
  | keLower | restoresGlobal | irqlRestore | call =>
    unfold SilentCall at hm
    rw [hb, not_not] at hm
    obtain ⟨k, hk, hlevel⟩ := hm
    exact hlevel.copy hk
  | requiresSame | predecessor =>
    refine h.copy (n := m) ?_
    unfold copiesFrom
    rw [hb]
    exact hnm
  | raises =>
    refine ⟨m, .refl, ?_⟩
    unfold HasOwnLevel
    rw [hb]
    trivial
  | caller => exact absurd hb (branch_of_edge P hnm).1
  | allowable => exact absurd hb (branch_of_edge P hnm).2.1
  | zero => exact absurd hb (branch_of_edge P hnm).2.2

lemma leadsToLevel_of_path {b : Node} (hb : LeadsToLevel P b)
    (h : ReflTransGen (fun x y => P.Edge x y ∧ ¬ SilentCall P y) b n) : LeadsToLevel P n := by
  induction h with
  | refl => exact hb
  | tail _ hyz ih => exact ih.step hyz.1 hyz.2

/-- **A node has a value iff the cascade, or else the fallback for loops, leads to a node with a
level of its own**, and it has one if some path leads to it from the entry of a function without
call sites and comes to no call at which the cascade is silent. -/
theorem potential_total (hentry : EntryNodes P) {f : Fn} {b : Node} (hb : b ∈ P.getBlock f)
    (hcallers : ∀ c, P.getTarget c ≠ some f) :
    (∀ n, (∃ v, getPotentialExitIrqlAtCfn P n v) ↔
      LeadsToLevel P n ∨ ∃ prev, ClosestBefore P n prev ∧ LeadsToLevel P prev) ∧
    ∀ n, ReflTransGen (fun x y => P.Edge x y ∧ ¬ SilentCall P y) b n →
      ∃ v, getPotentialExitIrqlAtCfn P n v := by
  refine ⟨fun n => exists_potential_iff, fun n hpath => ?_⟩
  have hlevel := leadsToLevel_of_path (leadsToLevel_entry hentry hb hcallers) hpath
  exact exists_potential_iff.mpr (Or.inl hlevel)

/-- `void routine() { KeRaiseIrqlToDPCLevel(); }`. -/
def raiseToDpc : Program (Fin 2) (Fin 4) := oneCall wdm { getName := "KeRaiseIrqlToDPCLevel" }

theorem potential_total_raiseToDpc : ∃ v, getPotentialExitIrqlAtCfn raiseToDpc 2 v := by
  have hentry : EntryNodes raiseToDpc := by unfold EntryNodes; decide
  have hcall : ¬ SilentCall raiseToDpc 1 := by
    unfold SilentCall
    rw [show branch raiseToDpc 1 = .keRaise by decide]
    decide
  have hexit : ¬ SilentCall raiseToDpc 2 := by
    unfold SilentCall
    rw [show branch raiseToDpc 2 = .predecessor by decide]
    exact id
  have hpath : ReflTransGen (fun x y => raiseToDpc.Edge x y ∧ ¬ SilentCall raiseToDpc y) 0 2 :=
    .head (b := 1) ⟨by decide, hcall⟩ (.single ⟨by decide, hexit⟩)
  exact (potential_total hentry (f := 0) rfl (by decide)).2 2 hpath

/-- `void routine(KIRQL level) { KIRQL old; KeRaiseIrql(level, &old); }`. The nodes are the body,
the statement, its two arguments, the call, and the exits of the routine and of `KeRaiseIrql`. -/
def raiseToVariable : Program Bool (Fin 7) where
  macros := wdm
  function routine := { getName := if routine then "routine" else "KeRaiseIrql" }
  getBlock routine := if routine then some 0 else none
  exitNode routine := if routine then 5 else 6
  getASuccessor n := if n < 5 then [n + 1] else []
  getControlFlowScope n := some (n ≠ 6)
  getTarget n := if n = 4 then some false else none
  getArgument n := if n = 4 then [2, 3] else []
  getEnclosingStmt n := if n = 0 then some 0 else if n < 5 then some 1 else none
  getParent n := if n = 1 then some 0 else none
  isStmt n := n < 2
  successor_scope := by decide
  exit_scope := by decide
  exit_enclosing := by decide
  block_scope := by decide
  block_enclosing := by decide

/-- The call is reached from the entry of a function that nothing calls, and has no value. -/
theorem raiseToVariable_silent :
    EntryNodes raiseToVariable ∧ 0 ∈ raiseToVariable.getBlock true ∧
      (∀ c, raiseToVariable.getTarget c ≠ some true) ∧ ReflTransGen raiseToVariable.Edge 0 4 ∧
      ¬ ∃ v, getPotentialExitIrqlAtCfn raiseToVariable 4 v := by
  refine ⟨by unfold EntryNodes; decide, rfl, by decide, by decide, ?_⟩
  rw [exists_potential_iff]
  rintro (h | ⟨prev, ⟨s, -, l, -, hloop, -⟩, -⟩)
  · exact absurd h (by decide)
  · exact Bool.false_ne_true hloop

end DriverQueries.Totality
