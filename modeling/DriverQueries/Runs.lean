import DriverQueries.Cascade

/-!
Runs of a program, and the soundness of the cascade.

A run is at a node it has just completed, at some IRQL, inside a stack of calls, and it knows
the IRQL before every save it made. Raising, lowering and restoring calls are primitive;
every other call enters the function it calls, or comes back from it at once where it has no body.
Of the annotations a run is only asked that they tell the truth about the calls that return.

The cascade knows the IRQL that a call lowers to by the raise that has saved it. So it contains the
runs that only lower to saved IRQLs.
-/

namespace DriverQueries.Runs

open Relation DriverQueries.Text DriverQueries.Sal DriverQueries.Database DriverQueries.Calls
open DriverQueries.CopyRules DriverQueries.EntryLevels DriverQueries.Cascade

/-! ### Steps -/

/-- A call that has not returned, with the IRQL right before it. -/
structure Frame (Node : Type) where
  call : Node
  irql : ℤ
  deriving DecidableEq

/-- A run that has completed `node` at `irql`. `saved` has every saving call made so far with
the IRQL right before it. -/
structure Config (Node : Type) where
  node : Node
  irql : ℤ
  frames : List (Frame Node)
  saved : List (Node × ℤ)
  deriving DecidableEq

variable {Fn Node : Type} (P : Program Fn Node)

def SavingCall (n : Node) : Prop :=
  KeRaiseIrqlCall P n ∨ SavesGlobalIrqlCall P n ∨ IrqlSaveCall P n

def RestoringCall (n : Node) : Prop :=
  KeLowerIrqlCall P n ∨ RestoresGlobalIrqlCall P n ∨ IrqlRestoreCall P n

instance : DecidablePred (SavingCall P) := fun _ => inferInstanceAs (Decidable (_ ∨ _))
instance : DecidablePred (RestoringCall P) := fun _ => inferInstanceAs (Decidable (_ ∨ _))

variable {P} in
lemma RestoringCall.functionCall {n : Node} (h : RestoringCall P n) : FunctionCall P n := by
  obtain h | h | h := h
  · exact .of_name P h
  · exact .of_callTo P h
  · exact .of_callTo P h

/-- The saved values after control has come to `m`. -/
def savedAt (c : Config Node) (m : Node) : List (Node × ℤ) :=
  if SavingCall P m then (m, c.irql) :: c.saved else c.saved

/-- The run completes `m` at the IRQL `i`. -/
def Config.complete (c : Config Node) (m : Node) (i : ℤ) : Config Node :=
  { c with node := m, irql := i, saved := savedAt P c m }

/-- What runs depend on besides the text. `receives n s`: the restoring call `n` can be given the
value that the call `s` saved. `values e`: the other values that the expression `e` can have.
`restores n`: the IRQLs that a call can restore from a state which the run has not saved.
`effect n i`: the IRQLs after a call of a function without a body that is made at `i`. -/
structure World where
  receives : Node → Node → Bool := fun _ _ => false
  values : Node → List ℤ := fun _ => []
  restores : Node → List ℤ := fun _ => []
  effect : Node → ℤ → List ℤ := fun _ i => [i]
  literal : ∀ e v, (P.literalValue e).bind toInt = some v → values e = [v]

variable {P} (W : World P)

/-- The IRQLs that a raising call can set: `DISPATCH_LEVEL`, or what it is given. -/
def raisedTo (m : Node) : List ℤ :=
  if CallToName P ["KeRaiseIrqlToDPCLevel", "KfRaiseIrqlToDPCLevel"] m then [2]
  else (P.getArgument m)[0]?.toList.flatMap W.values

/-- The IRQLs that a restoring call can set without the run having saved them. -/
def unsavedLevels (m : Node) : List ℤ :=
  if KeLowerIrqlCall P m then (P.getArgument m)[0]?.toList.flatMap W.values else W.restores m

/-- The call on top of the stack calls the function whose exit the run has come to. -/
def Returns (P : Program Fn Node) (c : Config Node) (fr : Frame Node) : Prop :=
  ∃ g ∈ P.getTarget fr.call, P.getAnExitPointOfFunction g c.node

inductive Step (c : Config Node) : Config Node → Prop
  | raise {m v} (hedge : P.Edge c.node m) (hraise : KeRaiseIrqlCall P m) (hv : v ∈ raisedTo W m) :
      Step c (c.complete P m v)
  | restore {m s} (hedge : P.Edge c.node m) (hraise : ¬ KeRaiseIrqlCall P m)
      (hrest : RestoringCall P m) (hs : s ∈ c.saved) (hreceives : W.receives m s.1) :
      Step c (c.complete P m s.2)
  | unsaved {m v} (hedge : P.Edge c.node m) (hraise : ¬ KeRaiseIrqlCall P m)
      (hrest : RestoringCall P m) (hv : v ∈ unsavedLevels W m) : Step c (c.complete P m v)
  | enter {m g b} (hedge : P.Edge c.node m) (hraise : ¬ KeRaiseIrqlCall P m)
      (hrest : ¬ RestoringCall P m) (hg : P.getTarget m = some g) (hb : P.getBlock g = some b) :
      Step c ⟨b, c.irql, ⟨m, c.irql⟩ :: c.frames, savedAt P c m⟩
  | external {m g v} (hedge : P.Edge c.node m) (hraise : ¬ KeRaiseIrqlCall P m)
      (hrest : ¬ RestoringCall P m) (hg : P.getTarget m = some g) (hbody : P.getBlock g = none)
      (hv : v ∈ W.effect m c.irql) : Step c (c.complete P m v)
  | pass {m} (hedge : P.Edge c.node m) (hcall : ¬ FunctionCall P m) : Step c { c with node := m }
  | leave {fr frames} (hfr : c.frames = fr :: frames) (hret : Returns P c fr) :
      Step c { c with node := fr.call, frames := frames }

/-! ### Computing the steps -/

/-- What control can do when it comes from `c` to the node `m`. -/
def arrive (c : Config Node) (m : Node) : List (Config Node) :=
  if KeRaiseIrqlCall P m then (raisedTo W m).map (c.complete P m)
  else if RestoringCall P m then
    ((c.saved.filter fun s => W.receives m s.1).map Prod.snd ++ unsavedLevels W m).map
      (c.complete P m)
  else match P.getTarget m with
    | none => [{ c with node := m }]
    | some g =>
      match P.getBlock g with
      | none => (W.effect m c.irql).map (c.complete P m)
      | some b => [⟨b, c.irql, ⟨m, c.irql⟩ :: c.frames, savedAt P c m⟩]

variable {W} {c c' : Config Node} {m n : Node}

lemma not_primitive (hcall : ¬ FunctionCall P n) : ¬ KeRaiseIrqlCall P n ∧ ¬ RestoringCall P n := by
  obtain ⟨hraise, hlower, hglobal, hrestore, -⟩ := no_class_of_not_call P hcall
  exact ⟨hraise, by simp [RestoringCall, hlower, hglobal, hrestore]⟩

lemma step_of_arrive (hedge : P.Edge c.node m) (h : c' ∈ arrive W c m) : Step W c c' := by
  unfold arrive at h
  split_ifs at h with hraise hrest
  · obtain ⟨v, hv, rfl⟩ := List.mem_map.mp h
    exact .raise hedge hraise hv
  · obtain ⟨v, hv, rfl⟩ := List.mem_map.mp h
    obtain hv | hv := List.mem_append.mp hv
    · obtain ⟨s, hs, rfl⟩ := List.mem_map.mp hv
      obtain ⟨hs, hreceives⟩ := List.mem_filter.mp hs
      exact .restore hedge hraise hrest hs hreceives
    · exact .unsaved hedge hraise hrest hv
  · cases hg : P.getTarget m with
    | none =>
      rw [hg, List.mem_singleton] at h
      subst h
      exact .pass hedge (by simp [FunctionCall, hg])
    | some g =>
      rw [hg] at h
      cases hb : P.getBlock g with
      | none =>
        simp only [hb] at h
        obtain ⟨v, hv, rfl⟩ := List.mem_map.mp h
        exact .external hedge hraise hrest hg hb hv
      | some b =>
        simp only [hb, List.mem_singleton] at h
        subst h
        exact .enter hedge hraise hrest hg hb

lemma arrive_of_raise (hraise : KeRaiseIrqlCall P m) :
    arrive W c m = (raisedTo W m).map (c.complete P m) := if_pos hraise

lemma arrive_of_restore (hraise : ¬ KeRaiseIrqlCall P m) (hrest : RestoringCall P m) :
    arrive W c m = ((c.saved.filter fun s => W.receives m s.1).map Prod.snd ++
      unsavedLevels W m).map (c.complete P m) := by
  rw [arrive, if_neg hraise, if_pos hrest]

variable [DecidableEq Fn] [DecidableEq Node]

instance (c : Config Node) (fr : Frame Node) : Decidable (Returns P c fr) :=
  inferInstanceAs (Decidable (∃ g ∈ _, _))

variable (W) in
def next (c : Config Node) : List (Config Node) :=
  (P.getASuccessor c.node).flatMap (arrive W c) ++
  match c.frames with
  | [] => []
  | fr :: frames => if Returns P c fr then [{ c with node := fr.call, frames := frames }] else []

/-- **The list has all steps.** -/
theorem step_iff_mem_next : Step W c c' ↔ c' ∈ next W c := by
  refine ⟨fun h => ?_, fun h => ?_⟩
  · have hnext : ∀ {m}, P.Edge c.node m → c' ∈ arrive W c m → c' ∈ next W c := fun hedge h =>
      List.mem_append_left _ (List.mem_flatMap.mpr ⟨_, hedge, h⟩)
    cases h with
    | @raise m v hedge hraise hv =>
      refine hnext hedge ?_
      rw [arrive_of_raise hraise]
      exact List.mem_map_of_mem hv
    | @restore m s hedge hraise hrest hs hreceives =>
      refine hnext hedge ?_
      rw [arrive_of_restore hraise hrest]
      refine List.mem_map_of_mem (List.mem_append_left _ (List.mem_map_of_mem (f := Prod.snd) ?_))
      exact List.mem_filter.mpr ⟨hs, hreceives⟩
    | @unsaved m v hedge hraise hrest hv =>
      refine hnext hedge ?_
      rw [arrive_of_restore hraise hrest]
      exact List.mem_map_of_mem (List.mem_append_right _ hv)
    | enter hedge hraise hrest hg hb =>
      refine hnext hedge ?_
      simp only [arrive, if_neg hraise, if_neg hrest, hg, hb, List.mem_singleton]
    | external hedge hraise hrest hg hb hv =>
      refine hnext hedge ?_
      simp only [arrive, if_neg hraise, if_neg hrest, hg, hb]
      exact List.mem_map_of_mem hv
    | pass hedge hcall =>
      refine hnext hedge ?_
      have hg : P.getTarget _ = none := Option.not_isSome_iff_eq_none.mp hcall
      obtain ⟨hraise, hrest⟩ := not_primitive hcall
      simp only [arrive, if_neg hraise, if_neg hrest, hg, List.mem_singleton]
    | leave hfr hret =>
      refine List.mem_append_right _ ?_
      rw [hfr]
      simp only [if_pos hret, List.mem_singleton]
  · obtain h | h := List.mem_append.mp h
    · obtain ⟨m, hm, h⟩ := List.mem_flatMap.mp h
      exact step_of_arrive hm h
    · cases hfr : c.frames with
      | nil => simp [hfr] at h
      | cons fr frames =>
        simp only [hfr] at h
        split_ifs at h with hret
        · rw [List.mem_singleton.mp h]
          exact .leave hfr hret
        · exact absurd h List.not_mem_nil

instance : DecidableRel (Step W) := fun _ _ => decidable_of_iff _ step_iff_mem_next.symm

def startLevels (P : Program Fn Node) (f : Fn) : List ℤ :=
  if IrqlRestrictsFunction (P.function f) ∧
      getAllowableIrqlLevel P.macros (P.function f) ≠ [] then
    getAllowableIrqlLevel P.macros (P.function f)
  else [0]

/-- A run starts at the entry of a function without call sites. -/
def Start (P : Program Fn Node) (c : Config Node) : Prop :=
  c.frames = [] ∧ c.saved = [] ∧ ∃ f, c.node ∈ P.getBlock f ∧ (∀ n, P.getTarget n ≠ some f) ∧
    c.irql ∈ startLevels P f

variable (W) in
def Reachable (c : Config Node) : Prop := ∃ s, Start P s ∧ ReflTransGen (Step W) s c

/-- A call that returns in `c` ends at the IRQL its function is annotated to end at. -/
def KeepsAnnotations (P : Program Fn Node) (c : Config Node) : Prop :=
  ∀ fr ∈ c.frames.head?, ∀ g ∈ P.getTarget fr.call, P.getAnExitPointOfFunction g c.node →
    (IrqlRaisesAnnotatedFunction (P.function g) →
      c.irql ∈ annotatedLevels IrqlRaisesAnnotation P.macros (P.function g)) ∧
    (IrqlRequiresSameAnnotatedFunction (P.function g) → c.irql = fr.irql)

instance (c : Config Node) : Decidable (KeepsAnnotations P c) :=
  inferInstanceAs (Decidable (∀ fr ∈ _, _))

omit [DecidableEq Fn] [DecidableEq Node] in
lemma Reachable.tail (h : Reachable W c) (hstep : Step W c c') : Reachable W c' := by
  obtain ⟨s, hs, hrun⟩ := h
  exact ⟨s, hs, hrun.tail hstep⟩

/-- A list of configurations that contains the starts and is closed under steps contains
everything a run can reach. -/
lemma mem_of_reachable {L : List (Config Node)}
    (hstart : ∀ f, ∀ b ∈ P.getBlock f, (∀ n, P.getTarget n ≠ some f) →
      ∀ i ∈ startLevels P f, ⟨b, i, [], []⟩ ∈ L)
    (hstep : ∀ c ∈ L, ∀ c' ∈ next W c, c' ∈ L) (h : Reachable W c) : c ∈ L := by
  obtain ⟨⟨b, i, frames, saved⟩, ⟨hframes, hsaved, f, hb, hcallers, hi⟩, hrun⟩ := h
  simp only at hframes hsaved hb hi
  subst hframes hsaved
  induction hrun with
  | refl => exact hstart f b hb hcallers i hi
  | tail _ hbc ih => exact hstep _ ih _ (step_iff_mem_next.mp hbc)

/-! ### The programs and runs that the cascade is for -/

/-- The body of a function is no call, and no edge leads to it. -/
def EntryNodes (P : Program Fn Node) : Prop :=
  ∀ f, ∀ b ∈ P.getBlock f, (∀ m, ¬ P.Edge m b) ∧ P.getTarget b = none

/-- A raise to `DISPATCH_LEVEL`, or one that is given a literal. -/
def LiteralRaises (P : Program Fn Node) : Prop :=
  ∀ n, KeRaiseIrqlCall P n → CallToName P ["KeRaiseIrqlToDPCLevel", "KfRaiseIrqlToDPCLevel"] n ∨
    ∃ arg ∈ (P.getArgument n)[0]?, ((P.literalValue arg).bind toInt).isSome

/-- The node is a call, of none of the primitives, of a function without a body. -/
structure ExternalCall (P : Program Fn Node) (m : Node) (g : Fn) : Prop where
  target : P.getTarget m = some g
  body : P.getBlock g = none
  raise : ¬ KeRaiseIrqlCall P m
  rest : ¬ RestoringCall P m

/-- A function without a body ends at a level that it is annotated to raise to, or else at the IRQL
it was called at. -/
def EndsAt (P : Program Fn Node) (g : FunctionInfo) (i v : ℤ) : Prop :=
  if IrqlRaisesAnnotatedFunction g then v ∈ annotatedLevels IrqlRaisesAnnotation P.macros g
  else v = i

instance (g : FunctionInfo) (i v : ℤ) : Decidable (EndsAt P g i v) := by
  unfold EndsAt; infer_instance

variable (W) in
/-- Calls of functions without a body end as said. -/
def ExternalsEnd : Prop :=
  ∀ m g, ExternalCall P m g → ∀ i, ∀ v ∈ W.effect m i, EndsAt P (P.function g) i v

variable (W) in
/-- What is asked of functions without a body. The exit of one is no call, and no edge leads
there. -/
structure Externals : Prop where
  level : ExternalsEnd W
  exit : ∀ m g, ExternalCall P m g →
    (∀ k, ¬ P.Edge k (P.exitNode g)) ∧ P.getTarget (P.exitNode g) = none

omit [DecidableEq Fn] [DecidableEq Node] in
lemma externals_of_none (h : ∀ m g, P.getTarget m = some g → P.getBlock g = none →
    KeRaiseIrqlCall P m ∨ RestoringCall P m) : Externals W := by
  have hnone : ∀ m g, ¬ ExternalCall P m g := fun m g hcall =>
    (h m g hcall.target hcall.body).elim hcall.raise hcall.rest
  exact ⟨fun m g hcall => absurd hcall (hnone m g), fun m g hcall => absurd hcall (hnone m g)⟩

/-- The annotations tell the truth about every return of every run. -/
def Truthful (W : World P) : Prop := ∀ c, Reachable W c → KeepsAnnotations P c

/-- The step restores an IRQL that the run has not saved. -/
def Unsaved (W : World P) (c c' : Config Node) : Prop :=
  ∃ m ∈ P.getASuccessor c.node, ¬ KeRaiseIrqlCall P m ∧ RestoringCall P m ∧
    c' = c.complete P m c'.irql ∧ ∀ s ∈ c.saved, W.receives m s.1 → s.2 ≠ c'.irql

instance : DecidableRel (Unsaved W) := fun _ _ => inferInstanceAs (Decidable (∃ m ∈ _, _))

/-- No call is given an IRQL that was not saved. -/
def SavedOnly (W : World P) : Prop := ∀ m, RestoringCall P m → unsavedLevels W m = []

omit [DecidableEq Fn] [DecidableEq Node] in
lemma restored_cases (hstep : Step W c c') (hraise : ¬ KeRaiseIrqlCall P m)
    (hrest : RestoringCall P m) {v : ℤ} (heq : c' = c.complete P m v) :
    (∃ s ∈ c.saved, W.receives m s.1 ∧ s.2 = v) ∨ v ∈ unsavedLevels W m := by
  have hnode : c'.node = m := by rw [heq]; rfl
  have hirql : c'.irql = v := by rw [heq]; rfl
  have hframes : c'.frames = c.frames := by rw [heq]; rfl
  cases hstep with
  | @raise k w _ hraised =>
    obtain rfl : k = m := hnode
    exact absurd hraised hraise
  | @restore k s _ _ _ hs hreceives =>
    obtain rfl : k = m := hnode
    exact Or.inl ⟨s, hs, hreceives, hirql⟩
  | @unsaved k w _ _ _ hv =>
    obtain rfl : k = m := hnode
    obtain rfl : w = v := hirql
    exact Or.inr hv
  | enter => exact absurd hframes (List.cons_ne_self _ _)
  | @external k g w _ _ hnone =>
    obtain rfl : k = m := hnode
    exact absurd hrest hnone
  | @pass k _ hcall =>
    obtain rfl : k = m := hnode
    exact absurd hrest (not_primitive hcall).2
  | leave hfr => exact absurd (hfr.symm.trans hframes.symm) (List.cons_ne_self _ _)

omit [DecidableEq Fn] [DecidableEq Node] in
lemma SavedOnly.not_unsaved (h : SavedOnly W) (hstep : Step W c c') : ¬ Unsaved W c c' := by
  rintro ⟨m, -, hraise, hrest, heq, hnot⟩
  obtain ⟨s, hs, hreceives, hirql⟩ | hv := restored_cases hstep hraise hrest heq
  · exact hnot s hs hreceives hirql
  · rw [h m hrest] at hv
    exact List.not_mem_nil hv

/-! ### The cascade contains every run -/

variable [Fintype Node]

variable (P) in
/-- The level is estimated right before the node. -/
def EstimatedBefore (n : Node) (i : ℤ) : Prop :=
  ∃ m, P.Edge m n ∧ getPotentialExitIrqlAtCfnInternal P m i

variable (P) in
/-- The IRQL of a run is estimated at its node, and the IRQLs on its stack and those it has
saved are estimated right before the calls they belong to. -/
structure Sound (c : Config Node) : Prop where
  node : getPotentialExitIrqlAtCfnInternal P c.node c.irql
  frames : ∀ fr ∈ c.frames, EstimatedBefore P fr.call fr.irql ∧
    ¬ KeRaiseIrqlCall P fr.call ∧ ¬ RestoringCall P fr.call
  saved : ∀ s ∈ c.saved, EstimatedBefore P s.1 s.2

variable (P) in
/-- No node restores but by lowering. -/
def OnlyLowers : Prop := ∀ n, branch P n ≠ .restoresGlobal ∧ branch P n ≠ .irqlRestore

/-- The programs whose IRQL only changes at raises to literals, at lowering calls, to which the
data flow relates all raises that they can be given the saved value of, and in functions that are
annotated or have a body. -/
structure Estimable (W : World P) : Prop where
  entry : EntryNodes P
  onlyLowers : OnlyLowers P
  literal : LiteralRaises P
  flow : ∀ n r, KeLowerIrqlCall P n → W.receives n r → getMostRecentRaiseInterprocedural P n r
  externals : Externals W

lemma Sound.saved_at (h : Sound P c) (hm : P.Edge c.node m) :
    ∀ s ∈ savedAt P c m, EstimatedBefore P s.1 s.2 := by
  intro s hs
  unfold savedAt at hs
  split_ifs at hs
  · obtain rfl | hs := List.mem_cons.mp hs
    · exact ⟨c.node, hm, h.node⟩
    · exact h.saved s hs
  · exact h.saved s hs

lemma Sound.complete (h : Sound P c) (hm : P.Edge c.node m) {i : ℤ}
    (hi : getPotentialExitIrqlAtCfnInternal P m i) : Sound P (c.complete P m i) :=
  ⟨hi, h.frames, h.saved_at hm⟩

lemma estimated_of_predecessor (hn : branch P n = .predecessor ∨ branch P n = .requiresSame) {i : ℤ}
    (h : EstimatedBefore P n i) : getPotentialExitIrqlAtCfnInternal P n i := by
  obtain ⟨m, hm, hi⟩ := h
  refine .copy (m := m) ?_ hi
  unfold copiesFrom
  rcases hn with hn | hn <;> rw [hn] <;> exact hm

lemma branch_entry (hentry : EntryNodes P) {f : Fn} {b : Node} (hb : b ∈ P.getBlock f)
    (hcallers : ∀ n, P.getTarget n ≠ some f) :
    branch P b = if HasAllowableLevel P b then .allowable else .zero := by
  obtain ⟨hpred, htarget⟩ := hentry f b hb
  have hscope : P.getControlFlowScope b = some f := P.block_scope f b hb
  rw [branch_of_not_call P (by simp [FunctionCall, htarget]), if_neg (not_exists.mpr hpred),
    if_neg]
  rintro ⟨m, g, hg, call, -, hcall⟩
  rw [hscope, Option.mem_some_iff] at hg
  exact hcallers call (hg ▸ hcall)

lemma sound_of_start (hentry : EntryNodes P) (h : Start P c) : Sound P c := by
  obtain ⟨hframes, hsaved, f, hb, hcallers, hlevel⟩ := h
  have hscope : P.getControlFlowScope c.node = some f := P.block_scope f c.node hb
  refine ⟨.arise ?_, by simp [hframes], by simp [hsaved]⟩
  unfold levelSource
  rw [branch_entry hentry hb hcallers]
  unfold startLevels at hlevel
  by_cases hallow : IrqlRestrictsFunction (P.function f) ∧
      getAllowableIrqlLevel P.macros (P.function f) ≠ []
  · rw [if_pos hallow] at hlevel
    have hv := allowable_nonneg hlevel
    rw [if_pos ⟨f, hscope, hallow.1, c.irql, hlevel, by omega⟩]
    exact ⟨f, hscope, hlevel⟩
  · rw [if_neg hallow] at hlevel
    rw [if_neg]
    · exact List.mem_singleton.mp hlevel
    · rintro ⟨g, hg, hrestricts, v, hv, -⟩
      rw [hscope, Option.mem_some_iff] at hg
      subst hg
      exact hallow ⟨hrestricts, fun hnil => by simp [hnil] at hv⟩

omit [DecidableEq Fn] [DecidableEq Node] [Fintype Node] in
lemma keRaiseIrqlLevel_of_raisedTo (hliteral : LiteralRaises P) (hraise : KeRaiseIrqlCall P m)
    {v : ℤ} (hv : v ∈ raisedTo W m) : v ∈ keRaiseIrqlLevel P m := by
  unfold raisedTo at hv
  unfold keRaiseIrqlLevel
  split_ifs at hv ⊢ with hdpc
  · exact Option.mem_some_iff.mpr (List.mem_singleton.mp hv).symm
  · obtain ⟨arg, harg, hvalue⟩ := (hliteral m hraise).resolve_left hdpc
    obtain ⟨w, hw⟩ := Option.isSome_iff_exists.mp hvalue
    have harg : (P.getArgument m)[0]? = some arg := harg
    rw [harg, Option.toList_some, List.flatMap_singleton, W.literal arg w hw,
      List.mem_singleton] at hv
    rw [harg, Option.bind_some, hw, hv]
    rfl

/-- A call that lowers takes the level right before a raise that can have saved it. -/
lemma estimated_of_lower
    (hflow : ∀ n r, KeLowerIrqlCall P n → W.receives n r → getMostRecentRaiseInterprocedural P n r)
    (hraise : ¬ KeRaiseIrqlCall P m) (hlower : KeLowerIrqlCall P m) {s : Node × ℤ}
    (hs : EstimatedBefore P s.1 s.2) (hreceives : W.receives m s.1) :
    getPotentialExitIrqlAtCfnInternal P m s.2 := by
  have hbranch : branch P m = .keLower := by rw [branch, if_neg hraise, if_pos hlower]
  obtain ⟨p, hp, hi⟩ := hs
  refine .copy (m := p) ?_ hi
  unfold copiesFrom
  rw [hbranch]
  exact ⟨s.1, hflow m s.1 hlower hreceives, hp⟩

lemma lower_of_restoring (honly : OnlyLowers P) (hraise : ¬ KeRaiseIrqlCall P m)
    (hrest : RestoringCall P m) : KeLowerIrqlCall P m := by
  by_contra hlower
  by_cases hglobal : RestoresGlobalIrqlCall P m
  · refine (honly m).1 ?_
    rw [branch, if_neg hraise, if_neg hlower, if_pos hglobal]
  · refine (honly m).2 ?_
    rw [branch, if_neg hraise, if_neg hlower, if_neg hglobal,
      if_pos ((hrest.resolve_left hlower).resolve_left hglobal)]

lemma estimated_of_enter (hentry : EntryNodes P) {g : Fn} {b : Node} (hb : b ∈ P.getBlock g)
    (hm : P.Edge n m) (hg : P.getTarget m = some g) {i : ℤ}
    (hi : getPotentialExitIrqlAtCfnInternal P n i) : getPotentialExitIrqlAtCfnInternal P b i := by
  obtain ⟨hpred, htarget⟩ := hentry g b hb
  have hcaller : ∃ f ∈ P.getControlFlowScope b, callerPredecessor P f n :=
    ⟨g, P.block_scope g b hb, m, hm, hg⟩
  have hbranch : branch P b = .caller := by
    rw [branch_of_not_call P (by simp [FunctionCall, htarget]), if_neg (not_exists.mpr hpred),
      if_pos ⟨n, hcaller⟩]
  refine .copy (m := n) ?_ hi
  unfold copiesFrom
  rw [hbranch]
  exact hcaller

lemma estimated_of_exit (hexternals : Externals W) {g : Fn} (hcall : ExternalCall P m g)
    (hm : P.Edge n m) {i : ℤ} (hi : getPotentialExitIrqlAtCfnInternal P n i) :
    getPotentialExitIrqlAtCfnInternal P (P.exitNode g) i := by
  obtain ⟨hpred, htarget⟩ := hexternals.exit m g hcall
  have hcaller : ∃ f ∈ P.getControlFlowScope (P.exitNode g), callerPredecessor P f n :=
    ⟨g, P.exit_scope g, m, hm, hcall.target⟩
  have hbranch : branch P (P.exitNode g) = .caller := by
    rw [branch_of_not_call P (by simp [FunctionCall, htarget]), if_neg (not_exists.mpr hpred),
      if_pos ⟨n, hcaller⟩]
  refine .copy (m := n) ?_ hi
  unfold copiesFrom
  rw [hbranch]
  exact hcaller

/-- A call of a function without a body ends at a level of its annotation, or at the one before. -/
lemma estimated_of_external (hexternals : Externals W) {g : Fn} (hcall : ExternalCall P m g)
    (hm : P.Edge n m) {i v : ℤ} (hi : getPotentialExitIrqlAtCfnInternal P n i)
    (hv : v ∈ W.effect m i) : getPotentialExitIrqlAtCfnInternal P m v := by
  have hends := hexternals.level m g hcall i v hv
  have hrest := hcall.rest
  simp only [RestoringCall, not_or] at hrest
  have hbranch := branch_of_call P (Option.isSome_iff_exists.mpr ⟨g, hcall.target⟩) hcall.raise
    hrest.1 hrest.2.1 hrest.2.2
  have callTo_iff : ∀ cls : FunctionInfo → Prop, P.CallTo cls m ↔ cls (P.function g) := by
    intro cls
    simp [Program.CallTo, hcall.target]
  simp only [callTo_iff] at hbranch
  unfold EndsAt at hends
  -- the annotation of the target decides about both, in the same order
  split_ifs at hends hbranch with hraises hsame
  · refine .arise ?_
    unfold levelSource
    rw [hbranch]
    exact ⟨g, hcall.target, hends⟩
  · rw [hends]
    exact estimated_of_predecessor (Or.inr hbranch) ⟨n, hm, hi⟩
  · rw [hends]
    refine .copy (m := P.exitNode g) ?_ (estimated_of_exit hexternals hcall hm hi)
    unfold copiesFrom
    rw [hbranch]
    exact ⟨g, hcall.target, (P.getAnExitPointOfFunction_iff g _).mpr rfl⟩

/-- A call that returns has the levels its annotation promises, or those of the exit. -/
lemma estimated_of_return (hsound : Sound P c) (hkeeps : KeepsAnnotations P c) {fr : Frame Node}
    {frames : List (Frame Node)} (hfr : c.frames = fr :: frames) (hret : Returns P c fr) :
    getPotentialExitIrqlAtCfnInternal P fr.call c.irql := by
  obtain ⟨g, hg, hexit⟩ := hret
  obtain ⟨hbefore, hraise, hrest⟩ := hsound.frames fr (hfr ▸ List.mem_cons_self)
  simp only [RestoringCall, not_or] at hrest
  obtain ⟨hlevel, hsame⟩ := hkeeps fr (by simp [hfr]) g hg hexit
  have hcall : FunctionCall P fr.call := Option.isSome_iff_exists.mpr ⟨g, hg⟩
  have callTo : ∀ {cls : FunctionInfo → Prop}, P.CallTo cls fr.call → cls (P.function g) := by
    rintro cls ⟨g', hg', hcls⟩
    rwa [Option.mem_unique hg hg']
  have hbranch := branch_of_call P hcall hraise hrest.1 hrest.2.1 hrest.2.2
  split_ifs at hbranch with hraises hreq
  · refine .arise ?_
    unfold levelSource
    rw [hbranch]
    exact ⟨g, hg, hlevel (callTo hraises)⟩
  · rw [hsame (callTo hreq)]
    exact estimated_of_predecessor (Or.inr hbranch) hbefore
  · refine .copy (m := c.node) ?_ hsound.node
    unfold copiesFrom
    rw [hbranch]
    exact ⟨g, hg, hexit⟩

lemma sound_step (hentry : EntryNodes P) (hliteral : LiteralRaises P) (hexternals : Externals W)
    (hkeeps : KeepsAnnotations P c) (hsound : Sound P c) (h : Step W c c')
    (hrestored : ∀ m v, P.Edge c.node m → ¬ KeRaiseIrqlCall P m → RestoringCall P m →
      c' = c.complete P m v → getPotentialExitIrqlAtCfnInternal P m v) : Sound P c' := by
  cases h with
  | @raise m v hedge hraise hv =>
    refine hsound.complete hedge (.arise ?_)
    unfold levelSource
    rw [(branch_keRaise_iff P).mpr hraise]
    exact keRaiseIrqlLevel_of_raisedTo hliteral hraise hv
  | restore hedge hraise hrest =>
    exact hsound.complete hedge (hrestored _ _ hedge hraise hrest rfl)
  | unsaved hedge hraise hrest =>
    exact hsound.complete hedge (hrestored _ _ hedge hraise hrest rfl)
  | enter hedge hraise hrest hg hb =>
    refine ⟨estimated_of_enter hentry hb hedge hg hsound.node, fun fr hfr => ?_,
      hsound.saved_at hedge⟩
    obtain rfl | hfr := List.mem_cons.mp hfr
    · exact ⟨⟨c.node, hedge, hsound.node⟩, hraise, hrest⟩
    · exact hsound.frames fr hfr
  | external hedge hraise hrest hg hbody hv =>
    exact hsound.complete hedge
      (estimated_of_external hexternals ⟨hg, hbody, hraise, hrest⟩ hedge hsound.node hv)
  | @pass m hedge hcall =>
    have hbranch : branch P m = .predecessor := by
      rw [branch_of_not_call P hcall, if_pos ⟨c.node, hedge⟩]
    exact ⟨estimated_of_predecessor (Or.inl hbranch) ⟨c.node, hedge, hsound.node⟩, hsound.frames,
      hsound.saved⟩
  | @leave fr frames hfr hret =>
    exact ⟨estimated_of_return hsound hkeeps hfr hret,
      fun fr' hfr' => hsound.frames fr' (hfr ▸ List.mem_cons_of_mem fr hfr'), hsound.saved⟩

lemma Estimable.sound_step (h : Estimable W) (hkeeps : KeepsAnnotations P c) (hsound : Sound P c)
    (hstep : Step W c c') (hsaved : ¬ Unsaved W c c') : Sound P c' := by
  refine Runs.sound_step h.entry h.literal h.externals hkeeps hsound hstep ?_
  intro m v hedge hraise hrest heq
  have hirql : c'.irql = v := by rw [heq]; rfl
  have hgiven : ∃ s ∈ c.saved, W.receives m s.1 ∧ s.2 = v := by
    by_contra hnone
    refine hsaved ⟨m, hedge, hraise, hrest, hirql ▸ heq, fun s hs hreceives hne => ?_⟩
    exact hnone ⟨s, hs, hreceives, hne.trans hirql⟩
  obtain ⟨s, hs, hreceives, rfl⟩ := hgiven
  exact estimated_of_lower h.flow hraise (lower_of_restoring h.onlyLowers hraise hrest)
    (hsound.saved s hs) hreceives

lemma Estimable.sound_of_run (h : Estimable W) (htruth : Truthful W) {s : Config Node}
    (hs : Start P s) (hrun : ReflTransGen (fun c c' => Step W c c' ∧ ¬ Unsaved W c c') s c) :
    Reachable W c ∧ Sound P c := by
  induction hrun with
  | refl => exact ⟨⟨s, hs, .refl⟩, sound_of_start h.entry hs⟩
  | tail _ hstep ih =>
    obtain ⟨hreach, hsound⟩ := ih
    exact ⟨hreach.tail hstep.1, h.sound_step (htruth _ hreach) hsound hstep.1 hstep.2⟩

/-- **The cascade contains every run that restores saved IRQLs only.** A run that starts where a
program can be entered is, at every node it completes, at one of the IRQLs estimated there. -/
theorem run_sound (h : Estimable W) (htruth : Truthful W) {s : Config Node} (hs : Start P s)
    (hrun : ReflTransGen (fun c c' => Step W c c' ∧ ¬ Unsaved W c c') s c) :
    getPotentialExitIrqlAtCfn P c.node c.irql :=
  Or.inl (h.sound_of_run htruth hs hrun).2.node

/-- Where nothing else is restored, every run is sound. -/
lemma Estimable.sound (h : Estimable W) (hsaved : SavedOnly W) (htruth : Truthful W)
    (hc : Reachable W c) : Sound P c := by
  obtain ⟨s, hs, hrun⟩ := hc
  refine (h.sound_of_run htruth hs (ReflTransGen.mono (fun c c' hstep => ?_) _ _ hrun)).2
  exact ⟨hstep, hsaved.not_unsaved hstep⟩

/-! ### An example -/

def sameIrql : SALAnnotation := { getMacroName := "_IRQL_requires_same_" }

/-- The functions of the example: one caller that is entered at any IRQL and one that requires
`APC_LEVEL`, the function they call, and the two primitives it uses. -/
def twoCallersFunctions (sal : List SALAnnotation) : List FunctionInfo :=
  [{ getName := "low" },
    { getName := "high", declAnnotations :=
        [{ getMacroName := "_IRQL_requires_", getUnexpandedArgument := ["APC_LEVEL"] }] },
    { getName := "work", declAnnotations := sal },
    { getName := "KeRaiseIrqlToDPCLevel", declAnnotations :=
        [{ getMacroName := "_IRQL_raises_", getUnexpandedArgument := ["DISPATCH_LEVEL"] }] },
    { getName := "KeLowerIrql", getParameter := [⟨"NewIrql",
        [{ getMacroName := "_IRQL_restores_", inner := true }]⟩] }]

/-- `void low() { work(); }`, `void high() { work(); }` and
`void work() { KIRQL old = KeRaiseIrqlToDPCLevel(); KeLowerIrql(old); }`. -/
def twoCallers (sal : List SALAnnotation) : Program (Fin 5) (Fin 13) where
  macros := wdm
  function f := (twoCallersFunctions sal).getD f { getName := "" }
  getBlock f := [some 0, some 3, some 6, none, none].getD f none
  exitNode f := [2, 5, 10, 11, 12].getD f 12
  getASuccessor n := if n = 2 ∨ n = 5 ∨ 10 ≤ n then [] else [n + 1]
  getControlFlowScope n :=
    if n < 3 then some 0 else if n < 6 then some 1 else if n < 11 then some 2
    else if n = 11 then some 3 else some 4
  getTarget n :=
    if n = 1 ∨ n = 4 then some 2 else if n = 7 then some 3 else if n = 9 then some 4 else none
  getArgument n := if n = 9 then [8] else []
  flow n arg := n = 7 ∧ arg = 8
  successor_scope := by decide
  exit_scope := by decide
  exit_enclosing := by decide
  block_scope := by decide
  block_enclosing := by decide

def oldWorld (sal : List SALAnnotation) : World (twoCallers sal) where
  receives n s := n = 9 ∧ s = 7
  literal _ _ h := by simp [twoCallers] at h

/-- The configurations of a run that starts at `block` and calls `work` from `call`. -/
def runFrom (block call exit : Fin 13) (i : ℤ) : List (Config (Fin 13)) :=
  [⟨block, i, [], []⟩, ⟨6, i, [⟨call, i⟩], []⟩, ⟨7, 2, [⟨call, i⟩], [(7, i)]⟩,
    ⟨8, 2, [⟨call, i⟩], [(7, i)]⟩, ⟨9, i, [⟨call, i⟩], [(7, i)]⟩,
    ⟨10, i, [⟨call, i⟩], [(7, i)]⟩, ⟨call, i, [], [(7, i)]⟩, ⟨exit, i, [], [(7, i)]⟩]

/-- The configurations of the two runs. -/
def twoRuns : List (Config (Fin 13)) := runFrom 0 1 2 0 ++ runFrom 3 4 5 1

lemma mem_twoRuns (sal : List SALAnnotation) (hsal : sal = [] ∨ sal = [sameIrql])
    {c : Config (Fin 13)} (h : Reachable (oldWorld sal) c) : c ∈ twoRuns := by
  refine mem_of_reachable ?_ ?_ h
  · obtain rfl | rfl := hsal <;> decide
  · obtain rfl | rfl := hsal <;> decide

lemma twoCallers_estimable : Estimable (oldWorld [sameIrql]) where
  entry := by unfold EntryNodes; decide
  onlyLowers := by unfold OnlyLowers; decide
  literal := by unfold LiteralRaises; decide
  flow := by decide
  externals := externals_of_none (by decide)

theorem run_sound_twoCallers : getPotentialExitIrqlAtCfn (twoCallers [sameIrql]) 10 1 := by
  have hkeeps : ∀ c ∈ twoRuns, KeepsAnnotations (twoCallers [sameIrql]) c := by decide
  have htruth : Truthful (oldWorld [sameIrql]) := fun c hc =>
    hkeeps c (mem_twoRuns [sameIrql] (Or.inr rfl) hc)
  have hs : Start (twoCallers [sameIrql]) ⟨3, 1, [], []⟩ := ⟨rfl, rfl, 1, by decide⟩
  have hrun : ReflTransGen
      (fun c c' => Step (oldWorld [sameIrql]) c c' ∧ ¬ Unsaved (oldWorld [sameIrql]) c c')
      ⟨3, 1, [], []⟩ ⟨10, 1, [⟨4, 1⟩], [(7, 1)]⟩ :=
    .head (b := ⟨6, 1, [⟨4, 1⟩], []⟩) (by decide) <|
    .head (b := ⟨7, 2, [⟨4, 1⟩], [(7, 1)]⟩) (by decide) <|
    .head (b := ⟨8, 2, [⟨4, 1⟩], [(7, 1)]⟩) (by decide) <|
    .head (b := ⟨9, 1, [⟨4, 1⟩], [(7, 1)]⟩) (by decide) <| .single (by decide)
  exact run_sound twoCallers_estimable htruth hs hrun

/-! ### A lower to a literal -/

/-- `_IRQL_requires_(DISPATCH_LEVEL) void routine() { KeLowerIrql(PASSIVE_LEVEL); }`. The nodes are
the body, the literal, the call and the exits of the two functions. -/
def lowerToPassive : Program Bool (Fin 5) where
  macros := wdm
  function routine :=
    if routine then { getName := "routine", declAnnotations :=
      [{ getMacroName := "_IRQL_requires_", getUnexpandedArgument := ["DISPATCH_LEVEL"] }] }
    else { getName := "KeLowerIrql", getParameter := [⟨"NewIrql",
      [{ getMacroName := "_IRQL_restores_", inner := true }]⟩] }
  getBlock routine := if routine then some 0 else none
  exitNode routine := if routine then 3 else 4
  getASuccessor n := if n < 3 then [n + 1] else []
  getControlFlowScope n := some (n ≠ 4)
  getTarget n := if n = 2 then some false else none
  getArgument n := if n = 2 then [1] else []
  literalValue n := if n = 1 then some "0" else none
  successor_scope := by decide
  exit_scope := by decide
  exit_enclosing := by decide
  block_scope := by decide
  block_enclosing := by decide

def passiveWorld : World lowerToPassive where
  values e := if e = 1 then [0] else []
  literal e v h := by
    by_cases he : e = 1
    · subst he
      have hv : v = 0 := (Option.some.inj h).symm
      rw [if_pos rfl, hv]
    · simp [lowerToPassive, he] at h

/-- The configurations of its run. -/
def passiveRun : List (Config (Fin 5)) :=
  [⟨0, 2, [], []⟩, ⟨1, 2, [], []⟩, ⟨2, 0, [], []⟩, ⟨3, 0, [], []⟩]

/-- The call completes at `PASSIVE_LEVEL`, which is not among its levels: it has none. -/
theorem lowerToPassive_missed :
    Estimable passiveWorld ∧ Truthful passiveWorld ∧
      ∃ s c, Start lowerToPassive s ∧ ReflTransGen (Step passiveWorld) s c ∧
        ¬ getPotentialExitIrqlAtCfn lowerToPassive c.node c.irql := by
  have hkeeps : ∀ c ∈ passiveRun, KeepsAnnotations lowerToPassive c := by decide
  refine ⟨⟨by unfold EntryNodes; decide, by unfold OnlyLowers; decide,
    by unfold LiteralRaises; decide, by decide, externals_of_none (by decide)⟩,
    fun c hc => hkeeps c ?_, ?_⟩
  · exact mem_of_reachable (by decide) (by decide) hc
  · refine ⟨⟨0, 2, [], []⟩, ⟨2, 0, [], []⟩, ⟨rfl, rfl, true, by decide⟩, ?_, fun h => ?_⟩
    · exact .head (b := ⟨1, 2, [], []⟩) (by decide) (.single (by decide))
    · have hinternal : getPotentialExitIrqlAtCfnInternal lowerToPassive 2 0 :=
        (potential_iff_internal _ (by decide)).mp h
      exact absurd hinternal (by decide)

end DriverQueries.Runs
