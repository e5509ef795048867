import DriverQueries.CallRuns
import DriverQueries.Reports
import DriverQueries.Totality

/-!
The IRQL inside of calls.

A run is in the functions whose calls are on its stack, and each of its calls is made in the
body of the function below it. So while a call is on the stack that neither raises nor restores
in any depth, the IRQL is the one before the call. Together with the levels of the cascade this
says of the functions that the two queries about unbalanced functions do not report that every
activation of them ends at the IRQL it was entered at.
-/

namespace DriverQueries.Activations

open Relation DriverQueries.Sal DriverQueries.Database DriverQueries.Calls DriverQueries.Paths
open DriverQueries.CopyRules DriverQueries.Cascade DriverQueries.Changing DriverQueries.Runs
open DriverQueries.Reports DriverQueries.Totality

variable {Fn Node : Type}

/-! ### What an activation does -/

section System

variable {P : Program Fn Node} {W : World P} {c c' : Config Node}

/-- The state of the current activation: its node, the IRQL and what the run has saved. -/
def activation (c : Config Node) : Node × ℤ × List (Node × ℤ) := (c.node, c.irql, c.saved)

/-- The state with these calls on the stack. -/
def above (frames : List (Frame Node)) (a : Node × ℤ × List (Node × ℤ)) : Config Node :=
  ⟨a.1, a.2.1, frames, a.2.2⟩

variable (W) in
/-- The steps of a run, without the calls below. -/
def system : CallRuns.System (Node × ℤ × List (Node × ℤ)) (Frame Node) where
  start a := Start P (above [] a)
  step a b := Step W (above [] a) (above [] b)
  call a fr b := Step W (above [] a) (above [fr] b)
  ret fr a b := Step W (above [fr] a) (above [] b)

/-- A step is the same above any calls. -/
lemma step_append (h : Step W c c') (below : List (Frame Node)) :
    Step W { c with frames := c.frames ++ below } { c' with frames := c'.frames ++ below } := by
  cases h with
  | raise hedge hraise hv => exact .raise hedge hraise hv
  | restore hedge hraise hrest hs hreceives => exact .restore hedge hraise hrest hs hreceives
  | unsaved hedge hraise hrest hv => exact .unsaved hedge hraise hrest hv
  | enter hedge hraise hrest hg hb => exact .enter hedge hraise hrest hg hb
  | external hedge hraise hrest hg hbody hv => exact .external hedge hraise hrest hg hbody hv
  | pass hedge hcall => exact .pass hedge hcall
  | leave hfr hret => exact .leave (by rw [hfr]; rfl) hret

/-- **Runs are the runs with calls of what their activations do.** -/
theorem step_iff_callStep :
    Step W c c' ↔
      CallRuns.Step (system W) (activation c, c.frames) (activation c', c'.frames) := by
  constructor
  · intro h
    cases h with
    | raise hedge hraise hv =>
      exact .step (S := system W) (.raise (c := above [] (activation c)) hedge hraise hv)
    | restore hedge hraise hrest hs hreceives =>
      exact .step (S := system W)
        (.restore (c := above [] (activation c)) hedge hraise hrest hs hreceives)
    | unsaved hedge hraise hrest hv =>
      exact .step (S := system W) (.unsaved (c := above [] (activation c)) hedge hraise hrest hv)
    | external hedge hraise hrest hg hbody hv =>
      exact .step (S := system W)
        (.external (c := above [] (activation c)) hedge hraise hrest hg hbody hv)
    | pass hedge hcall =>
      exact .step (S := system W) (.pass (c := above [] (activation c)) hedge hcall)
    | enter hedge hraise hrest hg hb =>
      exact .enter (S := system W)
        (.enter (c := above [] (activation c)) hedge hraise hrest hg hb)
    | @leave fr frames hfr hret =>
      rw [hfr]
      exact .leave (S := system W) (.leave (c := above [fr] (activation c)) rfl hret)
  · -- a step of an activation is one above any calls
    obtain ⟨n, i, frames, saved⟩ := c
    obtain ⟨n', i', frames', saved'⟩ := c'
    intro h
    cases h with
    | step h => exact step_append h frames
    | enter h => exact step_append h frames
    | leave h => exact step_append h frames'

/-- **Some run is at a node at an IRQL iff a chain of calls begins an activation that comes to
it.** -/
theorem exists_reachable_iff {a : Node × ℤ × List (Node × ℤ)} :
    (∃ c, Reachable W c ∧ activation c = a) ↔
      ∃ b, CallRuns.Entered (system W) b ∧ CallRuns.Local (system W) b a := by
  rw [← CallRuns.exists_reached_iff]
  constructor
  · rintro ⟨c, ⟨s, hs, hrun⟩, rfl⟩
    refine ⟨c.frames, (activation s, s.frames), ⟨?_, hs.1⟩, ?_⟩
    · obtain ⟨hframes, hsaved, hstart⟩ := hs
      exact ⟨rfl, hsaved, hstart⟩
    · exact hrun.lift (fun c => (activation c, c.frames)) fun _ _ => step_iff_callStep.mp
  · rintro ⟨frames, ⟨b, frames'⟩, ⟨hstart, hframes⟩, hrun⟩
    simp only at hstart hframes
    subst hframes
    refine ⟨above frames a, ⟨above [] b, hstart, ?_⟩, rfl⟩
    refine hrun.lift (fun p => above p.2 p.1) fun p q hstep => ?_
    exact step_iff_callStep.mpr hstep

end System

/-! ### The functions a run is in -/

section Nesting

variable (P : Program Fn Node)

/-- The node is in the function that the call on top of the stack has entered, that call is in the
one entered by the call below it, and so on. -/
def Nested : Node → List (Frame Node) → Prop
  | _, [] => True
  | n, fr :: frames =>
    (∃ g ∈ P.getTarget fr.call, (P.getBlock g).isSome ∧ P.getControlFlowScope n = some g) ∧
      Nested fr.call frames

/-- No call that raises or restores, or is annotated to raise, is made in the body of the call, in
any depth. -/
def Still (fc : Node) : Prop :=
  ∀ m, TransGen (BodyCall P) fc m → ¬ KeRaiseIrqlCall P m ∧ ¬ RestoringCall P m ∧
    ¬ P.CallTo IrqlRaisesAnnotatedFunction m

/-- The IRQL is the one before each call on the stack that does not change it. -/
def KeepsStill (c : Config Node) : Prop := ∀ fr ∈ c.frames, Still P fr.call → c.irql = fr.irql

variable {P} {n m : Node} {frames : List (Frame Node)}

lemma Nested.congr (h : Nested P n frames)
    (hscope : P.getControlFlowScope m = P.getControlFlowScope n) : Nested P m frames := by
  cases frames with
  | nil => exact h
  | cons fr frames =>
    obtain ⟨⟨g, hg, hblock, hn⟩, hframes⟩ := h
    exact ⟨⟨g, hg, hblock, hscope.trans hn⟩, hframes⟩

lemma Nested.edge (h : Nested P n frames) (hedge : P.Edge n m) : Nested P m frames :=
  h.congr (P.successor_scope n m hedge)

lemma Nested.body (h : Nested P n frames) (hn : FunctionCall P n) {fr : Frame Node}
    (hfr : fr ∈ frames) : TransGen (BodyCall P) fr.call n := by
  induction frames generalizing n with
  | nil => exact absurd hfr List.not_mem_nil
  | cons fr' frames ih =>
    obtain ⟨⟨g, hg, -, hscope⟩, hframes⟩ := h
    have hbody : BodyCall P fr'.call n := ⟨g, hg, hn, hscope⟩
    rcases List.mem_cons.mp hfr with rfl | hfr
    · exact .single hbody
    · have hcall : FunctionCall P fr'.call := Option.isSome_iff_exists.mpr ⟨g, hg⟩
      exact (ih hframes hcall hfr).tail hbody

end Nesting

/-! ### Runs -/

section Runs

variable {P : Program Fn Node} {W : World P} {c c' : Config Node}

lemma Nested.step (h : Nested P c.node c.frames) (hstep : Step W c c') :
    Nested P c'.node c'.frames := by
  cases hstep with
  | raise hedge | restore hedge | unsaved hedge | external hedge | pass hedge => exact h.edge hedge
  | @enter m g b hedge _ _ hg hb =>
    have hblock : (P.getBlock g).isSome := Option.isSome_iff_exists.mpr ⟨b, hb⟩
    exact ⟨⟨g, hg, hblock, P.block_scope g b hb⟩, h.edge hedge⟩
  | leave hfr =>
    rw [hfr] at h
    exact h.2

lemma nested_of_reachable (h : Reachable W c) : Nested P c.node c.frames := by
  obtain ⟨s, ⟨hframes, -⟩, hrun⟩ := h
  induction hrun with
  | refl =>
    rw [hframes]
    trivial
  | tail _ hstep ih => exact ih.step hstep

/-- A step changes the IRQL only at calls that raise or restore. -/
lemma KeepsStill.step (hends : ExternalsEnd W) (h : KeepsStill P c)
    (hnested : Nested P c.node c.frames) (hstep : Step W c c') : KeepsStill P c' := by
  -- a call that changes the IRQL is in the body of every call on the stack, so none of these is
  -- still
  cases hstep with
  | @raise m v hedge hraise =>
    intro fr hfr hstill
    have hcall : FunctionCall P m := .of_name P hraise
    exact absurd hraise (hstill m ((hnested.edge hedge).body hcall hfr)).1
  | @restore m s hedge _ hrest =>
    intro fr hfr hstill
    exact absurd hrest (hstill m ((hnested.edge hedge).body hrest.functionCall hfr)).2.1
  | @unsaved m v hedge _ hrest =>
    intro fr hfr hstill
    exact absurd hrest (hstill m ((hnested.edge hedge).body hrest.functionCall hfr)).2.1
  | enter hedge =>
    intro fr hfr hstill
    rcases List.mem_cons.mp hfr with rfl | hfr
    · rfl
    · exact h fr hfr hstill
  | @external m g v hedge hraise hrest hg hbody hv =>
    intro fr hfr hstill
    have hcall : FunctionCall P m := Option.isSome_iff_exists.mpr ⟨g, hg⟩
    have hraises := (hstill m ((hnested.edge hedge).body hcall hfr)).2.2
    have hend := hends m g ⟨hg, hbody, hraise, hrest⟩ c.irql v hv
    rw [EndsAt, if_neg fun hannotated => hraises ⟨g, hg, hannotated⟩] at hend
    exact hend.trans (h fr hfr hstill)
  | pass => exact h
  | leave hfr =>
    intro fr' hfr' hstill
    exact h fr' (hfr ▸ List.mem_cons_of_mem _ hfr') hstill

lemma keepsStill_of_reachable (hends : ExternalsEnd W) (h : Reachable W c) : KeepsStill P c := by
  obtain ⟨s, hs, hrun⟩ := h
  induction hrun with
  | refl =>
    intro fr hfr
    rw [hs.1] at hfr
    exact absurd hfr List.not_mem_nil
  | tail hrun hstep ih => exact ih.step hends (nested_of_reachable ⟨s, hs, hrun⟩) hstep

lemma still_of_not_changing {fc : Node} (hchanging : ¬ isIrqlChangingCall P fc)
    (hrestore : ¬ ∃ m, ReflTransGen (BodyCall P) fc m ∧ IrqlRestoreCall P m) : Still P fc := by
  intro m hm
  have hlisted : ¬ ListedCall P m := fun hl =>
    hchanging (isIrqlChangingCall_iff_chain.mpr ⟨m, hm.to_reflTransGen, hl⟩)
  have hparameter : ¬ IrqlRestoreCall P m := fun hr => hrestore ⟨m, hm.to_reflTransGen, hr⟩
  refine ⟨fun h => hlisted (.inl h), ?_, fun ⟨g, hg, hr⟩ => ?_⟩
  · rintro (h | h | h)
    · exact hlisted (.inr (.inl h))
    · exact hlisted (.inr (.inr (.inl h)))
    · exact hparameter h
  · exact hlisted (.inr (.inr (.inr (.inr ⟨g, hg, .inl hr⟩))))

/-- **While a call is on the stack that is not IRQL-changing and makes no call that restores from a
parameter, the IRQL of every run is the one before the call**, if functions without a body keep the
IRQL unless they are annotated to raise it. -/
theorem irql_of_not_changing (hends : ExternalsEnd W) (hc : Reachable W c) {fr : Frame Node}
    (hfr : fr ∈ c.frames) (hchanging : ¬ isIrqlChangingCall P fr.call)
    (hrestore : ¬ ∃ m, ReflTransGen (BodyCall P) fr.call m ∧ IrqlRestoreCall P m) :
    c.irql = fr.irql :=
  keepsStill_of_reachable hends hc fr hfr (still_of_not_changing hchanging hrestore)

end Runs

/-! ### Functions that are not reported -/

section Unreported

variable [DecidableEq Fn] [DecidableEq Node] [Fintype Node] {P : Program Fn Node}
variable {W : World P} {c : Config Node}

/-- In a program that restores by lowering only, a function without IRQL-changing calls is called
at the IRQL at which it ends. -/
lemma still_of_body (honly : OnlyLowers P) {fc : Node} {f : Fn} (hf : P.getTarget fc = some f)
    (h : ¬ ∃ inner, FunctionCall P inner ∧ getEnclosingFunction P inner = some f ∧
      isIrqlChangingCall P inner) : Still P fc := by
  intro m hm
  obtain ⟨inner, ⟨g, hg, hcall, hscope⟩, hinner⟩ := TransGen.head'_iff.mp hm
  rw [hf, Option.mem_some_iff] at hg
  subst hg
  have hlisted : ¬ ListedCall P m := fun hl =>
    h ⟨inner, hcall, hscope, isIrqlChangingCall_iff_chain.mpr ⟨m, hinner, hl⟩⟩
  have hraise : ¬ KeRaiseIrqlCall P m := fun hr => hlisted (.inl hr)
  refine ⟨hraise, fun hrest => ?_, fun ⟨g, hg, hr⟩ => ?_⟩
  · exact hlisted (.inr (.inl (lower_of_restoring honly hraise hrest)))
  · exact hlisted (.inr (.inr (.inr (.inr ⟨g, hg, .inl hr⟩))))

/-- The levels estimated at the ends of the functions that are annotated to raise and have a body
are those of their annotations. -/
def RaisesChecked (P : Program Fn Node) : Prop :=
  ∀ f, (P.getBlock f).isSome → IrqlRaisesAnnotatedFunction (P.function f) →
    ∀ v, getPotentialExitIrqlAtCfnInternal P (P.exitNode f) v →
      v ∈ annotatedLevels IrqlRaisesAnnotation P.macros (P.function f)

/-- The query about functions that require the same IRQL selects none. -/
def SameUnreported (P : Program Fn Node) : Prop :=
  ∀ f, ¬ ∃ i j, IrqlInconsistentWithRequired P f i j

lemma levels_of_return (hentry : EntryNodes P) (hsound : Sound P c)
    (hnested : Nested P c.node c.frames) {fr : Frame Node} {frames : List (Frame Node)}
    (hfr : c.frames = fr :: frames) {f : Fn} (hf : f ∈ P.getTarget fr.call)
    (hexit : P.getAnExitPointOfFunction f c.node) :
    (∃ b ∈ P.getBlock f, getPotentialExitIrqlAtCfnInternal P b fr.irql) ∧
      getPotentialExitIrqlAtCfnInternal P (P.exitNode f) c.irql ∧ (P.getBlock f).isSome := by
  rw [hfr] at hnested
  obtain ⟨⟨g, hg, hblock, -⟩, -⟩ := hnested
  obtain rfl := Option.mem_unique hf hg
  obtain ⟨b, hb⟩ := Option.isSome_iff_exists.mp hblock
  obtain ⟨⟨p, hp, hlevel⟩, -⟩ := hsound.frames fr (hfr ▸ List.mem_cons_self)
  have hnode := hsound.node
  rw [(P.getAnExitPointOfFunction_iff f c.node).mp hexit] at hnode
  exact ⟨⟨b, hb, estimated_of_enter hentry hb hp hf hlevel⟩, hnode, hblock⟩

lemma irql_of_not_levelsDiffer {f : Fn} {i j : ℤ} (h : ¬ ∃ i j, LevelsDiffer P f i j)
    (hentry : ∃ b ∈ P.getBlock f, getPotentialExitIrqlAtCfnInternal P b i)
    (hexit : getPotentialExitIrqlAtCfnInternal P (P.exitNode f) j) : j = i := by
  by_contra hne
  exact h ⟨i, j, (levelsDiffer_iff P f).mpr ⟨hentry, hexit, Ne.symm hne⟩⟩

lemma keepsAnnotations_of_unreported (hentry : EntryNodes P) (honly : OnlyLowers P)
    (hraises : RaisesChecked P) (hsame : SameUnreported P) (hsound : Sound P c)
    (hnested : Nested P c.node c.frames) (hstill : KeepsStill P c) : KeepsAnnotations P c := by
  intro fr hfr f hf hexit
  obtain ⟨frames, hframes⟩ := List.head?_eq_some_iff.mp hfr
  obtain ⟨hblock, hend, hsome⟩ := levels_of_return hentry hsound hnested hframes hf hexit
  refine ⟨fun hannotated => hraises f hsome hannotated _ hend, fun hannotated => ?_⟩
  by_cases hbody : ∃ inner, FunctionCall P inner ∧ getEnclosingFunction P inner = some f ∧
      isIrqlChangingCall P inner
  · refine irql_of_not_levelsDiffer (fun ⟨i, j, hdiffer⟩ => ?_) hblock hend
    exact hsame f ⟨i, j, ⟨hannotated, hbody⟩, hdiffer⟩
  · exact hstill fr (hframes ▸ List.mem_cons_self) (still_of_body honly hf hbody)

lemma sound_of_unreported (h : Estimable W) (hsaved : SavedOnly W) (hraises : RaisesChecked P)
    (hsame : SameUnreported P) (hc : Reachable W c) : Sound P c := by
  obtain ⟨s, hs, hrun⟩ := hc
  -- the annotations are kept because the run has been sound so far
  induction hrun with
  | refl => exact sound_of_start h.entry hs
  | @tail c c' hrun hstep ih =>
    have hreach : Reachable W c := ⟨s, hs, hrun⟩
    have hkeeps := keepsAnnotations_of_unreported h.entry h.onlyLowers hraises hsame ih
      (nested_of_reachable hreach) (keepsStill_of_reachable h.externals.level hreach)
    exact h.sound_step hkeeps ih hstep (hsaved.not_unsaved hstep)

/-- **If no function is reported as inconsistent with the IRQL it requires, and those annotated to
raise are estimated to end at the levels of their annotations, then no run breaks an annotation
and every run is at an estimated IRQL.** -/
theorem truthful_of_unreported (h : Estimable W) (hsaved : SavedOnly W)
    (hraises : RaisesChecked P) (hsame : SameUnreported P) :
    Truthful W ∧ ∀ c, Reachable W c → getPotentialExitIrqlAtCfn P c.node c.irql := by
  refine ⟨fun c hc => ?_, fun c hc => ?_⟩
  · exact keepsAnnotations_of_unreported h.entry h.onlyLowers hraises hsame
      (sound_of_unreported h hsaved hraises hsame hc) (nested_of_reachable hc)
      (keepsStill_of_reachable h.externals.level hc)
  · exact Or.inl (sound_of_unreported h hsaved hraises hsame hc).node

/-- **In such a program every activation of a function that calls an IRQL-changing one, without
being annotated itself or reported, ends at the IRQL it was entered at.** -/
theorem balanced_of_unreported (h : Estimable W) (hsaved : SavedOnly W)
    (hraises : RaisesChecked P) (hsame : SameUnreported P) (hc : Reachable W c) {f : Fn}
    (hcalls : CallsChangingFunction P f) (hquiet : ¬ ∃ i j, IrqlFunctionNotAnnotated P f i j)
    {fr : Frame Node} (hfr : fr ∈ c.frames.head?) (hf : f ∈ P.getTarget fr.call)
    (hexit : P.getAnExitPointOfFunction f c.node) : c.irql = fr.irql := by
  obtain ⟨frames, hframes⟩ := List.head?_eq_some_iff.mp hfr
  have hsound := sound_of_unreported h hsaved hraises hsame hc
  obtain ⟨hblock, hend, -⟩ :=
    levels_of_return h.entry hsound (nested_of_reachable hc) hframes hf hexit
  refine irql_of_not_levelsDiffer (fun ⟨i, j, hdiffer⟩ => ?_) hblock hend
  exact hquiet ⟨i, j, hcalls, hdiffer⟩

end Unreported

/-! ### An example -/

inductive WorkRoutine
  | routine | work | helper | raise | lower
  deriving DecidableEq

instance : Fintype WorkRoutine :=
  ⟨{.routine, .work, .helper, .raise, .lower}, fun f => by cases f <;> decide⟩

instance neZero_thirteen : @NeZero ℕ Zero.ofOfNat0 13 := ⟨Nat.succ_ne_zero 12⟩

/-- `void routine() { work(); }`, `_IRQL_requires_same_ void work() { KIRQL old =
KeRaiseIrqlToDPCLevel(); helper(); KeLowerIrql(old); }` and `void helper() {}`. The calls are the
nodes 1, 4, 5 and 7. -/
def workAndHelper : Program WorkRoutine (Fin 13) where
  macros := wdm
  function f :=
    match f with
    | .routine => { getName := "routine" }
    | .work => { getName := "work", declAnnotations := [sameIrql] }
    | .helper => { getName := "helper" }
    | .raise =>
      { getName := "KeRaiseIrqlToDPCLevel", declAnnotations :=
        [{ getMacroName := "_IRQL_raises_", getUnexpandedArgument := ["DISPATCH_LEVEL"] }] }
    | .lower => { getName := "KeLowerIrql" }
  getBlock f :=
    match f with
    | .routine => some 0
    | .work => some 3
    | .helper => some 9
    | .raise | .lower => none
  exitNode f :=
    match f with
    | .routine => 2
    | .work => 8
    | .helper => 10
    | .raise => 11
    | .lower => 12
  getASuccessor n := if n = 2 ∨ n = 8 ∨ 10 ≤ n then [] else [n + 1]
  getControlFlowScope n :=
    some (if n < 3 then .routine else if n < 9 then .work else if n < 11 then .helper
      else if n = 11 then .raise else .lower)
  getTarget n :=
    if n = 1 then some .work else if n = 4 then some .raise else if n = 5 then some .helper
    else if n = 7 then some .lower else none
  getArgument n := if n = 7 then [6] else []
  flow n arg := n = 4 ∧ arg = 6
  successor_scope := by decide
  exit_scope := by decide
  exit_enclosing := by decide
  block_scope := by decide
  block_enclosing := by decide

/-- The lowering call is given what the raising one saved. -/
def workWorld : World workAndHelper where
  receives n s := n = 7 ∧ s = 4
  literal _ _ h := by simp [workAndHelper] at h

def atHelperEnd : Config (Fin 13) := ⟨10, 2, [⟨5, 2⟩, ⟨1, 0⟩], [(4, 0)]⟩

def atWorkEnd : Config (Fin 13) := ⟨8, 0, [⟨1, 0⟩], [(4, 0)]⟩

lemma reachable_helperEnd : Reachable workWorld atHelperEnd := by
  refine ⟨⟨0, 0, [], []⟩, ⟨rfl, rfl, .routine, by decide⟩, ?_⟩
  exact .head (b := ⟨3, 0, [⟨1, 0⟩], []⟩) (by decide) <|
    .head (b := ⟨4, 2, [⟨1, 0⟩], [(4, 0)]⟩) (by decide) <|
    .head (b := ⟨9, 2, [⟨5, 2⟩, ⟨1, 0⟩], [(4, 0)]⟩) (by decide) <| .single (by decide)

lemma reachable_workEnd : Reachable workWorld atWorkEnd := by
  obtain ⟨s, hs, hrun⟩ := reachable_helperEnd
  refine ⟨s, hs, hrun.trans ?_⟩
  exact .head (b := ⟨5, 2, [⟨1, 0⟩], [(4, 0)]⟩) (by decide) <|
    .head (b := ⟨6, 2, [⟨1, 0⟩], [(4, 0)]⟩) (by decide) <|
    .head (b := ⟨7, 0, [⟨1, 0⟩], [(4, 0)]⟩) (by decide) <| .single (by decide)

lemma work_zero {n : Fin 13} (hn : n = 3 ∨ n = 8) {v : ℤ}
    (h : getPotentialExitIrqlAtCfnInternal workAndHelper n v) : v = 0 := by
  have honly : ∀ n, n = 3 ∨ n = 8 → ∀ m, ReflTransGen (copiesFrom workAndHelper) n m →
      HasOwnLevel workAndHelper m → m = 0 := by decide +kernel
  obtain ⟨m, hm, hv⟩ := derives_iff_reach.mp h
  obtain rfl := honly n hn m hm (exists_levelSource_iff.mp ⟨v, hv⟩)
  unfold levelSource at hv
  rwa [show branch workAndHelper 0 = .zero by decide] at hv

lemma work_not_levelsDiffer {i j : ℤ} : ¬ LevelsDiffer workAndHelper .work i j := by
  intro hdiffer
  obtain ⟨⟨b, hb, hentry⟩, hexit, hne⟩ := (levelsDiffer_iff workAndHelper .work).mp hdiffer
  obtain rfl : b = 3 := (Option.mem_some_iff.mp hb).symm
  exact hne ((work_zero (.inl rfl) hentry).trans (work_zero (.inr rfl) hexit).symm)

lemma work_sameUnreported : SameUnreported workAndHelper := by
  have hsame : ∀ f, RequiresSameAndChanges workAndHelper f → f = .work := by decide
  rintro f ⟨i, j, hrequires, hdiffer⟩
  obtain rfl := hsame f hrequires
  exact work_not_levelsDiffer hdiffer

lemma work_raisesChecked : RaisesChecked workAndHelper := by
  have hbody : ∀ f, (workAndHelper.getBlock f).isSome →
      ¬ IrqlRaisesAnnotatedFunction (workAndHelper.function f) := by decide
  exact fun f hblock hraises => absurd hraises (hbody f hblock)

lemma work_estimable : Estimable workWorld where
  entry := by unfold EntryNodes; decide
  onlyLowers := by unfold OnlyLowers; decide
  literal := by unfold LiteralRaises; decide
  flow := by decide
  externals := externals_of_none (by decide)

lemma work_savedOnly : SavedOnly workWorld := by unfold SavedOnly; decide

theorem irql_of_not_changing_helper :
    ¬ isIrqlChangingCall workAndHelper 5 ∧ atHelperEnd.irql = (⟨5, 2⟩ : Frame (Fin 13)).irql := by
  have hchanging : ¬ isIrqlChangingCall workAndHelper 5 := by decide
  have hframe : (⟨5, 2⟩ : Frame (Fin 13)) ∈ atHelperEnd.frames := List.mem_cons_self
  exact ⟨hchanging, irql_of_not_changing work_estimable.externals.level reachable_helperEnd hframe
    hchanging (by decide)⟩

theorem truthful_of_unreported_work : getPotentialExitIrqlAtCfn workAndHelper 8 0 :=
  (truthful_of_unreported work_estimable work_savedOnly work_raisesChecked
    work_sameUnreported).2 atWorkEnd reachable_workEnd

theorem balanced_of_unreported_work : atWorkEnd.irql = (⟨1, 0⟩ : Frame (Fin 13)).irql := by
  have hcalls : CallsChangingFunction workAndHelper .work := by decide
  have hquiet : ¬ ∃ i j, IrqlFunctionNotAnnotated workAndHelper .work i j :=
    fun ⟨_, _, _, hdiffer⟩ => work_not_levelsDiffer hdiffer
  have hframe : atWorkEnd.frames.head? = some ⟨1, 0⟩ := rfl
  exact balanced_of_unreported work_estimable work_savedOnly work_raisesChecked
    work_sameUnreported reachable_workEnd hcalls hquiet hframe rfl (by decide)

end DriverQueries.Activations
