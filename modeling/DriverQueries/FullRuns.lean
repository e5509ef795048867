import DriverQueries.Histories
import DriverQueries.Runs
import DriverQueries.Saves

/-!
Runs through every branch of the cascade.

Here a run also comes back from functions that the database has no body of, and a call that
restores takes the IRQL of the most recent save of its activation that matches it. The estimate
keeps a save only if no other one can be reached from it. Where the saves that reach a restore lead
to no other save that drops them, it contains every run.
-/

namespace DriverQueries.FullRuns

open Relation DriverQueries.Text DriverQueries.Sal DriverQueries.Database DriverQueries.Calls
open DriverQueries.Paths DriverQueries.CopyRules DriverQueries.EntryLevels DriverQueries.Cascade
open DriverQueries.Runs DriverQueries.Histories

/-! ### Steps -/

/-- A run with the saves of its activations, the latest first: `locals` are those of the activation
on top, and `outer` those of the calls on the stack. -/
structure LocalConfig (Node : Type) extends Config Node where
  locals : List (Node × ℤ)
  outer : List (List (Node × ℤ))
  deriving DecidableEq

variable {Fn Node : Type} [DecidableEq Fn] [DecidableEq Node] (P : Program Fn Node)

/-- The saves of the activation after control has come to `m`. -/
def localsAt (c : LocalConfig Node) (m : Node) : List (Node × ℤ) :=
  if SavingCall P m then (m, c.irql) :: c.locals else c.locals

/-- A call that restores, other than by lowering, restores the IRQL of the latest save of the
activation that matches it. -/
structure TakesLatest (c : LocalConfig Node) (m : Node) (i : ℤ) : Prop where
  global : ¬ KeRaiseIrqlCall P m → ¬ KeLowerIrqlCall P m → RestoresGlobalIrqlCall P m →
    ∃ s ∈ latest (RestoresGlobalIrqlCall.MatchingSave P m) c.locals, s.2 = i
  parameter : ¬ KeRaiseIrqlCall P m → ¬ KeLowerIrqlCall P m → ¬ RestoresGlobalIrqlCall P m →
    IrqlRestoreCall P m → ∃ s ∈ latest (IrqlRestoreCall.MatchingSave P m) c.locals, s.2 = i

variable {P} (W : World P)

/-- A step of `Runs` within an activation, into one or out of one. -/
inductive LocalStep (c : LocalConfig Node) : LocalConfig Node → Prop
  | stay {c' : Config Node} (hstep : Step W c.toConfig c') (hframes : c'.frames = c.frames)
      (hlatest : TakesLatest P c c'.node c'.irql) :
      LocalStep c ⟨c', localsAt P c c'.node, c.outer⟩
  | enter {c' : Config Node} {fr} (hstep : Step W c.toConfig c')
      (hframes : c'.frames = fr :: c.frames) :
      LocalStep c ⟨c', [], localsAt P c fr.call :: c.outer⟩
  | leave {c' : Config Node} {fr locals outer} (hstep : Step W c.toConfig c')
      (hframes : c.frames = fr :: c'.frames) (houter : c.outer = locals :: outer) :
      LocalStep c ⟨c', locals, outer⟩

def LocalStart (P : Program Fn Node) (c : LocalConfig Node) : Prop :=
  Start P c.toConfig ∧ c.locals = [] ∧ c.outer = []

def LocalReachable (c : LocalConfig Node) : Prop :=
  ∃ s, LocalStart P s ∧ ReflTransGen (LocalStep W) s c

/-! ### What the estimate needs -/

variable [Fintype Node]

variable (P) in
/-- A save that reaches a restore leads to no other one that drops it. -/
structure SavesApart : Prop where
  global : ∀ m, RestoresGlobalIrqlCall P m → ∀ s d,
    ReachingDef P.Edge (RestoresGlobalIrqlCall.MatchingSave P m) s m →
      RestoresGlobalIrqlCall.MatchingSave P m d → ReflTransGen P.Edge s d → d = s
  parameter : ∀ m, IrqlRestoreCall P m → ∀ s d,
    ReachingDef P.Edge (IrqlRestoreCall.MatchingSave P m) s m →
      IrqlRestoreCall.MatchingGlobalSave P m d → ReflTransGen P.Edge s d → d = s

/-- The programs of `Estimable`, with restoring calls of every kind, where a lowering call is given
what a raise has saved. -/
structure FullyEstimable : Prop where
  entry : EntryNodes P
  literal : LiteralRaises P
  flow : ∀ n r, KeLowerIrqlCall P n → W.receives n r → getMostRecentRaiseInterprocedural P n r
  lowered : ∀ n, KeLowerIrqlCall P n → unsavedLevels W n = []
  externals : Externals W
  apart : SavesApart P

/-- The annotations tell the truth about every return of every run. -/
def LocalTruthful : Prop := ∀ c, LocalReachable W c → KeepsAnnotations P c.toConfig

variable (P) in
/-- The saves of an activation at a node: each is estimated right before its call, and they are
those of a path. -/
structure Trail (locals : List (Node × ℤ)) (n : Node) : Prop where
  estimated : ∀ s ∈ locals, EstimatedBefore P s.1 s.2
  records : Records P.Edge (SavingCall P) locals n

variable (P) in
/-- What holds along every run: besides what holds of the runs that only lower, the saves of each
activation are those of a path through its function. -/
structure LocalSound (c : LocalConfig Node) : Prop where
  sound : Sound P c.toConfig
  locals : Trail P c.locals c.node
  outer : List.Forall₂ (fun l (fr : Frame Node) => Trail P l fr.call) c.outer c.frames

variable {W} {c c' : LocalConfig Node} {n m : Node}

lemma LocalSound.trail_at (h : LocalSound P c) (hedge : P.Edge c.node m) :
    Trail P (localsAt P c m) m := by
  unfold localsAt
  split_ifs with hsave
  · refine ⟨fun s hs => ?_, h.locals.records.define hedge c.irql⟩
    rcases List.mem_cons.mp hs with rfl | hs
    · exact ⟨c.node, hedge, h.sound.node⟩
    · exact h.locals.estimated s hs
  · exact ⟨h.locals.estimated, h.locals.records.pass hedge hsave⟩

/-! ### The branches -/

/-- A global restore takes the level before a save that the estimate keeps. -/
lemma estimated_of_restoreGlobal (hapart : SavesApart P) (hsound : LocalSound P c)
    (hedge : P.Edge c.node m) (hraise : ¬ KeRaiseIrqlCall P m) (hlower : ¬ KeLowerIrqlCall P m)
    (hrestores : RestoresGlobalIrqlCall P m) {s : Node × ℤ}
    (hs : s ∈ latest (RestoresGlobalIrqlCall.MatchingSave P m) c.locals) :
    getPotentialExitIrqlAtCfnInternal P m s.2 := by
  have hreach := hsound.locals.records.reachingDef (fun _ hk => Or.inr (Or.inl hk.1)) hs hedge
  have hrecent : RestoresGlobalIrqlCall.getMostRecentRaise P m s.1 :=
    ⟨hreach.1, hreach.reach, fun ⟨d, hne, hsd, hd⟩ =>
      hne (hapart.global m hrestores s.1 d hreach hd hsd)⟩
  obtain ⟨p, hp, hi⟩ := hsound.locals.estimated s (mem_of_latest hs)
  have hbranch : branch P m = .restoresGlobal := by
    rw [branch, if_neg hraise, if_neg hlower, if_pos hrestores]
  refine .copy (m := p) ?_ hi
  unfold copiesFrom
  rw [hbranch]
  exact ⟨s.1, hrecent, hp⟩

lemma estimated_of_restore (hapart : SavesApart P) (hsound : LocalSound P c)
    (hedge : P.Edge c.node m) (hraise : ¬ KeRaiseIrqlCall P m) (hlower : ¬ KeLowerIrqlCall P m)
    (hglobal : ¬ RestoresGlobalIrqlCall P m) (hrestores : IrqlRestoreCall P m) {s : Node × ℤ}
    (hs : s ∈ latest (IrqlRestoreCall.MatchingSave P m) c.locals) :
    getPotentialExitIrqlAtCfnInternal P m s.2 := by
  have hreach := hsound.locals.records.reachingDef (fun _ hk => Or.inr (Or.inr hk.1)) hs hedge
  have hrecent : IrqlRestoreCall.getMostRecentRaise P m s.1 :=
    ⟨hreach.1, hreach.reach, fun ⟨d, hne, hsd, hd⟩ =>
      hne (hapart.parameter m hrestores s.1 d hreach hd hsd)⟩
  obtain ⟨p, hp, hi⟩ := hsound.locals.estimated s (mem_of_latest hs)
  have hbranch : branch P m = .irqlRestore := by
    rw [branch, if_neg hraise, if_neg hlower, if_neg hglobal, if_pos hrestores]
  refine .copy (m := p) ?_ hi
  unfold copiesFrom
  rw [hbranch]
  exact ⟨s.1, hrecent, hp⟩

/-! ### The estimate contains every run -/

omit [DecidableEq Node] [DecidableEq Fn] [Fintype Node] in
lemma edge_of_stay {c c' : Config Node} (h : Step W c c') (hframes : c'.frames = c.frames) :
    P.Edge c.node c'.node := by
  cases h with
  | raise hedge | restore hedge | unsaved hedge | external hedge | pass hedge => exact hedge
  | enter => exact absurd hframes (List.cons_ne_self _ _)
  | leave hfr => exact absurd (hfr.symm.trans hframes.symm) (List.cons_ne_self _ _)

omit [DecidableEq Node] [DecidableEq Fn] [Fintype Node] in
lemma edge_of_enter {c c' : Config Node} {fr : Frame Node} (h : Step W c c')
    (hframes : c'.frames = fr :: c.frames) : P.Edge c.node fr.call := by
  cases h with
  | raise | restore | unsaved | external | pass => exact absurd hframes.symm (List.cons_ne_self _ _)
  | enter hedge =>
    obtain ⟨rfl, -⟩ := List.cons.inj hframes
    exact hedge
  | leave hfr =>
    rw [hfr] at hframes
    exact absurd (congrArg List.length hframes) (by simp; omega)

omit [DecidableEq Node] [DecidableEq Fn] [Fintype Node] in
lemma node_of_leave {c c' : Config Node} {fr : Frame Node} (h : Step W c c')
    (hframes : c.frames = fr :: c'.frames) : c'.node = fr.call := by
  cases h with
  | raise | restore | unsaved | external | pass => exact absurd hframes.symm (List.cons_ne_self _ _)
  | enter => exact absurd (congrArg List.length hframes) (by simp; omega)
  | leave hfr =>
    obtain ⟨rfl, -⟩ := List.cons.inj (hfr.symm.trans hframes)
    rfl

lemma localSound_of_start (hentry : EntryNodes P) (h : LocalStart P c) : LocalSound P c := by
  obtain ⟨hstart, hlocals, houter⟩ := h
  refine ⟨sound_of_start hentry hstart, ?_, ?_⟩
  · rw [hlocals]
    exact ⟨by simp, Records.nil⟩
  · rw [houter, hstart.1]
    exact .nil

lemma estimated_of_restored (h : FullyEstimable W) (hsound : LocalSound P c) {d : Config Node}
    (hstep : Step W c.toConfig d) (hlatest : TakesLatest P c d.node d.irql) {i : ℤ}
    (hedge : P.Edge c.node m) (hraise : ¬ KeRaiseIrqlCall P m) (hrest : RestoringCall P m)
    (heq : d = c.toConfig.complete P m i) : getPotentialExitIrqlAtCfnInternal P m i := by
  by_cases hlower : KeLowerIrqlCall P m
  · obtain ⟨s, hs, hreceives, rfl⟩ | hv := restored_cases hstep hraise hrest heq
    · exact estimated_of_lower h.flow hraise hlower (hsound.sound.saved s hs) hreceives
    · rw [h.lowered m hlower] at hv
      exact absurd hv List.not_mem_nil
  · subst heq
    by_cases hglobal : RestoresGlobalIrqlCall P m
    · obtain ⟨s, hs, rfl⟩ := hlatest.global hraise hlower hglobal
      exact estimated_of_restoreGlobal h.apart hsound hedge hraise hlower hglobal hs
    · have hrestores : IrqlRestoreCall P m := (hrest.resolve_left hlower).resolve_left hglobal
      obtain ⟨s, hs, rfl⟩ := hlatest.parameter hraise hlower hglobal hrestores
      exact estimated_of_restore h.apart hsound hedge hraise hlower hglobal hrestores hs

lemma localSound_step (h : FullyEstimable W) (hkeeps : KeepsAnnotations P c.toConfig)
    (hsound : LocalSound P c) (hstep : LocalStep W c c') : LocalSound P c' := by
  have hsound_step : ∀ {d : Config Node}, Step W c.toConfig d →
      (∀ m v, P.Edge c.node m → ¬ KeRaiseIrqlCall P m → RestoringCall P m →
        d = c.toConfig.complete P m v → getPotentialExitIrqlAtCfnInternal P m v) → Sound P d :=
    fun hd => sound_step h.entry h.literal h.externals hkeeps hsound.sound hd
  -- calls and returns restore nothing, and a return takes up the trail of the caller
  cases hstep with
  | @stay d hd hframes hlatest =>
    refine ⟨hsound_step hd fun m v hedge hraise hrest heq => ?_,
      hsound.trail_at (edge_of_stay hd hframes), ?_⟩
    · exact estimated_of_restored h hsound hd hlatest hedge hraise hrest heq
    · rw [hframes]
      exact hsound.outer
  | @enter d fr hd hframes =>
    refine ⟨hsound_step hd fun m v _ _ _ heq => ?_, ⟨by simp, Records.nil⟩, ?_⟩
    · obtain rfl : d = _ := heq
      exact absurd hframes.symm (List.cons_ne_self _ _)
    · rw [hframes]
      exact .cons (hsound.trail_at (edge_of_enter hd hframes)) hsound.outer
  | @leave d fr locals outer hd hframes houter =>
    have houter' := hsound.outer
    rw [hframes, houter] at houter'
    obtain ⟨htrail, hrest⟩ := List.forall₂_cons.mp houter'
    refine ⟨hsound_step hd fun m v _ _ _ heq => ?_, ?_, hrest⟩
    · obtain rfl : d = _ := heq
      exact absurd hframes.symm (List.cons_ne_self _ _)
    · change Trail P locals d.node
      rw [node_of_leave hd hframes]
      exact htrail

/-- **The estimate contains every run, through all branches of the cascade**: also those through
functions without a body and calls that restore what the activation has saved last, if no save that
reaches a restore leads to another one that drops it. -/
theorem full_run_sound (h : FullyEstimable W) (htruth : LocalTruthful W)
    (hc : LocalReachable W c) : getPotentialExitIrqlAtCfn P c.node c.irql := by
  have hsound : LocalSound P c := by
    obtain ⟨s, hs, hrun⟩ := hc
    induction hrun with
    | refl => exact localSound_of_start h.entry hs
    | tail hrun hstep ih => exact localSound_step h (htruth _ ⟨s, hs, hrun⟩) ih hstep
  exact Or.inl hsound.sound.node

omit [Fintype Node] in
/-- They are runs. -/
theorem reachable_of_localReachable (h : LocalReachable W c) : Reachable W c.toConfig := by
  obtain ⟨s, hs, hrun⟩ := h
  refine ⟨s.toConfig, hs.1, hrun.lift LocalConfig.toConfig fun c c' hstep => ?_⟩
  cases hstep with
  | stay hd | enter hd | leave hd => exact hd

/-- In a program that restores by lowering only they are all runs. -/
theorem localReachable_of_reachable (honly : OnlyLowers P) {c : Config Node}
    (h : Reachable W c) :
    ∃ locals outer, outer.length = c.frames.length ∧ LocalReachable W ⟨c, locals, outer⟩ := by
  obtain ⟨s, hs, hrun⟩ := h
  induction hrun with
  | refl => exact ⟨[], [], by simp [hs.1], ⟨s, [], []⟩, ⟨hs, rfl, rfl⟩, .refl⟩
  | @tail c c' hrun hstep ih =>
    obtain ⟨locals, outer, hlength, t, ht, hlocal⟩ := ih
    -- a program that only lowers has no calls that restore in another way
    have hlatest : ∀ m i, TakesLatest P ⟨c, locals, outer⟩ m i := by
      refine fun m i => ⟨fun hraise hlower hglobal => ?_, fun hraise hlower _ hrestore => ?_⟩
      · exact absurd (lower_of_restoring honly hraise (Or.inr (Or.inl hglobal))) hlower
      · exact absurd (lower_of_restoring honly hraise (Or.inr (Or.inr hrestore))) hlower
    have hstay : c'.frames = c.frames → ∃ locals outer, outer.length = c'.frames.length ∧
        LocalReachable W ⟨c', locals, outer⟩ := fun hframes =>
      ⟨_, outer, hframes ▸ hlength, t, ht, hlocal.tail (.stay hstep hframes (hlatest _ _))⟩
    cases id hstep with
    | raise | restore | unsaved | external | pass => exact hstay rfl
    | enter =>
      refine ⟨_, _, ?_, t, ht, hlocal.tail (.enter hstep rfl)⟩
      simp [hlength]
    | leave hfr =>
      rw [hfr, List.length_cons] at hlength
      obtain ⟨l, outer, rfl⟩ := List.exists_of_length_succ outer hlength
      exact ⟨_, _, Nat.succ_inj.mp hlength, t, ht, hlocal.tail (.leave hstep hfr rfl)⟩

/-! ### An example -/

local instance neZero_three : @NeZero ℕ Zero.ofOfNat0 3 := ⟨Nat.succ_ne_zero 2⟩

local instance neZero_eight : @NeZero ℕ Zero.ofOfNat0 8 := ⟨Nat.succ_ne_zero 7⟩

/-- A lock that raises the IRQL, and saves it to a global state. -/
def raisingLock : Saves.LockApi where
  acquire :=
    { getName := "AcquireLock", getParameter := [⟨"lock", []⟩],
      declAnnotations := [Saves.invocation "_IRQL_saves_global_" ["LockState", "lock"],
        { getMacroName := "_IRQL_raises_", getUnexpandedArgument := ["DISPATCH_LEVEL"] }] }
  release := Saves.globalLock.release

/-- `void routine() { acquire(lock); release(lock); }`. The calls are the nodes 2 and 4, each after
the node of its argument. -/
def lockOnce : Program (Fin 3) (Fin 8) where
  macros := wdm
  function f :=
    [{ getName := "routine" }, raisingLock.acquire, raisingLock.release].getD f { getName := "" }
  getBlock f := if f = 0 then some 0 else none
  exitNode f := [5, 6, 7].getD f 5
  getASuccessor n := if n < 5 then [n + 1] else []
  getControlFlowScope n := if n = 6 then some 1 else if n = 7 then some 2 else some 0
  getTarget n := if n = 2 then some 1 else if n = 4 then some 2 else none
  getArgument n := if n = 2 ∨ n = 4 then [n - 1] else []
  toString n := if n = 1 ∨ n = 3 then "lock" else ""
  successor_scope := by decide
  exit_scope := by decide
  exit_enclosing := by decide
  block_scope := by decide
  block_enclosing := by decide

/-- The call that acquires the lock ends at `DISPATCH_LEVEL`, and the one that releases it restores
what was saved. -/
def lockWorld : World lockOnce where
  receives n s := n = 4 ∧ s = 2
  effect n i := if n = 2 then [2] else [i]
  literal _ _ h := by simp [lockOnce] at h

lemma lockOnce_released : LocalReachable lockWorld ⟨⟨4, 0, [], [(2, 0)]⟩, [(2, 0)], []⟩ := by
  refine ⟨⟨⟨0, 0, [], []⟩, [], []⟩, ⟨⟨rfl, rfl, 0, by decide⟩, rfl, rfl⟩, ?_⟩
  have hlatest : ∀ (c : LocalConfig (Fin 8)) m i, ¬ RestoringCall lockOnce m →
      TakesLatest lockOnce c m i := fun c m i hm =>
    ⟨fun _ _ h => absurd (Or.inr (Or.inl h)) hm, fun _ _ _ h => absurd (Or.inr (Or.inr h)) hm⟩
  refine .head (b := ⟨⟨1, 0, [], []⟩, [], []⟩) ?_ <|
    .head (b := ⟨⟨2, 2, [], [(2, 0)]⟩, [(2, 0)], []⟩) ?_ <|
    .head (b := ⟨⟨3, 2, [], [(2, 0)]⟩, [(2, 0)], []⟩) ?_ <| .single ?_
  · exact .stay (by decide) rfl (hlatest _ _ _ (by decide))
  · exact .stay (by decide) rfl (hlatest _ _ _ (by decide))
  · exact .stay (by decide) rfl (hlatest _ _ _ (by decide))
  · refine .stay (by decide) rfl ⟨fun _ _ _ => ⟨(2, 0), by decide, rfl⟩, fun _ _ hglobal => ?_⟩
    exact absurd (by decide) hglobal

lemma lockOnce_truthful : LocalTruthful lockWorld := by
  have hbody : ∀ m g b, lockOnce.getTarget m = some g → lockOnce.getBlock g ≠ some b := by decide
  have hframes : ∀ c, Reachable lockWorld c → c.frames = [] := by
    rintro c ⟨s, hs, hrun⟩
    induction hrun with
    | refl => exact hs.1
    | tail _ hstep ih =>
      cases hstep with
      | enter _ _ _ hg hb => exact absurd hb (hbody _ _ _ hg)
      | leave hfr => exact absurd (ih.symm.trans hfr) (by simp)
      | _ => exact ih
  intro c hc fr hfr
  simp [hframes _ (reachable_of_localReachable hc)] at hfr

lemma lockOnce_estimable : FullyEstimable lockWorld where
  entry := by unfold EntryNodes; decide
  literal := by unfold LiteralRaises; decide
  flow := by decide
  lowered := by decide
  externals := by
    have hcall : ∀ m g, ExternalCall lockOnce m g → m = 2 ∧ g = 1 := by
      have hclass : ∀ m g, lockOnce.getTarget m = some g → ¬ RestoringCall lockOnce m →
          m = 2 ∧ g = 1 := by decide
      exact fun m g h => hclass m g h.target h.rest
    refine ⟨fun m g h i v hv => ?_, fun m g h => ?_⟩
    · obtain ⟨rfl, rfl⟩ := hcall m g h
      obtain rfl : v = 2 := List.mem_singleton.mp hv
      rw [EndsAt, if_pos (by decide)]
      decide
    · obtain ⟨-, rfl⟩ := hcall m g h
      decide
  apart := ⟨by decide, by decide⟩

theorem full_run_sound_lockOnce : getPotentialExitIrqlAtCfn lockOnce 4 0 :=
  full_run_sound lockOnce_estimable lockOnce_truthful lockOnce_released

end DriverQueries.FullRuns
