import DriverQueries.Activations

/-!
Programs whose estimated levels are exact.

The cascade does not tell calls of one function apart and takes every flow of a saved value for
possible. Where a function that is called at several places always ends at one IRQL, every such
flow belongs to a run, and no level comes from a node that is never run, each estimated level of a
node is the IRQL of some run there. So in such programs the estimate is what the runs do, no more
and no less.
-/

namespace DriverQueries.Precision

open Relation DriverQueries.Sal DriverQueries.Database DriverQueries.Calls DriverQueries.CopyRules
open DriverQueries.EntryLevels DriverQueries.Cascade DriverQueries.Runs DriverQueries.Activations

variable {Fn Node : Type} {P : Program Fn Node} {W : World P}

/-! ### How a run comes to a node -/

section Arrival

variable {c c' : Config Node} {n : Node}

def RunAt (W : World P) (n : Node) (v : ℤ) : Prop := ∃ c, Reachable W c ∧ c.node = n ∧ c.irql = v

def Live (W : World P) (n : Node) : Prop := ∃ c, Reachable W c ∧ c.node = n

lemma runAt_of_step (h : Reachable W c) (hstep : Step W c c') : RunAt W c'.node c'.irql :=
  ⟨c', h.tail hstep, rfl, rfl⟩

def Rooted (P : Program Fn Node) (f : Fn) : Node → List (Frame Node) → Prop
  | n, [] => P.getControlFlowScope n = some f
  | _, fr :: frames => Rooted P f fr.call frames

lemma Rooted.edge {m : Node} {f : Fn} {frames : List (Frame Node)} (h : Rooted P f n frames)
    (hedge : P.Edge n m) : Rooted P f m frames := by
  cases frames with
  | nil => exact (P.successor_scope n m hedge).trans h
  | cons fr frames => exact h

lemma Rooted.step {f : Fn} (h : Rooted P f c.node c.frames) (hstep : Step W c c') :
    Rooted P f c'.node c'.frames := by
  cases hstep with
  | raise hedge | restore hedge | unsaved hedge | external hedge | pass hedge => exact h.edge hedge
  | @enter m g b hedge =>
    change Rooted P f m c.frames
    exact h.edge hedge
  | leave hfr =>
    rw [hfr] at h
    exact h

lemma rooted_of_run {s : Config Node} {f : Fn} (hs : Start P s) (hf : s.node ∈ P.getBlock f)
    (hrun : ReflTransGen (Step W) s c) : Rooted P f c.node c.frames := by
  induction hrun with
  | refl =>
    rw [hs.1]
    exact P.block_scope f s.node hf
  | tail _ hstep ih => exact ih.step hstep

/-- A run comes to a node along an edge, or begins a program or a call there. -/
def Comes (W : World P) (n : Node) : Prop :=
  (∃ c, Reachable W c ∧ P.Edge c.node n) ∨ (∃ c, Start P c ∧ c.node = n) ∨
    ∃ c m f, Reachable W c ∧ P.Edge c.node m ∧ P.getTarget m = some f ∧ n ∈ P.getBlock f

/-- What holds along every run of the ways it came to its node and to the calls on its stack. -/
structure Path (W : World P) (c : Config Node) : Prop where
  node : Comes W c.node
  frames : ∀ fr ∈ c.frames, ∃ d, Reachable W d ∧ P.Edge d.node fr.call ∧ d.irql = fr.irql ∧
    ¬ KeRaiseIrqlCall P fr.call ∧ ¬ RestoringCall P fr.call

lemma path_of_start (h : Start P c) : Path W c := by
  refine ⟨.inr (.inl ⟨c, h, rfl⟩), fun fr hfr => ?_⟩
  rw [h.1] at hfr
  exact absurd hfr List.not_mem_nil

lemma path_of_step (hc : Reachable W c) (h : Path W c) (hstep : Step W c c') : Path W c' := by
  cases hstep with
  | raise hedge | restore hedge | unsaved hedge | external hedge | pass hedge =>
    exact ⟨.inl ⟨c, hc, hedge⟩, h.frames⟩
  | enter hedge hraise hrest hg hb =>
    refine ⟨.inr (.inr ⟨c, _, _, hc, hedge, hg, hb⟩), fun fr hfr => ?_⟩
    rcases List.mem_cons.mp hfr with rfl | hfr
    · exact ⟨c, hc, hedge, rfl, hraise, hrest⟩
    · exact h.frames fr hfr
  | leave hfr =>
    have hframes := h.frames
    rw [hfr] at hframes
    obtain ⟨d, hd, hedge, -⟩ := hframes _ List.mem_cons_self
    exact ⟨.inl ⟨d, hd, hedge⟩, fun fr' hfr' => hframes fr' (List.mem_cons_of_mem _ hfr')⟩

lemma path_of_reachable (h : Reachable W c) : Path W c := by
  obtain ⟨s, hs, hrun⟩ := h
  induction hrun with
  | refl => exact path_of_start hs
  | tail hrun hstep ih => exact path_of_step ⟨s, hs, hrun⟩ ih hstep

lemma Live.comes (h : Live W n) : Comes W n := by
  obtain ⟨c, hc, rfl⟩ := h
  exact (path_of_reachable hc).node

lemma Comes.begins (h : Comes W n) (hedge : ∀ m, ¬ P.Edge m n) :
    (∃ c, Start P c ∧ c.node = n) ∨ ∃ c m f, Reachable W c ∧ P.Edge c.node m ∧
      P.getTarget m = some f ∧ n ∈ P.getBlock f := by
  rcases h with ⟨c, -, hc⟩ | h
  · exact absurd hc (hedge c.node)
  · exact h

lemma exists_edge_of_call (hentry : EntryNodes P) (hlive : Live W n) (hcall : FunctionCall P n) :
    ∃ c, Reachable W c ∧ P.Edge c.node n := by
  have hblock : ∀ f, n ∉ P.getBlock f := by
    intro f hf
    simp [FunctionCall, (hentry f n hf).2] at hcall
  rcases hlive.comes with h | ⟨c, ⟨-, -, f, hf, -⟩, rfl⟩ | ⟨c, m, f, -, -, -, hf⟩
  · exact h
  · exact absurd hf (hblock f)
  · exact absurd hf (hblock f)

/-- A run that has completed a call, of no primitive, has come back from its function, or the
function has no body. -/
lemma completed_of_call (hentry : EntryNodes P) (hc : Reachable W c) {g : Fn}
    (hg : P.getTarget c.node = some g) (hraise : ¬ KeRaiseIrqlCall P c.node)
    (hrest : ¬ RestoringCall P c.node) :
    (∃ d i frames, Reachable W d ∧ d.frames = ⟨c.node, i⟩ :: frames ∧
      Returns P d ⟨c.node, i⟩ ∧ d.irql = c.irql) ∨
    (P.getBlock g = none ∧ ∃ d, Reachable W d ∧ c.irql ∈ W.effect c.node d.irql) := by
  obtain ⟨s, hs, hrun⟩ := hc
  rcases hrun.cases_tail with rfl | ⟨d, hd, hstep⟩
  · obtain ⟨-, -, f, hf, -⟩ := hs
    simp [(hentry f _ hf).2] at hg
  · have hreach : Reachable W d := ⟨s, hs, hd⟩
    cases hstep with
    | raise _ hraised => exact absurd hraised hraise
    | restore _ _ hrestored | unsaved _ _ hrestored => exact absurd hrestored hrest
    | @enter m f b _ _ _ _ hb =>
      simp [(hentry f b hb).2] at hg
    | @external m f v _ _ _ hf hbody hv =>
      obtain rfl : f = g := Option.some.inj (hf.symm.trans hg)
      exact .inr ⟨hbody, d, hreach, hv⟩
    | pass _ hcall => simp [FunctionCall, hg] at hcall
    | @leave fr frames hfr hret => exact .inl ⟨d, fr.irql, frames, hreach, hfr, hret, rfl⟩

end Arrival

section Conditions

variable [DecidableEq Fn] [DecidableEq Node] [Fintype Node]

/-- The programs in which every level belongs to a run. The annotations tell the truth, and each to
raise promises one level. No function with a body is a primitive, and one that is called at several
places ends at one IRQL in all runs. A run that comes to a raise can go on to every lowering call
that the saved value can come to, and one that calls a function which requires the same IRQL can go
on to the end of the call. -/
structure Realised (W : World P) : Prop where
  entry : EntryNodes P
  onlyLowers : OnlyLowers P
  ends : ExternalsEnd W
  truthful : Truthful W
  received : ∀ n r, KeLowerIrqlCall P n → getMostRecentRaiseInterprocedural P n r → W.receives n r
  oneLevel : ∀ g, ∀ v ∈ annotatedLevels IrqlRaisesAnnotation P.macros (P.function g),
    ∀ w ∈ annotatedLevels IrqlRaisesAnnotation P.macros (P.function g), v = w
  primitive : ∀ n g, P.getTarget n = some g → (P.getBlock g).isSome →
    ¬ KeRaiseIrqlCall P n ∧ ¬ RestoringCall P n
  sites : ∀ n n' g, P.getTarget n = some g → P.getTarget n' = some g → (P.getBlock g).isSome →
    n = n' ∨ ∀ v w, RunAt W (P.exitNode g) v → RunAt W (P.exitNode g) w → v = w
  lowered : ∀ n r, KeLowerIrqlCall P n → getMostRecentRaiseInterprocedural P n r →
    ∀ c, Reachable W c → P.Edge c.node r →
      ∃ d, Reachable W d ∧ (r, c.irql) ∈ d.saved ∧ P.Edge d.node n
  returned : ∀ n, P.CallTo IrqlRequiresSameAnnotatedFunction n → ∀ c, Reachable W c →
    P.Edge c.node n → RunAt W n c.irql

/-- The programs for which the estimate can be exact: it contains all runs besides. -/
structure Plain (W : World P) : Prop extends Estimable W, Realised W where
  savedOnly : SavedOnly W

end Conditions

/-! ### Every level is the IRQL of a run -/

section Exact

variable [DecidableEq Fn] [DecidableEq Node] [Fintype Node] {n m : Node} {v : ℤ}

lemma no_edge_of_branch (h : branch P n = .caller ∨ branch P n = .allowable ∨ branch P n = .zero)
    (m : Node) : ¬ P.Edge m n := by
  intro hedge
  obtain ⟨hcaller, hallow, hzero⟩ := branch_of_edge P hedge
  rcases h with h | h | h
  · exact hcaller h
  · exact hallow h
  · exact hzero h

lemma not_call_of_branch (h : branch P n = .predecessor ∨ branch P n = .caller ∨
    branch P n = .allowable ∨ branch P n = .zero) : ¬ FunctionCall P n := by
  intro hcall
  have hbranch : branch P n ∈ [Branch.keRaise, .keLower, .restoresGlobal, .irqlRestore, .raises,
      .requiresSame, .call] := by
    unfold branch
    simp only [if_pos hcall]
    split_ifs <;> simp
  rcases h with h | h | h | h <;> simp [h] at hbranch

lemma no_caller_of_branch (h : branch P n = .allowable ∨ branch P n = .zero) {f : Fn}
    (hf : f ∈ P.getControlFlowScope n) (m : Node) : ¬ callerPredecessor P f m := by
  intro hcaller
  have hcall : ¬ FunctionCall P n := not_call_of_branch (.inr (.inr h))
  have hpred : ¬ ∃ m, P.Edge m n := fun ⟨m, hm⟩ => no_edge_of_branch (.inr h) m hm
  have hbranch := branch_of_not_call P hcall
  rw [if_neg hpred, if_pos ⟨m, f, hf, hcaller⟩] at hbranch
  rcases h with h | h <;> simp [h] at hbranch

lemma runAt_of_entry (hlive : Live W n)
    (hbranch : branch P n = .allowable ∨ branch P n = .zero) (hv : levelSource P n v) :
    RunAt W n v := by
  have hedge := no_edge_of_branch (.inr hbranch)
  rcases hlive.comes.begins hedge with ⟨c, ⟨-, -, f, hf, hcalls, -⟩, rfl⟩ |
    ⟨c, m, f, -, hm, htarget, hn⟩
  · have hscope := P.block_scope f c.node hf
    have hlevel : v ∈ startLevels P f := ?_
    · exact ⟨⟨c.node, v, [], []⟩, ⟨⟨c.node, v, [], []⟩, ⟨rfl, rfl, f, hf, hcalls, hlevel⟩, .refl⟩,
        rfl, rfl⟩
    unfold levelSource at hv
    unfold startLevels
    rcases hbranch with hb | hb
    · rw [hb] at hv
      obtain ⟨g, hg, hv⟩ := hv
      obtain ⟨g', hg', hrestricts, -⟩ := hasAllowableLevel_of_branch P hb
      rw [hscope, Option.mem_some_iff] at hg hg'
      subst hg hg'
      rwa [if_pos ⟨hrestricts, List.ne_nil_of_mem hv⟩]
    · rw [hb] at hv
      -- the zero is taken only where the function has no entry level
      have hnone : ¬ HasAllowableLevel P c.node := by
        intro hallow
        have h := branch_of_not_call P (not_call_of_branch (.inr (.inr (.inr hb))))
        have hpred : ¬ ∃ m, P.Edge m c.node := fun ⟨m, hm⟩ => hedge m hm
        rw [if_neg hpred, if_neg, if_pos hallow, hb] at h
        · exact Branch.noConfusion h
        · rintro ⟨m, g, hg, hcaller⟩
          exact no_caller_of_branch (.inr hb) hg m hcaller
      rw [if_neg]
      · exact List.mem_singleton.mpr hv
      · rintro ⟨hrestricts, hne⟩
        obtain ⟨w, hw⟩ := List.exists_mem_of_ne_nil _ hne
        have hw0 := allowable_nonneg hw
        exact hnone ⟨f, hscope, hrestricts, w, hw, by omega⟩
  · exact absurd ⟨m, hm, htarget⟩ (no_caller_of_branch hbranch (P.block_scope f n hn) c.node)

/-- The nodes before the calls of a function lead into it. -/
lemma runAt_of_caller (h : Realised W) (hlive : Live W n) (hbranch : branch P n = .caller)
    (hm : copiesFrom P n m) (hv : RunAt W m v) : RunAt W n v := by
  have hedge := no_edge_of_branch (.inl hbranch)
  unfold copiesFrom at hm
  rw [hbranch] at hm
  obtain ⟨f, hscope, call, hcall, htarget⟩ := hm
  have hbody : n ∈ P.getBlock f := by
    rcases hlive.comes.begins hedge with ⟨c, ⟨-, -, g, hg, hcalls, -⟩, rfl⟩ |
      ⟨c, m', g, -, -, -, hg⟩
    · rw [P.block_scope g c.node hg, Option.mem_some_iff] at hscope
      exact absurd (hscope ▸ htarget) (hcalls call)
    · rw [P.block_scope g n hg, Option.mem_some_iff] at hscope
      exact hscope ▸ hg
  obtain ⟨c, hc, rfl, rfl⟩ := hv
  obtain ⟨hraise, hrest⟩ :=
    h.primitive call f htarget (Option.isSome_iff_exists.mpr ⟨n, hbody⟩)
  exact runAt_of_step hc (.enter hcall hraise hrest htarget hbody)

omit [DecidableEq Fn] [DecidableEq Node] [Fintype Node] in
/-- A run at the exit of a called function is in a call of it. -/
lemma exists_frame_of_exit {c : Config Node} (hc : Reachable W c) {g : Fn} {k : Node}
    (hk : P.getTarget k = some g) (hexit : P.getAnExitPointOfFunction g c.node) :
    ∃ fr frames, c.frames = fr :: frames ∧ P.getTarget fr.call = some g ∧
      (P.getBlock g).isSome := by
  obtain ⟨s, hs, hrun⟩ := hc
  have hnested := nested_of_reachable ⟨s, hs, hrun⟩
  obtain ⟨-, -, f, hf, hcalls, -⟩ := id hs
  have hrooted := rooted_of_run hs hf hrun
  cases hfr : c.frames with
  | nil =>
    -- the function at the bottom of the stack is called nowhere
    rw [hfr] at hrooted
    obtain rfl : g = f := Option.some.inj (hexit.1.symm.trans hrooted)
    exact absurd hk (hcalls k)
  | cons fr frames =>
    rw [hfr] at hnested
    obtain ⟨⟨g', hg', hblock, hscope⟩, -⟩ := hnested
    obtain rfl : g = g' := Option.some.inj (hexit.1.symm.trans hscope)
    exact ⟨fr, frames, rfl, hg', hblock⟩

/-- The exit of a function returns to its only call, or is at the one IRQL at which all its calls
end. -/
lemma runAt_of_call (h : Realised W) (hlive : Live W n) (hbranch : branch P n = .call)
    (hm : copiesFrom P n m) (hv : RunAt W m v) : RunAt W n v := by
  unfold copiesFrom at hm
  rw [hbranch] at hm
  obtain ⟨g, hg, hexit⟩ := hm
  obtain ⟨c, hc, rfl, rfl⟩ := hv
  obtain ⟨fr, frames, hfr, hfrg, hblock⟩ := exists_frame_of_exit hc hg hexit
  rcases h.sites n fr.call g hg hfrg hblock with rfl | hone
  · exact runAt_of_step hc (.leave hfr ⟨g, hg, hexit⟩)
  · obtain ⟨d, hd, rfl⟩ := hlive
    obtain ⟨hraise, hrest⟩ := h.primitive d.node g hg hblock
    rcases completed_of_call h.entry hd hg hraise hrest with
      ⟨e, i, -, he, -, ⟨g', hg', hexit'⟩, hirql⟩ | ⟨hnone, -⟩
    · obtain rfl : g = g' := Option.mem_unique hg hg'
      have hcexit := (P.getAnExitPointOfFunction_iff g _).mp hexit
      have heexit := (P.getAnExitPointOfFunction_iff g _).mp hexit'
      have heq := hone c.irql e.irql ⟨c, hc, hcexit, rfl⟩ ⟨e, he, heexit, rfl⟩
      exact ⟨d, hd, rfl, hirql.symm.trans heq.symm⟩
    · rw [hnone] at hblock
      exact absurd hblock Bool.false_ne_true

omit [DecidableEq Fn] [DecidableEq Node] [Fintype Node] in
lemma raisedTo_of_keRaiseIrqlLevel (hv : v ∈ keRaiseIrqlLevel P n) : v ∈ raisedTo W n := by
  unfold keRaiseIrqlLevel at hv
  unfold raisedTo
  split_ifs at hv ⊢ with hdpc
  · exact List.mem_singleton.mpr (Option.mem_some_iff.mp hv).symm
  · obtain ⟨arg, harg, hvalue⟩ := Option.bind_eq_some_iff.mp hv
    rw [harg, Option.toList_some, List.flatMap_singleton, W.literal arg v hvalue]
    exact List.mem_singleton_self v

/-- A level that a lowering call copies is saved by a run, which goes on to the call. -/
lemma runAt_of_lower (h : Realised W) (hbranch : branch P n = .keLower) (hm : copiesFrom P n m)
    (hv : RunAt W m v) : RunAt W n v := by
  unfold copiesFrom at hm
  rw [hbranch] at hm
  obtain ⟨kric, hrecent, hedge⟩ := hm
  obtain ⟨c, hc, rfl, rfl⟩ := hv
  have hlower : ¬ KeRaiseIrqlCall P n ∧ KeLowerIrqlCall P n := by
    unfold branch at hbranch
    split_ifs at hbranch with hraise hlower
    exact ⟨hraise, hlower⟩
  obtain ⟨d, hd, hsaved, hdn⟩ := h.lowered n kric hlower.2 hrecent c hc hedge
  exact runAt_of_step hd
    (.restore hdn hlower.1 (.inl hlower.2) hsaved (h.received n kric hlower.2 hrecent))

/-- A run that completes a call of a function annotated to raise is at the level of the
annotation. -/
lemma runAt_of_raises (h : Realised W) (hlive : Live W n) (hbranch : branch P n = .raises)
    (hv : levelSource P n v) : RunAt W n v := by
  unfold levelSource at hv
  rw [hbranch] at hv
  obtain ⟨g, hg, hv⟩ := hv
  obtain ⟨hraise, hrest⟩ : ¬ KeRaiseIrqlCall P n ∧ ¬ RestoringCall P n := by
    unfold branch at hbranch
    split_ifs at hbranch with h1 h2 h3 h4
    exact ⟨h1, by simp [RestoringCall, h2, h3, h4]⟩
  have hraises : IrqlRaisesAnnotatedFunction (P.function g) := by
    obtain ⟨g', hg', h⟩ := callTo_of_branch_raises P hbranch
    rwa [Option.mem_unique hg hg']
  obtain ⟨c, hc, rfl⟩ := hlive
  refine ⟨c, hc, rfl, h.oneLevel g c.irql ?_ v hv⟩
  rcases completed_of_call h.entry hc hg hraise hrest with
    ⟨d, i, frames, hd, hfr, ⟨g', hg', hexit⟩, hirql⟩ | ⟨hbody, d, -, heffect⟩
  · rw [← hirql]
    obtain rfl : g = g' := Option.mem_unique hg hg'
    exact (h.truthful d hd ⟨c.node, i⟩ (by simp [hfr]) g hg hexit).1 hraises
  · have hend := h.ends c.node g ⟨hg, hbody, hraise, hrest⟩ d.irql c.irql heffect
    rwa [EndsAt, if_pos hraises] at hend

/-- A level of a node that is run is the IRQL of a run there, if it is of one at the nodes that the
level is copied from. -/
lemma runAt_of_internal (h : Realised W) (hv : getPotentialExitIrqlAtCfnInternal P n v)
    (hlive : ∀ m, ReflTransGen (copiesFrom P) n m → Live W m) : RunAt W n v := by
  -- by induction on how the level is found: it arises at the node, or is copied from another
  induction hv with
  | @arise n v hsource =>
    have hn := hlive n .refl
    cases hb : branch P n with
    | allowable => exact runAt_of_entry hn (.inl hb) hsource
    | zero => exact runAt_of_entry hn (.inr hb) hsource
    | raises => exact runAt_of_raises h hn hb hsource
    | keRaise =>
      have hraise := (branch_keRaise_iff P).mp hb
      obtain ⟨c, hc, hedge⟩ := exists_edge_of_call h.entry hn (.of_name P hraise)
      unfold levelSource at hsource
      rw [hb] at hsource
      exact runAt_of_step hc (.raise hedge hraise (raisedTo_of_keRaiseIrqlLevel hsource))
    | keLower | restoresGlobal | irqlRestore | requiresSame | call | predecessor | caller =>
      unfold levelSource at hsource
      rw [hb] at hsource
      exact absurd hsource id
  | @copy n m v hcopy hm ih =>
    have hv := ih fun k hk => hlive k (hk.head hcopy)
    cases hb : branch P n with
    | keLower => exact runAt_of_lower h hb hcopy hv
    | call => exact runAt_of_call h (hlive n .refl) hb hcopy hv
    | caller => exact runAt_of_caller h (hlive n .refl) hb hcopy hv
    | predecessor =>
      have hcall := not_call_of_branch (.inl hb)
      unfold copiesFrom at hcopy
      rw [hb] at hcopy
      obtain ⟨c, hc, rfl, rfl⟩ := hv
      exact runAt_of_step hc (.pass hcopy hcall)
    | requiresSame =>
      have hsame := callTo_of_branch_requiresSame P hb
      unfold copiesFrom at hcopy
      rw [hb] at hcopy
      obtain ⟨c, hc, rfl, rfl⟩ := hv
      exact h.returned n hsame c hc hcopy
    | restoresGlobal => exact absurd hb (h.onlyLowers n).1
    | irqlRestore => exact absurd hb (h.onlyLowers n).2
    | keRaise | raises | allowable | zero =>
      unfold copiesFrom at hcopy
      rw [hb] at hcopy
      exact absurd hcopy id

lemma Plain.internal_of_run (hplain : Plain W) {c : Config Node} (hc : Reachable W c) :
    getPotentialExitIrqlAtCfnInternal P c.node c.irql :=
  (hplain.sound hplain.savedOnly hplain.truthful hc).node

lemma runAt_of_potential (hplain : Plain W)
    (hlive : ∀ m, ReflTransGen (copiesFrom P) n m → Live W m)
    (h : getPotentialExitIrqlAtCfn P n v) : RunAt W n v := by
  rcases h with h | ⟨hnone, -⟩
  · exact runAt_of_internal hplain.toRealised h hlive
  · obtain ⟨c, hc, rfl⟩ := hlive n .refl
    exact absurd ⟨c.irql, hplain.internal_of_run hc⟩ hnone

lemma potential_iff_runAt (hplain : Plain W)
    (hlive : ∀ m, ReflTransGen (copiesFrom P) n m → Live W m) :
    getPotentialExitIrqlAtCfn P n v ↔ RunAt W n v := by
  refine ⟨runAt_of_potential hplain hlive, ?_⟩
  rintro ⟨c, hc, rfl, rfl⟩
  exact .inl (hplain.internal_of_run hc)

/-- **In a program whose functions have one call site or end at one IRQL, and whose annotations are
true, the levels estimated at a node are the IRQLs of the runs there**, if everything that they are
copied from is run. -/
theorem levels_exact (hplain : Plain W) (hlive : ∀ m, ReflTransGen (copiesFrom P) n m → Live W m)
    (v : ℤ) : getPotentialExitIrqlAtCfn P n v ↔ RunAt W n v :=
  potential_iff_runAt hplain hlive

end Exact

/-! ### An example -/

/-- The program whose function `work` raises, calls `helper` and lowers, where `work` has no
annotation, and `helper` requires at most `APC_LEVEL`. -/
def workAboveMax : Program WorkRoutine (Fin 13) :=
  { workAndHelper with
    function := fun f =>
      if f = .work then { getName := "work" }
      else if f = .helper then { getName := "helper", declAnnotations :=
        [{ getMacroName := "_IRQL_requires_max_", getUnexpandedArgument := ["APC_LEVEL"] }] }
      else workAndHelper.function f }

/-- The configurations of its run. -/
def workRuns : List (Config (Fin 13)) :=
  [⟨0, 0, [], []⟩, ⟨3, 0, [⟨1, 0⟩], []⟩, ⟨4, 2, [⟨1, 0⟩], [(4, 0)]⟩,
    ⟨9, 2, [⟨5, 2⟩, ⟨1, 0⟩], [(4, 0)]⟩, atHelperEnd, ⟨5, 2, [⟨1, 0⟩], [(4, 0)]⟩,
    ⟨6, 2, [⟨1, 0⟩], [(4, 0)]⟩, ⟨7, 0, [⟨1, 0⟩], [(4, 0)]⟩, atWorkEnd, ⟨1, 0, [], [(4, 0)]⟩,
    ⟨2, 0, [], [(4, 0)]⟩]

/-- The lowering call is given what the raising one saved. -/
def aboveMaxWorld : World workAboveMax where
  receives n s := n = 7 ∧ s = 4
  literal _ _ h := by simp [workAboveMax, workAndHelper] at h

lemma mem_workRuns {c : Config (Fin 13)} (h : Reachable aboveMaxWorld c) : c ∈ workRuns := by
  refine mem_of_reachable ?_ ?_ h
  · decide
  · decide

lemma reachable_workRuns {c : Config (Fin 13)} (h : c ∈ workRuns) : Reachable aboveMaxWorld c := by
  have hchain : List.IsChain (Step aboveMaxWorld) workRuns := by decide
  refine hchain.induction (fun c => Reachable aboveMaxWorld c) _
    (fun _ _ hstep hc => hc.tail hstep) (fun _ => ?_) c h
  exact ⟨⟨0, 0, [], []⟩, ⟨rfl, rfl, .routine, by decide⟩, .refl⟩

lemma work_plain : Plain aboveMaxWorld where
  entry := by unfold EntryNodes; decide
  onlyLowers := by unfold OnlyLowers; decide
  literal := by unfold LiteralRaises; decide
  flow := by decide
  externals := externals_of_none (by decide)
  ends := (externals_of_none (by decide)).level
  savedOnly := by unfold SavedOnly; decide
  truthful c hc := by
    have hkeeps : ∀ c ∈ workRuns, KeepsAnnotations workAboveMax c := by decide
    exact hkeeps c (mem_workRuns hc)
  received := by decide
  oneLevel := by decide
  primitive := by decide
  sites n n' g hn hn' hg := by
    have hsites : ∀ n n' g, workAboveMax.getTarget n = some g → workAboveMax.getTarget n' = some g →
        (workAboveMax.getBlock g).isSome → n = n' := by decide
    exact .inl (hsites n n' g hn hn' hg)
  lowered n r hn hr c hc hedge := by
    have hlow : n = 7 := (show ∀ n, KeLowerIrqlCall workAboveMax n → n = 7 by decide) n hn
    have hraise : r = 4 :=
      (show ∀ r, KeRaiseIrqlCall workAboveMax r → r = 4 by decide) r hr.1
    subst hlow hraise
    have hbefore : ∀ c ∈ workRuns, workAboveMax.Edge c.node 4 → c.irql = 0 := by decide
    rw [hbefore c (mem_workRuns hc) hedge]
    exact ⟨⟨6, 2, [⟨1, 0⟩], [(4, 0)]⟩, reachable_workRuns (by decide), by decide, by decide⟩
  returned n hn := by
    have hnone : ∀ n, ¬ workAboveMax.CallTo IrqlRequiresSameAnnotatedFunction n := by decide
    exact absurd hn (hnone n)

/-- `work` ends at the level of the run there, and at no other one. -/
theorem levels_exact_work : getPotentialExitIrqlAtCfn workAboveMax 8 0 ∧
    ¬ getPotentialExitIrqlAtCfn workAboveMax 8 2 := by
  have hcopied : ∀ m, ReflTransGen (copiesFrom workAboveMax) 8 m →
      ∃ c ∈ workRuns, c.node = m := by decide +kernel
  have hlive : ∀ m, ReflTransGen (copiesFrom workAboveMax) 8 m → Live aboveMaxWorld m := by
    intro m hm
    obtain ⟨c, hc, hcm⟩ := hcopied m hm
    exact ⟨c, reachable_workRuns hc, hcm⟩
  rw [levels_exact work_plain hlive, levels_exact work_plain hlive]
  refine ⟨⟨atWorkEnd, reachable_workRuns (by decide), rfl, rfl⟩, ?_⟩
  rintro ⟨c, hc, hnode, hirql⟩
  have hend : ∀ c ∈ workRuns, c.node = 8 → c.irql = 0 := by decide
  exact absurd ((hend c (mem_workRuns hc) hnode).symm.trans hirql) (by decide)

end DriverQueries.Precision
