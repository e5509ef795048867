import DriverQueries.CallRuns
import DriverQueries.FloatExits

/-!
Floating-point accesses without a saved state.

The query accepts an access if the basic block of some save leads to the block of the access, or if
its function calls a function that uses floating point and is called after a save somewhere. The
runs that come to an access with the state saved are described with one bit: the last save or
restore was a save. A walk over the flow graphs that does not match returns with calls comes to
every node that a run can come to unsaved.
-/

namespace DriverQueries.FloatProtection

open Relation DriverQueries.Text DriverQueries.Database DriverQueries.Calls DriverQueries.Paths
open DriverQueries.Changing DriverQueries.Blocks DriverQueries.CallRuns DriverQueries.FloatExits

/-! ### The query -/

/-- The accesses of variables. `floatTarget`: the type of the variable is a `FloatingPointType`.
`floatType`: the type of the access is one. `wdfAnnotations`: the annotations of the declaration
entries in files that include wdf.h. -/
structure Accesses (Fn Node : Type) where
  floatTarget : Node → Bool
  floatType : Node → Bool
  getEnclosingElement : Node → Option Fn
  wdfAnnotations : Fn → List Sal.SALAnnotation

variable {Fn Node : Type} (P : Program Fn Node) (A : Accesses Fn Node)

def KernelFloatAnnotatedFunction (f : Fn) : Prop :=
  ∃ a ∈ A.wdfAnnotations f ++ (P.function f).typedefAnnotations,
    matchesPattern a.getMacroName "_Kernel_float_used_"

/-- `getASuccessor` of a basic block, which is given by its first node. -/
def blockSuccessor (b b' : Node) : Prop :=
  StartsBlock P.Edge b' ∧ ∃ n, BlockOf P.Edge b n ∧ P.Edge n b'

def calls (f g : Fn) : Prop :=
  ∃ call, getEnclosingFunction P call = some f ∧ P.getTarget call = some g

def FuncWithSafeFloatAccess (f : Fn) : Prop :=
  ∃ funcCallThatUsesFloat saveFloat saveFloatBB b funcThatUsesFloat floatAccess,
    SafeFloatAccessFuncCall P saveFloat ∧ BlockOf P.Edge saveFloatBB saveFloat ∧
    A.floatTarget floatAccess ∧ getEnclosingFunction P floatAccess = some funcThatUsesFloat ∧
    P.getTarget funcCallThatUsesFloat = some funcThatUsesFloat ∧
    BlockOf P.Edge b funcCallThatUsesFloat ∧ ReflTransGen (blockSuccessor P) saveFloatBB b ∧
    ReflTransGen (calls P) f funcThatUsesFloat

def SafeFloatAccess (n : Node) : Prop :=
  (A.floatType n ∧ ∃ saveFloat saveFloatBB b, SafeFloatAccessFuncCall P saveFloat ∧
    BlockOf P.Edge saveFloatBB saveFloat ∧ BlockOf P.Edge b n ∧
    (ReflTransGen (blockSuccessor P) saveFloatBB b ∨ ReflTransGen P.Edge saveFloatBB b ∨
      b = saveFloatBB)) ∨
  ∃ f ∈ A.getEnclosingElement n, KernelFloatAnnotatedFunction P A f

def FloatHardwareStateProtection (floatAccess : Node) : Prop :=
  A.floatTarget floatAccess ∧ ¬ SafeFloatAccess P A floatAccess ∧
    ¬ ∃ safeFunc, FuncWithSafeFloatAccess P A safeFunc ∧
      getEnclosingFunction P floatAccess = some safeFunc

/-- An access to a floating-point variable that is not in an annotated function. -/
structure Unannotated (n : Node) : Prop where
  float : A.floatTarget n
  outside : ∀ f ∈ getEnclosingFunction P n, ¬ KernelFloatAnnotatedFunction P A f

/-! ### Runs -/

variable (entry : Fn → Prop)

/-- A run at a node, and whether the last save or restore was a save. Saves and restores, and
functions without a body, are not entered. -/
def system : System (Node × Bool) Node where
  start s := ∃ f, entry f ∧ s.1 ∈ P.getBlock f ∧ s.2 = false
  step s t := P.Edge s.1 t.1 ∧
    ((SafeFloatAccessFuncCall P t.1 ∧ t.2 = true) ∨ (SafeFloatRestoreFuncCall P t.1 ∧ t.2 = false) ∨
      (¬ SafeFloatAccessFuncCall P t.1 ∧ ¬ SafeFloatRestoreFuncCall P t.1 ∧ t.2 = s.2 ∧
        ∀ g ∈ P.getTarget t.1, P.getBlock g = none))
  call s m t := P.Edge s.1 m ∧ ¬ SafeFloatAccessFuncCall P m ∧ ¬ SafeFloatRestoreFuncCall P m ∧
    t.2 = s.2 ∧ ∃ g ∈ P.getTarget m, t.1 ∈ P.getBlock g
  ret m s t := t = (m, s.2) ∧ ∃ g ∈ P.getTarget m, s.1 = P.exitNode g

/-- Every run that reaches the access has made a save, and no restore since. -/
def Protected (n : Node) : Prop :=
  ∀ b frames, Reached (Step (system P entry)) (Start (system P entry)) ((n, b), frames) → b = true

def MissesNothing : Prop :=
  ∀ n, Unannotated P A n → ¬ FloatHardwareStateProtection P A n → Protected P entry n

/-! ### Walks without a save -/

/-- A walk that begins at an outside entry or a restore comes to the node with no save on it. It
enters the functions that are called, and from their exits goes on at any of their calls. -/
inductive MayUnsaved : Node → Prop
  | start {f : Fn} {n : Node} (h : entry f) (hn : n ∈ P.getBlock f) : MayUnsaved n
  | restore {n : Node} (h : SafeFloatRestoreFuncCall P n) : MayUnsaved n
  | step {n m : Node} (h : MayUnsaved n) (hedge : P.Edge n m)
      (hsave : ¬ SafeFloatAccessFuncCall P m) (hbody : ∀ g ∈ P.getTarget m, P.getBlock g = none) :
      MayUnsaved m
  | enter {n m b : Node} {g : Fn} (h : MayUnsaved n) (hedge : P.Edge n m)
      (hsave : ¬ SafeFloatAccessFuncCall P m) (hg : g ∈ P.getTarget m) (hb : b ∈ P.getBlock g) :
      MayUnsaved b
  | leave {m : Node} {g : Fn} (h : MayUnsaved (P.exitNode g)) (hg : g ∈ P.getTarget m)
      (hsave : ¬ SafeFloatAccessFuncCall P m) : MayUnsaved m

/-- The block of a save leads to the block of the node. -/
def SaveLeadsTo (n : Node) : Prop :=
  ∃ saveFloat saveFloatBB b, SafeFloatAccessFuncCall P saveFloat ∧
    BlockOf P.Edge saveFloatBB saveFloat ∧ BlockOf P.Edge b n ∧ ReflTransGen P.Edge saveFloatBB b

/-- No block of a save leads to the block of the access, or to that of a call of a function that
uses floating point and is the function of the access or called by it in any depth, and the
variable is not of an annotated function. -/
structure NoSaveNear (n : Node) : Prop where
  access : ¬ SaveLeadsTo P n
  variable_function : ∀ f ∈ A.getEnclosingElement n, ¬ KernelFloatAnnotatedFunction P A f
  calls : ∀ f ∈ getEnclosingFunction P n, ∀ g a call, ReflTransGen (calls P) f g →
    A.floatTarget a → getEnclosingFunction P a = some g → P.getTarget call = some g →
    ¬ SaveLeadsTo P call

variable {P A entry}

/-- What an activation comes to unsaved a walk comes to, if one comes to its beginning where that
is unsaved. -/
lemma mayUnsaved_of_local {s t : Node × Bool} (h : Local (system P entry) s t)
    (hs : s.2 = false → MayUnsaved P entry s.1) (ht : t.2 = false) : MayUnsaved P entry t.1 := by
  induction h with
  | refl => exact hs ht
  | step _ hstep ih =>
    obtain ⟨hedge, ⟨-, hsaved⟩ | ⟨hrestore, -⟩ | ⟨hsave, -, hbit, hbody⟩⟩ := hstep
    · exact absurd (ht.symm.trans hsaved) (by decide)
    · exact .restore hrestore
    · exact (ih hs (hbit.symm.trans ht)).step hedge hsave hbody
  | @call s t u v w m _ hcall _ hret ih ihbody =>
    obtain ⟨hedge, hsave, -, hbit, g, hg, hb⟩ := hcall
    obtain ⟨rfl, g', hg', hexit⟩ := hret
    have hentered : u.2 = false → MayUnsaved P entry u.1 := fun hu =>
      (ih hs (hbit.symm.trans hu)).enter hedge hsave hg hb
    exact .leave (hexit ▸ ihbody hentered ht) hg' hsave

lemma mayUnsaved_of_entered {s : Node × Bool} (h : Entered (system P entry) s)
    (hs : s.2 = false) : MayUnsaved P entry s.1 := by
  induction h with
  | start hstart =>
    obtain ⟨f, hf, hblock, -⟩ := hstart
    exact .start hf hblock
  | call _ hlocal hcall ih =>
    obtain ⟨hedge, hsave, -, hbit, g, hg, hb⟩ := hcall
    exact (mayUnsaved_of_local hlocal ih (hbit.symm.trans hs)).enter hedge hsave hg hb

lemma protected_of_not_mayUnsaved {n : Node} (h : ¬ MayUnsaved P entry n) :
    Protected P entry n := by
  intro b frames hreached
  obtain ⟨s, hentered, hlocal⟩ := exists_reached_iff.mp ⟨frames, hreached⟩
  by_contra hb
  have hfalse : b = false := by simpa using hb
  exact h (mayUnsaved_of_local hlocal (mayUnsaved_of_entered hentered) hfalse)

lemma reach_of_blockSuccessor {b b' : Node} (h : ReflTransGen (blockSuccessor P) b b') :
    ReflTransGen P.Edge b b' := by
  induction h with
  | refl => exact .refl
  | tail _ hstep ih =>
    obtain ⟨-, n, hbn, hn⟩ := hstep
    exact ih.trans ((hbn.2.lift id fun _ _ => Link.edge).tail hn)

lemma NoSaveNear.reported {n : Node} (h : NoSaveNear P A n) (hfloat : A.floatTarget n) :
    FloatHardwareStateProtection P A n := by
  refine ⟨hfloat, ?_, ?_⟩
  · rintro (⟨-, c, sb, b, hc, hsb, hb, hreach⟩ | ⟨f, hf, hannotated⟩)
    · refine h.access ⟨c, sb, b, hc, hsb, hb, ?_⟩
      obtain hblocks | hnodes | rfl := hreach
      · exact reach_of_blockSuccessor hblocks
      · exact hnodes
      · exact .refl
    · exact h.variable_function f hf hannotated
  · rintro ⟨f, ⟨call, c, sb, b, g, a, hc, hsb, ha, hag, hcall, hb, hreach, hcalls⟩, hn⟩
    exact h.calls f hn g a call hcalls ha hag hcall
      ⟨c, sb, b, hc, hsb, hb, reach_of_blockSuccessor hreach⟩

/-- **Nothing is missed if each access outside annotated functions has saves on all walks to it, or
none near it.** -/
theorem missesNothing_of_walks
    (h : ∀ n, Unannotated P A n → ¬ MayUnsaved P entry n ∨ NoSaveNear P A n) :
    MissesNothing P A entry := by
  intro n hn hreported
  obtain hwalks | hfar := h n hn
  · exact protected_of_not_mayUnsaved hwalks
  · exact absurd (hfar.reported hn.float) hreported

/-! ### A branch around the save -/

lemma no_class_of_target {n : Node} (h : P.getTarget n = none) :
    ¬ SafeFloatAccessFuncCall P n ∧ ¬ SafeFloatRestoreFuncCall P n := by
  have hcall : ¬ FunctionCall P n := by simp [FunctionCall, h]
  exact ⟨fun hn => hcall (.of_name P hn), fun hn => hcall (.of_name P hn)⟩

/-- `float f; if (c) KeSaveFloatingPointState(&b); f = 1;`. The nodes are the body, the condition,
the call, the access and the exits of the two functions. -/
def branchAround : Program Bool (Fin 6) where
  function routine := { getName := if routine then "routine" else "KeSaveFloatingPointState" }
  getBlock routine := if routine then some 0 else none
  exitNode routine := if routine then 4 else 5
  getASuccessor n := if n = 1 then [2, 3] else if n < 4 then [n + 1] else []
  getControlFlowScope n := some (n ≠ 5)
  getTarget n := if n = 2 then some false else none
  successor_scope := by decide
  exit_scope := by decide
  exit_enclosing := by decide
  block_scope := by decide
  block_enclosing := by decide

def oneAccess : Accesses Bool (Fin 6) where
  floatTarget n := n = 3
  floatType n := n = 3
  getEnclosingElement n := if n = 3 then some true else none
  wdfAnnotations _ := []

/-- `float f; KeSaveFloatingPointState(&b); f = 1;`. -/
def saveFirst : Program Bool (Fin 6) :=
  { branchAround with
    getASuccessor n := if n < 4 then [n + 1] else []
    successor_scope := by decide }

theorem missesNothing_of_walks_saveFirst : MissesNothing saveFirst oneAccess (· = true) := by
  have hrestores : ∀ n, ¬ SafeFloatRestoreFuncCall saveFirst n := by decide
  have hsteps : ∀ n m, n = 0 ∨ n = 1 → saveFirst.Edge n m →
      ¬ SafeFloatAccessFuncCall saveFirst m → m = 0 ∨ m = 1 := by decide
  have hwalk : ∀ n, MayUnsaved saveFirst (· = true) n → n = 0 ∨ n = 1 := by
    intro n h
    induction h with
    | start hf hn =>
      subst hf
      exact .inl (Option.some.inj hn).symm
    | restore hrestore => exact absurd hrestore (hrestores _)
    | step _ hedge hsave _ ih => exact hsteps _ _ ih hedge hsave
    | @enter _ _ _ g _ _ _ hg hb =>
      cases g with
      | false => exact absurd hb (by simp [saveFirst, branchAround])
      | true => exact absurd hg (by simp [saveFirst, branchAround])
    | @leave _ g _ _ _ ih => cases g <;> exact absurd ih (by decide)
  refine missesNothing_of_walks fun n hn => .inl fun h => ?_
  have hn : n = 3 := by simpa [oneAccess] using hn.float
  subst hn
  exact absurd (hwalk 3 h) (by decide)

/-- The access is not reported, and a run comes to it without a save. -/
theorem branchAround_missed :
    Unannotated branchAround oneAccess 3 ∧ ¬ FloatHardwareStateProtection branchAround oneAccess 3 ∧
      ¬ Protected branchAround (· = true) 3 := by
  have hunannotated : Unannotated branchAround oneAccess 3 := by
    refine ⟨rfl, fun f _ h => ?_⟩
    obtain ⟨a, ha, -⟩ := h
    exact absurd ha List.not_mem_nil
  have haccepted : SafeFloatAccess branchAround oneAccess 3 :=
    .inl ⟨rfl, 2, 2, 3, by decide, by decide, by decide, .inr (.inl (by decide))⟩
  refine ⟨hunannotated, fun h => h.2.1 haccepted, fun h => ?_⟩
  have hstep : ∀ n m, branchAround.Edge n m → branchAround.getTarget m = none →
      (system branchAround (· = true)).step (n, false) (m, false) := fun n m hedge htarget => by
    have hclass := no_class_of_target htarget
    exact ⟨hedge, Or.inr (Or.inr ⟨hclass.1, hclass.2, rfl, by simp [htarget]⟩)⟩
  have hlocal : Local (system branchAround (· = true)) (0, false) (3, false) :=
    (Local.refl.step (hstep 0 1 (by decide) rfl)).step (hstep 1 3 (by decide) rfl)
  have hentered : Entered (system branchAround (· = true)) (0, false) :=
    .start ⟨true, rfl, rfl, rfl⟩
  obtain ⟨frames, hreached⟩ := exists_reached_iff.mpr ⟨_, hentered, hlocal⟩
  exact Bool.false_ne_true (h false frames hreached)

end DriverQueries.FloatProtection
