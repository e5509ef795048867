import DriverQueries.Blocks
import DriverQueries.Text

/-!
Accesses of user memory that a query leaves out because a probe comes before them.

The query asks for a probe of the variable from which the access can be reached. A probe that
comes first on one path is found from it, whatever the other paths do.
-/

namespace DriverQueries.Probes

open Relation DriverQueries.Text DriverQueries.Paths DriverQueries.Blocks

/-- A macro invocation, with the file of the macro and the elements it expands to. -/
structure ExpandedInvocation (E : Type) where
  getMacroName : String
  getMacroFile : String
  getAnExpandedElement : List E

structure FunctionInfo where
  getName : String
  getFile : String

/-- The expressions and control-flow nodes of a program. -/
structure Code (E V : Type) where
  getASuccessor : E → List E
  getAChild : E → List E
  /-- The variable of a variable access. -/
  getTarget : E → Option V
  /-- The target of a call. -/
  getCallTarget : E → Option FunctionInfo
  getAnArgument : E → List E
  invocations : List (ExpandedInvocation E)

variable {E V : Type} (C : Code E V)

def Edge (x y : E) : Prop := y ∈ C.getASuccessor x

def reaches : E → E → Prop := TransGen (Edge C)

/-- An access of the expansion of a macro of the class, or within an argument of a call of a
function of the class. -/
def AccessWithin (macros : ExpandedInvocation E → Prop) (functions : FunctionInfo → Prop) (e : E) :
    Prop :=
  (C.getTarget e).isSome ∧
    ((∃ m ∈ C.invocations, macros m ∧ e ∈ m.getAnExpandedElement) ∨
      ∃ c, (∃ g ∈ C.getCallTarget c, functions g) ∧
        ∃ arg ∈ C.getAnArgument c, ReflTransGen (fun x y => y ∈ C.getAChild x) arg e)

def ProbeCallAccess : E → Prop :=
  AccessWithin C (fun m => matchesPattern m.getMacroName "%Probe%")
    fun g => matchesPattern g.getName "%Probe%"

def UMAAccess : E → Prop :=
  AccessWithin C (fun m => matchesPattern m.getMacroFile "usermode_accessors.h")
    fun g => matchesPattern g.getFile "usermode_accessors.h"

def SameVariable (p a : E) : Prop := ∃ v ∈ C.getTarget a, C.getTarget p = some v

/-- An access that is ignored by guards of the class: it is one, or one of its variable reaches
it. -/
def IgnoredBy (Guard : E → Prop) (a : E) : Prop :=
  (∃ p, Guard p ∧ SameVariable C p a ∧ reaches C p a) ∨ Guard a

def ProbedAccess : E → Prop := IgnoredBy C (ProbeCallAccess C)

def UMAGuardedAccess : E → Prop := IgnoredBy C (UMAAccess C)

/-! ### The law -/

/-- Every path from the entry to the access passes a guard of its variable. The access itself
is none where this is asked, so the guard comes before it. -/
def GuardedFrom (Guard : E → Prop) (entry a : E) : Prop :=
  ¬ Avoids (Edge C) (fun p => Guard p ∧ SameVariable C p a) entry a

/-- An ignored access that is no guard is guarded. -/
def SuppressionSound (Ignored Guard : E → Prop) (entry a : E) : Prop :=
  Ignored a → ¬ Guard a → GuardedFrom C Guard entry a

/-- A way without a guard comes in at `y` on what is behind a guard: some guard of the variable
leads to `y`, while `y` is the entry or has a predecessor that the entry leads to and no guard
does, and a way from `y` on to the access has no guard. -/
structure UnguardedJoin (Guard : E → Prop) (entry a y : E) : Prop where
  behind : ∃ p, Guard p ∧ SameVariable C p a ∧ reaches C p y
  around : y = entry ∨ ∃ x, Edge C x y ∧ ReflTransGen (Edge C) entry x ∧
    ∀ p, Guard p ∧ SameVariable C p a → ¬ ReflTransGen (Edge C) p x
  onward : Avoids (Edge C) (fun p => Guard p ∧ SameVariable C p a) y a

variable {C} {Guard : E → Prop} {entry a p y : E}

lemma UnguardedJoin.not_sound (h : UnguardedJoin C Guard entry a y) (hguard : ¬ Guard a) :
    ¬ SuppressionSound C (IgnoredBy C Guard) Guard entry a := by
  obtain ⟨⟨p, hp, hvar, hpy⟩, haround, honward⟩ := h
  have hignored : IgnoredBy C Guard a := .inl ⟨p, hp, hvar, hpy.trans_left honward.reach⟩
  refine fun hsound => hsound hignored hguard ?_
  rcases haround with rfl | ⟨x, hxy, hentry, hx⟩
  · exact honward
  · have hpath := avoids_of_reach hentry hx
    exact ⟨hpath.1, (hpath.2.tail ⟨hxy, honward.1⟩).trans honward.2⟩

lemma exists_unguardedJoin (hp : Guard p) (hvar : SameVariable C p a) (hpa : reaches C p a)
    (h : ¬ GuardedFrom C Guard entry a) : ∃ y, UnguardedJoin C Guard entry a y := by
  obtain ⟨y, hbehind, honward, haround⟩ := (not_not.mp h).exists_entering
    (S := fun y => ∃ p, Guard p ∧ SameVariable C p a ∧ reaches C p y) ⟨p, hp, hvar, hpa⟩
  refine ⟨y, hbehind, haround.imp_right ?_, honward⟩
  rintro ⟨x, hxy, hentry, hx⟩
  refine ⟨x, hxy, hentry.reach, fun q ⟨hq, hqvar⟩ hqx => ?_⟩
  -- a guard that leads to `x` is `x`, which the path avoids, or comes before it
  rcases reflTransGen_iff_eq_or_transGen.mp hqx with rfl | hqx
  · rcases ReflTransGen.cases_tail hentry.2 with rfl | ⟨_, -, -, hnot⟩
    · exact hentry.1 ⟨hq, hqvar⟩
    · exact hnot ⟨hq, hqvar⟩
  · exact hx ⟨q, hq, hqvar, hqx⟩

lemma suppressionSound_iff :
    SuppressionSound C (IgnoredBy C Guard) Guard entry a ↔
      Guard a ∨ ¬ ∃ y, UnguardedJoin C Guard entry a y := by
  constructor
  · intro hsound
    by_cases hguard : Guard a
    · exact .inl hguard
    · exact .inr fun ⟨y, hy⟩ => hy.not_sound hguard hsound
  · rintro (hguard | hjoin) hignored hnot
    · exact absurd hguard hnot
    · obtain ⟨p, hp, hvar, hpa⟩ := hignored.resolve_right hnot
      by_contra h
      exact hjoin (exists_unguardedJoin hp hvar hpa h)

/-- **Ignoring an access is sound iff it is a guard itself or no way without a guard joins what is
behind one, with none from there on**, for probes and for user-mode accessors. -/
theorem ignored_sound_iff (C : Code E V) (entry a : E) :
    (SuppressionSound C (ProbedAccess C) (ProbeCallAccess C) entry a ↔
      ProbeCallAccess C a ∨ ¬ ∃ y, UnguardedJoin C (ProbeCallAccess C) entry a y) ∧
    (SuppressionSound C (UMAGuardedAccess C) (UMAAccess C) entry a ↔
      UMAAccess C a ∨ ¬ ∃ y, UnguardedJoin C (UMAAccess C) entry a y) :=
  ⟨suppressionSound_iff, suppressionSound_iff⟩

/-- A guard that comes before the access in its basic block is passed by every path: nothing joins
between them. -/
theorem guardedFrom_of_block (hentry : ∀ x, ¬ Edge C x entry) (hguard : Guard p)
    (hvar : SameVariable C p a) (h : ReflTransGen (Link (Edge C)) p a) :
    GuardedFrom C Guard entry a :=
  not_avoids_of_links hentry h ⟨hguard, hvar⟩

/-! ### A probe on one branch -/

/-- `if (size) ProbeForRead(p); *p`. The condition is the node 0, the argument of the call 1, the
call 2 and the access 3. -/
def probeOnBranch : Code ℕ String where
  getASuccessor
    | 0 => [1, 3]
    | 1 => [2]
    | 2 => [3]
    | _ => []
  getAChild e := if e = 2 then [1] else []
  getTarget e := if e ∈ [1, 3] then some "p" else none
  getCallTarget e := if e = 2 then some ⟨"ProbeForRead", "wdm.h"⟩ else none
  getAnArgument e := if e = 2 then [1] else []
  invocations := []

/-- The access is ignored, and a path from the entry comes to it without a probe. -/
theorem ignored_not_guarded :
    ProbedAccess probeOnBranch 3 ∧ ¬ ProbeCallAccess probeOnBranch 3 ∧
      ¬ GuardedFrom probeOnBranch (ProbeCallAccess probeOnBranch) 0 3 := by
  have hwithin : ∀ e, ProbeCallAccess probeOnBranch e → e = 1 := by
    rintro e ⟨-, ⟨m, hm, -⟩ | ⟨c, -, arg, harg, hchild⟩⟩
    · simp [probeOnBranch] at hm
    · have harg : arg = 1 := by
        simp only [probeOnBranch] at harg
        split_ifs at harg
        · simpa using harg
        · simp at harg
      subst harg
      rcases ReflTransGen.cases_head hchild with heq | ⟨d, hd, -⟩
      · exact heq.symm
      · simp [probeOnBranch] at hd
  have hprobe : ProbeCallAccess probeOnBranch 1 :=
    ⟨rfl, .inr ⟨2, ⟨⟨"ProbeForRead", "wdm.h"⟩, rfl, by decide⟩, 1, by simp [probeOnBranch], .refl⟩⟩
  have hnot : ¬ ProbeCallAccess probeOnBranch 3 := fun h => absurd (hwithin 3 h) (by decide)
  refine ⟨.inl ⟨1, hprobe, ⟨"p", rfl, rfl⟩, ?_⟩, hnot, fun h => h ⟨?_, ?_⟩⟩
  · exact .tail (.single (b := 2) (by simp [Edge, probeOnBranch])) (by simp [Edge, probeOnBranch])
  · exact fun h => absurd (hwithin 0 h.1) (by decide)
  · exact .single ⟨by simp [Edge, probeOnBranch], fun h => hnot h.1⟩

end DriverQueries.Probes
