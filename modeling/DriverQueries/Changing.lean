import DriverQueries.Cascade

/-!
The calls that may change the IRQL.

`isIrqlChangingCall` holds of a few kinds of calls, and of the calls of functions whose bodies
contain such a call. The cascade has a list of its own of the calls that set the IRQL. Here
the two are compared along chains of calls of any length.
-/

namespace DriverQueries.Changing

open Relation DriverQueries.Sal DriverQueries.Database DriverQueries.Calls DriverQueries.Paths
open DriverQueries.CopyRules DriverQueries.Cascade

variable {Fn Node : Type} (P : Program Fn Node)

def getEnclosingFunction (n : Node) : Option Fn := P.getControlFlowScope n

/-- `inner` is a call in the body of the function that `fc` calls. -/
def BodyCall (fc inner : Node) : Prop :=
  ∃ g ∈ P.getTarget fc, FunctionCall P inner ∧ getEnclosingFunction P inner = some g

/-- The calls that change the IRQL whatever the bodies of the functions are. -/
def ListedCall (fc : Node) : Prop :=
  KeRaiseIrqlCall P fc ∨ KeLowerIrqlCall P fc ∨ RestoresGlobalIrqlCall P fc ∨
    SavesGlobalIrqlCall P fc ∨ P.CallTo IrqlChangesFunction fc

def isIrqlChangingCall (fc : Node) : Prop :=
  Derives (fun n (_ : Unit) => ListedCall P n) (BodyCall P) fc ()

/-- The body of `isIrqlChangingFunction`, with `self` for `isIrqlChangingCall`. -/
def changingFunctionBody (self : Node → Prop) (f : Fn) : Prop :=
  IrqlChangesFunction (P.function f) ∨
    ∃ inner, FunctionCall P inner ∧ getEnclosingFunction P inner = some f ∧ self inner

/-- The body of `isIrqlChangingCall`, with `self` for the recursive calls. -/
def changingCallBody (self : Node → Prop) (fc : Node) : Prop :=
  KeRaiseIrqlCall P fc ∨ KeLowerIrqlCall P fc ∨ RestoresGlobalIrqlCall P fc ∨
    SavesGlobalIrqlCall P fc ∨ ∃ g ∈ P.getTarget fc, changingFunctionBody P self g

section

variable [DecidableEq Fn] [DecidableEq Node] [Fintype Node]

instance : DecidableRel (BodyCall P) := fun _ _ => inferInstanceAs (Decidable (∃ g ∈ _, _))
instance : DecidablePred (ListedCall P) := fun _ => inferInstanceAs (Decidable (_ ∨ _))
instance : DecidablePred (isIrqlChangingCall P) := fun n => decidableDerives n ()

end

lemma changingCallBody_iff (self : Node → Prop) (fc : Node) :
    changingCallBody P self fc ↔ ListedCall P fc ∨ ∃ m, BodyCall P fc m ∧ self m := by
  have hfun : (∃ g ∈ P.getTarget fc, changingFunctionBody P self g) ↔
      P.CallTo IrqlChangesFunction fc ∨ ∃ m, BodyCall P fc m ∧ self m := by
    refine ⟨fun h => ?_, fun h => ?_⟩
    · obtain ⟨g, hg, hch | ⟨m, hm, hscope, hself⟩⟩ := h
      · exact Or.inl ⟨g, hg, hch⟩
      · exact Or.inr ⟨m, ⟨g, hg, hm, hscope⟩, hself⟩
    · obtain ⟨g, hg, hch⟩ | ⟨m, ⟨g, hg, hm, hscope⟩, hself⟩ := h
      · exact ⟨g, hg, Or.inl hch⟩
      · exact ⟨g, hg, Or.inr ⟨m, hm, hscope, hself⟩⟩
  unfold changingCallBody ListedCall
  simp only [hfun, or_assoc]

/-- The predicate solves the two equations of the library. -/
theorem isIrqlChangingCall_eq (fc : Node) :
    isIrqlChangingCall P fc ↔ changingCallBody P (isIrqlChangingCall P) fc := by
  rw [changingCallBody_iff]
  exact derives_unfold

theorem isIrqlChangingCall_least {self : Node → Prop}
    (hself : ∀ fc, changingCallBody P self fc → self fc) {fc : Node}
    (h : isIrqlChangingCall P fc) : self fc :=
  h.least (R := fun n _ => self n) fun n _ hn => hself n ((changingCallBody_iff P self n).mpr hn)

variable {P} {fc : Node}

/-- A call changes the IRQL when a chain of calls leads to a listed one. -/
lemma isIrqlChangingCall_iff_chain :
    isIrqlChangingCall P fc ↔ ∃ c, ReflTransGen (BodyCall P) fc c ∧ ListedCall P c :=
  derives_iff_reach

/-! ### Comparison with the cascade -/

variable (P) in
/-- The calls whose level the cascade sets. -/
def TransitionCall (c : Node) : Prop :=
  KeRaiseIrqlCall P c ∨ KeLowerIrqlCall P c ∨ RestoresGlobalIrqlCall P c ∨ IrqlRestoreCall P c ∨
    P.CallTo IrqlRaisesAnnotatedFunction c

lemma transitionCall_iff_branch [DecidableEq Fn] [DecidableEq Node] [Fintype Node] {c : Node} :
    TransitionCall P c ↔
      branch P c ∈ [.keRaise, .keLower, .restoresGlobal, .irqlRestore, .raises] := by
  unfold TransitionCall branch
  simp only [apply_ite (· ∈ [Branch.keRaise, .keLower, .restoresGlobal, .irqlRestore, .raises]),
    List.mem_cons, List.not_mem_nil, reduceCtorEq, or_false, or_true, ite_self, if_true_left,
    ← or_iff_not_imp_left]

lemma TransitionCall.listed_or_restore {c : Node} (h : TransitionCall P c) :
    ListedCall P c ∨ IrqlRestoreCall P c := by
  obtain h | h | h | h | ⟨g, hg, h⟩ := h
  · exact Or.inl (Or.inl h)
  · exact Or.inl (Or.inr (Or.inl h))
  · exact Or.inl (Or.inr (Or.inr (Or.inl h)))
  · exact Or.inr h
  · exact Or.inl (Or.inr (Or.inr (Or.inr (Or.inr ⟨g, hg, Or.inl h⟩))))

/-- **A call that is a transition of the cascade, or reaches one through calls, is an
IRQL-changing call iff it reaches a listed call whenever it reaches a call that restores from
a parameter.** -/
theorem transition_changing_iff :
    ((∃ c, ReflTransGen (BodyCall P) fc c ∧ TransitionCall P c) → isIrqlChangingCall P fc) ↔
      ((∃ c, ReflTransGen (BodyCall P) fc c ∧ IrqlRestoreCall P c) →
        ∃ c, ReflTransGen (BodyCall P) fc c ∧ ListedCall P c) := by
  rw [isIrqlChangingCall_iff_chain]
  refine ⟨fun h hrestore => ?_, fun h htrans => ?_⟩
  · obtain ⟨c, hc, hr⟩ := hrestore
    exact h ⟨c, hc, Or.inr (Or.inr (Or.inr (Or.inl hr)))⟩
  · obtain ⟨c, hc, ht⟩ := htrans
    obtain hl | hr := ht.listed_or_restore
    · exact ⟨c, hc, hl⟩
    · exact h ⟨c, hc, hr⟩

/-- `VOID KeReleaseSpinLock(PKSPIN_LOCK SpinLock, _IRQL_restores_ KIRQL NewIrql)`. -/
def releaseSpinLock : FunctionInfo :=
  { getName := "KeReleaseSpinLock",
    getParameter := [⟨"SpinLock", []⟩,
      ⟨"NewIrql", [{ getMacroName := "_IRQL_restores_", inner := true }]⟩] }

/-- A call that releases a spin lock is a transition, but no IRQL-changing call. -/
theorem releaseSpinLock_not_changing :
    TransitionCall (oneCall wdm releaseSpinLock) 1 ∧
      branch (oneCall wdm releaseSpinLock) 1 = .irqlRestore ∧
      ¬ isIrqlChangingCall (oneCall wdm releaseSpinLock) 1 := by
  refine ⟨Or.inr (Or.inr (Or.inr (Or.inl ?_))), ?_, ?_⟩ <;> decide

end DriverQueries.Changing
