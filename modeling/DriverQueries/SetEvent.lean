import Mathlib.Data.Set.Finite.Lattice
import Mathlib.Data.Set.Finite.Lemmas
import DriverQueries.Sentinel
import DriverQueries.Totality

/-!
Calls of `KeSetEvent` at too high an IRQL.

The query on calls at too high an IRQL in general compares the least IRQL at a node before the call
with what the call requires. The one on `KeSetEvent` asks that no IRQL before the call be in the
range from 0 to the limit, and so reports a call before which there is none, or only -1.
-/

namespace DriverQueries.SetEvent

open DriverQueries.Text DriverQueries.Database DriverQueries.Cascade
open DriverQueries.Totality DriverQueries.Sentinel

structure ConstantProgram (Fn Node : Type) extends Program Fn Node where
  getValue : Node → Option String

variable {Fn Node : Type} [DecidableEq Fn] [DecidableEq Node] [Fintype Node]

/-! ### The criterion of IRQL too high -/

section TooHigh

variable (P : Program Fn Node)

/-- `irqlRequirement < min(getPotentialExitIrqlAtCfn(prior))`. The minimum of no values is no
value. -/
def IrqlTooHigh (irqlRequirement : ℤ) (prior : Node) : Prop :=
  ∃ m, IsLeast {v | getPotentialExitIrqlAtCfn P prior v} m ∧ irqlRequirement < m

def Bound (n : Node) : Prop := ∃ v, getPotentialExitIrqlAtCfn P n v

variable {P} {n : Node} {limit : ℤ}

lemma finite_mem_option {α : Type} (o : Option α) : {a | a ∈ o}.Finite :=
  Set.Subsingleton.finite fun _ ha _ hb => Option.mem_unique ha hb

omit [DecidableEq Fn] in
lemma finite_of_function {o : Option Fn} (values : Fn → List ℤ) :
    {v | ∃ f ∈ o, v ∈ values f}.Finite := by
  refine ((finite_mem_option o).biUnion fun f _ => List.finite_toSet (values f)).subset ?_
  intro v ⟨f, hf, hv⟩
  exact Set.mem_biUnion hf hv

lemma levelSource_finite (n : Node) : {v | levelSource P n v}.Finite := by
  unfold levelSource
  cases branch P n with
  | keRaise => exact finite_mem_option _
  | raises => exact finite_of_function _
  | allowable => exact finite_of_function _
  | zero => exact Set.finite_singleton 0
  | keLower | restoresGlobal | irqlRestore | requiresSame | call | predecessor | caller =>
    exact Set.finite_empty

lemma potential_finite (n : Node) : {v | getPotentialExitIrqlAtCfn P n v}.Finite := by
  refine (Set.finite_iUnion fun m => levelSource_finite (P := P) m).subset fun v hv => ?_
  refine potential_of_source P (p := fun w => w ∈ ⋃ m, {v | levelSource P m v}) ?_ hv
  exact fun m w hw => Set.mem_iUnion.mpr ⟨m, hw⟩

lemma irqlTooHigh_iff :
    IrqlTooHigh P limit n ↔ Bound P n ∧ ∀ v, getPotentialExitIrqlAtCfn P n v → limit < v := by
  refine ⟨fun ⟨m, hm, hlt⟩ => ⟨⟨m, hm.1⟩, fun v hv => hlt.trans_le (hm.2 hv)⟩, fun ⟨hb, hall⟩ => ?_⟩
  obtain ⟨m, hm, hmin⟩ := Set.exists_min_image _ id (potential_finite (P := P) n) hb
  exact ⟨m, ⟨hm, hmin⟩, hall m hm⟩

end TooHigh

/-! ### The query -/

section Query

variable (P : ConstantProgram Fn Node) (ksec : Node)

def KeSetEventCall : Prop := P.CallTo (fun f => matchesPattern f.getName "KeSetEvent") ksec

instance : Decidable (KeSetEventCall P ksec) := inferInstanceAs (Decidable (P.CallTo _ ksec))

/-- `ksec.getArgument(2).getValue()`. -/
def waitValue : Option String := (P.getArgument ksec)[2]?.bind P.getValue

/-- Some IRQL before the call is in the range `[0 .. top]`. -/
def BoundWithin (top : ℤ) : Prop :=
  ∃ i, 0 ≤ i ∧ i ≤ top ∧ ∃ prior, P.Edge prior ksec ∧ getPotentialExitIrqlAtCfn P.toProgram prior i

/-- The query gives the message for the call, and has a function to show for it. -/
def Selected (message : String) (scope : Fn) : Prop :=
  KeSetEventCall P ksec ∧ scope ∈ P.getControlFlowScope ksec ∧
    (waitValue P ksec = some "0" ∧ ¬ BoundWithin P ksec 2 ∧ message =
        "KeSetEvent should not be called above DISPATCH_LEVEL when Wait is set to false." ∨
      waitValue P ksec = some "1" ∧ ¬ BoundWithin P ksec 1 ∧ message =
        "KeSetEvent should not be called at or above DISPATCH_LEVEL when Wait is set to true.")

def Reported : Prop := ∃ message scope, Selected P ksec message scope

/-- The highest IRQL at which the event may be set. -/
def limit (wait : String) : Option ℤ :=
  if wait = "0" then some 2 else if wait = "1" then some 1 else none

/-- The limit of the call, if the value of its argument `Wait` is known. -/
def callLimit : Option ℤ := (waitValue P ksec).bind limit

/-- A call is reported only if all IRQLs at some node before it exceed the limit, of which there is
one at least. -/
structure Agrees : Prop where
  levels : Reported P ksec → ∃ l ∈ callLimit P ksec, ∃ prior, P.Edge prior ksec ∧
    Bound P.toProgram prior ∧ ∀ v, getPotentialExitIrqlAtCfn P.toProgram prior v → l < v
  test : Reported P ksec → ∃ l ∈ callLimit P ksec, ∃ prior, P.Edge prior ksec ∧
    IrqlTooHigh P.toProgram l prior
  silent : (∀ prior, P.Edge prior ksec → ¬ Bound P.toProgram prior) → ¬ Reported P ksec

variable {P ksec} {prior : Node}

omit [DecidableEq Fn] [DecidableEq Node] [Fintype Node] in
lemma mem_callLimit {l : ℤ} : l ∈ callLimit P ksec ↔
    waitValue P ksec = some "0" ∧ l = 2 ∨ waitValue P ksec = some "1" ∧ l = 1 := by
  unfold callLimit limit
  cases waitValue P ksec with
  | none => simp
  | some wait =>
    by_cases h0 : wait = "0"
    · subst h0; simp [eq_comm]
    · by_cases h1 : wait = "1"
      · subst h1; simp [eq_comm]
      · simp [h0, h1]

lemma reported_iff (hcall : KeSetEventCall P ksec) : Reported P ksec ↔
    (∃ scope, scope ∈ P.getControlFlowScope ksec) ∧
      ∃ l ∈ callLimit P ksec, ¬ BoundWithin P ksec l := by
  refine ⟨fun ⟨message, scope, _, hscope, h⟩ => ⟨⟨scope, hscope⟩, ?_⟩,
    fun ⟨⟨scope, hscope⟩, l, hl, hout⟩ => ?_⟩
  · obtain ⟨hwait, hout, -⟩ | ⟨hwait, hout, -⟩ := h
    · exact ⟨2, mem_callLimit.mpr (Or.inl ⟨hwait, rfl⟩), hout⟩
    · exact ⟨1, mem_callLimit.mpr (Or.inr ⟨hwait, rfl⟩), hout⟩
  · obtain ⟨hwait, rfl⟩ | ⟨hwait, rfl⟩ := mem_callLimit.mp hl
    · exact ⟨_, scope, hcall, hscope, Or.inl ⟨hwait, hout, rfl⟩⟩
    · exact ⟨_, scope, hcall, hscope, Or.inr ⟨hwait, hout, rfl⟩⟩

lemma agrees_of_levels (h : Reported P ksec → ∃ l ∈ callLimit P ksec, ∃ prior, P.Edge prior ksec ∧
    Bound P.toProgram prior ∧ ∀ v, getPotentialExitIrqlAtCfn P.toProgram prior v → l < v) :
    Agrees P ksec where
  levels := h
  test hreported := by
    obtain ⟨l, hl, prior, hedge, hlevels⟩ := h hreported
    exact ⟨l, hl, prior, hedge, irqlTooHigh_iff.mpr hlevels⟩
  silent hsilent hreported := by
    obtain ⟨l, hl, prior, hedge, hbound, -⟩ := h hreported
    exact hsilent prior hedge hbound

lemma agrees_of_nonneg (hcall : KeSetEventCall P ksec) (hedge : P.Edge prior ksec)
    (hbound : Bound P.toProgram prior)
    (hnonneg : ∀ v, getPotentialExitIrqlAtCfn P.toProgram prior v → 0 ≤ v) : Agrees P ksec := by
  refine agrees_of_levels fun hreported => ?_
  obtain ⟨-, l, hl, hout⟩ := (reported_iff hcall).mp hreported
  refine ⟨l, hl, prior, hedge, hbound, fun v hv => ?_⟩
  by_contra hle
  exact hout ⟨v, hnonneg v hv, not_lt.mp hle, prior, hedge, hv⟩

/-- With levels of the machine only, it is enough that the cascade or the fallback for loops leads
from some node before the call to a level. -/
theorem agrees_of_leadsToLevel (hP : LevelsInRange P.toProgram)
    (hdispatch : Sal.IrqlValue P.macros 2) (hraises : RaisesEvaluable P.toProgram)
    (hcall : KeSetEventCall P ksec) (hedge : P.Edge prior ksec)
    (hlevel : LeadsToLevel P.toProgram prior ∨
      ∃ prev, ClosestBefore P.toProgram prior prev ∧ LeadsToLevel P.toProgram prev) :
    Agrees P ksec := by
  refine agrees_of_nonneg hcall hedge (exists_potential_iff.mpr hlevel) fun v hv => ?_
  obtain ⟨M, -, h0, -⟩ := potential_of_source P.toProgram
    (fun m w => irqlValue_of_levelSource hP hdispatch hraises) hv
  exact h0

/-- **A call is reported only where the IRQL is too high iff it is outside of all functions, or
some IRQL before it is within its limit, or at some node before it IRQLs are bound and none of them
is negative.** -/
theorem setEvent_agrees_iff (hcall : KeSetEventCall P ksec) :
    Agrees P ksec ↔ P.getControlFlowScope ksec = none ∨ ∀ l ∈ callLimit P ksec,
      BoundWithin P ksec l ∨ ∃ prior, P.Edge prior ksec ∧ Bound P.toProgram prior ∧
        ∀ v, getPotentialExitIrqlAtCfn P.toProgram prior v → 0 ≤ v := by
  refine ⟨fun h => ?_, fun h => ?_⟩
  · cases hscope : P.getControlFlowScope ksec with
    | none => exact Or.inl rfl
    | some scope =>
      refine Or.inr fun l hl => ?_
      by_contra hnot
      rw [not_or] at hnot
      have hreported : Reported P ksec := (reported_iff hcall).mpr ⟨⟨scope, hscope⟩, l, hl, hnot.1⟩
      obtain ⟨l', hl', prior, hedge, hbound, hlevels⟩ := h.levels hreported
      have hpos : 0 ≤ l' := by
        obtain ⟨-, rfl⟩ | ⟨-, rfl⟩ := mem_callLimit.mp hl' <;> omega
      exact hnot.2 ⟨prior, hedge, hbound, fun v hv => hpos.trans (hlevels v hv).le⟩
  · by_cases hreported : Reported P ksec
    · obtain ⟨⟨scope, hscope⟩, l, hl, hout⟩ := (reported_iff hcall).mp hreported
      obtain hnone | hlimit := h
      · exact absurd hnone (by rw [Option.mem_def.mp hscope]; exact Option.some_ne_none scope)
      · obtain ⟨prior, hedge, hbound, hnonneg⟩ := (hlimit l hl).resolve_left hout
        exact agrees_of_nonneg hcall hedge hbound hnonneg
    · exact agrees_of_levels fun hr => absurd hr hreported

end Query

/-! ### A level that is no literal -/

inductive Routine
  | routine | keRaiseIrql | keSetEvent
  deriving DecidableEq

/-- `KeRaiseIrql(level, &old); KeSetEvent(event, 0, FALSE);` in a routine, with the value of the
level if it is a literal. The nodes are the body, each statement before its arguments and its call,
and the exits of the routine and of the two functions. -/
def raiseAndSet (level : Option String) : ConstantProgram Routine (Fin 14) where
  macros := wdm
  function f :=
    match f with
    | .routine => { getName := "routine" }
    | .keRaiseIrql => { getName := "KeRaiseIrql" }
    | .keSetEvent => { getName := "KeSetEvent" }
  getBlock f := if f = .routine then some 0 else none
  exitNode f :=
    match f with
    | .routine => 11
    | .keRaiseIrql => 12
    | .keSetEvent => 13
  getASuccessor n := if n < 11 then [n + 1] else []
  getControlFlowScope n :=
    some (if n = 12 then .keRaiseIrql else if n = 13 then .keSetEvent else .routine)
  getTarget n := if n = 5 then some .keRaiseIrql else if n = 10 then some .keSetEvent else none
  getArgument n := if n = 5 then [2, 4] else if n = 10 then [7, 8, 9] else []
  literalValue n := if n = 2 then level else if n = 8 ∨ n = 9 then some "0" else none
  getEnclosingStmt n :=
    if n = 0 then some 0 else if n < 6 then some 1 else if n < 11 then some 6 else none
  getParent n := if n = 1 ∨ n = 6 then some 0 else none
  isStmt n := n = 0 ∨ n = 1 ∨ n = 6
  getValue n := if n = 2 then level else if n = 8 ∨ n = 9 then some "0" else none
  successor_scope := by decide
  exit_scope f := by cases f <;> rfl
  exit_enclosing f := by cases f <;> rfl
  block_scope f := by cases f <;> decide
  block_enclosing f := by cases f <;> decide

theorem agrees_raiseAndSet_passive : Agrees (raiseAndSet (some "0")) 10 := by
  refine (setEvent_agrees_iff (by decide)).mpr (Or.inr fun l hl => Or.inl ?_)
  obtain rfl : l = 2 := by
    obtain ⟨-, rfl⟩ | ⟨hwait, -⟩ := mem_callLimit.mp hl
    · rfl
    · exact absurd hwait (by decide)
  exact ⟨0, le_refl 0, by omega, 9, by decide, Or.inl (by decide)⟩

/-- The level is a parameter, so that no IRQL is bound before the event is set, and the call is
reported. -/
theorem raiseAndSet_unbound_reported :
    KeSetEventCall (raiseAndSet none) 10 ∧ callLimit (raiseAndSet none) 10 = some 2 ∧
      (∀ prior, (raiseAndSet none).Edge prior 10 → ¬ Bound (raiseAndSet none).toProgram prior) ∧
      Reported (raiseAndSet none) 10 ∧ ¬ Agrees (raiseAndSet none) 10 := by
  have hcall : KeSetEventCall (raiseAndSet none) 10 := by decide
  have hsilent : ∀ prior, (raiseAndSet none).Edge prior 10 →
      ¬ Bound (raiseAndSet none).toProgram prior := by
    intro prior hedge hbound
    obtain rfl : prior = 9 := by
      clear hbound
      revert prior
      decide
    unfold Bound at hbound
    rw [exists_potential_iff] at hbound
    obtain h | ⟨prev, ⟨s, -, l, -, hloop, -⟩, -⟩ := hbound
    · exact absurd h (by decide)
    · exact Bool.false_ne_true hloop
  have hreported : Reported (raiseAndSet none) 10 := by
    refine (reported_iff hcall).mpr ⟨⟨.routine, rfl⟩, 2, by decide, ?_⟩
    rintro ⟨i, -, -, prior, hedge, hi⟩
    exact hsilent prior hedge ⟨i, hi⟩
  exact ⟨hcall, by decide, hsilent, hreported, fun h => h.silent hsilent hreported⟩

end DriverQueries.SetEvent
