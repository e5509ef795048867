import DriverQueries.BodyRuns
import DriverQueries.Calls
import DriverQueries.CopyRules

/-!
Initialization of a device after its creation.

The framework owns a WDFDEVICE_INIT struct from the call of WdfDeviceCreate on. The query looks for
a call that initializes the struct and comes later: in the function of the creation, or in a
function that is called there afterwards, directly or not. This is compared with the runs that go on
from the creation: no initialization that a run makes before the function of the creation returns
is missed, and where functions return and paths lead to all nodes of their bodies, no other one is
reported.
-/

namespace DriverQueries.DeviceInit

open Relation DriverQueries.Text DriverQueries.Database DriverQueries.CopyRules
open DriverQueries.Calls DriverQueries.CallRuns DriverQueries.BodyRuns

/-! ### The query -/

/-- The names of the functions that initialize or change a WDFDEVICE_INIT struct. -/
def initializationApis : List String :=
  ["WdfDeviceInitSetPnpPowerEventCallbacks", "WdfDeviceInitSetFileObjectConfig",
    "WdfDeviceInitSetExclusive", "WdfDeviceInitSetPowerPolicyEventCallbacks",
    "WdfDeviceInitSetPowerPolicyOwnership", "WdfDeviceInitRegisterPnpStateChangeCallback",
    "WdfDeviceInitRegisterPowerStateChangeCallback",
    "WdfDeviceInitRegisterPowerPolicyStateChangeCallback", "WdfDeviceInitSetIoType",
    "WdfDeviceInitSetPowerNotPageable", "WdfDeviceInitSetPowerPageable",
    "WdfDeviceInitSetPowerInrush", "WdfDeviceInitSetDeviceType", "WdfDeviceInitAssignName",
    "WdfDeviceInitAssignSDDLString", "WdfDeviceInitSetDeviceClass",
    "WdfDeviceInitSetCharacteristics", "WdfDeviceInitSetRequestAttributes",
    "WdfDeviceInitAssignWdmIrpPreprocessCallback", "WdfDeviceInitSetIoInCallerContextCallback",
    "WdfFdoInitSetFilter", "WdfFdoInitWdmGetPhysicalDevice", "WdfFdoInitOpenRegistryKey",
    "WdfFdoInitQueryProperty", "WdfFdoInitAllocAndQueryProperty", "WdfFdoInitSetEventCallbacks",
    "WdfFdoInitSetDefaultChildListConfig"]

def WdfInitializationApi (g : FunctionInfo) : Prop := g.getName ∈ initializationApis

def WdfDeviceCreate (g : FunctionInfo) : Prop := matchesPattern g.getName "WdfDeviceCreate"

instance : DecidablePred WdfInitializationApi := fun _ => inferInstanceAs (Decidable (_ ∈ _))
instance : DecidablePred WdfDeviceCreate := fun _ => inferInstanceAs (Decidable (_ = _))

variable {Fn Node : Type} (P : Program Fn Node)

def Descends (n e : Node) : Prop := ReflTransGen (fun n m => ∃ i, (i, m) ∈ P.children n) n e

instance [DecidableEq Node] : DecidableRel fun n m => ∃ i, (i, m) ∈ P.children n :=
  fun n m => decidable_of_iff (m ∈ (P.children n).map (·.2)) (by simp)
instance [Fintype Node] [DecidableEq Node] : DecidableRel (Descends P) :=
  fun n e => inferInstanceAs (Decidable (ReflTransGen _ n e))

/-- The expression is in the first argument of the call, which calls a function of the class. -/
def InArgument (cls : FunctionInfo → Prop) (c e : Node) : Prop :=
  P.CallTo cls c ∧ ∃ a, (P.getArgument c)[0]? = some a ∧ Descends P a e

/-- `fc2.getControlFlowScope() = fc.getTarget()`. -/
def InBody (fc fc2 : Node) : Prop :=
  FunctionCall P fc ∧ FunctionCall P fc2 ∧ P.getControlFlowScope fc2 = P.getTarget fc

def isWdfInitializationApiCall_aux (fc : Node) : Prop :=
  Derives (fun fc (_ : Unit) => P.CallTo WdfInitializationApi fc) (InBody P) fc ()

def isChildExpr (e func : Node) : Prop :=
  Derives (fun func e => FunctionCall P func ∧ Descends P func e) (InBody P) func e

def isSource (source : Node) : Prop := ∃ fc, InArgument P WdfDeviceCreate fc source

def isSink (sink : Node) : Prop := ∃ fc, InArgument P WdfInitializationApi fc sink

def isAdditionalFlowStep (source sink : Node) : Prop :=
  ∃ fc, InArgument P WdfDeviceCreate fc source ∧ P.getControlFlowScope sink = P.getTarget fc

/-- `InitAPIDataFlow::flowPath`, where `Global` is the data flow with additional steps. -/
def flowPath (Global : (Node → Node → Prop) → Node → Node → Prop) (e1 e2 : Node) : Prop :=
  isSource P e1 ∧ isSink P e2 ∧ Global (isAdditionalFlowStep P) e1 e2

/-- The pairs of expressions that are reported. -/
def DeviceInitApi (Global : (Node → Node → Prop) → Node → Node → Prop) (e1 e2 : Node) : Prop :=
  (∃ driverCreateCall apiCall, FunctionCall P driverCreateCall ∧ FunctionCall P apiCall ∧
      isWdfInitializationApiCall_aux P apiCall ∧ Descends P driverCreateCall e1 ∧
      isChildExpr P e2 apiCall ∧ ReflTransGen P.Edge driverCreateCall apiCall) ∧
    flowPath P Global e1 e2

/-! ### Calls under a call -/

variable {P} {c m n a : Node} {f g : Fn} {Global : (Node → Node → Prop) → Node → Node → Prop}
  {e1 e2 : Node}

lemma functionCall_of_callTo {cls : FunctionInfo → Prop} (h : P.CallTo cls c) :
    FunctionCall P c := by
  obtain ⟨g, hg, -⟩ := h
  exact Option.isSome_iff_exists.mpr ⟨g, hg⟩

lemma inBody_of_calls (hm : P.getTarget m = some f) (h : ReflTransGen (Calls P) f g)
    (ha : P.getControlFlowScope a = some g) (hcall : FunctionCall P a) :
    TransGen (InBody P) m a := by
  induction h using ReflTransGen.head_induction_on generalizing m with
  | refl => exact .single ⟨by simp [FunctionCall, hm], hcall, ha.trans hm.symm⟩
  | head hstep _ ih =>
    obtain ⟨k, hk, htarget⟩ := hstep
    refine TransGen.head ⟨by simp [FunctionCall, hm], ?_, hk.trans hm.symm⟩ (ih htarget)
    simp [FunctionCall, htarget]

/-- **The calls that a call makes, directly or not, are those under its function.** -/
theorem inBody_iff_under (hm : P.getTarget m = some g) (hcall : FunctionCall P a) :
    TransGen (InBody P) m a ↔ Under P g a := by
  constructor
  · intro h
    induction h with
    | single h => exact ⟨g, .refl, h.2.2.trans hm⟩
    | @tail k a _ h ih =>
      obtain ⟨f, hf, hk⟩ := ih h.1
      obtain ⟨g', hg'⟩ := Option.isSome_iff_exists.mp h.1
      exact ⟨g', hf.tail ⟨k, hk, hg'⟩, h.2.2.trans hg'⟩
  · rintro ⟨f, hf, ha⟩
    exact inBody_of_calls hm hf ha hcall

lemma aux_iff : isWdfInitializationApiCall_aux P m ↔
    ∃ a, ReflTransGen (InBody P) m a ∧ P.CallTo WdfInitializationApi a := derives_iff_reach

lemma isChildExpr_iff {e : Node} : isChildExpr P e m ↔
    ∃ a, ReflTransGen (InBody P) m a ∧ FunctionCall P a ∧ Descends P a e := derives_iff_reach

/-! ### Calls of a run -/

/-- The run goes on from the call: in the body of its function, or after it. -/
def From (P : Program Fn Node) (c n : Node) : Prop := n = c ∨ ∃ g ∈ P.getTarget c, n ∈ P.getBlock g

/-- A run makes the call `a` after the call `c` has begun and before the function of `c` returns. -/
def Makes (P : Program Fn Node) (c a : Node) : Prop :=
  ∃ n, RunComesTo P (From P c) n ∧ P.Edge n a

lemma under_of_edge (h : Under P g n) (hedge : P.Edge n a) : Under P g a := by
  obtain ⟨f, hf, hn⟩ := h
  exact ⟨f, hf, (P.successor_scope n a hedge).trans hn⟩

lemma exists_call_of_makes (hc : FunctionCall P c) (ha : FunctionCall P a) (h : Makes P c a) :
    ∃ m, ReflTransGen P.Edge c m ∧ FunctionCall P m ∧ ReflTransGen (InBody P) m a := by
  obtain ⟨n, hrun, hedge⟩ := h
  obtain ⟨s, rfl | ⟨g, hg, hs⟩, hlead⟩ := leadsTo_of_runComesTo hrun
  · rcases hlead with hpath | ⟨m, g, hm, hg, hunder⟩
    · exact ⟨a, hpath.tail hedge, ha, .refl⟩
    · have hcalls := (inBody_iff_under hg ha).mpr (under_of_edge hunder hedge)
      exact ⟨m, hm.to_reflTransGen, by simp [FunctionCall, hg], hcalls.to_reflTransGen⟩
  · have hcalls := (inBody_iff_under hg ha).mpr (under_of_edge (hlead.under hs) hedge)
    exact ⟨c, .refl, hc, hcalls.to_reflTransGen⟩

/-- Where functions return and paths lead to all nodes of their bodies, runs make the calls that the
query finds. -/
lemma makes_of_inBody (hfeasible : Feasible P) (ha : FunctionCall P a)
    (hf : P.getControlFlowScope a = some f) (hne : a ≠ c) (hm : ReflTransGen P.Edge c m)
    (h : ReflTransGen (InBody P) m a) : Makes P c a := by
  have hbody := hfeasible.bodies a f hf ha
  have hcomes : ∀ n, P.Edge n a → (∃ s, From P c s ∧ LeadsTo P s n) → Makes P c a := by
    intro n hedge hlead
    refine ⟨n, (runComesTo_iff hfeasible fun g hg => ?_).mpr hlead, hedge⟩
    rw [← P.successor_scope n a hedge, hf, Option.some.injEq] at hg
    exact hg ▸ hbody
  -- the call is in the function of the creation, or in one that is called after it
  rcases reflTransGen_iff_eq_or_transGen.mp h with rfl | hcalls
  · rcases reflTransGen_iff_eq_or_transGen.mp hm with heq | hpath
    · exact absurd heq hne
    · obtain ⟨n, hn, hedge⟩ := TransGen.tail'_iff.mp hpath
      exact hcomes n hedge ⟨c, .inl rfl, .inl hn⟩
  · obtain ⟨k, hk, -⟩ := TransGen.head'_iff.mp hcalls
    obtain ⟨g, hg⟩ := Option.isSome_iff_exists.mp hk.1
    obtain ⟨b, hb⟩ := Option.isSome_iff_exists.mp hbody
    obtain ⟨n, -, hedge⟩ := TransGen.tail'_iff.mp (transGen_of_call hfeasible hb hf ha)
    have hunder : Under P g n := by
      obtain ⟨f', hf', hscope⟩ := (inBody_iff_under hg ha).mp hcalls
      exact ⟨f', hf', (P.successor_scope n a hedge).symm.trans hscope⟩
    rcases reflTransGen_iff_eq_or_transGen.mp hm with rfl | hpath
    · have hgbody : (P.getBlock g).isSome := by
        obtain ⟨f', hf', hscope⟩ := (inBody_iff_under hg ha).mp hcalls
        exact isSome_of_calls hfeasible hf' (hfeasible.bodies a f' hscope ha)
      obtain ⟨s, hs⟩ := Option.isSome_iff_exists.mp hgbody
      exact hcomes n hedge ⟨s, .inr ⟨g, hg, hs⟩, (leadsTo_iff_under hfeasible hs).mpr hunder⟩
    · exact hcomes n hedge ⟨c, .inl rfl, .inr ⟨m, g, hpath, hg, hunder⟩⟩

/-! ### Alerts -/

lemma not_create_of_init {g : FunctionInfo} (h : WdfInitializationApi g) : ¬ WdfDeviceCreate g := by
  intro hcreate
  have hname : "WdfDeviceCreate" = g.getName := String.toList_injective
    (like_plain (by decide) hcreate)
  have hnot : "WdfDeviceCreate" ∉ initializationApis := by decide
  exact hnot (hname ▸ h)

lemma ne_of_calls (hc : P.CallTo WdfDeviceCreate c) (ha : P.CallTo WdfInitializationApi a) :
    a ≠ c := by
  rintro rfl
  obtain ⟨g, hg, hcreate⟩ := hc
  obtain ⟨g', hg', hinit⟩ := ha
  obtain rfl : g = g' := Option.some.inj (hg.symm.trans hg')
  exact not_create_of_init hinit hcreate

/-- The arguments of calls are children of the calls. -/
def ArgumentsDescend (P : Program Fn Node) : Prop := ∀ n, ∀ a ∈ P.getArgument n, Descends P n a

lemma InArgument.descends {cls : FunctionInfo → Prop} {e : Node} (hchild : ArgumentsDescend P)
    (h : InArgument P cls c e) : Descends P c e := by
  obtain ⟨-, a, ha, hae⟩ := h
  exact (hchild c a (List.mem_of_getElem? ha)).trans hae

lemma exists_apiCall (hchild : ArgumentsDescend P) (hc : InArgument P WdfDeviceCreate c e1)
    (ha : InArgument P WdfInitializationApi a e2) (hrun : Makes P c a) :
    ∃ driverCreateCall apiCall, FunctionCall P driverCreateCall ∧ FunctionCall P apiCall ∧
      isWdfInitializationApiCall_aux P apiCall ∧ Descends P driverCreateCall e1 ∧
      isChildExpr P e2 apiCall ∧ ReflTransGen P.Edge driverCreateCall apiCall := by
  have hcall := functionCall_of_callTo hc.1
  have hcall' := functionCall_of_callTo ha.1
  obtain ⟨m, hm, hmcall, hcalls⟩ := exists_call_of_makes hcall hcall' hrun
  refine ⟨c, m, hcall, hmcall, aux_iff.mpr ⟨a, hcalls, ha.1⟩, hc.descends hchild, ?_, hm⟩
  exact isChildExpr_iff.mpr ⟨a, hcalls, hcall', ha.descends hchild⟩

/-- **An initialization that a run makes after the creation, before the function of the creation
returns, is reported** with the expressions that the struct flows between. -/
theorem alert_of_makes (hchild : ArgumentsDescend P) (hc : InArgument P WdfDeviceCreate c e1)
    (ha : InArgument P WdfInitializationApi a e2) (hrun : Makes P c a)
    (hflow : Global (isAdditionalFlowStep P) e1 e2) : DeviceInitApi P Global e1 e2 :=
  ⟨exists_apiCall hchild hc ha hrun, ⟨c, hc⟩, ⟨a, ha⟩, hflow⟩

/-- No other call has the expression among its descendants. -/
def OnlyCall (P : Program Fn Node) (c e : Node) : Prop :=
  ∀ d, FunctionCall P d → Descends P d e → d = c

/-- **The expressions of a creation and of an initialization are reported iff the struct flows
between them and a run makes the initialization after the creation, before the function of the
creation returns**, where functions return and paths lead to all nodes of their bodies. -/
theorem alert_iff_makes (hfeasible : Feasible P) (hchild : ArgumentsDescend P)
    (hc : InArgument P WdfDeviceCreate c e1) (ha : InArgument P WdfInitializationApi a e2)
    (hf : P.getControlFlowScope a = some f) (hone : OnlyCall P c e1) (hone' : OnlyCall P a e2) :
    DeviceInitApi P Global e1 e2 ↔ Makes P c a ∧ Global (isAdditionalFlowStep P) e1 e2 := by
  refine ⟨fun h => ?_, fun h => ⟨exists_apiCall hchild hc ha h.1, ⟨c, hc⟩, ⟨a, ha⟩, h.2⟩⟩
  obtain ⟨⟨d, m, hd, -, -, hde, hme, hpath⟩, -, -, hflow⟩ := h
  obtain rfl := hone d hd hde
  obtain ⟨a', hcalls, ha', hae⟩ := isChildExpr_iff.mp hme
  obtain rfl := hone' a' ha' hae
  have hne := ne_of_calls hc.1 ha.1
  exact ⟨makes_of_inBody hfeasible (functionCall_of_callTo ha.1) hf hne hpath hcalls, hflow⟩

/-! ### An example -/

local instance neZero_five : @NeZero ℕ Zero.ofOfNat0 5 := ⟨Nat.succ_ne_zero 4⟩

/-- `EvtDeviceAdd(init) { WdfDeviceInitSetExclusive(init); WdfDeviceCreate(init); SetUp(init); }`
and `SetUp(init) { WdfDeviceInitSetIoType(init); }`. -/
def deviceAdd : Program (Fin 5) (Fin 15) where
  function f :=
    { getName := ["EvtDeviceAdd", "SetUp", "WdfDeviceCreate", "WdfDeviceInitSetExclusive",
        "WdfDeviceInitSetIoType"].getD f "" }
  getBlock f := [some 0, some 8].getD f none
  exitNode f := [7, 11, 12, 13, 14].getD f 7
  getASuccessor n := if n = 7 ∨ 11 ≤ n then [] else [n + 1]
  getControlFlowScope n :=
    if n ≤ 7 then some 0 else if n ≤ 11 then some 1 else [some 2, some 3, some 4].getD (n - 12) none
  getTarget n :=
    if n = 2 then some 3 else if n = 4 then some 2 else if n = 6 then some 1
    else if n = 10 then some 4 else none
  getArgument n := if n = 2 ∨ n = 4 ∨ n = 6 ∨ n = 10 then [n - 1] else []
  children n := if n = 2 ∨ n = 4 ∨ n = 6 ∨ n = 10 then [(0, n - 1)] else []
  successor_scope := by decide
  exit_scope := by decide
  exit_enclosing := by decide
  block_scope := by decide
  block_enclosing := by decide

/-- The struct flows from a use to the later ones. -/
def laterUse (_ : Fin 15 → Fin 15 → Prop) (e1 e2 : Fin 15) : Prop := e1 ≤ e2

lemma deviceAdd_step {s n : Fin 15} {start : Fin 15 → Prop}
    (h : Local (system deviceAdd start) s n)
    (hstep : deviceAdd.Edge n (n + 1) ∧ ∀ g ∈ deviceAdd.getTarget (n + 1),
      deviceAdd.getBlock g = none) : Local (system deviceAdd start) s (n + 1) :=
  h.step hstep

lemma setUp_returns {start : Fin 15 → Prop} : Local (system deviceAdd start) 8 11 := by
  have h : Local (system deviceAdd start) 8 9 := deviceAdd_step .refl (by decide)
  exact deviceAdd_step (n := 10) (deviceAdd_step h (by decide)) (by decide)

lemma deviceAdd_returns {start : Fin 15 → Prop} : Local (system deviceAdd start) 0 7 := by
  have h : Local (system deviceAdd start) 0 2 :=
    deviceAdd_step (n := 1) (deviceAdd_step .refl (by decide)) (by decide)
  have h : Local (system deviceAdd start) 0 5 :=
    deviceAdd_step (n := 4) (deviceAdd_step (n := 3) (deviceAdd_step h (by decide)) (by decide))
      (by decide)
  have h : Local (system deviceAdd start) 0 6 :=
    .call h ⟨by decide, 1, rfl, rfl⟩ setUp_returns ⟨rfl, 1, rfl, rfl⟩
  exact deviceAdd_step h (by decide)

lemma deviceAdd_feasible : Feasible deviceAdd where
  returns g b hb := by
    have hg : ∀ g, ∀ b ∈ deviceAdd.getBlock g,
        (b = 0 ∧ deviceAdd.exitNode g = 7) ∨ (b = 8 ∧ deviceAdd.exitNode g = 11) := by
      decide
    rcases hg g b hb with ⟨rfl, hexit⟩ | ⟨rfl, hexit⟩ <;> rw [hexit]
    · exact deviceAdd_returns
    · exact setUp_returns
  visits := by decide
  blocks := by decide
  bodies := by decide

lemma deviceAdd_create : InArgument deviceAdd WdfDeviceCreate 4 3 := ⟨by decide, 3, rfl, .refl⟩

lemma deviceAdd_init {c : Fin 15} (hc : c = 2 ∨ c = 10) :
    InArgument deviceAdd WdfInitializationApi c (c - 1) := by
  rcases hc with rfl | rfl <;> exact ⟨by decide, _, rfl, .refl⟩

lemma deviceAdd_arguments : ArgumentsDescend deviceAdd := by
  unfold ArgumentsDescend
  decide

lemma deviceAdd_only {c : Fin 15} (hc : c = 2 ∨ c = 4 ∨ c = 10) :
    OnlyCall deviceAdd c (c - 1) := by
  unfold OnlyCall
  rcases hc with rfl | rfl | rfl <;> decide

lemma deviceAdd_makes : Makes deviceAdd 4 10 := by
  have hedge : deviceAdd.Edge 9 10 := by decide
  refine ⟨9, ⟨[6], (4, []), ⟨.inl rfl, rfl⟩, ?_⟩, hedge⟩
  refine .tail (.tail (.single (.step (t := 5) ?_)) (.enter (t := 8) ?_)) (.step ?_)
  · exact ⟨by decide, by simp [deviceAdd]⟩
  · exact ⟨by decide, 1, rfl, rfl⟩
  · exact ⟨by decide, by simp [deviceAdd]⟩

theorem alert_of_makes_deviceAdd : DeviceInitApi deviceAdd laterUse 3 9 :=
  alert_of_makes deviceAdd_arguments deviceAdd_create (deviceAdd_init (.inr rfl)) deviceAdd_makes
    (show (3 : Fin 15) ≤ 9 by decide)

theorem alert_iff_makes_deviceAdd :
    (DeviceInitApi deviceAdd laterUse 3 9 ↔
      Makes deviceAdd 4 10 ∧ laterUse (isAdditionalFlowStep deviceAdd) 3 9) ∧
    (DeviceInitApi deviceAdd laterUse 3 1 ↔
      Makes deviceAdd 4 2 ∧ laterUse (isAdditionalFlowStep deviceAdd) 3 1) :=
  ⟨alert_iff_makes deviceAdd_feasible deviceAdd_arguments deviceAdd_create
    (deviceAdd_init (.inr rfl)) rfl (deviceAdd_only (.inr (.inl rfl)))
    (deviceAdd_only (.inr (.inr rfl))),
  alert_iff_makes deviceAdd_feasible deviceAdd_arguments deviceAdd_create
    (deviceAdd_init (.inl rfl)) rfl (deviceAdd_only (.inr (.inl rfl))) (deviceAdd_only (.inl rfl))⟩

end DriverQueries.DeviceInit
