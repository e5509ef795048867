import DriverQueries.BodyRuns
import DriverQueries.CopyRules
import DriverQueries.WdmDrivers

/-!
Accesses of the fields of driver, device and extension objects.

Some fields of a driver object belong to DriverEntry. The query allows an access of them in each
function that DriverEntry calls, directly or through other functions, whoever else may call it. Here
this is compared with the runs of DriverEntry: where functions return and paths lead to all nodes
of their bodies, a run comes to an access iff it is allowed.
-/

namespace DriverQueries.FieldAccesses

open Relation DriverQueries.Text DriverQueries.Database DriverQueries.CopyRules
open DriverQueries.WdmDrivers DriverQueries.CallRuns DriverQueries.BodyRuns

/-! ### The query -/

/-- A struct, with the base name of the file of its definition. -/
structure Struct where
  getName : String
  getFile : String
  deriving DecidableEq

/-- An access of a field, with the text of its qualifier and the base name of its file. -/
structure FieldAccess where
  getParentScope : Struct
  getName : String
  getQualifier : String
  getFile : String
  deriving DecidableEq

/-- A struct of this name in wdm.h. -/
def WdmStruct (name : String) (s : Struct) : Prop :=
  matchesPattern s.getName name ∧ matchesPattern s.getFile "%wdm.h"

def DeviceObject : Struct → Prop := WdmStruct "_DEVICE_OBJECT"

def DriverObject : Struct → Prop := WdmStruct "_DRIVER_OBJECT"

def DriverExtension : Struct → Prop := WdmStruct "_DRIVER_EXTENSION"

instance (name : String) : DecidablePred (WdmStruct name) :=
  fun _ => inferInstanceAs (Decidable (_ ∧ _))
instance : DecidablePred DeviceObject := inferInstanceAs (DecidablePred (WdmStruct _))
instance : DecidablePred DriverObject := inferInstanceAs (DecidablePred (WdmStruct _))
instance : DecidablePred DriverExtension := inferInstanceAs (DecidablePred (WdmStruct _))

def Named (patterns : List String) (a : FieldAccess) : Prop :=
  ∃ p ∈ patterns, matchesPattern a.getName p

instance (patterns : List String) : DecidablePred (Named patterns) :=
  fun _ => inferInstanceAs (Decidable (∃ p ∈ _, _))

/-- The fields of a driver object that belong to DriverEntry. -/
def entryFields : List String :=
  ["DriverStartIo", "DriverUnload", "MajorFunction", "DriverExtension"]

def IllegalDeviceObjectFieldAccess (a : FieldAccess) : Prop :=
  DeviceObject a.getParentScope ∧
    ¬ Named ["DeviceExtension", "Flags", "Characteristics", "CurrentIrp", "DeviceType", "StackSize",
      "AlignmentRequirement", "DriverObject", "Vpb", "SecurityDescriptor"] a ∧
    ¬ matchesPattern a.getFile "wdm.h"

def IllegalDriverObjectFieldAccess (a : FieldAccess) : Prop :=
  DriverObject a.getParentScope ∧
    ¬ Named ["FastIoDispatch", "Size", "DeviceObject", "HardwareDatabase", "DriverInit"] a ∧
    ¬ matchesPattern a.getFile "wdm.h"

def IllegalDriverExtensionFieldAccess (a : FieldAccess) : Prop :=
  DriverExtension a.getParentScope ∧ ¬ Named ["AddDevice"] a

instance : DecidablePred IllegalDeviceObjectFieldAccess :=
  fun _ => inferInstanceAs (Decidable (_ ∧ _))
instance : DecidablePred IllegalDriverObjectFieldAccess :=
  fun _ => inferInstanceAs (Decidable (_ ∧ _))
instance : DecidablePred IllegalDriverExtensionFieldAccess :=
  fun _ => inferInstanceAs (Decidable (_ ∧ _))

def cannotBeAccessed (a : FieldAccess) : String :=
  "The '" ++ a.getName ++ "' field of the " ++ a.getQualifier ++
    " struct cannot be accessed by a driver."

/-- `getErrorMessage` of an access of a field of a device object. -/
def deviceObjectMessage (a : FieldAccess) : String :=
  if Named ["NextDevice"] a then
    "The 'NextDevice' field of the " ++ a.getQualifier ++
      " struct can only be accessed in DriverEntry or DriverUnload."
  else cannotBeAccessed a

/-- `getErrorMessage` of an access of a field of a driver object. -/
def driverObjectMessage (a : FieldAccess) : String :=
  if Named entryFields a then
    "The '" ++ a.getName ++ "' field of the " ++ a.getQualifier ++
      " struct can only be accessed in a DriverEntry routine."
  else cannotBeAccessed a

variable {Fn Node : Type} (P : Program Fn Node) (D : Driver Fn)

def WdmDriverUnload (f : Fn) : Prop := CallbackOf D "DRIVER_UNLOAD" f

def calledFromDriverEntry (f : Fn) : Prop :=
  Derives (fun f (_ : Unit) => WdmDriverEntry D f) (fun f caller => Calls P caller f) f ()

inductive Alert (n : Node) (a : FieldAccess) : String → Prop
  | deviceObject (h : IllegalDeviceObjectFieldAccess a)
      (hillegal : ¬ Named ["NextDevice"] a ∨ Named ["NextDevice"] a ∧
        ¬ ∃ f ∈ P.getControlFlowScope n, WdmDriverEntry D f ∨ WdmDriverUnload D f) :
      Alert n a (deviceObjectMessage a)
  | driverObject (h : IllegalDriverObjectFieldAccess a)
      (hillegal : Named entryFields a ∧
        (¬ ∃ f ∈ P.getControlFlowScope n, calledFromDriverEntry P D f) ∨ ¬ Named entryFields a) :
      Alert n a (driverObjectMessage a)
  | driverExtension (h : IllegalDriverExtensionFieldAccess a) : Alert n a (cannotBeAccessed a)

/-! ### The runs of DriverEntry -/

def Begins (n : Node) : Prop := ∃ e, WdmDriverEntry D e ∧ n ∈ P.getBlock e

variable {P D} {n : Node} {f : Fn}

lemma calledFromDriverEntry_iff :
    calledFromDriverEntry P D f ↔ ∃ e, WdmDriverEntry D e ∧ ReflTransGen (Calls P) e f := by
  unfold calledFromDriverEntry
  rw [derives_iff_reach]
  exact exists_congr fun e => and_comm.trans (and_congr_right fun _ => reflTransGen_swap)

/-- **A run of a DriverEntry comes to a node of a body iff its function is called from
DriverEntry**, where functions return and paths lead to all nodes of their bodies. -/
theorem runComesTo_iff_calledFrom (hfeasible : Feasible P) (hn : P.getControlFlowScope n = some f)
    (hf : (P.getBlock f).isSome) :
    RunComesTo P (Begins P D) n ↔ calledFromDriverEntry P D f := by
  have hbody : ∀ g, P.getControlFlowScope n = some g → (P.getBlock g).isSome := by
    intro g hg
    obtain rfl : f = g := Option.some.inj (hn.symm.trans hg)
    exact hf
  rw [runComesTo_iff hfeasible hbody, calledFromDriverEntry_iff]
  constructor
  · rintro ⟨s, ⟨e, he, hs⟩, hlead⟩
    obtain ⟨g, hchain, hg⟩ := (leadsTo_iff_under hfeasible hs).mp hlead
    obtain rfl : f = g := Option.some.inj (hn.symm.trans hg)
    exact ⟨e, he, hchain⟩
  · rintro ⟨e, he, hchain⟩
    obtain ⟨s, hs⟩ := Option.isSome_iff_exists.mp (isSome_of_calls hfeasible hchain hf)
    exact ⟨s, ⟨e, he, hs⟩, (leadsTo_iff_under hfeasible hs).mpr ⟨f, hchain, hn⟩⟩

/-! ### Alerts -/

/-- Two patterns of single characters that a text matches give the same letters. -/
def Agree (p q : List Char) : Prop :=
  p.length = q.length ∧ ∀ x ∈ p.zip q, x.1 = '_' ∨ x.2 = '_' ∨ x.1 = x.2

instance (p q : List Char) : Decidable (Agree p q) := inferInstanceAs (Decidable (_ ∧ _))

lemma like_iff_single {c : Char} {p s : List Char} (hc : c ≠ '%' ∧ c ≠ '\\') :
    like (c :: p) s = true ↔ ∃ d t, s = d :: t ∧ (c = '_' ∨ c = d) ∧ like p t = true := by
  cases s with
  | nil => simp [like_cons_nil hc.1 hc.2]
  | cons d t => simp [like_cons hc.1 hc.2]

lemma agree_of_like {p q s : List Char} (hp : ∀ c ∈ p, c ≠ '%' ∧ c ≠ '\\')
    (hq : ∀ c ∈ q, c ≠ '%' ∧ c ≠ '\\') (h : like p s = true) (h' : like q s = true) :
    Agree p q := by
  induction p generalizing q s with
  | nil =>
    obtain rfl := List.isEmpty_iff.mp h
    cases q with
    | nil => exact ⟨rfl, by simp⟩
    | cons d q =>
      rw [like_iff_single (hq d List.mem_cons_self)] at h'
      obtain ⟨_, _, hs, -⟩ := h'
      exact absurd hs (by simp)
  | cons c p ih =>
    rw [like_iff_single (hp c List.mem_cons_self)] at h
    obtain ⟨x, s, rfl, hx, h⟩ := h
    cases q with
    | nil => exact absurd h' (by simp [like])
    | cons d q =>
      rw [like_iff_single (hq d List.mem_cons_self)] at h'
      obtain ⟨y, t, hs, hy, h'⟩ := h'
      obtain ⟨rfl, rfl⟩ := List.cons.inj hs
      obtain ⟨hlength, hagree⟩ := ih (fun e he => hp e (List.mem_cons_of_mem c he))
        (fun e he => hq e (List.mem_cons_of_mem d he)) h h'
      refine ⟨congrArg (· + 1) hlength, fun e he => ?_⟩
      rcases List.mem_cons.mp he with rfl | he
      · grind
      · exact hagree e he

lemma not_deviceObject_of_driverObject {s : Struct} (h : DriverObject s) : ¬ DeviceObject s :=
  fun h' => absurd (agree_of_like (by simp) (by simp) h.1 h'.1) (by decide)

lemma not_driverExtension_of_driverObject {s : Struct} (h : DriverObject s) :
    ¬ DriverExtension s :=
  fun h' => absurd (agree_of_like (by simp) (by simp) h.1 h'.1) (by decide)

/-- **An access of a field that belongs to DriverEntry is reported iff no run of a DriverEntry comes
to it**, where functions return and paths lead to all nodes of their bodies. -/
theorem alert_iff_not_runComesTo {a : FieldAccess} (hfeasible : Feasible P)
    (hn : P.getControlFlowScope n = some f) (hf : (P.getBlock f).isSome)
    (ha : IllegalDriverObjectFieldAccess a) (hfield : Named entryFields a) :
    (∃ message, Alert P D n a message) ↔ ¬ RunComesTo P (Begins P D) n := by
  rw [runComesTo_iff_calledFrom hfeasible hn hf]
  constructor
  · rintro ⟨message, h⟩ hcalled
    cases h with
    | deviceObject h => exact not_deviceObject_of_driverObject ha.1 h.1
    | driverExtension h => exact not_driverExtension_of_driverObject ha.1 h.1
    | driverObject _ hillegal =>
      rcases hillegal with ⟨-, hnot⟩ | hnot
      · exact hnot ⟨f, hn, hcalled⟩
      · exact hnot hfield
  · intro hcalled
    refine ⟨_, .driverObject ha (.inl ⟨hfield, ?_⟩)⟩
    rintro ⟨g, hg, hcalled'⟩
    obtain rfl : f = g := Option.some.inj (hn.symm.trans hg)
    exact hcalled hcalled'

local instance neZero_three : @NeZero ℕ Zero.ofOfNat0 3 := ⟨Nat.succ_ne_zero 2⟩

local instance neZero_nine : @NeZero ℕ Zero.ofOfNat0 9 := ⟨Nat.succ_ne_zero 8⟩

/-- `DriverEntry() { SetUp(); }`, and two functions that access the dispatch table: `SetUp` and
`Dispatch`, which nothing calls. -/
def setUpProgram : Program (Fin 3) (Fin 9) where
  function f := { getName := ["DriverEntry", "SetUp", "Dispatch"].getD f "" }
  getBlock f := [some 0, some 3, some 6].getD f none
  exitNode f := [2, 5, 8].getD f 8
  getASuccessor n := if n = 2 ∨ n = 5 ∨ n = 8 then [] else [n + 1]
  getControlFlowScope n := if n < 3 then some 0 else if n < 6 then some 1 else some 2
  getTarget n := if n = 1 then some 1 else none
  successor_scope := by decide
  exit_scope := by decide
  exit_enclosing := by decide
  block_scope := by decide
  block_enclosing := by decide

def setUpDriver : Driver (Fin 3) where
  typedefs f := if f = 0 then [⟨"DRIVER_INITIALIZE", "wdm.h"⟩] else []
  assigns _ := []
  chained := by simp

/-- `DriverObject->MajorFunction`. -/
def majorFunction : FieldAccess :=
  ⟨⟨"_DRIVER_OBJECT", "wdm.h"⟩, "MajorFunction", "DriverObject", "driver.c"⟩

lemma setUp_returns (s : Fin 9) (hs : s = 3 ∨ s = 6) :
    Local (system setUpProgram fun _ => False) s (s + 2) := by
  have hcall : setUpProgram.Edge s (s + 1) ∧ setUpProgram.Edge (s + 1) (s + 2) ∧
      setUpProgram.getTarget (s + 1) = none ∧ setUpProgram.getTarget (s + 2) = none := by
    rcases hs with rfl | rfl <;> decide
  refine .step (.step .refl ⟨hcall.1, ?_⟩) ⟨hcall.2.1, ?_⟩
  · simp [hcall.2.2.1]
  · simp [hcall.2.2.2]

lemma setUp_feasible : Feasible setUpProgram where
  returns g b hb := by
    have hg : ∀ g : Fin 3, g = 0 ∨ g = 1 ∨ g = 2 := by decide
    rcases hg g with rfl | rfl | rfl <;> obtain rfl := Option.some.inj hb
    · have hcall : Local (system setUpProgram fun _ => False) 0 1 :=
        .call .refl ⟨by decide, 1, rfl, rfl⟩ (setUp_returns 3 (.inl rfl)) ⟨rfl, 1, rfl, rfl⟩
      exact hcall.step ⟨by decide, by simp [setUpProgram]⟩
    · exact setUp_returns 3 (.inl rfl)
    · exact setUp_returns 6 (.inr rfl)
  visits := by decide
  blocks := by decide
  bodies := by decide

theorem alert_iff_not_runComesTo_setUp :
    ((∃ message, Alert setUpProgram setUpDriver 4 majorFunction message) ↔
      ¬ RunComesTo setUpProgram (Begins setUpProgram setUpDriver) 4) ∧
    ((∃ message, Alert setUpProgram setUpDriver 7 majorFunction message) ↔
      ¬ RunComesTo setUpProgram (Begins setUpProgram setUpDriver) 7) :=
  ⟨alert_iff_not_runComesTo setUp_feasible rfl rfl (by decide) (by decide),
  alert_iff_not_runComesTo setUp_feasible rfl rfl (by decide) (by decide)⟩

end DriverQueries.FieldAccesses
