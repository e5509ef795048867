import DriverQueries.DriverIsolation

/-!
The Rtl functions of the registry, by the key that their first argument is relative to.

The query looks for macro invocations that are the first argument itself. A macro with flags
or-ed to it is part of the argument only.
-/

namespace DriverQueries.RtlAccess

open DriverQueries.Text DriverQueries.DriverIsolation

/-- The expressions of a database, with the operands of those that are a bitwise or. -/
structure OrExpressions (E : Type) extends Expressions E where
  bitwiseOr : E → Option (E × E)

/-! ### The query -/

variable {E : Type} (X : Expressions E)

/-- `f.getArgument(0) = m.getExpr()`, for an invocation `m` of a macro of the class. -/
def RelativeToMacro (cls : String → Prop) (f : E) : Prop :=
  ∃ e ∈ (X.getArgument f)[0]?, ∃ m ∈ X.getMacroName e, cls m

def RtlFunction (name : String) : Prop := matchesPattern name "Rtl%"

def ReadOnlyFunction (name : String) : Prop :=
  MatchesAny name ["RtlQueryRegistryValues%", "RtlQueryRegistryValuesEx%", "RtlCheckRegistryKey%"]

def DeviceMapMacro (m : String) : Prop := matchesPattern m "RTL_REGISTRY_DEVICEMAP"

def HandleMacro (m : String) : Prop := matchesPattern m "RTL_REGISTRY_HANDLE"

def exception2 (f : E) : Prop :=
  ∃ e ∈ (X.getArgument f)[1]?, ValueMatches X "serialcomm" e ∨ ValueMatches X "serialcomm\\%" e

def rtlViolation1 (f : E) : Prop :=
  RegistryIsolationFunctionCall X f ∧ CallTo X RtlFunction f ∧
    RelativeToMacro X (fun m => ¬ DeviceMapMacro m ∧ ¬ HandleMacro m) f

def rtlViolation2 (f : E) : Prop :=
  RegistryIsolationFunctionCall X f ∧ CallTo X RtlFunction f ∧
    RelativeToMacro X (fun m => DeviceMapMacro m ∧ ¬ CallTo X ReadOnlyFunction f) f ∧
    ¬ exception2 X f

def Reported (f : E) : Prop := rtlViolation1 X f ∨ rtlViolation2 X f

section Decidable

variable [DecidableEq E]

instance (cls : String → Prop) [DecidablePred cls] : DecidablePred (RelativeToMacro X cls) :=
  fun _ => inferInstanceAs (Decidable (∃ e ∈ _, ∃ m ∈ _, _))
instance : DecidablePred RtlFunction := fun _ => inferInstanceAs (Decidable (_ = true))
instance : DecidablePred ReadOnlyFunction := fun _ => inferInstanceAs (Decidable (MatchesAny _ _))
instance : DecidablePred DeviceMapMacro := fun _ => inferInstanceAs (Decidable (_ = true))
instance : DecidablePred HandleMacro := fun _ => inferInstanceAs (Decidable (_ = true))
instance (pattern : String) : DecidablePred (ValueMatches X pattern) :=
  fun _ => inferInstanceAs (Decidable (∃ v ∈ _, _))
instance : DecidablePred (exception2 X) :=
  fun _ => inferInstanceAs (Decidable (∃ e ∈ _, _ ∨ _))
instance : DecidablePred (rtlViolation1 X) := fun _ => inferInstanceAs (Decidable (_ ∧ _ ∧ _))
instance : DecidablePred (rtlViolation2 X) :=
  fun _ => inferInstanceAs (Decidable (_ ∧ _ ∧ _ ∧ ¬ _))
instance : DecidablePred (Reported X) := fun _ => inferInstanceAs (Decidable (_ ∨ _))

end Decidable

/-! ### The law -/

variable (Y : OrExpressions E)

/-- Flags for the first argument: no macro that names a key, or an or of such. -/
inductive Flags : E → Prop
  | flag {e : E} (hor : Y.bitwiseOr e = none)
      (hnames : ∀ m ∈ Y.getMacroName e, m = "RTL_REGISTRY_OPTIONAL") : Flags e
  | both {e l r : E} (hor : Y.bitwiseOr e = some (l, r)) (hname : Y.getMacroName e = [])
      (hl : Flags l) (hr : Flags r) : Flags e

/-- The expression is the macro, or the macro with flags or-ed to it. -/
inductive RelativeTo : E → String → Prop
  | alone {e : E} {m : String} (hname : Y.getMacroName e = [m]) : RelativeTo e m
  | orFlags {e l r : E} {m : String} (hor : Y.bitwiseOr e = some (l, r))
      (hname : Y.getMacroName e = []) (hl : RelativeTo l m) (hr : Flags Y r) : RelativeTo e m
  | flagsOr {e l r : E} {m : String} (hor : Y.bitwiseOr e = some (l, r))
      (hname : Y.getMacroName e = []) (hl : Flags Y l) (hr : RelativeTo r m) : RelativeTo e m

def readNames : List String :=
  ["RtlCheckRegistryKey", "RtlQueryRegistryValues", "RtlxQueryRegistryValues",
    "RtlQueryRegistryValuesEx"]

/-- The path is `SERIALCOMM`, or a path below it. -/
def SerialPath (path : String) : Prop :=
  toLowerCase path = "serialcomm".toList ∨ "serialcomm\\".toList <+: toLowerCase path

/-- The calls that an isolated driver may make. -/
def Exempt (function relativeTo path : String) : Prop :=
  relativeTo = "RTL_REGISTRY_HANDLE" ∨
    relativeTo = "RTL_REGISTRY_DEVICEMAP" ∧ (function ∈ readNames ∨ SerialPath path)

instance (path : String) : Decidable (SerialPath path) := inferInstanceAs (Decidable (_ ∨ _))
instance (function relativeTo path : String) : Decidable (Exempt function relativeTo path) :=
  inferInstanceAs (Decidable (_ ∨ _ ∧ _))

/-- A call of an Rtl function with the argument `e`, relative to the macro, and a constant path. -/
structure RtlCall (f e : E) (function relativeTo path : String) : Prop where
  target : Y.getTarget f = some function
  isolation : RtlRegistryIsolationFunction function
  argument : (Y.getArgument f)[0]? = some e
  relative : RelativeTo Y e relativeTo
  value : ∃ k ∈ (Y.getArgument f)[1]?, Y.getValue k = some path

/-- The pattern with an escaped percent sign, and the one without. -/
def ListedPath (path : String) : Prop :=
  toLowerCase path = "serialcomm".toList ∨ toLowerCase path = "serialcomm%".toList

instance (path : String) : Decidable (ListedPath path) := inferInstanceAs (Decidable (_ ∨ _))

/-- Where the query follows the law, for an argument that is a macro itself. -/
structure MacroLaw (function relativeTo path : String) : Prop where
  handle : HandleMacro relativeTo → relativeTo = "RTL_REGISTRY_HANDLE"
  lookalike : DeviceMapMacro relativeTo → relativeTo ≠ "RTL_REGISTRY_DEVICEMAP" →
    ¬ ReadOnlyFunction function ∧ ¬ ListedPath path
  extended : relativeTo = "RTL_REGISTRY_DEVICEMAP" → function = "RtlxQueryRegistryValues" →
    ListedPath path
  write : relativeTo = "RTL_REGISTRY_DEVICEMAP" → function ∉ readNames →
    toLowerCase path ≠ "serialcomm%".toList ∧ ¬ "serialcomm\\".toList <+: toLowerCase path

variable {Y} {f e : E} {function relativeTo path : String}

/-! ### Names -/

lemma not_handle_of_deviceMap (h : DeviceMapMacro relativeTo) : ¬ HandleMacro relativeTo := by
  intro h'
  have hlen := ((like_identifier_iff (by decide)).mp h).length_eq
  have hlen' := ((like_identifier_iff (by decide)).mp h').length_eq
  rw [← hlen] at hlen'
  exact absurd hlen' (by decide)

lemma deviceMap_self : DeviceMapMacro "RTL_REGISTRY_DEVICEMAP" := by decide
lemma handle_self : HandleMacro "RTL_REGISTRY_HANDLE" := by decide

lemma mem_rtlNames (h : RtlRegistryIsolationFunction function) : function ∈ rtlNames :=
  mem_of_matchesAny (by decide) h

lemma readOnly_iff (h : function ∈ rtlNames) :
    ReadOnlyFunction function ↔ function ∈ readNames ∧ function ≠ "RtlxQueryRegistryValues" := by
  revert function
  decide

lemma rtlFunction_of_mem (h : function ∈ rtlNames) :
    RtlFunction function ∧ RegistryIsolationFunction function := by
  revert function
  decide

lemma like_serial_percent (s : List Char) :
    like "serialcomm\\%".toList s = true ↔ s = "serialcomm%".toList := by
  have hplain : Plain "serialcomm".toList := by decide
  have hsplit : "serialcomm\\%".toList = "serialcomm".toList ++ ['\\', '%'] := by decide
  rw [hsplit, like_plain_append hplain]
  constructor
  · rintro ⟨t, rfl, ht⟩
    obtain ⟨u, rfl, hu⟩ := like_escaped_append (q := []) (p := []) (by simp [Plain]) ht
    rw [List.isEmpty_iff.mp hu]
    decide
  · rintro rfl
    exact ⟨['%'], by decide, by decide⟩

lemma like_serial (s : List Char) :
    like "serialcomm".toList s = true ↔ s = "serialcomm".toList := by
  rw [like_plain_iff (by decide), eq_comm]

/-! ### Where the query follows the law -/

lemma RtlCall.callTo_iff {cls : String → Prop} (h : RtlCall Y f e function relativeTo path) :
    CallTo Y.toExpressions cls f ↔ cls function :=
  DriverIsolation.callTo_iff h.target

lemma RtlCall.relativeToMacro_iff {cls : String → Prop}
    (h : RtlCall Y f e function relativeTo path) :
    RelativeToMacro Y.toExpressions cls f ↔ ∃ m ∈ Y.getMacroName e, cls m := by
  simp [RelativeToMacro, h.argument]

lemma RtlCall.exception2_iff (h : RtlCall Y f e function relativeTo path) :
    exception2 Y.toExpressions f ↔ ListedPath path := by
  obtain ⟨k, hk, hvalue⟩ := h.value
  have hk : (Y.getArgument f)[1]? = some k := hk
  simp only [exception2, ValueMatches, hk, hvalue, Option.mem_def, Option.some.injEq,
    exists_eq_left', like_serial, like_serial_percent, ListedPath]

/-- The two violations, by the macros that the first argument is. -/
lemma RtlCall.reported_iff (h : RtlCall Y f e function relativeTo path) :
    Reported Y.toExpressions f ↔
      ∃ m ∈ Y.getMacroName e, (¬ DeviceMapMacro m ∧ ¬ HandleMacro m) ∨
        (DeviceMapMacro m ∧ ¬ ReadOnlyFunction function ∧ ¬ ListedPath path) := by
  obtain ⟨hrtl, hcall⟩ := rtlFunction_of_mem (mem_rtlNames h.isolation)
  have hcall : RegistryIsolationFunctionCall Y.toExpressions f := h.callTo_iff.mpr hcall
  unfold Reported rtlViolation1 rtlViolation2
  simp only [h.relativeToMacro_iff, h.exception2_iff, h.callTo_iff, hcall, hrtl, true_and]
  constructor
  · rintro (⟨m, hm, hnot⟩ | ⟨⟨m, hm, hmap, hread⟩, hpath⟩)
    · exact ⟨m, hm, .inl hnot⟩
    · exact ⟨m, hm, .inr ⟨hmap, hread, hpath⟩⟩
  · rintro ⟨m, hm, hnot | ⟨hmap, hread, hpath⟩⟩
    · exact .inl ⟨m, hm, hnot⟩
    · exact .inr ⟨⟨m, hm, hmap, hread⟩, hpath⟩

lemma RelativeTo.names (h : RelativeTo Y e relativeTo) :
    Y.getMacroName e = [relativeTo] ∨ Y.getMacroName e = [] := by
  cases h with
  | alone hname => exact .inl hname
  | orFlags _ hname _ _ => exact .inr hname
  | flagsOr _ hname _ _ => exact .inr hname

/-- The path is listed and below `SERIALCOMM`, or neither, unless it is one of two kinds. -/
lemma listed_iff_serial :
    (ListedPath path ↔ SerialPath path) ↔
      toLowerCase path ≠ "serialcomm%".toList ∧ ¬ "serialcomm\\".toList <+: toLowerCase path := by
  unfold ListedPath SerialPath
  have hself : ∀ {s : List Char}, "serialcomm\\".toList <+: s →
      s ≠ "serialcomm".toList ∧ s ≠ "serialcomm%".toList := by
    rintro s hs
    constructor <;> rintro rfl <;> revert hs <;> decide
  constructor
  · intro h
    constructor
    · intro hpercent
      rcases h.mp (.inr hpercent) with heq | hpre
      · exact absurd (hpercent.symm.trans heq) (by decide)
      · exact (hself hpre).2 hpercent
    · intro hpre
      rcases h.mpr (.inr hpre) with heq | heq
      · exact (hself hpre).1 heq
      · exact (hself hpre).2 heq
  · rintro ⟨hpercent, hpre⟩
    rw [or_iff_left hpercent, or_iff_left hpre]

/-- Of the functions of the device map, the law and the query disagree on one that reads, and
where they disagree on the path. -/
lemma macroLaw_deviceMap_iff (hfunction : function ∈ rtlNames) :
    MacroLaw function "RTL_REGISTRY_DEVICEMAP" path ↔
      (¬ ReadOnlyFunction function ∧ ¬ ListedPath path ↔
        ¬ (function ∈ readNames ∨ SerialPath path)) := by
  rw [readOnly_iff hfunction]
  constructor
  · rintro ⟨-, -, hextended, hwrite⟩
    by_cases hread : function ∈ readNames
    · by_cases hx : function = "RtlxQueryRegistryValues"
      · have hpath := hextended rfl hx
        exact ⟨fun hnot => absurd hpath hnot.2, fun hnot => absurd (.inl hread) hnot⟩
      · simp [hread, hx]
    · have hiff := listed_iff_serial.mpr (hwrite rfl hread)
      simp [hread, hiff]
  · intro h
    refine ⟨fun hhandle => absurd hhandle (not_handle_of_deviceMap deviceMap_self),
      fun _ hne => absurd rfl hne, fun _ hx => ?_, fun _ hread => ?_⟩
    · have hread : function ∈ readNames := by simp [hx, readNames]
      by_contra hpath
      exact h.mp ⟨fun hr => hr.2 hx, hpath⟩ (.inl hread)
    · rw [← listed_iff_serial, ← not_iff_not]
      simpa [hread] using h

lemma reported_iff_of_macro (hfunction : function ∈ rtlNames) :
    (((¬ DeviceMapMacro relativeTo ∧ ¬ HandleMacro relativeTo) ∨
        (DeviceMapMacro relativeTo ∧ ¬ ReadOnlyFunction function ∧ ¬ ListedPath path)) ↔
      ¬ Exempt function relativeTo path) ↔ MacroLaw function relativeTo path := by
  -- other names match the pattern of the device map as well, but only the macro itself is exempt
  by_cases hmap : DeviceMapMacro relativeTo
  · have hhandle := not_handle_of_deviceMap hmap
    have hne : relativeTo ≠ "RTL_REGISTRY_HANDLE" := by
      rintro rfl
      exact hhandle handle_self
    by_cases hdevice : relativeTo = "RTL_REGISTRY_DEVICEMAP"
    · subst hdevice
      rw [macroLaw_deviceMap_iff hfunction]
      simp [Exempt, hmap]
    · have hexempt : ¬ Exempt function relativeTo path := by simp [Exempt, hne, hdevice]
      simp only [hmap, hexempt, not_true_eq_false, false_and, true_and, false_or, not_false_eq_true,
        iff_true]
      exact ⟨fun h => ⟨fun h' => absurd h' hhandle, fun _ _ => h, fun h' => absurd h' hdevice,
        fun h' => absurd h' hdevice⟩, fun h => h.lookalike hmap hdevice⟩
  · have hdevice : relativeTo ≠ "RTL_REGISTRY_DEVICEMAP" := by
      rintro rfl
      exact hmap deviceMap_self
    have hexempt : Exempt function relativeTo path ↔ relativeTo = "RTL_REGISTRY_HANDLE" := by
      simp [Exempt, hdevice]
    rw [hexempt]
    simp only [hmap, not_false_eq_true, true_and, false_and, or_false, not_iff_not]
    constructor
    · intro h
      exact ⟨h.mp, fun h' => absurd h' hmap, fun h' => absurd h' hdevice,
        fun h' => absurd h' hdevice⟩
    · intro h
      refine ⟨h.handle, ?_⟩
      rintro rfl
      exact handle_self

/-- **The query reports what the law forbids exactly if an or-ed argument is exempt, and a
macro is met by the query's patterns as the law has it.** -/
theorem reported_iff_not_exempt_iff (h : RtlCall Y f e function relativeTo path) :
    (Reported Y.toExpressions f ↔ ¬ Exempt function relativeTo path) ↔
      (Y.getMacroName e = [] → Exempt function relativeTo path) ∧
        (Y.getMacroName e ≠ [] → MacroLaw function relativeTo path) := by
  rw [h.reported_iff]
  rcases h.relative.names with hname | hname
  · rw [hname, ← reported_iff_of_macro (mem_rtlNames h.isolation)]
    simp
  · rw [hname]
    simp

/-! ### Calls with constant arguments -/

/-- A call `function(relativeTo, path, ...)`, or one with the optional flag or-ed to the macro. -/
def callOf (function relativeTo path : String) (withFlag : Bool) : OrExpressions ℕ where
  getParent _ := none
  getValue e := if e = 2 then some path else none
  getType _ := "ULONG"
  getTarget e := if e = 0 then some function else none
  getArgument e := if e = 0 then [1, 2] else []
  getMacroName
    | 1 => if withFlag then [] else [relativeTo]
    | 3 => [relativeTo]
    | 4 => ["RTL_REGISTRY_OPTIONAL"]
    | _ => []
  bitwiseOr e := if e = 1 ∧ withFlag then some (3, 4) else none

lemma rtlCall_callOf (hfunction : function ∈ rtlNames) (withFlag : Bool) :
    RtlCall (callOf function relativeTo path withFlag) 0 1 function relativeTo path where
  target := rfl
  isolation := by
    revert function
    unfold RtlRegistryIsolationFunction
    decide
  argument := rfl
  relative := by
    cases withFlag with
    | false => exact .alone rfl
    | true =>
      exact .orFlags (l := 3) (r := 4) rfl rfl (.alone rfl) (.flag rfl (by simp [callOf]))
  value := ⟨2, rfl, rfl⟩

/-- A write relative to another key goes unreported with a flag; a read by the extended function
and a write below `SERIALCOMM` are reported. -/
theorem reported_not_law :
    (RtlCall (callOf "RtlWriteRegistryValue" "RTL_REGISTRY_WINDOWS_NT" "Fonts" true) 0 1
        "RtlWriteRegistryValue" "RTL_REGISTRY_WINDOWS_NT" "Fonts" ∧
      ¬ Exempt "RtlWriteRegistryValue" "RTL_REGISTRY_WINDOWS_NT" "Fonts" ∧
      ¬ Reported (callOf "RtlWriteRegistryValue" "RTL_REGISTRY_WINDOWS_NT" "Fonts"
        true).toExpressions 0) ∧
    (RtlCall (callOf "RtlxQueryRegistryValues" "RTL_REGISTRY_DEVICEMAP" "Video" false) 0 1
        "RtlxQueryRegistryValues" "RTL_REGISTRY_DEVICEMAP" "Video" ∧
      Exempt "RtlxQueryRegistryValues" "RTL_REGISTRY_DEVICEMAP" "Video" ∧
      Reported (callOf "RtlxQueryRegistryValues" "RTL_REGISTRY_DEVICEMAP" "Video"
        false).toExpressions 0) ∧
    (RtlCall (callOf "RtlWriteRegistryValue" "RTL_REGISTRY_DEVICEMAP" "SerialComm\\Port" false) 0 1
        "RtlWriteRegistryValue" "RTL_REGISTRY_DEVICEMAP" "SerialComm\\Port" ∧
      Exempt "RtlWriteRegistryValue" "RTL_REGISTRY_DEVICEMAP" "SerialComm\\Port" ∧
      Reported (callOf "RtlWriteRegistryValue" "RTL_REGISTRY_DEVICEMAP" "SerialComm\\Port"
        false).toExpressions 0) :=
  ⟨⟨rtlCall_callOf (by decide) true, by decide, by decide⟩,
    ⟨rtlCall_callOf (by decide) false, by decide, by decide⟩,
    ⟨rtlCall_callOf (by decide) false, by decide, by decide⟩⟩

theorem reported_iff_not_exempt_iff_write :
    Reported (callOf "RtlWriteRegistryValue" "RTL_REGISTRY_SERVICES" "Tcpip"
      false).toExpressions 0 ↔
      ¬ Exempt "RtlWriteRegistryValue" "RTL_REGISTRY_SERVICES" "Tcpip" := by
  refine (reported_iff_not_exempt_iff (rtlCall_callOf (by decide) false)).mpr ?_
  exact ⟨by decide, fun _ => ⟨by decide, by decide, by decide, by decide⟩⟩

end DriverQueries.RtlAccess
