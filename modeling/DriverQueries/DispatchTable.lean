import Mathlib.Data.List.Nodup
import DriverQueries.WdmDrivers

/-!
The dispatch annotations of the routines in the dispatch table.

Whether an annotation matches is asked of the routine: it has to name some entry that the routine is
assigned to. The table of classes compares the entry as a decimal numeral with the annotation as a
hexadecimal one, and all of it says that the two numerals are for one of the numbers up to 27.
-/

namespace DriverQueries.DispatchTable

open DriverQueries.Text DriverQueries.WdmDrivers

/-! ### Annotations -/

def irpNames : List String :=
  ["IRP_MJ_CREATE", "IRP_MJ_CREATE_NAMED_PIPE", "IRP_MJ_CLOSE", "IRP_MJ_READ", "IRP_MJ_WRITE",
    "IRP_MJ_QUERY_INFORMATION", "IRP_MJ_SET_INFORMATION", "IRP_MJ_QUERY_EA", "IRP_MJ_SET_EA",
    "IRP_MJ_FLUSH_BUFFERS", "IRP_MJ_QUERY_VOLUME_INFORMATION", "IRP_MJ_SET_VOLUME_INFORMATION",
    "IRP_MJ_DIRECTORY_CONTROL", "IRP_MJ_FILE_SYSTEM_CONTROL", "IRP_MJ_DEVICE_CONTROL",
    "IRP_MJ_INTERNAL_DEVICE_CONTROL", "IRP_MJ_SHUTDOWN", "IRP_MJ_LOCK_CONTROL", "IRP_MJ_CLEANUP",
    "IRP_MJ_CREATE_MAILSLOT", "IRP_MJ_QUERY_SECURITY", "IRP_MJ_SET_SECURITY", "IRP_MJ_POWER",
    "IRP_MJ_SYSTEM_CONTROL", "IRP_MJ_DEVICE_CHANGE", "IRP_MJ_QUERY_QUOTA", "IRP_MJ_SET_QUOTA",
    "IRP_MJ_PNP", "IRP_MJ_PNP_POWER", "IRP_MJ_MAXIMUM_FUNCTION", "IRP_MJ_SCSI",
    "IRP_MN_SCSI_CLASS", "IRP_MN_START_DEVICE", "IRP_MN_QUERY_REMOVE_DEVICE",
    "IRP_MN_REMOVE_DEVICE", "IRP_MN_CANCEL_REMOVE_DEVICE", "IRP_MN_STOP_DEVICE",
    "IRP_MN_QUERY_STOP_DEVICE", "IRP_MN_CANCEL_STOP_DEVICE", "IRP_MN_QUERY_DEVICE_RELATIONS",
    "IRP_MN_QUERY_INTERFACE", "IRP_MN_QUERY_CAPABILITIES", "IRP_MN_QUERY_RESOURCES",
    "IRP_MN_QUERY_RESOURCE_REQUIREMENTS", "IRP_MN_QUERY_DEVICE_TEXT",
    "IRP_MN_FILTER_RESOURCE_REQUIREMENTS", "IRP_MN_READ_CONFIG", "IRP_MN_WRITE_CONFIG",
    "IRP_MN_EJECT", "IRP_MN_SET_LOCK", "IRP_MN_QUERY_ID", "IRP_MN_QUERY_PNP_DEVICE_STATE",
    "IRP_MN_QUERY_BUS_INFORMATION", "IRP_MN_DEVICE_USAGE_NOTIFICATION",
    "IRP_MN_SURPRISE_REMOVAL", "IRP_MN_DEVICE_ENUMERATED", "IRP_MN_WAIT_WAKE",
    "IRP_MN_POWER_SEQUENCE", "IRP_MN_SET_POWER", "IRP_MN_QUERY_POWER", "IRP_MN_QUERY_ALL_DATA",
    "IRP_MN_QUERY_SINGLE_INSTANCE", "IRP_MN_CHANGE_SINGLE_INSTANCE", "IRP_MN_CHANGE_SINGLE_ITEM",
    "IRP_MN_ENABLE_EVENTS", "IRP_MN_DISABLE_EVENTS", "IRP_MN_ENABLE_COLLECTION",
    "IRP_MN_DISABLE_COLLECTION", "IRP_MN_REGINFO", "IRP_MN_EXECUTE_METHOD", "IRP_MN_REGINFO_EX"]

structure ArgumentInvocation where
  getMacroName : String
  getBody : String
  deriving DecidableEq

/-- An annotation of a declaration, with the invocations whose parent it is. -/
structure Annotation where
  getMacroName : String
  invocations : List ArgumentInvocation
  deriving DecidableEq

/-- The invocations that the fields of a `DispatchTypeDefinition` come from. -/
def irps (a : Annotation) : List ArgumentInvocation :=
  a.invocations.filter fun mi => ∃ p ∈ irpNames, matchesPattern mi.getMacroName p

def DispatchTypeDefinition (a : Annotation) : Prop :=
  (∃ p ∈ ["_Dispatch_type_", "__drv_dispatchType"], matchesPattern a.getMacroName p) ∧
    irps a ≠ []

instance : DecidablePred DispatchTypeDefinition :=
  fun _ => inferInstanceAs (Decidable ((∃ p ∈ _, _) ∧ ¬ _))

/-- The result of `getDispatchType` for a value of the field. -/
def dispatchTypeText (dispatchType : String) : String :=
  if dispatchType = "IRP_MJ_PNP" then "0x1b"
  else if dispatchType = "IRP_MJ_INTERNAL_DEVICE_CONTROL" then "0x0f"
  else dispatchType

def getDispatchType (a : Annotation) : List String :=
  (irps a).map fun mi => dispatchTypeText mi.getBody

/-! ### Numerals -/

def lowerDigits : List Char :=
  ['0', '1', '2', '3', '4', '5', '6', '7', '8', '9', 'a', 'b', 'c', 'd', 'e', 'f']

/-- The text is a numeral of two hexadecimal digits, with letters of either case. -/
def Numeral (s : String) (n : ℕ) : Prop :=
  ∃ c d i j, s.toList = ['0', 'x', c, d] ∧ lowerDigits[i]? = some c.toLower ∧
    lowerDigits[j]? = some d.toLower ∧ n = 16 * i + j

/-- The digits that some classes have in upper case. -/
def upperDigits : List Char := ['A', 'B', 'C', 'D', 'E', 'F']

def hexText (n : ℕ) : List Char :=
  ['0', 'x'] ++ lowerDigits[n / 16]?.toList ++ lowerDigits[n % 16]?.toList

lemma Numeral.toLowerCase_eq {s : String} {n : ℕ} (h : Numeral s n) :
    toLowerCase s = hexText n := by
  obtain ⟨c, d, i, j, hs, hi, hj, rfl⟩ := h
  have hj16 : j < 16 := (List.getElem?_eq_some_iff.mp hj).1
  have hdiv : (16 * i + j) / 16 = i := by omega
  have hmod : (16 * i + j) % 16 = j := by omega
  rw [toLowerCase, hs, hexText, hdiv, hmod, hi, hj]
  rfl

lemma Numeral.lt {s : String} {n : ℕ} (h : Numeral s n) : n < 256 := by
  obtain ⟨c, d, i, j, -, hi, hj, rfl⟩ := h
  have hi16 : i < 16 := (List.getElem?_eq_some_iff.mp hi).1
  have hj16 : j < 16 := (List.getElem?_eq_some_iff.mp hj).1
  omega

/-! ### The classes of dispatch routines -/

/-- A subclass of `WdmDispatchRoutine`: the decimal numeral that its entry is compared with, and the
numeral that annotations are. -/
structure DispatchClass where
  name : String
  dispatchType : String
  annotationType : String

def dispatchClasses : List DispatchClass :=
  [⟨"WdmIrpMjCreate", "0", "0x00"⟩, ⟨"WdmIrpMjCreateNamedPipe", "1", "0x01"⟩,
    ⟨"WdmIrpMjClose", "2", "0x02"⟩, ⟨"WdmIrpMjRead", "3", "0x03"⟩,
    ⟨"WdmIrpMjWrite", "4", "0x04"⟩, ⟨"WdmIrpMjQueryInformation", "5", "0x05"⟩,
    ⟨"WdmIrpMjSetInformation", "6", "0x06"⟩, ⟨"WdmIrpMjQueryEa", "7", "0x07"⟩,
    ⟨"WdmIrpMjSetEa", "8", "0x08"⟩, ⟨"WdmIrpMjFlushBuffers", "9", "0x09"⟩,
    ⟨"WdmIrpMjQueryVolumeInformation", "10", "0x0a"⟩,
    ⟨"WdmIrpMjSetVolumeInformation", "11", "0x0b"⟩, ⟨"WdmIrpMjDirectoryControl", "12", "0x0c"⟩,
    ⟨"WdmIrpMjFileSystemControl", "13", "0x0d"⟩, ⟨"WdmIrpMjDeviceControl", "14", "0x0e"⟩,
    ⟨"WdmIrpMjInternalDeviceControl", "15", "0x0f"⟩, ⟨"WdmIrpMjShutdown", "16", "0x10"⟩,
    ⟨"WdmIrpMjLockControl", "17", "0x11"⟩, ⟨"WdmIrpMjCleanup", "18", "0x12"⟩,
    ⟨"WdmIrpMjCreateMailslot", "19", "0x13"⟩, ⟨"WdmIrpMjQuerySecurity", "20", "0x14"⟩,
    ⟨"WdmIrpMjSetSecurity", "21", "0x15"⟩, ⟨"WdmIrpMjPower", "22", "0x16"⟩,
    ⟨"WdmIrpMjSystemControl", "23", "0x17"⟩, ⟨"WdmIrpMjDeviceChange", "24", "0x18"⟩,
    ⟨"WdmIrpMjQueryQuota", "25", "0x19"⟩, ⟨"WdmIrpMjSetQuota", "26", "0x1a"⟩,
    ⟨"WdmIrpMjPnp", "27", "0x1b"⟩, ⟨"WdmIrpMjPnpPower", "27", "0x1b"⟩,
    ⟨"WdmIrpMjMaximumFunction", "27", "0x1b"⟩, ⟨"WdmIrpMjScsi", "15", "0x0f"⟩,
    ⟨"WdmIrpMnScsiClass", "1", "0x01"⟩, ⟨"WdmIrpMnStartDevice", "0", "0x00"⟩,
    ⟨"WdmIrpMnQueryRemoveDevice", "1", "0x01"⟩, ⟨"WdmIrpMnRemoveDevice", "2", "0x02"⟩,
    ⟨"WdmIrpMnCancelRemoveDevice", "3", "0x03"⟩, ⟨"WdmIrpMnStopDevice", "4", "0x04"⟩,
    ⟨"WdmIrpMnQueryStopDevice", "5", "0x05"⟩, ⟨"WdmIrpMnCancelStopDevice", "6", "0x06"⟩,
    ⟨"WdmIrpMnQueryDeviceRelations", "7", "0x07"⟩, ⟨"WdmIrpMnQueryInterface", "8", "0x08"⟩,
    ⟨"WdmIrpMnQueryCapabilities", "9", "0x09"⟩, ⟨"WdmIrpMnQueryResources", "10", "0x0A"⟩,
    ⟨"WdmIrpMnQueryResourceRequirements", "11", "0x0B"⟩,
    ⟨"WdmIrpMnQueryDeviceText", "12", "0x0C"⟩,
    ⟨"WdmIrpMnFilterResourceRequirements", "13", "0x0D"⟩, ⟨"WdmIrpMnReadConfig", "15", "0x0F"⟩,
    ⟨"WdmIrpMnWriteConfig", "16", "0x10"⟩, ⟨"WdmIrpMnEject", "17", "0x11"⟩,
    ⟨"WdmIrpMnSetLock", "18", "0x12"⟩, ⟨"WdmIrpMnQueryId", "19", "0x13"⟩,
    ⟨"WdmIrpMnQueryPnpDeviceState", "20", "0x14"⟩, ⟨"WdmIrpMnQueryBusInformation", "21", "0x15"⟩,
    ⟨"WdmIrpMnDeviceUsageNotification", "22", "0x16"⟩, ⟨"WdmIrpMnSurpriseRemoval", "23", "0x17"⟩,
    ⟨"WdmIrpMnDeviceEnumerated", "25", "0x19"⟩, ⟨"WdmIrpMnWaitWake", "0", "0x00"⟩,
    ⟨"WdmIrpMnPowerSequence", "1", "0x01"⟩, ⟨"WdmIrpMnSetPower", "2", "0x02"⟩,
    ⟨"WdmIrpMnQueryPower", "3", "0x03"⟩, ⟨"WdmIrpMnQueryAllData", "0", "0x00"⟩,
    ⟨"WdmIrpMnQuerySingleInstance", "1", "0x01"⟩, ⟨"WdmIrpMnChangeSingleInstance", "2", "0x02"⟩,
    ⟨"WdmIrpMnChangeSingleItem", "3", "0x03"⟩, ⟨"WdmIrpMnEnableEvents", "4", "0x04"⟩,
    ⟨"WdmIrpMnDisableEvents", "5", "0x05"⟩, ⟨"WdmIrpMnEnableCollection", "6", "0x06"⟩,
    ⟨"WdmIrpMnDisableCollection", "7", "0x07"⟩, ⟨"WdmIrpMnReginfo", "8", "0x08"⟩,
    ⟨"WdmIrpMnExecuteMethod", "9", "0x09"⟩, ⟨"WdmIrpMnReginfoEx", "11", "0x0b"⟩]

/-- The class has the entry, and the text is the numeral of its annotations. -/
def DispatchClass.Accepts (cls : DispatchClass) (entry : ℕ) (text : String) : Prop :=
  like cls.dispatchType.toList (decimal entry) ∧ like cls.annotationType.toList (toLowerCase text)

/-- The class is for the number, or its numeral has letters in upper case. -/
def DispatchClass.IsFor (cls : DispatchClass) (n : ℕ) : Prop :=
  cls.dispatchType.toList = decimal n ∧
    (cls.annotationType.toList = hexText n ∨ cls.annotationType.toList.any (· ∈ upperDigits))

instance (cls : DispatchClass) (n : ℕ) : Decidable (cls.IsFor n) :=
  inferInstanceAs (Decidable (_ ∧ (_ ∨ _ = true)))

lemma plain_of_class : ∀ cls ∈ dispatchClasses,
    Plain cls.dispatchType.toList ∧ Plain cls.annotationType.toList := by
  decide +kernel

lemma isFor_of_class : ∀ cls ∈ dispatchClasses, ∃ n ∈ List.range 28, cls.IsFor n := by
  decide +kernel

lemma exists_class : ∀ n ∈ List.range 28, ∃ cls ∈ dispatchClasses,
    cls.dispatchType.toList = decimal n ∧ cls.annotationType.toList = hexText n := by
  decide +kernel

lemma hexText_injective {m n : ℕ} (hm : m < 256) (hn : n < 256) (h : hexText m = hexText n) :
    m = n := by
  have hnodup : lowerDigits.Nodup := by decide
  have hdigit : ∀ {k : ℕ}, k < 16 → ∃ c, lowerDigits[k]? = some c := fun hk =>
    ⟨_, List.getElem?_eq_getElem hk⟩
  have hdiv : m / 16 < 16 := by omega
  have hmod : m % 16 < 16 := by omega
  obtain ⟨a, ha⟩ := hdigit hdiv
  obtain ⟨b, hb⟩ := hdigit hmod
  obtain ⟨c, hc⟩ := hdigit (k := n / 16) (by omega)
  obtain ⟨d, hd⟩ := hdigit (k := n % 16) (by omega)
  simp only [hexText, ha, hb, hc, hd, Option.toList_some, List.cons_append, List.nil_append,
    List.cons.injEq, true_and, and_true] at h
  obtain ⟨rfl, rfl⟩ := h
  have hhigh : m / 16 = n / 16 := (List.getElem?_inj hdiv hnodup).mp (ha.trans hc.symm)
  have hlow : m % 16 = n % 16 := (List.getElem?_inj hmod hnodup).mp (hb.trans hd.symm)
  omega

lemma notMem_hexText {c : Char} (hc : c ∈ upperDigits) (n : ℕ) : c ∉ hexText n := by
  have hall : upperDigits.all fun c => c ∉ ['0', 'x'] ∧ c ∉ lowerDigits := by decide
  have hdigits : c ∉ ['0', 'x'] ∧ c ∉ lowerDigits :=
    of_decide_eq_true (List.all_eq_true.mp hall c hc)
  simp only [hexText, List.mem_append, Option.mem_toList, not_or]
  refine ⟨⟨hdigits.1, fun h => ?_⟩, fun h => ?_⟩
  · exact hdigits.2 (List.mem_of_getElem? h)
  · exact hdigits.2 (List.mem_of_getElem? h)

/-- **Some class accepts a numeral at an entry iff it is for the entry, which is at most 27.** -/
theorem exists_accepts_iff {text : String} {n entry : ℕ} (h : Numeral text n) :
    (∃ cls ∈ dispatchClasses, cls.Accepts entry text) ↔ entry ≤ 27 ∧ n = entry := by
  refine ⟨fun ⟨cls, hcls, hentry, htext⟩ => ?_, fun ⟨hle, hn⟩ => ?_⟩
  · obtain ⟨hplain, hplain'⟩ := plain_of_class cls hcls
    obtain ⟨m, hm, hdec, hcode⟩ := isFor_of_class cls hcls
    have hm27 : m < 28 := List.mem_range.mp hm
    obtain rfl : m = entry :=
      decimal_injective (hdec.symm.trans ((like_plain_iff hplain).mp hentry))
    have heq : cls.annotationType.toList = hexText n :=
      ((like_plain_iff hplain').mp htext).trans h.toLowerCase_eq
    refine ⟨by omega, ?_⟩
    obtain hcode | hcode := hcode
    · exact hexText_injective h.lt (by omega) (heq.symm.trans hcode)
    · obtain ⟨c, hmem, hc⟩ := List.any_eq_true.mp hcode
      exact absurd (heq ▸ hmem) (notMem_hexText (of_decide_eq_true hc) n)
  · subst hn
    obtain ⟨cls, hcls, hdec, hcode⟩ := exists_class n (List.mem_range.mpr (by omega))
    obtain ⟨hplain, hplain'⟩ := plain_of_class cls hcls
    exact ⟨cls, hcls, (like_plain_iff hplain).mpr hdec,
      (like_plain_iff hplain').mpr (hcode.trans h.toLowerCase_eq.symm)⟩

/-! ### The query -/

/-- A driver with the annotations of the declarations of its functions. The macros of the irp names
have numerals of two digits in wdm.h, or the name of another one. -/
structure AnnotatedDriver (Fn : Type) extends Driver Fn where
  annotations : Fn → List Annotation
  wdm_h : ∀ f, ∀ dmi ∈ annotations f, ∀ t ∈ getDispatchType dmi, ∃ n, Numeral t n

variable {Fn : Type} (D : AnnotatedDriver Fn)

/-- The entries in which a DriverEntry puts the routine. -/
def DispatchType (f : Fn) (entry : ℕ) : Prop :=
  ∃ driverEntry, WdmDispatchRoutine D.toDriver f entry driverEntry

def matchesAnnotation (wdr : Fn) (dtd : Annotation) : Prop :=
  ∃ cls ∈ dispatchClasses, ∃ entry, DispatchType D wdr entry ∧
    ∃ t ∈ getDispatchType dtd, cls.Accepts entry t

def dispatchAnnotationMismatched (ae : AssignExpr Fn) : Prop :=
  ∃ wdr, ∃ dmi ∈ D.annotations wdr, DispatchTypeDefinition dmi ∧
    ae.getRValue = .functionAccess wdr ∧ (∃ entry, DispatchType D wdr entry) ∧
    ¬ matchesAnnotation D wdr dmi

/-! ### What annotations denote -/

/-- The routine at the end of a chain of assignments. -/
def routine : RValue Fn → Option Fn
  | .functionAccess f => some f
  | .assignExpr _ r => routine r
  | .other => none

def Denotes (dmi : Annotation) (entry : ℕ) : Prop := ∃ t ∈ getDispatchType dmi, Numeral t entry

def Carries (f : Fn) (dmi : Annotation) : Prop := dmi ∈ D.annotations f ∧ DispatchTypeDefinition dmi

/-- The routine carries dispatch annotations, and none denotes the entry. -/
def Wrong (f : Fn) (entry : ℕ) : Prop :=
  (∃ dmi, Carries D f dmi) ∧ ∀ dmi, Carries D f dmi → ¬ Denotes dmi entry

/-- The annotation denotes an entry up to 27 in which a DriverEntry puts the routine. -/
def DenotesSome (f : Fn) (dmi : Annotation) : Prop :=
  ∃ entry ≤ 27, DispatchType D f entry ∧ Denotes dmi entry

variable {D}

lemma matchesAnnotation_iff {f : Fn} {dmi : Annotation} (h : dmi ∈ D.annotations f) :
    matchesAnnotation D f dmi ↔ DenotesSome D f dmi := by
  refine ⟨fun ⟨cls, hcls, entry, hentry, t, ht, hacc⟩ => ?_,
    fun ⟨entry, hle, hentry, t, ht, hnum⟩ => ?_⟩
  · obtain ⟨n, hn⟩ := D.wdm_h f dmi h t ht
    obtain ⟨hle, rfl⟩ := (exists_accepts_iff hn).mp ⟨cls, hcls, hacc⟩
    exact ⟨n, hle, hentry, t, ht, hn⟩
  · obtain ⟨cls, hcls, hacc⟩ := (exists_accepts_iff hnum).mpr ⟨hle, rfl⟩
    exact ⟨cls, hcls, entry, hentry, t, ht, hacc⟩

variable {driverEntry f : Fn} {ae : AssignExpr Fn} {k : ℕ}

lemma dispatchType_of_assigned (hentry : WdmDriverEntry D.toDriver driverEntry)
    (hae : ae ∈ D.assigns driverEntry) (hk : dispatchEntry ae.getLValue = some k)
    (hdirect : ae.getRValue = .functionAccess f)
    (hf : CallbackOf D.toDriver "DRIVER_DISPATCH" f) : DispatchType D f k := by
  refine ⟨driverEntry, .of_assigned hf hentry hae hk ?_⟩
  rw [hdirect, getTarget, if_pos (.of_callbackOf D.toDriver hf)]

/-- A mismatch is reported where the routine itself is assigned, and has an annotation that denotes
none of its entries. -/
lemma mismatched_iff (hentry : WdmDriverEntry D.toDriver driverEntry)
    (hae : ae ∈ D.assigns driverEntry) (hk : dispatchEntry ae.getLValue = some k)
    (hf : routine ae.getRValue = some f) :
    dispatchAnnotationMismatched D ae ↔ ae.getRValue = .functionAccess f ∧
      CallbackOf D.toDriver "DRIVER_DISPATCH" f ∧
        ∃ dmi, Carries D f dmi ∧ ¬ DenotesSome D f dmi := by
  refine ⟨fun h => ?_, fun ⟨hdirect, hdispatch, dmi, ⟨hdmi, hdef⟩, hnone⟩ => ?_⟩
  · obtain ⟨wdr, dmi, hdmi, hdef, hdirect, ⟨entry, e, hwdr⟩, hmatch⟩ := h
    rw [hdirect, routine] at hf
    obtain rfl := Option.some.inj hf
    exact ⟨hdirect, hwdr.dispatch, dmi, ⟨hdmi, hdef⟩, mt (matchesAnnotation_iff hdmi).mpr hmatch⟩
  · have htype := dispatchType_of_assigned hentry hae hk hdirect hdispatch
    exact ⟨f, dmi, hdmi, hdef, hdirect, ⟨k, htype⟩, mt (matchesAnnotation_iff hdmi).mp hnone⟩

/-- **A mismatch is reported iff no annotation denotes the entry, as long as this is so iff the
routine itself is assigned and has an annotation that denotes none of its entries.** -/
theorem mismatch_agrees_iff (hentry : WdmDriverEntry D.toDriver driverEntry)
    (hae : ae ∈ D.assigns driverEntry) (hk : dispatchEntry ae.getLValue = some k)
    (hf : routine ae.getRValue = some f) :
    (dispatchAnnotationMismatched D ae ↔ Wrong D f k) ↔
      (Wrong D f k → ae.getRValue = .functionAccess f ∧
        CallbackOf D.toDriver "DRIVER_DISPATCH" f ∧
          ∃ dmi, Carries D f dmi ∧ ¬ DenotesSome D f dmi) ∧
      ((∃ dmi, Carries D f dmi ∧ Denotes dmi k) → ae.getRValue = .functionAccess f →
        CallbackOf D.toDriver "DRIVER_DISPATCH" f →
          ∀ dmi, Carries D f dmi → DenotesSome D f dmi) := by
  rw [mismatched_iff hentry hae hk hf]
  refine ⟨fun h => ⟨h.mpr, fun ⟨dmi, hdmi, hk'⟩ hdirect hdispatch dmi' hdmi' => ?_⟩,
    fun ⟨hmissed, hfalse⟩ => ⟨fun ⟨hdirect, hdispatch, dmi, hdmi, hnone⟩ => ?_, hmissed⟩⟩
  · by_contra hnone
    exact (h.mp ⟨hdirect, hdispatch, dmi', hdmi', hnone⟩).2 dmi hdmi hk'
  · refine ⟨⟨dmi, hdmi⟩, fun dmi' hdmi' hk' => ?_⟩
    exact hnone (hfalse ⟨dmi', hdmi', hk'⟩ hdirect hdispatch dmi hdmi)

/-! ### One routine for two entries -/

inductive Routine
  | dispatchReadWrite | driverEntry
  deriving DecidableEq

/-- `_Dispatch_type_(IRP_MJ_READ)`. -/
def dispatchRead : Annotation := ⟨"_Dispatch_type_", [⟨"IRP_MJ_READ", "0x03"⟩]⟩

/-- `DriverObject->MajorFunction[k] = DispatchReadWrite`. -/
def assignEntry (k : ℕ) : AssignExpr Routine :=
  ⟨.arrayExpr (some ⟨some "PDRIVER_OBJECT"⟩) (some k), .functionAccess .dispatchReadWrite⟩

lemma numeral_read : Numeral "0x03" 3 := ⟨'0', '3', 0, 3, by decide⟩

/-- The routine is assigned to `IRP_MJ_READ` and `IRP_MJ_WRITE`. -/
def readWrite : AnnotatedDriver Routine where
  typedefs f :=
    match f with
    | .dispatchReadWrite => [⟨"DRIVER_DISPATCH", "wdm.h"⟩]
    | .driverEntry => [⟨"DRIVER_INITIALIZE", "wdm.h"⟩]
  assigns f :=
    match f with
    | .dispatchReadWrite => []
    | .driverEntry => [assignEntry 3, assignEntry 4]
  chained f ae h l r hr := by
    cases f with
    | dispatchReadWrite => exact absurd h List.not_mem_nil
    | driverEntry =>
      simp only [List.mem_cons, List.not_mem_nil, or_false] at h
      obtain rfl | rfl := h
      · simp [assignEntry] at hr
      · simp [assignEntry] at hr
  annotations f :=
    match f with
    | .dispatchReadWrite => [dispatchRead]
    | .driverEntry => []
  wdm_h f dmi h t ht := by
    cases f with
    | dispatchReadWrite =>
      obtain rfl := List.mem_singleton.mp h
      obtain rfl : t = "0x03" := List.mem_singleton.mp ht
      exact ⟨3, numeral_read⟩
    | driverEntry => exact absurd h List.not_mem_nil

lemma entry_readWrite : WdmDriverEntry readWrite.toDriver .driverEntry := by decide

theorem mismatch_agrees_iff_readWrite :
    (dispatchAnnotationMismatched readWrite (assignEntry 4) ↔
        Wrong readWrite .dispatchReadWrite 4) ↔
      (Wrong readWrite .dispatchReadWrite 4 →
        (assignEntry 4).getRValue = .functionAccess .dispatchReadWrite ∧
          CallbackOf readWrite.toDriver "DRIVER_DISPATCH" .dispatchReadWrite ∧
            ∃ dmi, Carries readWrite .dispatchReadWrite dmi ∧
              ¬ DenotesSome readWrite .dispatchReadWrite dmi) ∧
      ((∃ dmi, Carries readWrite .dispatchReadWrite dmi ∧ Denotes dmi 4) →
        (assignEntry 4).getRValue = .functionAccess .dispatchReadWrite →
          CallbackOf readWrite.toDriver "DRIVER_DISPATCH" .dispatchReadWrite →
            ∀ dmi, Carries readWrite .dispatchReadWrite dmi →
              DenotesSome readWrite .dispatchReadWrite dmi) :=
  mismatch_agrees_iff entry_readWrite (by decide) (by decide) rfl

/-- The annotation is for reads only, and the assignment to the entry for writes is not reported. -/
theorem readWrite_missed :
    WdmDriverEntry readWrite.toDriver .driverEntry ∧
      assignEntry 4 ∈ readWrite.assigns .driverEntry ∧
      dispatchEntry (assignEntry 4).getLValue = some 4 ∧
      routine (assignEntry 4).getRValue = some .dispatchReadWrite ∧
      Wrong readWrite .dispatchReadWrite 4 ∧
      ¬ dispatchAnnotationMismatched readWrite (assignEntry 4) := by
  have hdispatch : CallbackOf readWrite.toDriver "DRIVER_DISPATCH" .dispatchReadWrite := by decide
  have hcarries : ∀ dmi, Carries readWrite .dispatchReadWrite dmi → dmi = dispatchRead :=
    fun dmi h => List.mem_singleton.mp h.1
  refine ⟨entry_readWrite, by decide, by decide, rfl, ⟨⟨dispatchRead, ?_⟩, ?_⟩, fun h => ?_⟩
  · exact ⟨List.mem_cons_self, by decide⟩
  · intro dmi hdmi hfour
    obtain rfl := hcarries dmi hdmi
    obtain ⟨t, ht, hnum⟩ := hfour
    obtain rfl : t = "0x03" := List.mem_singleton.mp ht
    have heq : hexText 3 = hexText 4 := numeral_read.toLowerCase_eq.symm.trans hnum.toLowerCase_eq
    exact absurd (hexText_injective (by omega) (by omega) heq) (by omega)
  · obtain ⟨-, -, dmi, hdmi, hnone⟩ :=
      (mismatched_iff (k := 4) entry_readWrite (by decide) (by decide) rfl).mp h
    obtain rfl := hcarries dmi hdmi
    refine hnone ⟨3, by omega, ?_, "0x03", List.mem_cons_self, numeral_read⟩
    exact dispatchType_of_assigned entry_readWrite List.mem_cons_self (by decide) rfl hdispatch

end DriverQueries.DispatchTable
