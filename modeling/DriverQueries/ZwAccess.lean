import Mathlib.Data.Int.Notation
import Mathlib.Data.Set.Basic
import DriverQueries.DriverIsolation

/-!
The calls of Zw functions, as reads and as writes.

A mask is a set of rights, one for each bit. The second argument is compared with the values of five
masks, whatever the function: so a mask with two of the rights that these have is not among them,
and a class of information that has the number of one of them is.
-/

namespace DriverQueries.ZwAccess

open Relation DriverQueries.Text DriverQueries.DriverIsolation

/-! ### Flows to calls -/

variable {E Node : Type} (X : Expressions E) (N : Nodes E Node) (flow : Node → Node → Prop)

/-- The flow makes the call an `AllowedHandleRegFuncCall`. -/
def AllowedBy (source sink : Node) (f : E) : Prop :=
  ((∃ e ∈ N.asIndirectExpr source, allowedPath X e ∧ zwRead X f) ∨
    (∃ e ∈ N.asIndirectExpr source, pathWriteException X e ∧ zwWrite X f)) ∧
  ∃ e ∈ N.asIndirectExpr sink, ReflTransGen (Parent X) e f

def AllowedHandleRegFuncCall (f : E) : Prop :=
  RegistryIsolationFunctionCall X f ∧ ∃ source sink, flow source sink ∧ AllowedBy X N source sink f

/-- The flow makes the call a `NotAllowedHandleRegFuncCall`. -/
def NotAllowedBy (source sink : Node) (f : E) : Prop :=
  (((∃ e ∈ N.asIndirectExpr source, allowedPath X e) ∧
      ¬ (∃ e ∈ N.asIndirectExpr source, pathWriteException X e) ∧ zwWrite X f) ∨
    (¬ (∃ e ∈ N.asIndirectExpr source, allowedPath X e) ∧ zwCall X f)) ∧
  ∃ e ∈ N.asIndirectArgument sink, ReflTransGen (Parent X) e f

def NotAllowedHandleRegFuncCall (f : E) : Prop :=
  RegistryIsolationFunctionCall X f ∧
    ∃ source sink, flow source sink ∧ NotAllowedBy X N source sink f

/-! ### Masks -/

def rights (m : BitVec 32) : Set ℕ := {i | m.getLsbD i}

/-- The values that the second argument is compared with. -/
def readMasks : List ℕ := [131097, 1, 8, 32, 16]

/-- The mask grants only rights that some mask of the read list has. -/
def GrantsNoWrite (m : BitVec 32) : Prop :=
  ∀ i ∈ rights m, ∃ n ∈ readMasks, i ∈ rights (BitVec.ofNat 32 n)

def numeral (v : ℤ) : List Char := if v < 0 then '-' :: decimal v.natAbs else decimal v.natAbs

lemma numeral_eq_decimal {v : ℤ} {n : ℕ} : numeral v = decimal n ↔ v = n := by
  unfold numeral
  split_ifs with hneg
  · refine ⟨fun h => ?_, fun h => by omega⟩
    have hmem : '-' ∈ decimal n := h ▸ List.mem_cons_self
    exact absurd (Nat.isDigit_of_mem_toDigits (by omega) (by omega) hmem) (by decide)
  · refine ⟨fun h => ?_, fun h => ?_⟩
    · have habs : v.natAbs = n := decimal_injective h
      omega
    · have habs : v.natAbs = n := by omega
      rw [habs]

lemma mem_values_iff {s : String} {v : ℤ} (h : s.toList = numeral v) :
    s ∈ ["131097", "1", "8", "32", "16"] ↔ ∃ n ∈ readMasks, v = n := by
  have htexts : ["131097", "1", "8", "32", "16"] =
      readMasks.map fun n => String.ofList (decimal n) := by decide
  rw [htexts, List.mem_map]
  refine exists_congr fun n => and_congr_right fun _ => ?_
  rw [← numeral_eq_decimal, ← h]
  refine ⟨fun hs => ?_, fun hs => ?_⟩
  · rw [← hs, String.toList_ofList]
  · rw [← hs, String.ofList_toList]

lemma grantsNoWrite_of_mem {n : ℕ} (h : n ∈ readMasks) :
    GrantsNoWrite (BitVec.ofInt 32 (n : ℤ)) := by
  intro i hi
  rw [BitVec.ofInt_natCast] at hi
  exact ⟨n, h, hi⟩

/-! ### The classification -/

/-- The functions whose second argument is an access mask. -/
def maskNames : List String :=
  ["ZwCreateKey", "ZwCreateKeyTransacted", "ZwOpenKey", "ZwOpenKeyTransacted", "ZwOpenKeyEx",
    "ZwOpenKeyTransactedEx"]

def OpenCall (f : E) : Prop := CallTo X (· ∈ maskNames) f

def ConstantAccess (f : E) (v : ℤ) : Prop :=
  ∃ e ∈ (X.getArgument f)[1]?, ∃ s ∈ X.getValue e, s.toList = numeral v

/-- What the classification of the call is to be. -/
structure Classified (f : E) : Prop where
  one : (zwRead X f ∧ ¬ zwWrite X f) ∨ (zwWrite X f ∧ ¬ zwRead X f)
  access : OpenCall X f → ∀ v, ConstantAccess X f v →
    (zwRead X f ↔ GrantsNoWrite (BitVec.ofInt 32 v))
  function : ¬ OpenCall X f → (zwRead X f ↔ CallTo X ReadFunction f)
  flows : ∀ source sink, flow source sink →
    ¬ (AllowedBy X N source sink f ∧ NotAllowedBy X N source sink f)

variable {X N flow}

/-! ### Names and paths -/

lemma mem_zwNames {name : String} (h : ZwRegistryIsolationFunction name) : name ∈ zwNames :=
  mem_of_matchesAny (by decide) h

lemma names_of_zwNames : ∀ name ∈ zwNames, RegistryIsolationFunction name ∧ ZwFunction name ∧
    ¬ (ReadFunction name ∧ WriteFunction name) ∧
    (name ∈ maskNames → ¬ ReadFunction name ∧ ¬ WriteFunction name) := by
  decide

/-- The path on which a write is allowed is one on which a read is. -/
lemma allowedPath_of_exception {e : E} (h : pathWriteException X e) : allowedPath X e := by
  obtain ⟨v, hv, hlike⟩ := h
  have hplain : Plain "egistry".toList ∧ Plain "achine".toList ∧ Plain "ardware".toList ∧
      Plain "registry".toList ∧ Plain "machine".toList ∧ Plain "hardware".toList := by decide
  obtain ⟨hr, hm, hh, hregistry, hmachine, hhardware⟩ := hplain
  obtain ⟨s, hs, hlike⟩ := like_escaped_append (c := 'r') (q := "egistry".toList)
    (p := "\\machine\\hardware\\devicemap\\serialcomm%".toList) hr hlike
  obtain ⟨t, ht, hlike⟩ := like_escaped_append (c := 'm') (q := "achine".toList)
    (p := "\\hardware\\devicemap\\serialcomm%".toList) hm hlike
  obtain ⟨u, hu, -⟩ := like_escaped_append (c := 'h') (q := "ardware".toList)
    (p := "\\devicemap\\serialcomm%".toList) hh hlike
  refine Or.inl ⟨v, hv, ?_⟩
  have hpercent : like "%".toList u = true := by
    simpa using like_percent_append (p := []) (t := []) rfl u
  have hhard : like "%hardware%".toList t = true :=
    like_percent_append ((like_plain_append hhardware).mpr ⟨u, hu, hpercent⟩) []
  have hmach : like "%machine%hardware%".toList s = true :=
    like_percent_append ((like_plain_append hmachine).mpr ⟨t, ht, hhard⟩) []
  exact like_percent_append ((like_plain_append hregistry).mpr ⟨s, hs, hmach⟩) []

/-! ### When the classification is right -/

section

variable {f : E} {name : String}

lemma zwRead_iff (hf : X.getTarget f = some name) (hzw : ZwRegistryIsolationFunction name) :
    zwRead X f ↔ ReadFunction name ∨ MacroArgument X f ∨ ValueArgument X f := by
  obtain ⟨hregistry, hfamily, -⟩ := names_of_zwNames name (mem_zwNames hzw)
  simp only [zwRead, RegistryIsolationFunctionCall, callTo_iff hf, hregistry, hfamily, true_and]

lemma zwWrite_iff (hf : X.getTarget f = some name) (hzw : ZwRegistryIsolationFunction name) :
    zwWrite X f ↔ WriteFunction name ∨ ¬ zwRead X f := by
  obtain ⟨hregistry, hfamily, -⟩ := names_of_zwNames name (mem_zwNames hzw)
  simp only [zwWrite, RegistryIsolationFunctionCall, callTo_iff hf, hregistry, hfamily, true_and]

lemma valueArgument_iff {v : ℤ} (h : ConstantAccess X f v) :
    ValueArgument X f ↔ ∃ n ∈ readMasks, v = n := by
  obtain ⟨e, he, s, hs, htext⟩ := h
  refine ⟨fun ⟨e', he', s', hs', hmem⟩ => ?_, fun hv => ⟨e, he, s, hs, ?_⟩⟩
  · obtain rfl := Option.mem_unique he he'
    obtain rfl := Option.mem_unique hs hs'
    exact (mem_values_iff htext).mp hmem
  · exact (mem_values_iff htext).mpr hv

/-- A constant mask is classified by its bits iff it is one of the five values, or the macros agree
with its bits. -/
lemma access_iff {v : ℤ} (hf : X.getTarget f = some name) (hzw : ZwRegistryIsolationFunction name)
    (hmask : name ∈ maskNames) (hv : ConstantAccess X f v) :
    (zwRead X f ↔ GrantsNoWrite (BitVec.ofInt 32 v)) ↔
      (∃ n ∈ readMasks, v = n) ∨ (MacroArgument X f ↔ GrantsNoWrite (BitVec.ofInt 32 v)) := by
  obtain ⟨-, -, -, hnames⟩ := names_of_zwNames name (mem_zwNames hzw)
  rw [zwRead_iff hf hzw, or_iff_right (hnames hmask).1, valueArgument_iff hv]
  by_cases hvalue : ∃ n ∈ readMasks, v = n
  · have hgrants : GrantsNoWrite (BitVec.ofInt 32 v) := by
      obtain ⟨n, hn, rfl⟩ := hvalue
      exact grantsNoWrite_of_mem hn
    exact iff_of_true (iff_of_true (Or.inr hvalue) hgrants) (Or.inl hvalue)
  · rw [or_iff_left hvalue, or_iff_right hvalue]

/-- Another call is classified by its function iff this reads, or the arguments say nothing. -/
lemma function_iff (hf : X.getTarget f = some name) (hzw : ZwRegistryIsolationFunction name) :
    (zwRead X f ↔ ReadFunction name) ↔
      ReadFunction name ∨ (¬ MacroArgument X f ∧ ¬ ValueArgument X f) := by
  rw [zwRead_iff hf hzw]
  by_cases hr : ReadFunction name
  · exact iff_of_true (iff_of_true (Or.inl hr) hr) (Or.inl hr)
  · rw [or_iff_right hr, iff_false_right hr, not_or, or_iff_right hr]

lemma one_of_not_write (hf : X.getTarget f = some name) (hzw : ZwRegistryIsolationFunction name)
    (h : zwRead X f → ¬ WriteFunction name) :
    (zwRead X f ∧ ¬ zwWrite X f) ∨ (zwWrite X f ∧ ¬ zwRead X f) := by
  rw [zwWrite_iff hf hzw]
  by_cases hr : zwRead X f
  · exact Or.inl ⟨hr, not_or.mpr ⟨h hr, not_not.mpr hr⟩⟩
  · exact Or.inr ⟨Or.inr hr, hr⟩

lemma flows_of_one (h : (zwRead X f ∧ ¬ zwWrite X f) ∨ (zwWrite X f ∧ ¬ zwRead X f))
    (source sink : Node) : ¬ (AllowedBy X N source sink f ∧ NotAllowedBy X N source sink f) := by
  rintro ⟨⟨⟨e, he, hpath, hread⟩ | ⟨e, he, hexception, hwrite⟩, -⟩, hnot, -⟩
  · obtain ⟨-, -, hwrite⟩ | ⟨hno, -⟩ := hnot
    · tauto
    · exact hno ⟨e, he, hpath⟩
  · obtain ⟨-, hno, -⟩ | ⟨hno, -⟩ := hnot
    · exact hno ⟨e, he, hexception⟩
    · exact hno ⟨e, he, allowedPath_of_exception hexception⟩

variable (X) in
/-- The condition on the arguments of a call under which it is classified as it should be. -/
structure Plainly (f : E) : Prop where
  access : OpenCall X f → ∀ v, ConstantAccess X f v → (∃ n ∈ readMasks, v = n) ∨
    (MacroArgument X f ↔ GrantsNoWrite (BitVec.ofInt 32 v))
  function : ¬ OpenCall X f → CallTo X ReadFunction f ∨
    (¬ MacroArgument X f ∧ ¬ ValueArgument X f)

/-- **A call is classified by its mask or by its function iff a mask is one of the five values, or
is written with a macro of a right just where it grants no write right, and the arguments of the
other calls that do not read by their name have neither the value nor the macro of a right.** -/
theorem classified_iff (hzw : CallTo X ZwRegistryIsolationFunction f) :
    Classified X N flow f ↔ Plainly X f := by
  obtain ⟨name, hf, hzw⟩ := hzw
  obtain ⟨-, -, hboth, hmask⟩ := names_of_zwNames name (mem_zwNames hzw)
  have hname : CallTo X ReadFunction f ↔ ReadFunction name := callTo_iff hf
  have hopen : OpenCall X f ↔ name ∈ maskNames := callTo_iff hf
  refine ⟨fun h => ⟨fun ho v hv => ?_, fun ho => ?_⟩, fun h => ?_⟩
  · exact (access_iff hf hzw (hopen.mp ho) hv).mp (h.access ho v hv)
  · rw [hname]
    exact (function_iff hf hzw).mp ((h.function ho).trans hname)
  · have hfunction : ¬ OpenCall X f → (zwRead X f ↔ ReadFunction name) := fun ho =>
      (function_iff hf hzw).mpr ((h.function ho).imp_left hname.mp)
    -- a call that is a read is of no function that writes by its name
    have hnot : zwRead X f → ¬ WriteFunction name := by
      intro hr hw
      by_cases ho : OpenCall X f
      · exact (hmask (hopen.mp ho)).2 hw
      · exact hboth ⟨(hfunction ho).mp hr, hw⟩
    have hone := one_of_not_write hf hzw hnot
    refine ⟨hone, fun ho v hv => ?_, fun ho => (hfunction ho).trans hname.symm,
      fun source sink _ => flows_of_one hone source sink⟩
    exact (access_iff hf hzw (hopen.mp ho) hv).mpr (h.access ho v hv)

end

/-! ### Two rights, and a class of information -/

/-- A call and its three arguments. -/
inductive Argument
  | call | first | second | third
  deriving DecidableEq

/-- A call of the function in which the second argument is a constant. -/
def constantCall (function value : String) : Expressions Argument where
  getParent e := if e = .call then none else some .call
  getValue e := if e = .second then some value else none
  getType _ := "int"
  getTarget e := if e = .call then some function else none
  getArgument e := if e = .call then [.first, .second, .third] else []
  getMacroName _ := []

def noNodes : Nodes Argument Empty := ⟨Empty.elim, Empty.elim⟩

lemma grantsNoWrite_nine : GrantsNoWrite (BitVec.ofInt 32 9) := by
  intro i hi
  have hor : BitVec.ofInt 32 9 = BitVec.ofNat 32 1 ||| BitVec.ofNat 32 8 := by decide
  rw [hor, rights, Set.mem_ofPred_eq, BitVec.getLsbD_or, Bool.or_eq_true] at hi
  obtain hi | hi := hi
  · exact ⟨1, by decide, hi⟩
  · exact ⟨8, by decide, hi⟩

theorem classified_iff_openKey :
    Classified (constantCall "ZwOpenKey" "9") noNodes (fun _ _ => False) .call ↔
      Plainly (constantCall "ZwOpenKey" "9") .call :=
  classified_iff ⟨"ZwOpenKey", rfl, by decide⟩

/-- `ZwOpenKey` with two rights to read is a write, and `ZwSetInformationKey` with the class of
information 1 is a read. -/
theorem openKey_misclassified :
    (OpenCall (constantCall "ZwOpenKey" "9") .call ∧
      ConstantAccess (constantCall "ZwOpenKey" "9") .call 9 ∧ GrantsNoWrite (BitVec.ofInt 32 9) ∧
      ¬ zwRead (constantCall "ZwOpenKey" "9") .call) ∧
    ¬ OpenCall (constantCall "ZwSetInformationKey" "1") .call ∧
      zwRead (constantCall "ZwSetInformationKey" "1") .call ∧
      ¬ CallTo (constantCall "ZwSetInformationKey" "1") ReadFunction .call := by
  refine ⟨⟨⟨"ZwOpenKey", rfl, by decide⟩, ⟨.second, rfl, "9", rfl, by decide⟩, grantsNoWrite_nine,
    by decide⟩, ?_, by decide, by decide⟩
  rintro ⟨name, hname, hmem⟩
  obtain rfl : "ZwSetInformationKey" = name := Option.some.inj hname
  exact absurd hmem (by decide)

end DriverQueries.ZwAccess
