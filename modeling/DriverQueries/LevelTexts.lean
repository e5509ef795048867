import DriverQueries.Database
import DriverQueries.WhenForm

/-!
The level that the text of an annotation names.

The text is looked up among the heads of the macros of wdm.h as a pattern, so that an underscore in
it stands for any character. It names one level, the one of the macro with this name, only where no
macro with another level has a head that matches, and where one does at all.
-/

namespace DriverQueries.LevelTexts

open DriverQueries.Text DriverQueries.Sal

/-- The macros of a program. The name of a macro is its head up to the parameters, and no two levels
of wdm.h have one name. -/
structure Header where
  macros : List Macro
  name_head : ∀ m ∈ macros, m.name.toList = m.head.toList.takeWhile (· ≠ '(')
  distinct : ∀ im ∈ irqlMacros macros, ∀ im' ∈ irqlMacros macros, im.1.name = im'.1.name → im = im'

/-! ### Numerals -/

def literalOf : List Char → Option ℤ
  | [] => none
  | c :: ds =>
    if c ≠ '-' then (natOfDigits 0 (c :: ds)).map fun n : ℕ => (n : ℤ)
    else if ds = [] then none
    else (natOfDigits 0 ds).map fun n : ℕ => -(n : ℤ)

/-- The value of a decimal integer literal of any length. -/
def literal (s : String) : Option ℤ := literalOf s.toList

lemma toInt_eq (s : String) : toInt s = (literal s).bind int32 := by
  unfold toInt literal
  cases s.toList with
  | nil => rfl
  | cons c ds =>
    by_cases hc : c = '-'
    · subst hc
      cases ds with
      | nil => rfl
      | cons d ds =>
        rw [literalOf, if_neg (not_not_intro rfl), if_neg (List.cons_ne_nil d ds), Option.bind_map]
        rfl
    · rw [literalOf, if_pos hc, Option.bind_map]
      split
      · rename_i heq
        exact absurd heq (List.cons_ne_nil c ds)
      · rename_i heq
        exact absurd (List.cons.inj heq).1 hc
      · rename_i heq
        exact absurd (List.cons.inj heq).1 hc
      · rfl

lemma isDigit_of_natOfDigits {s : List Char} {m n : ℕ} (h : natOfDigits m s = some n) :
    ∀ c ∈ s, c.isDigit := by
  induction s generalizing m with
  | nil => simp
  | cons d s ih =>
    rw [natOfDigits] at h
    split_ifs at h with hd
    exact List.forall_mem_cons.mpr ⟨hd, ih h⟩

lemma isDigit_of_literal {s : String} {i : ℤ} (h : literal s = some i) :
    ∀ c ∈ s.toList, c.isDigit ∨ c = '-' := by
  unfold literal at h
  cases hs : s.toList with
  | nil => simp
  | cons c ds =>
    rw [hs, literalOf] at h
    split_ifs at h with hc
    · obtain ⟨n, hn, -⟩ := Option.map_eq_some_iff.mp h
      exact fun d hd => Or.inl (isDigit_of_natOfDigits hn d hd)
    · obtain ⟨n, hn, -⟩ := Option.map_eq_some_iff.mp h
      rw [not_not.mp hc]
      exact List.forall_mem_cons.mpr
        ⟨Or.inr rfl, fun d hd => Or.inl (isDigit_of_natOfDigits hn d hd)⟩

lemma not_mem_literal {s : String} {i : ℤ} (h : literal s = some i) {c : Char}
    (hc : c.isDigit = false ∧ c ≠ '-') : c ∉ s.toList := by
  intro hmem
  obtain hdigit | heq := isDigit_of_literal h c hmem
  · exact Bool.false_ne_true (hc.1.symm.trans hdigit)
  · exact hc.2 heq

/-! ### Names -/

lemma mem_name {ms : List Macro} {im : Macro × ℤ} (h : im ∈ irqlMacros ms) :
    im.1 ∈ ms ∧ 'L' ∈ im.1.name.toList := by
  simp only [irqlMacros, List.mem_filterMap, Option.map_eq_some_iff] at h
  obtain ⟨m, hm, i, hi, rfl⟩ := h
  refine ⟨hm, ?_⟩
  unfold irqlLevelAsInt at hi
  split_ifs at hi with hname
  obtain ⟨t, ht, hlike⟩ := like_percent_iff.mp hname.1
  have hletters : List.Forall₂ (fun c d => c = '_' ∨ c = d) ['_', 'L', 'E', 'V', 'E', 'L'] t :=
    (like_identifier_iff (by decide)).mp hlike
  obtain ⟨c, u, -, hletters, hu⟩ := List.forall₂_cons_left_iff.mp hletters
  obtain ⟨d, v, hd, -, hv⟩ := List.forall₂_cons_left_iff.mp hletters
  have hmem : 'L' ∈ t := by
    rw [hu, hv, ← hd.resolve_left (by decide)]
    simp
  exact ht.subset hmem

variable {H : Header} {L : String}

lemma literal_name {im : Macro × ℤ} (h : im ∈ irqlMacros H.macros) :
    literal im.1.name = none := by
  by_contra hne
  obtain ⟨i, hi⟩ := Option.ne_none_iff_exists'.mp hne
  exact not_mem_literal hi (by decide) (mem_name h).2

lemma not_matches_literal {im : Macro × ℤ} (h : im ∈ irqlMacros H.macros) {i : ℤ}
    (hi : literal L = some i) : ¬ matchesPattern im.1.head L := by
  intro hmatch
  obtain ⟨hmem, hname⟩ := mem_name h
  have hplain : Plain L.toList := ⟨not_mem_literal hi (by decide), not_mem_literal hi (by decide),
    not_mem_literal hi (by decide)⟩
  rw [H.name_head im.1 hmem, ← like_plain hplain hmatch] at hname
  exact not_mem_literal hi (by decide) (List.takeWhile_subset _ hname)

/-! ### The level a text names -/

section Level

variable (H : Header) (L : String)

def namedLevel : Option ℤ :=
  ((irqlMacros H.macros).find? fun im => im.1.name = L).map fun im => im.2

/-- 2 for `DPC_LEVEL`, else the level of the macro with the name, else the value of the literal, and
else -1. -/
def level : ℤ :=
  if L = "DPC_LEVEL" then 2 else (namedLevel H L).getD ((literal L).getD (-1))

/-- Some level has a head that the text matches as a pattern. -/
def HeadMatched : Prop := ∃ im ∈ irqlMacros H.macros, matchesPattern im.1.head L

/-- The lookup among the heads finds what the text names: the levels it finds have the level of the
macro with the name, it finds one if there is such a macro, and a literal has 32 bits. -/
structure LookedUp : Prop where
  found : ∀ im ∈ irqlMacros H.macros, matchesPattern im.1.head L →
    ∃ im' ∈ irqlMacros H.macros, im'.1.name = L ∧ im'.2 = im.2
  finds : (∃ im ∈ irqlMacros H.macros, im.1.name = L) → HeadMatched H L
  fits : ∀ i ∈ literal L, int32 i = some i

variable {H L}

lemma namedLevel_of_mem {im : Macro × ℤ} (h : im ∈ irqlMacros H.macros) :
    namedLevel H im.1.name = some im.2 := by
  unfold namedLevel
  cases hfind : (irqlMacros H.macros).find? fun im' => im'.1.name = im.1.name with
  | none => exact absurd (List.find?_eq_none.mp hfind im h) (by simp)
  | some im' =>
    have hname : im'.1.name = im.1.name := by simpa using List.find?_some hfind
    rw [H.distinct im' (List.mem_of_find?_eq_some hfind) im h hname]
    rfl

lemma namedLevel_eq_none (h : ¬ ∃ im ∈ irqlMacros H.macros, im.1.name = L) :
    namedLevel H L = none := by
  unfold namedLevel
  rw [Option.map_eq_none_iff, List.find?_eq_none]
  exact fun im him hname => h ⟨im, him, by simpa using hname⟩

/-! ### Evaluating one text -/

variable {a : SALAnnotation} {v : ℤ}

lemma function_of_text (hL : L ∈ getIrqlLevelString a) : IrqlFunctionAnnotation a := by
  intro hnil
  simp [getIrqlLevelString, hnil] at hL

/-- The heads that match one text decide, if there are any, and the value of the text otherwise. -/
lemma getIrqlLevel_text (hL : ∀ l, l ∈ getIrqlLevelString a ↔ l = L) (hdpc : L ≠ "DPC_LEVEL") :
    (HeadMatched H L → (v ∈ getIrqlLevel H.macros a ↔
      ∃ im ∈ irqlMacros H.macros, matchesPattern im.1.head L ∧ im.2 = v)) ∧
    (¬ HeadMatched H L → (v ∈ getIrqlLevel H.macros a ↔ v = (toInt L).getD (-1))) := by
  have hfun : IrqlFunctionAnnotation a := function_of_text ((hL L).mpr rfl)
  have hnot : "DPC_LEVEL" ∉ getIrqlLevelString a := fun h => hdpc ((hL _).mp h).symm
  have hhead : ∀ m, HeadMatches a m ↔ matchesPattern m.head L := by
    intro m
    simp [HeadMatches, hL]
  unfold getIrqlLevel HeadMatched
  rw [if_neg (not_not_intro hfun), if_neg hnot]
  simp only [hhead]
  refine ⟨fun h => ?_, fun h => ?_⟩
  · rw [if_pos h]
    simp [and_assoc]
  · rw [if_neg h]
    simp only [hL, exists_eq_left]
    cases hint : toInt L with
    | none => simp
    | some i => simp [hL, hint, eq_comm]

lemma getIrqlLevel_dpc (hL : ∀ l, l ∈ getIrqlLevelString a ↔ l = "DPC_LEVEL") :
    v ∈ getIrqlLevel H.macros a ↔ v = level H "DPC_LEVEL" := by
  have hmem : "DPC_LEVEL" ∈ getIrqlLevelString a := (hL _).mpr rfl
  unfold getIrqlLevel level
  rw [if_neg (not_not_intro (function_of_text hmem)), if_pos hmem, if_pos rfl, List.mem_singleton]

/-- A level whose head is matched is no literal, so that it is the one of the name. -/
lemma level_of_matched (hdpc : L ≠ "DPC_LEVEL") {im : Macro × ℤ} (him : im ∈ irqlMacros H.macros)
    (hmatch : matchesPattern im.1.head L) :
    im.2 = level H L ↔ ∃ im' ∈ irqlMacros H.macros, im'.1.name = L ∧ im'.2 = im.2 := by
  unfold level
  rw [if_neg hdpc]
  by_cases hnamed : ∃ im' ∈ irqlMacros H.macros, im'.1.name = L
  · obtain ⟨im', him', rfl⟩ := hnamed
    rw [namedLevel_of_mem him', Option.getD_some]
    refine ⟨fun h => ⟨im', him', rfl, h.symm⟩, fun ⟨im'', him'', hname, heq⟩ => ?_⟩
    rw [← heq, H.distinct im'' him'' im' him' hname]
  · have hliteral : literal L = none := by
      by_contra hne
      obtain ⟨i, hi⟩ := Option.ne_none_iff_exists'.mp hne
      exact not_matches_literal him hi hmatch
    rw [namedLevel_eq_none hnamed, hliteral, Option.getD_none, Option.getD_none]
    refine ⟨fun h => ?_, fun ⟨im', him', hname, _⟩ => absurd ⟨im', him', hname⟩ hnamed⟩
    have hnonneg := irqlMacros_nonneg him
    omega

lemma toInt_getD_iff :
    (toInt L).getD (-1) = (literal L).getD (-1) ↔ ∀ i ∈ literal L, int32 i = some i := by
  rw [toInt_eq]
  cases literal L with
  | none => simp
  | some i =>
    simp only [Option.bind_some, Option.getD_some, Option.mem_some_iff, forall_eq']
    unfold int32
    split_ifs with hrange
    · simp
    · simp only [Option.getD_none, iff_false]
      omega

/-- The annotation has one level, which its text names. -/
def Evaluated (H : Header) (L : String) (a : SALAnnotation) : Prop :=
  ∀ v, v ∈ getIrqlLevel H.macros a ↔ v = level H L

lemma evaluated_iff_of_matched (hL : ∀ l, l ∈ getIrqlLevelString a ↔ l = L)
    (hdpc : L ≠ "DPC_LEVEL") (hhead : HeadMatched H L) : Evaluated H L a ↔ LookedUp H L := by
  have hmem : ∀ v, v ∈ getIrqlLevel H.macros a ↔ _ :=
    fun v => (getIrqlLevel_text (v := v) hL hdpc).1 hhead
  obtain ⟨im₀, him₀, hmatch₀⟩ := hhead
  refine ⟨fun h => ⟨fun im him hmatch => ?_, fun _ => ⟨im₀, him₀, hmatch₀⟩, fun i hi => ?_⟩,
    fun h v => (hmem v).trans ⟨fun ⟨im, him, hmatch, hv⟩ => ?_, fun hv => ?_⟩⟩
  · exact (level_of_matched hdpc him hmatch).mp
      ((h im.2).mp ((hmem im.2).mpr ⟨im, him, hmatch, rfl⟩))
  · exact absurd hmatch₀ (not_matches_literal him₀ hi)
  · exact hv ▸ (level_of_matched hdpc him hmatch).mpr (h.found im him hmatch)
  · exact ⟨im₀, him₀, hmatch₀,
      hv ▸ (level_of_matched hdpc him₀ hmatch₀).mpr (h.found im₀ him₀ hmatch₀)⟩

lemma evaluated_iff_of_not_matched (hL : ∀ l, l ∈ getIrqlLevelString a ↔ l = L)
    (hdpc : L ≠ "DPC_LEVEL") (hhead : ¬ HeadMatched H L) : Evaluated H L a ↔ LookedUp H L := by
  have hvalue : Evaluated H L a ↔ (toInt L).getD (-1) = level H L := by
    unfold Evaluated
    simp only [fun v => (getIrqlLevel_text (v := v) hL hdpc).2 hhead]
    exact ⟨fun h => (h _).mp rfl, fun h v => by rw [h]⟩
  rw [hvalue]
  by_cases hnamed : ∃ im ∈ irqlMacros H.macros, im.1.name = L
  · -- no literal is a name, and no level of wdm.h is negative
    refine iff_of_false ?_ fun h => hhead (h.finds hnamed)
    obtain ⟨im, him, rfl⟩ := hnamed
    have hnonneg := irqlMacros_nonneg him
    rw [level, if_neg hdpc, namedLevel_of_mem him, toInt_eq, literal_name him]
    simp only [Option.bind_none, Option.getD_none, Option.getD_some]
    omega
  · rw [level, if_neg hdpc, namedLevel_eq_none hnamed, Option.getD_none, toInt_getD_iff]
    refine ⟨fun h => ⟨fun im him hmatch => ?_, fun hn => absurd hn hnamed, h⟩, fun h => h.fits⟩
    exact absurd ⟨im, him, hmatch⟩ hhead

/-- **The annotation has one level, which its text names, iff the text is `DPC_LEVEL` or the lookup
among the heads finds what it names.** -/
theorem evaluated_iff (H : Header) {a : SALAnnotation} {L : String}
    (hL : ∀ l, l ∈ getIrqlLevelString a ↔ l = L) :
    Evaluated H L a ↔ L = "DPC_LEVEL" ∨ LookedUp H L := by
  by_cases hdpc : L = "DPC_LEVEL"
  · subst hdpc
    exact iff_of_true (fun v => getIrqlLevel_dpc hL) (Or.inl rfl)
  · rw [or_iff_right hdpc]
    by_cases hhead : HeadMatched H L
    · exact evaluated_iff_of_matched hL hdpc hhead
    · exact evaluated_iff_of_not_matched hL hdpc hhead

end Level

/-! ### Headers -/

section Headers

open Database WhenForm

/-- Three of the levels of wdm.h. -/
def wdmHeader : Header where
  macros := wdm
  name_head := by decide
  distinct := by decide

/-- Two levels whose names differ in one place only, at an underscore of the first. -/
def clocks : Header where
  macros :=
    [⟨"CLOCK_1_LEVEL", "CLOCK_1_LEVEL", "28", "wdm.h"⟩,
      ⟨"CLOCK21_LEVEL", "CLOCK21_LEVEL", "27", "wdm.h"⟩]
  name_head := by decide
  distinct := by decide

/-- The annotation `_IRQL_requires_max_(L)`. -/
def requiresMax (L : String) : SALAnnotation := direct "_IRQL_requires_max_" L

lemma text_requiresMax {L : String} : ∀ l, l ∈ getIrqlLevelString (requiresMax L) ↔ l = L := by
  have hN : "_IRQL_requires_max_" ∈ directNames := by decide
  intro l
  rw [requiresMax, levelString_direct hN, List.mem_singleton]

theorem evaluated_iff_dispatch :
    Evaluated wdmHeader "DISPATCH_LEVEL" (requiresMax "DISPATCH_LEVEL") := by
  refine (evaluated_iff wdmHeader text_requiresMax).mpr (Or.inr ⟨by decide, ?_, by decide⟩)
  unfold HeadMatched
  decide

/-- The name of the first level matches the second one too, so that the annotation has both. -/
theorem clocks_two_levels :
    namedLevel clocks "CLOCK_1_LEVEL" = some 28 ∧
      getIrqlLevel clocks.macros (requiresMax "CLOCK_1_LEVEL") = [28, 27] ∧
      ¬ Evaluated clocks "CLOCK_1_LEVEL" (requiresMax "CLOCK_1_LEVEL") := by
  have hlevels : getIrqlLevel clocks.macros (requiresMax "CLOCK_1_LEVEL") = [28, 27] := by decide
  refine ⟨by decide, hlevels, fun h => ?_⟩
  have h27 : (27 : ℤ) = level clocks "CLOCK_1_LEVEL" := (h 27).mp (by rw [hlevels]; simp)
  exact absurd h27 (by decide)

end Headers

end DriverQueries.LevelTexts
