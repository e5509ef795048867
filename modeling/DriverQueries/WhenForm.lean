import DriverQueries.Sal

/-!
What a `_When_` annotation reads as.

`_When_(C, N(L))` is read by matching the text of its second argument against a list of
names and cutting the level out between the brackets. Here the readings are computed for
every name of the direct form and every level text without a closing bracket, and compared
with the one reading of `N(L)`.
-/

namespace DriverQueries.WhenForm

open DriverQueries.Text DriverQueries.Sal

def direct (N L : String) : SALAnnotation :=
  { getMacroName := N, getUnexpandedArgument := [L] }

def conditional (C N L : String) : SALAnnotation :=
  { getMacroName := "_When_", getUnexpandedArgument := [C, N ++ "(" ++ L ++ ")"] }

/-! ### Cutting out the level -/

section Cut

variable {n N L : List Char} {i j : ℕ}

/-- The name occurs with its bracket at the end of `N`, or inside the level. -/
lemma mem_indexOf_call (hn : '(' ∉ n ∧ ')' ∉ n) (hN : '(' ∉ N) :
    i ∈ indexOf (n ++ ['(']) (N ++ '(' :: (L ++ [')'])) ↔
      (i + n.length = N.length ∧ n = N.drop i) ∨
        ∃ k, i = N.length + 1 + k ∧ n ++ ['('] <+: L.drop k := by
  have hkey : ')' ∉ n ++ ['('] := by simp [hn.2]
  have hne : n ++ ['('] ≠ [] := by simp
  rw [mem_indexOf, prefix_drop_sep hn.1 hN]
  refine ⟨fun h => ?_, fun h => ⟨?_, ?_⟩⟩
  · obtain ⟨-, h | ⟨k, rfl, h⟩⟩ := h
    · exact Or.inl h
    · have hk := le_of_prefix_drop hne h
      simp only [List.length_append, List.length_cons, List.length_nil] at hk
      exact Or.inr ⟨k, rfl, (prefix_drop_snoc hkey (by omega)).mp h⟩
  · simp only [List.length_append, List.length_cons, List.length_nil]
    obtain h | ⟨k, rfl, h⟩ := h
    · omega
    · have hk := le_of_prefix_drop hne h
      omega
  · obtain h | ⟨k, rfl, h⟩ := h
    · exact Or.inl h
    · have hk := le_of_prefix_drop hne h
      exact Or.inr ⟨k, rfl, (prefix_drop_snoc hkey (by omega)).mpr h⟩

lemma end_of_call (hn : '(' ∉ n ∧ ')' ∉ n) (hN : '(' ∉ N)
    (hi : i ∈ indexOf (n ++ ['(']) (N ++ '(' :: (L ++ [')']))) :
    ∃ d ≤ L.length, i + n.length = N.length + d := by
  obtain ⟨h, -⟩ | ⟨k, rfl, h⟩ := (mem_indexOf_call hn hN).mp hi
  · exact ⟨0, by omega, by omega⟩
  · have hk := le_of_prefix_drop (by simp) h
    simp only [List.length_append, List.length_cons, List.length_nil] at hk
    exact ⟨1 + k + n.length, by omega, by omega⟩

/-- The level texts are the rests of `L` after the occurrences of the name: the closing
bracket found is the last character whichever occurrence the search for it starts from. -/
lemma mem_whenLevels (hn : '(' ∉ n ∧ ')' ∉ n) (hN : '(' ∉ N ∧ ')' ∉ N) (hL : ')' ∉ L)
    {l : List Char} : l ∈ whenLevels (N ++ '(' :: (L ++ [')'])) n ↔
      ∃ i ∈ indexOf (n ++ ['(']) (N ++ '(' :: (L ++ [')'])),
        l = L.drop (i + n.length - N.length) := by
  -- the first closing bracket after any occurrence is the last character of the text
  have cut : ∀ i ∈ indexOf (n ++ ['(']) (N ++ '(' :: (L ++ [')'])),
      ∀ j ∈ indexOf (n ++ ['(']) (N ++ '(' :: (L ++ [')'])),
      ((indexOfFrom [')'] 0 (j + 1 + n.length) (N ++ '(' :: (L ++ [')']))).bind fun e =>
        substring (N ++ '(' :: (L ++ [')'])) (i + 1 + n.length) e)
          = some (L.drop (i + n.length - N.length)) := by
    intro i hi j hj
    obtain ⟨d, hd, hid⟩ := end_of_call hn hN.1 hi
    obtain ⟨d', hd', hjd⟩ := end_of_call hn hN.1 hj
    have hfull : N ++ '(' :: (L ++ [')']) = (N ++ '(' :: L) ++ ')' :: [] := by simp
    have hfind : indexOfFrom [')'] 0 (j + 1 + n.length) ((N ++ '(' :: L) ++ ')' :: [])
        = some (N ++ '(' :: L).length :=
      indexOfFrom_single (by simp [hN.2, hL]) (by simp)
        (by simp only [List.length_append, List.length_cons]; omega)
    have hsub := substring_append (N ++ ['(']) L [')'] d hd
    simp only [List.length_append, List.length_cons, List.length_nil, List.append_assoc,
      List.cons_append, List.nil_append] at hsub
    rw [hfull, hfind, Option.bind_some, ← hfull]
    simp only [List.length_append, List.length_cons]
    rw [show i + 1 + n.length = N.length + (0 + 1) + d by omega,
      show N.length + (L.length + 1) = N.length + (0 + 1) + L.length by omega, hsub,
      show i + n.length - N.length = d by omega]
  simp only [whenLevels, List.mem_flatMap, List.mem_filterMap]
  refine ⟨fun ⟨i, hi, j, hj, h⟩ => ⟨i, hi, ?_⟩, fun ⟨i, hi, h⟩ => ⟨i, hi, i, hi, ?_⟩⟩
  · rw [cut i hi j hj] at h
    exact (Option.some.inj h).symm
  · rw [cut i hi i hi, h]

end Cut

/-! ### The readings of a `_When_` -/

lemma names_no_bracket :
    ∀ N ∈ directNames ++ whenNames, '(' ∉ N.toList ∧ ')' ∉ N.toList := by decide

lemma whenNames_plain :
    ∀ n ∈ whenNames, '%' ∉ n.toList ∧ '\\' ∉ n.toList := by decide

lemma whenNames_suffix :
    ∀ n ∈ whenNames, ∀ N ∈ directNames, n.toList <:+ N.toList → n = N := by decide

lemma whenNames_wild : ∀ n ∈ whenNames, ∀ N ∈ directNames,
    (wild (n.toList.take (N.toList ++ ['(']).length) (N.toList ++ ['(']) = true →
      n.toList.drop (N.toList ++ ['(']).length = []) ∧
    (wild (n.toList.take (N.toList ++ ['(']).length) (N.toList ++ ['(']) = true ↔
      n = N ∨ n = "_IRQL_requires_" ∧ N ∈ ["_IRQL_requires_max_", "_IRQL_requires_min_"]) := by
  decide

lemma inner_toList (N L : String) :
    (N ++ "(" ++ L ++ ")").toList = N.toList ++ '(' :: (L.toList ++ [')']) := by
  simp

lemma matches_inner {n N : String} (hn : n ∈ whenNames) (hN : N ∈ directNames) (L : String) :
    matchesPattern (N ++ "(" ++ L ++ ")") (n ++ "%") ↔
      n = N ∨ n = "_IRQL_requires_" ∧ N ∈ ["_IRQL_requires_max_", "_IRQL_requires_min_"] := by
  have hfull : (N ++ "(" ++ L ++ ")").toList = (N.toList ++ ['(']) ++ (L.toList ++ [')']) := by
    simp
  obtain ⟨hdrop, hiff⟩ := whenNames_wild n hn N hN
  have hpat : (n ++ "%").toList = n.toList ++ ['%'] := by simp
  rw [matchesPattern, hpat, hfull, like_prefix _ _ (whenNames_plain n hn), wild_append,
    Bool.and_eq_true, ← hiff]
  refine ⟨fun h => h.1, fun h => ⟨h, ?_⟩⟩
  rw [hdrop h, wild]

lemma readings_when (C full : String) :
    readings { getMacroName := "_When_", getUnexpandedArgument := [C, full] } =
      (whenNames.filter fun n => matchesPattern full (n ++ "%")).flatMap fun n =>
        (whenLevels full.toList n.toList).map fun l => ⟨String.ofList l, "_When_", n⟩ := by
  have hd : ("_When_" : String) ∉ directNames := by decide
  have hs : ("_When_" : String) ∉ savesNames := by decide
  simp [readings, hd, hs]

variable {C N L : String}

lemma mem_readings_indexOf (hN : N ∈ directNames) (hL : ')' ∉ L.toList) {r : Reading} :
    r ∈ readings (conditional C N L) ↔ ∃ n ∈ whenNames,
      (n = N ∨ n = "_IRQL_requires_" ∧ N ∈ ["_IRQL_requires_max_", "_IRQL_requires_min_"]) ∧
      ∃ i ∈ indexOf (n.toList ++ ['(']) (N.toList ++ '(' :: (L.toList ++ [')'])),
        r = ⟨String.ofList (L.toList.drop (i + n.toList.length - N.toList.length)),
          "_When_", n⟩ := by
  have hbr := fun n hn => names_no_bracket n (List.mem_append_right _ hn)
  have hbrN := names_no_bracket N (List.mem_append_left _ hN)
  rw [conditional, readings_when]
  simp only [List.mem_flatMap, List.mem_filter, List.mem_map]
  refine ⟨fun h => ?_, fun h => ?_⟩
  · obtain ⟨n, ⟨hn, hm⟩, l, hl, hr⟩ := h
    rw [inner_toList, mem_whenLevels (hbr n hn) hbrN hL] at hl
    obtain ⟨i, hi, rfl⟩ := hl
    exact ⟨n, hn, (matches_inner hn hN L).mp hm, i, hi, hr.symm⟩
  · obtain ⟨n, hn, hm, i, hi, hr⟩ := h
    refine ⟨n, ⟨hn, (matches_inner hn hN L).mpr hm⟩, _, ?_, hr.symm⟩
    rw [inner_toList, mem_whenLevels (hbr n hn) hbrN hL]
    exact ⟨i, hi, rfl⟩

/-- **The readings of `_When_(C, N(L))`**: the name `N` with the level `L`, when the list
has that name, and for each name whose pattern matches, the rest of `L` after each
occurrence of the name with a bracket. -/
lemma mem_readings_conditional (hN : N ∈ directNames) (hL : ')' ∉ L.toList) {r : Reading} :
    r ∈ readings (conditional C N L) ↔
      (N ∈ whenNames ∧ r = ⟨L, "_When_", N⟩) ∨
      ∃ n ∈ whenNames, (n = N ∨ n = "_IRQL_requires_" ∧
          N ∈ ["_IRQL_requires_max_", "_IRQL_requires_min_"]) ∧
        ∃ k, n.toList ++ ['('] <+: L.toList.drop k ∧
          r = ⟨String.ofList (L.toList.drop (1 + k + n.toList.length)), "_When_", n⟩ := by
  have hbr := fun n hn => names_no_bracket n (List.mem_append_right _ hn)
  have hbrN := names_no_bracket N (List.mem_append_left _ hN)
  rw [mem_readings_indexOf hN hL]
  refine ⟨fun ⟨n, hn, hm, i, hi, hr⟩ => ?_, fun h => ?_⟩
  · obtain ⟨hlen, hsuf⟩ | ⟨k, rfl, hk⟩ := (mem_indexOf_call (hbr n hn) hbrN.1).mp hi
    · have hnN : n = N := whenNames_suffix n hn N hN (hsuf ▸ List.drop_suffix i N.toList)
      subst hnN
      refine Or.inl ⟨hn, ?_⟩
      rw [hr, show i = 0 by omega]; simp
    · refine Or.inr ⟨n, hn, hm, k, hk, ?_⟩
      rw [hr, show N.toList.length + 1 + k + n.toList.length - N.toList.length
        = 1 + k + n.toList.length by omega]
  · obtain ⟨hn, hr⟩ | ⟨n, hn, hm, k, hk, hr⟩ := h
    · refine ⟨N, hn, Or.inl rfl, 0, ?_, ?_⟩
      · exact (mem_indexOf_call (hbr N hn) hbrN.1).mpr (Or.inl ⟨by simp, by simp⟩)
      · rw [hr]; simp
    · refine ⟨n, hn, hm, N.toList.length + 1 + k, ?_, ?_⟩
      · exact (mem_indexOf_call (hbr n hn) hbrN.1).mpr (Or.inr ⟨k, rfl, hk⟩)
      · rw [hr, show N.toList.length + 1 + k + n.toList.length - N.toList.length
          = 1 + k + n.toList.length by omega]

lemma readings_direct (hN : N ∈ directNames) : readings (direct N L) = [⟨L, N, N⟩] := by
  have hs : ∀ N ∈ directNames, N ∉ savesNames ∧ N ≠ "_When_" := by decide
  obtain ⟨h, h'⟩ := hs N hN
  simp [readings, direct, hN, h, h']

/-! ### When the conditional form means what the direct one means -/

/-- The classes a level annotation can be in. -/
def levelClasses : List <| SALAnnotation → Prop := [
    IrqlMaxAnnotation, IrqlMinAnnotation, IrqlRequiresAnnotation, IrqlRaisesAnnotation,
    IrqlAlwaysMaxAnnotation, IrqlAlwaysMinAnnotation]

/-- `_When_(C, N(L))` is read as `N(L)` is, and in no other way. -/
structure SameMeaning (ms : List Macro) (C N L : String) : Prop where
  isAnnotated : IrqlFunctionAnnotation (conditional C N L)
  name : ∀ n, n ∈ getIrqlMacroName (conditional C N L) ↔ n = N
  levelString : ∀ l, l ∈ getIrqlLevelString (conditional C N L) ↔ l = L
  level : ∀ v, v ∈ getIrqlLevel ms (conditional C N L) ↔ v ∈ getIrqlLevel ms (direct N L)
  classes : ∀ k ∈ levelClasses, k (conditional C N L) ↔ k (direct N L)

/-- The list has the name, and the level repeats no name that the patterns let through. -/
def WhenReadable (N L : String) : Prop :=
  N ≠ "_IRQL_requires_min_" ∧ N ≠ "__drv_raisesIRQL" ∧
    ¬ N.toList ++ ['('] <:+: L.toList ∧
    (N = "_IRQL_requires_max_" → ¬ "_IRQL_requires_".toList ++ ['('] <:+: L.toList)

lemma infix_iff_drop {key s : List Char} : key <:+: s ↔ ∃ k, key <+: s.drop k := by
  rw [List.infix_iff_prefix_suffix]
  refine ⟨fun ⟨t, h, ht⟩ => ?_, fun ⟨k, h⟩ => ⟨_, h, List.drop_suffix k s⟩⟩
  exact ⟨s.length - t.length, (List.suffix_iff_eq_drop.mp ht) ▸ h⟩

lemma mem_whenNames_iff : ∀ N ∈ directNames,
    (N ∈ whenNames ↔ N ≠ "_IRQL_requires_min_" ∧ N ≠ "__drv_raisesIRQL") := by decide

lemma getIrqlLevel_congr {ms : List Macro} {a b : SALAnnotation}
    (hann : IrqlFunctionAnnotation a ↔ IrqlFunctionAnnotation b)
    (hstr : ∀ l, l ∈ getIrqlLevelString a ↔ l ∈ getIrqlLevelString b) (v : ℤ) :
    v ∈ getIrqlLevel ms a ↔ v ∈ getIrqlLevel ms b := by
  have hhead : ∀ m, HeadMatches a m ↔ HeadMatches b m := by
    intro m
    unfold HeadMatches
    simp only [hstr]
  unfold getIrqlLevel
  simp only [hann, hstr, hhead]
  split_ifs <;> simp [hstr]

lemma macroName_conditional (C N L : String) :
    getIrqlMacroName (conditional C N L) =
      (readings (conditional C N L)).map (·.innerAnnotationName) := rfl

lemma macroName_direct {N L : String} (hN : N ∈ directNames) :
    getIrqlMacroName (direct N L) = [N] := by
  rw [getIrqlMacroName, readings_direct hN, List.map_singleton, ite_self]

lemma levelString_direct {N L : String} (hN : N ∈ directNames) :
    getIrqlLevelString (direct N L) = [L] := by
  simp [getIrqlLevelString, readings_direct hN]

lemma readings_readable {C N L : String} (hN : N ∈ directNames) (hL : ')' ∉ L.toList)
    (h : WhenReadable N L) (r : Reading) :
    r ∈ readings (conditional C N L) ↔ r = ⟨L, "_When_", N⟩ := by
  obtain ⟨hmin, hraise, hself, hmax⟩ := h
  rw [mem_readings_conditional hN hL]
  refine ⟨fun hr => ?_, fun hr => Or.inl ⟨(mem_whenNames_iff N hN).mpr ⟨hmin, hraise⟩, hr⟩⟩
  obtain ⟨-, hr⟩ | ⟨n, hn, hm, k, hk, -⟩ := hr
  · exact hr
  · have hin := infix_iff_drop.mpr ⟨k, hk⟩
    obtain rfl | ⟨rfl, hm⟩ := hm
    · exact absurd hin hself
    · simp only [List.mem_cons, List.not_mem_nil, or_false] at hm
      exact absurd hin (hmax (hm.resolve_right hmin))

theorem sameMeaning_of_readable (ms : List Macro) (C : String) {N L : String}
    (hN : N ∈ directNames) (hL : ')' ∉ L.toList) (h : WhenReadable N L) :
    SameMeaning ms C N L := by
  have hread := readings_readable (C := C) hN hL h
  have hann : IrqlFunctionAnnotation (conditional C N L) := by
    intro hnil
    have := (hread _).mpr rfl
    simp [hnil] at this
  have hname : ∀ n, n ∈ getIrqlMacroName (conditional C N L) ↔ n = N := by
    intro n
    rw [macroName_conditional, List.mem_map]
    simp [hread, eq_comm]
  have hstr : ∀ l, l ∈ getIrqlLevelString (conditional C N L) ↔ l = L := by
    intro l
    rw [getIrqlLevelString, List.mem_map]
    simp [hread, eq_comm]
  have hclass : ∀ names, HasIrqlMacroName names (conditional C N L) ↔
      HasIrqlMacroName names (direct N L) := by
    intro names
    simp [HasIrqlMacroName, hname, macroName_direct hN]
  refine ⟨hann, hname, hstr, ?_, ?_⟩
  · refine getIrqlLevel_congr ⟨fun _ => ?_, fun _ => hann⟩ fun l => ?_
    · simp [readings_direct hN, IrqlFunctionAnnotation]
    · simp [hstr, levelString_direct hN]
  · intro k hk
    simp only [levelClasses, List.mem_cons, List.not_mem_nil, or_false] at hk
    rcases hk with rfl | rfl | rfl | rfl | rfl | rfl <;> exact hclass _

lemma readable_of_sameMeaning {ms : List Macro} {C N L : String} (hN : N ∈ directNames)
    (hL : ')' ∉ L.toList) (h : SameMeaning ms C N L) : WhenReadable N L := by
  have hnames : ∀ r ∈ readings (conditional C N L), r.innerAnnotationName = N := by
    intro r hr
    refine (h.name _).mp ?_
    rw [macroName_conditional]
    exact List.mem_map.mpr ⟨r, hr, rfl⟩
  have hlevels : ∀ r ∈ readings (conditional C N L), r.irqlLevel = L := by
    intro r hr
    exact (h.levelString _).mp (List.mem_map.mpr ⟨r, hr, rfl⟩)
  have hwhen : N ∈ whenNames := by
    have hmem := (h.name N).mpr rfl
    rw [macroName_conditional] at hmem
    obtain ⟨r, hr, -⟩ := List.mem_map.mp hmem
    have hrN := hnames r hr
    obtain ⟨hw, -⟩ | ⟨n, hn, -, k, -, rfl⟩ := (mem_readings_conditional hN hL).mp hr
    · exact hw
    · exact hrN ▸ hn
  obtain ⟨hmin, hraise⟩ := (mem_whenNames_iff N hN).mp hwhen
  refine ⟨hmin, hraise, fun hin => ?_, fun hmax hin => ?_⟩
  · -- a second occurrence of the name cuts a shorter level out
    obtain ⟨k, hk⟩ := infix_iff_drop.mp hin
    have hl := hlevels _ ((mem_readings_conditional hN hL).mpr
      (Or.inr ⟨N, hwhen, Or.inl rfl, k, hk, rfl⟩))
    have hlen := congrArg (fun s : String => s.toList.length) hl
    have hpre := hk.length_le
    simp only [String.toList_ofList, List.length_drop, List.length_append,
      List.length_singleton] at hlen hpre
    omega
  · -- the shorter name is read inside the level
    obtain ⟨k, hk⟩ := infix_iff_drop.mp hin
    have hn := hnames _ ((mem_readings_conditional hN hL).mpr
      (Or.inr ⟨"_IRQL_requires_", by decide, Or.inr ⟨rfl, by simp [hmax]⟩, k, hk, rfl⟩))
    have hne : ("_IRQL_requires_" : String) ≠ "_IRQL_requires_max_" := by decide
    exact hne (hn.trans hmax)

/-- **The conditional form of a level annotation means what the direct form means iff the
name is one of those looked for inside a `_When_` and the level text does not repeat a name
that matches.** -/
theorem conditional_same_iff (ms : List Macro) (C : String) {N L : String}
    (hN : N ∈ directNames) (hL : ')' ∉ L.toList) :
    SameMeaning ms C N L ↔ WhenReadable N L :=
  ⟨readable_of_sameMeaning hN hL, sameMeaning_of_readable ms C hN hL⟩

theorem conditional_same_max :
    SameMeaning [] "Wait==0" "_IRQL_requires_max_" "DISPATCH_LEVEL" :=
  (conditional_same_iff [] "Wait==0" (by decide) (by decide)).mpr
    ⟨by decide, by decide, by decide, fun _ => by decide⟩

/-- `_When_(Wait==0, _IRQL_requires_min_(DISPATCH_LEVEL))` is no IRQL annotation at all. -/
theorem conditional_min_unread :
    "_IRQL_requires_min_" ∈ directNames ∧ ')' ∉ "DISPATCH_LEVEL".toList ∧
      readings (conditional "Wait==0" "_IRQL_requires_min_" "DISPATCH_LEVEL") = [] ∧
      ∀ ms, ¬ SameMeaning ms "Wait==0" "_IRQL_requires_min_" "DISPATCH_LEVEL" := by
  have hnil : readings (conditional "Wait==0" "_IRQL_requires_min_" "DISPATCH_LEVEL") = [] := by
    decide
  exact ⟨by decide, by decide, hnil, fun ms h => h.isAnnotated hnil⟩

end DriverQueries.WhenForm
