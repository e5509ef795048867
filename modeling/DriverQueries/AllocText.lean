import DriverQueries.CodeSegments

/-!
Functions placed by an `alloc_text` pragma.

The pragma names a segment and lists functions. The library reads its text: it asks for `PAGE`
after an opening bracket, and for the name of the function, as a pattern, before the closing
bracket at the end.
-/

namespace DriverQueries.AllocText

open DriverQueries.Text DriverQueries.CodeSegments

/-! ### Pragmas -/

/-- An `alloc_text` pragma, written with any blanks between its parts. -/
structure Pragma where
  getFile : String
  segment : Argument
  functions : List (List Char)
  nonempty : functions ≠ [] := by decide
  gap : ℕ → List Char := fun _ => []
  gap_blank : ∀ i, ∀ c ∈ gap i, c = ' ' ∨ c = '\t' := by simp

/-- A function; no name of one has a backslash. -/
structure Function where
  getName : List Char
  getFile : String
  name_plain : '\\' ∉ getName := by decide

def segmentName : Argument → List Char
  | .word w => w
  | .quoted n => n

def Pragma.arguments (p : Pragma) : List Argument := p.segment :: p.functions.map .word

def Pragma.body (p : Pragma) : List Char := writeArguments p.gap 1 p.arguments

def Pragma.keyword (p : Pragma) : List Char := "alloc_text".toList ++ p.gap 0

def Pragma.getHead (p : Pragma) : List Char := p.keyword ++ '(' :: p.body ++ [')']

def AllocSegPragma (p : Pragma) : Prop :=
  like "alloc\\_text%(%PAGE%".toList p.getHead ∨
    like "NDIS\\_PAGEABLE\\_FUNCTION%".toList p.getHead ∨
    like "NDIS\\_PAGABLE\\_FUNCTION%".toList p.getHead

/-- `isAllocUsedToLocatePagedFunc`, because of the pragma `asp`. -/
def isAllocUsedToLocatePagedFunc (asp : Pragma) (pf : Function) : Prop :=
  AllocSegPragma asp ∧
    (like ('%' :: pf.getName ++ [' ', ')']) asp.getHead ∨
      like ('%' :: pf.getName ++ [')']) asp.getHead) ∧
    asp.getFile = pf.getFile

instance : DecidablePred AllocSegPragma := fun _ => inferInstanceAs (Decidable (_ ∨ _ ∨ _))
instance (p : Pragma) (f : Function) : Decidable (isAllocUsedToLocatePagedFunc p f) :=
  inferInstanceAs (Decidable (_ ∧ (_ ∨ _) ∧ _))

/-! ### What the pragma says, and what its text looks like -/

/-- The pragma places the function in a segment whose name begins with `PAGE`. -/
def Places (p : Pragma) (f : Function) : Prop :=
  "PAGE".toList <+: segmentName p.segment ∧ f.getName ∈ p.functions

instance (p : Pragma) (f : Function) : Decidable (Places p f) := inferInstanceAs (Decidable (_ ∧ _))

/-- The text ends in something that the name, as a pattern, matches. -/
def EndsAs (name text : List Char) : Prop := ∃ t, t <:+ text ∧ like name t

/-- The text up to the closing bracket, or to one blank before it, ends in the name. -/
def ListEndsIn (p : Pragma) (f : Function) : Prop :=
  EndsAs f.getName (p.keyword ++ '(' :: p.body) ∨
    ∃ u, p.body = u ++ [' '] ∧ EndsAs f.getName (p.keyword ++ '(' :: u)

variable {p : Pragma} {f : Function} {q s t : List Char} {c : Char}

/-! ### The pragma of a paged segment -/

lemma gap_not_bracket (i : ℕ) : '(' ∉ p.gap i := by
  intro h
  rcases p.gap_blank i _ h with h | h <;> exact absurd h (by decide)

/-- What follows some opening bracket lies between the brackets, but for the last one. -/
lemma suffix_of_bracket {k b : List Char} (hk : '(' ∉ k) (h : '(' :: t <:+ k ++ '(' :: b) :
    t <:+ b := by
  obtain ⟨u, hu⟩ := h
  rcases List.append_eq_append_iff.mp hu with ⟨w, rfl, hw⟩ | ⟨w, rfl, hw⟩
  · cases w with
    | nil =>
      simp only [List.nil_append, List.cons.injEq, true_and] at hw
      exact hw ▸ List.suffix_rfl
    | cons d w =>
      simp only [List.cons_append, List.cons.injEq] at hw
      exact absurd (by simp [← hw.1]) hk
  · cases w with
    | nil =>
      simp only [List.nil_append, List.cons.injEq, true_and] at hw
      exact hw ▸ List.suffix_rfl
    | cons d w =>
      simp only [List.cons_append, List.cons.injEq] at hw
      exact ⟨w ++ ['('], by simp [hw.2]⟩

lemma infix_of_concat (hq : c ∉ q) (h : q <:+: s ++ [c]) : q <:+: s := by
  obtain ⟨u, v, huv⟩ := h
  rcases List.eq_nil_or_concat v with rfl | ⟨w, d, rfl⟩
  · rcases List.eq_nil_or_concat q with rfl | ⟨w, d, rfl⟩
    · exact List.nil_infix
    · rw [List.append_nil, List.concat_eq_append, ← List.append_assoc] at huv
      have hd : d = c := List.singleton_injective (List.append_inj' huv rfl).2
      exact absurd (by simp [hd]) hq
  · rw [List.concat_eq_append, ← List.append_assoc] at huv
    exact ⟨u, w, (List.append_inj' huv rfl).1⟩

lemma like_bracket_iff : like ('(' :: q) s = true ↔ ∃ t, s = '(' :: t ∧ like q t = true := by
  have hplain : Plain ['('] := by decide
  exact like_plain_append (q := ['(']) hplain

/-- The part of the pattern after the keyword. -/
lemma like_paged_iff (hq : Plain q) (hclose : ')' ∉ q) :
    like ('%' :: '(' :: '%' :: q ++ ['%']) (p.gap 0 ++ '(' :: (p.body ++ [')'])) ↔
      q <:+: p.body := by
  rw [List.cons_append, List.cons_append, like_percent_iff]
  constructor
  · rintro ⟨t, ht, hlike⟩
    obtain ⟨u, rfl, hlike⟩ := like_bracket_iff.mp hlike
    have hwithin := (like_infix_iff hq).mp hlike
    have hsuffix := suffix_of_bracket (gap_not_bracket 0) ht
    exact infix_of_concat hclose (hwithin.trans hsuffix.isInfix)
  · intro h
    refine ⟨'(' :: (p.body ++ [')']), List.suffix_append _ _, ?_⟩
    refine like_bracket_iff.mpr ⟨p.body ++ [')'], rfl, (like_infix_iff hq).mpr ?_⟩
    exact h.trans (List.prefix_append _ _).isInfix

lemma getHead_eq :
    p.getHead =
      "alloc".toList ++ '_' :: ("text".toList ++ (p.gap 0 ++ '(' :: (p.body ++ [')']))) := by
  have hkeyword : "alloc_text".toList = "alloc".toList ++ '_' :: "text".toList := by decide
  unfold Pragma.getHead Pragma.keyword
  rw [hkeyword]
  simp only [List.append_assoc, List.cons_append]

lemma not_like_ndis : ¬ like ("NDIS".toList ++ q) p.getHead := by
  intro h
  obtain ⟨t, ht, -⟩ := (like_plain_append (by decide)).mp h
  rw [getHead_eq] at ht
  simp at ht

/-- The pattern asks for `PAGE` anywhere between the brackets. -/
lemma allocSegPragma_iff : AllocSegPragma p ↔ "PAGE".toList <:+: p.body := by
  have hplain : Plain "alloc".toList ∧ Plain "text".toList ∧ Plain "PAGE".toList := by decide
  obtain ⟨halloc, htext, hpage⟩ := hplain
  have hpattern : "alloc\\_text%(%PAGE%".toList = "alloc".toList ++
      ('\\' :: '_' :: ("text".toList ++ ('%' :: '(' :: '%' :: "PAGE".toList ++ ['%']))) := by
    decide
  have hpageable : "NDIS\\_PAGEABLE\\_FUNCTION%".toList =
      "NDIS".toList ++ "\\_PAGEABLE\\_FUNCTION%".toList := by decide
  have hpagable : "NDIS\\_PAGABLE\\_FUNCTION%".toList =
      "NDIS".toList ++ "\\_PAGABLE\\_FUNCTION%".toList := by decide
  rw [← like_paged_iff hpage (by decide), AllocSegPragma, hpattern, hpageable, hpagable]
  rw [or_iff_left (not_or.mpr ⟨not_like_ndis, not_like_ndis⟩), getHead_eq, like_plain_append halloc]
  constructor
  · rintro ⟨t, ht, h⟩
    obtain ⟨u, rfl, h⟩ := like_escaped_append htext h
    simp only [List.append_cancel_left_eq, List.cons_append, List.cons.injEq, true_and] at ht
    rwa [ht]
  · intro h
    refine ⟨_, rfl, ?_⟩
    rw [like_escaped, like_plain_append htext]
    exact ⟨_, rfl, h⟩

/-! ### Where the text says what the pragma says -/

lemma like_closing_iff (hq : '\\' ∉ q) :
    like ('%' :: q ++ [')']) p.getHead ↔ EndsAs q (p.keyword ++ '(' :: p.body) := by
  have hplain : Plain [')'] := by decide
  have hpercent : '\\' ∉ '%' :: q := by simp [hq]
  rw [like_concat_iff hpercent hplain]
  constructor
  · rintro ⟨u, hu, h⟩
    rw [Pragma.getHead] at hu
    rw [List.append_cancel_right hu]
    exact like_percent_iff.mp h
  · intro h
    exact ⟨_, rfl, like_percent_iff.mpr h⟩

/-- One blank may stand before the closing bracket. -/
lemma endsAs_blank_iff (hq : '\\' ∉ q) :
    EndsAs (q ++ [' ']) (p.keyword ++ '(' :: p.body) ↔
      ∃ u, p.body = u ++ [' '] ∧ EndsAs q (p.keyword ++ '(' :: u) := by
  have hplain : Plain [' '] := by decide
  have hpercent : '\\' ∉ '%' :: q := by simp [hq]
  rw [EndsAs, ← like_percent_iff, ← List.cons_append, like_concat_iff hpercent hplain]
  constructor
  · rintro ⟨u, hu, h⟩
    rcases List.eq_nil_or_concat p.body with hnil | ⟨w, d, hw⟩
    · rw [hnil] at hu
      exact absurd (List.append_inj' hu rfl).2 (by decide)
    · rw [hw, List.concat_eq_append, ← List.cons_append, ← List.append_assoc] at hu
      obtain ⟨rfl, hd⟩ := List.append_inj' hu rfl
      refine ⟨w, ?_, like_percent_iff.mp h⟩
      rw [hw, List.concat_eq_append, hd]
  · rintro ⟨u, hu, h⟩
    exact ⟨p.keyword ++ '(' :: u, by simp [hu], like_percent_iff.mpr h⟩

lemma located_iff :
    isAllocUsedToLocatePagedFunc p f ↔
      "PAGE".toList <:+: p.body ∧ ListEndsIn p f ∧ p.getFile = f.getFile := by
  have hname := f.name_plain
  have hblank : '\\' ∉ f.getName ++ [' '] := by simp [hname]
  have hsplit : '%' :: f.getName ++ [' ', ')'] = '%' :: (f.getName ++ [' ']) ++ [')'] := by simp
  rw [isAllocUsedToLocatePagedFunc, allocSegPragma_iff, hsplit, like_closing_iff hblank,
    like_closing_iff hname, endsAs_blank_iff hname, ListEndsIn]
  exact and_congr_right fun _ => and_congr_left fun _ => or_comm

lemma infix_segmentName (a : Argument) : segmentName a <:+: a.text := by
  cases a with
  | word w => exact List.infix_rfl
  | quoted n => exact ⟨['"'], ['"'], by simp [segmentName, Argument.text]⟩

lemma page_infix_of_places (h : Places p f) : "PAGE".toList <:+: p.body := by
  have hne : p.functions.map Argument.word ≠ [] := by simp [p.nonempty]
  have hsegment : p.segment.text <:+: p.body := by
    rw [Pragma.body, Pragma.arguments, writeArguments_cons 1 p.segment hne, List.append_assoc]
    exact ⟨p.gap 1, _, rfl⟩
  exact h.1.isInfix.trans ((infix_segmentName p.segment).trans hsegment)

/-- **The library's reading is that of the pragma exactly if the list ends in the name of what
is placed, and in that of nothing else where the brackets have `PAGE` in them.** -/
theorem located_iff_places_iff (hfile : p.getFile = f.getFile) :
    (isAllocUsedToLocatePagedFunc p f ↔ Places p f) ↔
      (Places p f → ListEndsIn p f) ∧
        (¬ Places p f → ListEndsIn p f → ¬ "PAGE".toList <:+: p.body) := by
  rw [located_iff]
  constructor
  · intro h
    exact ⟨fun hp => (h.mpr hp).2.1, fun hnot hends hpage => hnot (h.mp ⟨hpage, hends, hfile⟩)⟩
  · rintro ⟨hlast, hother⟩
    constructor
    · rintro ⟨hpage, hends, -⟩
      by_contra hnot
      exact hother hnot hends hpage
    · intro hp
      exact ⟨page_infix_of_places hp, hlast hp, hfile⟩

/-- The last function of a list with at most one blank in each gap is found. -/
theorem located_of_last (hfile : p.getFile = f.getFile)
    (hpage : "PAGE".toList <+: segmentName p.segment) {before : List (List Char)}
    (hlast : p.functions = before ++ [f.getName]) (hname : '%' ∉ f.getName)
    (hgap : ∀ i, p.gap i = [] ∨ p.gap i = [' ']) : isAllocUsedToLocatePagedFunc p f := by
  have hplaces : Places p f := ⟨hpage, by simp [hlast]⟩
  have hself : ∀ u, EndsAs f.getName (u ++ f.getName) := fun u =>
    ⟨f.getName, List.suffix_append u _, (like_identifier_iff ⟨hname, f.name_plain⟩).mpr
      (List.forall₂_same.mpr fun _ _ => .inr rfl)⟩
  obtain ⟨pre, j, hbody⟩ : ∃ pre j, p.body = pre ++ f.getName ++ p.gap j := by
    rw [Pragma.body, Pragma.arguments, hlast, List.map_append, ← List.cons_append]
    exact writeArguments_concat 1 _ (.word f.getName)
  refine located_iff.mpr ⟨page_infix_of_places hplaces, ?_, hfile⟩
  rcases hgap j with hj | hj
  · refine .inl ?_
    rw [hbody, hj, List.append_nil, ← List.cons_append, ← List.append_assoc]
    exact hself _
  · refine .inr ⟨pre ++ f.getName, by rw [hbody, hj], ?_⟩
    rw [← List.cons_append, ← List.append_assoc]
    exact hself _

/-! ### Lists -/

lemma no_gap_blank : ∀ i : ℕ, ∀ c ∈ (fun _ => [] : ℕ → List Char) i, c = ' ' ∨ c = '\t' := by simp

/-- `#pragma alloc_text(PAGE, ...)`, written without blanks. -/
def paged (functions : List (List Char)) (h : functions ≠ [] := by decide) : Pragma where
  getFile := "driver.c"
  segment := .word "PAGE".toList
  functions := functions
  nonempty := h
  gap_blank := no_gap_blank

def named (name : List Char) (h : '\\' ∉ name := by decide) : Function := ⟨name, "driver.c", h⟩

/-- The first of two functions is listed and not found; a function whose name is the end of the
listed one is found. -/
theorem located_not_places :
    (Places (paged ["Create".toList, "Close".toList]) (named "Create".toList) ∧
      ¬ isAllocUsedToLocatePagedFunc (paged ["Create".toList, "Close".toList])
        (named "Create".toList)) ∧
    (isAllocUsedToLocatePagedFunc (paged ["EvtUnload".toList]) (named "Unload".toList) ∧
      ¬ Places (paged ["EvtUnload".toList]) (named "Unload".toList)) := by
  decide

theorem located_iff_places_last :
    isAllocUsedToLocatePagedFunc (paged ["Create".toList, "Close".toList])
        (named "Close".toList) ↔
      Places (paged ["Create".toList, "Close".toList]) (named "Close".toList) := by
  refine (located_iff_places_iff rfl).mpr ⟨fun _ => .inl ?_, fun h => absurd (by decide) h⟩
  exact ⟨"Close".toList, by decide, by decide⟩

end DriverQueries.AllocText
