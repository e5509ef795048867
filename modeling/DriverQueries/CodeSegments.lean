import DriverQueries.Text
import Mathlib.Data.List.DropRight

/-!
Functions in the paged code segment.

A `code_seg` pragma names the segment of the functions after it; its push and pop forms also
save and restore the segment. The library does not execute the pragmas: it compares lines, and
takes a function as paged when some `code_seg("PAGE")` lies before it and no `code_seg()` or
`code_seg("INIT")` between the two. So it goes by the last pragma it recognises, and is right
exactly when the pragmas after that one leave the segment in or out of `PAGE`.
-/

namespace DriverQueries.CodeSegments

open DriverQueries.Text

/-! ### Pragmas -/

/-- What an argument of the pragma is. Words are `push`, `pop` and identifiers. -/
inductive Argument
  | word (w : List Char)
  | quoted (n : List Char)
  deriving DecidableEq

def Argument.text : Argument → List Char
  | .word w => w
  | .quoted n => '"' :: n ++ ['"']

inductive Action
  | set | push | pop
  deriving DecidableEq

/-- The arguments of a `code_seg` pragma: `push` or `pop`, an identifier of the saved segment,
and the name of a segment. -/
structure Directive where
  action : Action
  identifier : Option (List Char) := none
  segment : Option (List Char) := none
  identifier_word : ∀ i ∈ identifier, i ≠ [] ∧ '"' ∉ i ∧ '(' ∉ i := by decide
  set_identifier : action = .set → identifier = none := by decide
  segment_plain : ∀ n ∈ segment, '"' ∉ n := by decide

def Action.arguments : Action → List Argument
  | .set => []
  | .push => [.word "push".toList]
  | .pop => [.word "pop".toList]

def Directive.arguments (d : Directive) : List Argument :=
  d.action.arguments ++ d.identifier.toList.map .word ++ d.segment.toList.map .quoted

/-- The arguments with a gap before and after each. -/
def writeArguments (gap : ℕ → List Char) : ℕ → List Argument → List Char
  | i, [] => gap i
  | i, [a] => gap i ++ a.text ++ gap (i + 1)
  | i, a :: b :: as => gap i ++ a.text ++ gap (i + 1) ++ ',' :: writeArguments gap (i + 2) (b :: as)

/-- A `code_seg` pragma on a line, written with any blanks between its parts. -/
structure Pragma where
  line : ℕ
  directive : Directive
  gap : ℕ → List Char := fun _ => []
  gap_blank : ∀ i, ∀ c ∈ gap i, c = ' ' ∨ c = '\t' := by simp

def Pragma.keyword (p : Pragma) : List Char := "code_seg".toList ++ p.gap 0

def Pragma.body (p : Pragma) : List Char := writeArguments p.gap 1 p.directive.arguments

def Pragma.getHead (p : Pragma) : String := String.ofList (p.keyword ++ '(' :: p.body ++ [')'])

def CodeSegPragma (p : Pragma) : Prop := matchesPattern p.getHead "code\\_seg%(%\"PAGE\")"

def DefaultCodeSegPragma (p : Pragma) : Prop :=
  matchesPattern p.getHead "code\\_seg()" ∨ matchesPattern p.getHead "code\\_seg(\"INIT\")"

instance : DecidablePred CodeSegPragma := fun _ => inferInstanceAs (Decidable (_ = true))
instance : DecidablePred DefaultCodeSegPragma := fun _ => inferInstanceAs (Decidable (_ ∨ _))

/-! ### Executing the pragmas -/

/-- The segment in force, and the saved ones with their identifiers. -/
structure State where
  segment : List Char
  saved : List (Option (List Char) × List Char)

def initial : State := ⟨".text".toList, []⟩

/-- What is restored: the last saved segment, or the last one saved under the identifier with
all those saved since. Where there is none, nothing is. -/
def restore (s : State) : Option (List Char) → State
  | none =>
    match s.saved with
    | [] => s
    | r :: saved => ⟨r.2, saved⟩
  | some i =>
    match s.saved.dropWhile fun r => r.1 ≠ some i with
    | [] => s
    | r :: saved => ⟨r.2, saved⟩

def step (s : State) (d : Directive) : State :=
  match d.action with
  | .set => { s with segment := d.segment.getD ".text".toList }
  | .push => ⟨d.segment.getD s.segment, (d.identifier, s.segment) :: s.saved⟩
  | .pop => { restore s d.identifier with
      segment := d.segment.getD (restore s d.identifier).segment }

def run (s : State) (ps : List Pragma) : State := ps.foldl (fun s p => step s p.directive) s

@[simp] lemma run_nil (s : State) : run s [] = s := rfl

lemma run_concat (s : State) (ps : List Pragma) (p : Pragma) :
    run s (ps ++ [p]) = step (run s ps) p.directive := by simp [run]

/-- The pragmas leave the segment `PAGE` in force. -/
def InPage (ps : List Pragma) : Prop := (run initial ps).segment = "PAGE".toList

instance : DecidablePred InPage := fun _ => inferInstanceAs (Decidable (_ = _))

/-! ### The two classes of functions -/

/-- A file with its `code_seg` pragmas in order and the lines of its functions. -/
structure SourceFile where
  pragmas : List Pragma
  functions : List ℕ
  ordered : pragmas.Pairwise fun p q => p.line < q.line
  distinct : ∀ f ∈ functions, ∀ p ∈ pragmas, p.line ≠ f

variable (F : SourceFile)

/-- `FunctionWithPageReset`, with `dcs` as its `getCodeSeg`. The pragma that sets the segment
need not come before the one that resets it. -/
def FunctionWithPageReset (f : ℕ) (dcs : Pragma) : Prop :=
  ∃ csp ∈ F.pragmas, CodeSegPragma csp ∧ ∃ dcsp ∈ F.pragmas, DefaultCodeSegPragma dcsp ∧
    f > csp.line ∧ dcsp.line < f ∧ dcs = dcsp

def FunctionWithPageSet (f : ℕ) : Prop :=
  ∃ csp ∈ F.pragmas, CodeSegPragma csp ∧ f > csp.line ∧
    ¬ ∃ dcs, FunctionWithPageReset F f dcs ∧ dcs.line > csp.line

def pragmasBefore (f : ℕ) : List Pragma := F.pragmas.filter fun p => p.line < f

def Recognised (p : Pragma) : Prop := CodeSegPragma p ∨ DefaultCodeSegPragma p

instance : DecidablePred Recognised := fun _ => inferInstanceAs (Decidable (_ ∨ _))

/-- The pragmas before the function up to the last one that is recognised. -/
def upToRecognised (f : ℕ) : List Pragma := (pragmasBefore F f).rdropWhile fun p => ¬ Recognised p

/-! ### What a recognised pragma says -/

section Head

variable {p : Pragma} {d : Directive} {gap : ℕ → List Char} {n n' t t' : List Char}

lemma eq_after_last {c : Char} (hn : c ∉ n) (hn' : c ∉ n') (h : t ++ c :: n = t' ++ c :: n') :
    n = n' := by
  rcases List.append_eq_append_iff.mp h with ⟨u, -, hu⟩ | ⟨u, -, hu⟩
  · cases u with
    | nil => simpa using hu
    | cons a u =>
      simp only [List.cons_append, List.cons.injEq] at hu
      exact absurd (by rw [hu.2]; simp) hn
  · cases u with
    | nil => simpa using hu.symm
    | cons a u =>
      simp only [List.cons_append, List.cons.injEq] at hu
      exact absurd (by rw [hu.2]; simp) hn'

lemma writeArguments_cons (i : ℕ) (a : Argument) {as : List Argument} (h : as ≠ []) :
    writeArguments gap i (a :: as) =
      gap i ++ a.text ++ gap (i + 1) ++ ',' :: writeArguments gap (i + 2) as := by
  cases as with
  | nil => exact absurd rfl h
  | cons b as => rfl

lemma writeArguments_concat (i : ℕ) (as : List Argument) (a : Argument) :
    ∃ pre j, writeArguments gap i (as ++ [a]) = pre ++ a.text ++ gap j := by
  induction as generalizing i with
  | nil => exact ⟨gap i, i + 1, rfl⟩
  | cons b as ih =>
    obtain ⟨pre, j, hj⟩ := ih (i + 2)
    refine ⟨gap i ++ b.text ++ gap (i + 1) ++ ',' :: pre, j, ?_⟩
    rw [List.cons_append, writeArguments_cons i b (by simp), hj]
    simp

/-- The last argument is the segment, if there is one. -/
lemma Directive.arguments_cases (d : Directive) :
    (d.arguments = [] ∧ d.action = .set ∧ d.segment = none) ∨
    (∃ as n, d.arguments = as ++ [.quoted n] ∧ d.segment = some n ∧ '"' ∉ n) ∨
    ∃ as w, d.arguments = as ++ [.word w] ∧ w ≠ [] ∧ '"' ∉ w ∧ '(' ∉ w := by
  obtain ⟨action, identifier, segment, hid, hset, hseg⟩ := d
  cases segment with
  | some n => exact Or.inr (Or.inl ⟨_, n, rfl, rfl, hseg n rfl⟩)
  | none =>
    cases identifier with
    | some i =>
      obtain ⟨hne, hquote, hopen⟩ := hid i rfl
      refine Or.inr (Or.inr ⟨action.arguments, i, ?_, hne, hquote, hopen⟩)
      simp [arguments]
    | none =>
      cases action with
      | set => exact Or.inl ⟨rfl, rfl, rfl⟩
      | push => exact Or.inr (Or.inr ⟨[], _, rfl, by decide, by decide, by decide⟩)
      | pop => exact Or.inr (Or.inr ⟨[], _, rfl, by decide, by decide, by decide⟩)

lemma gap_eq_nil {c : Char} (hblank : ∀ b ∈ n, b = ' ' ∨ b = '\t') (hc : c ≠ ' ' ∧ c ≠ '\t')
    (h : t ++ [c] = t' ++ n) : n = [] := by
  induction n using List.reverseRecOn with
  | nil => rfl
  | append_singleton u b _ =>
    rw [← List.append_assoc] at h
    have hcb : c = b := (List.append_inj' h rfl).2 |> List.singleton_injective
    rcases hblank b (by simp) with hb | hb
    · exact absurd (hcb.trans hb) hc.1
    · exact absurd (hcb.trans hb) hc.2

lemma body_of_suffix (h : n ++ [')'] <:+ p.getHead.toList) :
    ∃ t, t ++ n = p.keyword ++ '(' :: p.body := by
  obtain ⟨t, ht⟩ := h
  rw [Pragma.getHead, String.toList_ofList, ← List.append_assoc] at ht
  exact ⟨t, List.append_cancel_right ht⟩

/-- Where a character other than a blank ends the body, no gap follows the last argument. -/
lemma body_eq_of_last {c : Char} (hc : c ≠ ' ' ∧ c ≠ '\t') {as : List Argument} {a : Argument}
    (has : p.directive.arguments = as ++ [a]) (h : t ++ [c] = p.keyword ++ '(' :: p.body) :
    ∃ pre, t ++ [c] = pre ++ a.text := by
  obtain ⟨pre, j, hj⟩ : ∃ pre j,
      writeArguments p.gap 1 (as ++ [a]) = pre ++ a.text ++ p.gap j := writeArguments_concat 1 as a
  rw [Pragma.body, has, hj] at h
  have hsplit : t ++ [c] = (p.keyword ++ '(' :: (pre ++ a.text)) ++ p.gap j := by
    rw [h]
    simp
  have hgap : p.gap j = [] := gap_eq_nil (p.gap_blank j) hc hsplit
  refine ⟨p.keyword ++ '(' :: pre, ?_⟩
  rw [hsplit, hgap]
  simp

lemma last_of_no_arguments {c : Char} (hc : c ≠ ' ' ∧ c ≠ '\t')
    (hnil : p.directive.arguments = []) (h : t ++ [c] = p.keyword ++ '(' :: p.body) : c = '(' := by
  have hsplit : t ++ [c] = (p.keyword ++ ['(']) ++ p.gap 1 := by
    rw [h, Pragma.body, hnil]
    simp [writeArguments]
  have hgap : p.gap 1 = [] := gap_eq_nil (p.gap_blank 1) hc hsplit
  rw [hgap, List.append_nil] at hsplit
  exact List.singleton_injective (List.append_inj' hsplit rfl).2

lemma mem_of_last {c : Char} (hne : n ≠ []) (h : t ++ [c] = t' ++ n) : c ∈ n := by
  obtain hnil | ⟨u, b, rfl⟩ := List.eq_nil_or_concat n
  · exact absurd hnil hne
  · have hb : t ++ [c] = (t' ++ u) ++ [b] := by simp [h]
    simp [List.singleton_injective (List.append_inj' hb rfl).2]

lemma segment_of_suffix (hn : '"' ∉ n) (h : '"' :: n ++ ['"'] ++ [')'] <:+ p.getHead.toList) :
    p.directive.segment = some n := by
  obtain ⟨t, ht⟩ := body_of_suffix h
  rw [← List.append_assoc] at ht
  rcases p.directive.arguments_cases with ⟨hnil, -⟩ | ⟨as, n', has, hseg, hn'⟩ |
    ⟨as, w, has, hne, hquote, -⟩
  · exact absurd (last_of_no_arguments (by decide) hnil ht) (by decide)
  · obtain ⟨pre, hpre⟩ := body_eq_of_last (by decide) has ht
    have hquoted : (t ++ '"' :: n) ++ ['"'] = (pre ++ '"' :: n') ++ ['"'] := by
      rw [hpre]
      simp [Argument.text]
    rw [hseg, eq_after_last hn hn' (List.append_cancel_right hquoted)]
  · obtain ⟨pre, hpre⟩ := body_eq_of_last (by decide) has ht
    exact absurd (mem_of_last hne hpre) hquote

lemma reset_of_suffix (h : ['('] ++ [')'] <:+ p.getHead.toList) :
    p.directive.action = .set ∧ p.directive.segment = none := by
  obtain ⟨t, ht⟩ := body_of_suffix h
  rcases p.directive.arguments_cases with ⟨-, hset⟩ | ⟨as, n', has, -, -⟩ |
    ⟨as, w, has, hne, -, hopen⟩
  · exact hset
  · obtain ⟨pre, hpre⟩ := body_eq_of_last (by decide) has ht
    have hlast : t ++ ['('] = (pre ++ '"' :: n') ++ ['"'] := by
      rw [hpre]
      simp [Argument.text]
    exact absurd (List.append_inj' hlast rfl).2 (by decide)
  · obtain ⟨pre, hpre⟩ := body_eq_of_last (by decide) has ht
    exact absurd (mem_of_last hne hpre) hopen

end Head

lemma CodeSegPragma.segment {p : Pragma} (h : CodeSegPragma p) :
    p.directive.segment = some "PAGE".toList :=
  segment_of_suffix (by decide) (like_suffix (by decide) _ _ (by decide) h)

lemma DefaultCodeSegPragma.segment {p : Pragma} (h : DefaultCodeSegPragma p) (s : State) :
    (step s p.directive).segment ≠ "PAGE".toList := by
  rcases h with h | h
  · have hreset := reset_of_suffix (p := p)
      (like_suffix (by decide) _ _ (by decide) h)
    simp [step, hreset.1, hreset.2]
  · have hinit : p.directive.segment = some "INIT".toList :=
      segment_of_suffix (by decide) (like_suffix (by decide) _ _ (by decide) h)
    unfold step
    rw [hinit]
    cases p.directive.action <;> simp

lemma CodeSegPragma.step {p : Pragma} (h : CodeSegPragma p) (s : State) :
    (step s p.directive).segment = "PAGE".toList := by
  unfold CodeSegments.step
  rw [h.segment]
  cases p.directive.action <;> rfl

lemma CodeSegPragma.not_default {p : Pragma} (h : CodeSegPragma p) : ¬ DefaultCodeSegPragma p :=
  fun hdefault => hdefault.segment initial (h.step initial)

/-! ### The last recognised pragma -/

/-- Among the pragmas, one sets `PAGE` and none after it resets the segment. -/
def PageSet (ps : List Pragma) : Prop :=
  ∃ csp ∈ ps, CodeSegPragma csp ∧ ¬ ∃ dcsp ∈ ps, DefaultCodeSegPragma dcsp ∧ dcsp.line > csp.line

variable {F} {f : ℕ} {ps : List Pragma} {p : Pragma}

lemma pageSet_iff : FunctionWithPageSet F f ↔ PageSet (pragmasBefore F f) := by
  simp only [FunctionWithPageSet, FunctionWithPageReset, PageSet, pragmasBefore, List.mem_filter,
    decide_eq_true_eq]
  refine ⟨fun h => ?_, fun h => ?_⟩
  · obtain ⟨csp, hmem, hcsp, hline, hno⟩ := h
    refine ⟨csp, ⟨hmem, hline⟩, hcsp, fun ⟨dcsp, ⟨hd, hdf⟩, hdcsp, hlater⟩ => hno ?_⟩
    exact ⟨dcsp, ⟨csp, hmem, hcsp, dcsp, hd, hdcsp, hline, hdf, rfl⟩, hlater⟩
  · obtain ⟨csp, ⟨hmem, hline⟩, hcsp, hno⟩ := h
    refine ⟨csp, hmem, hcsp, hline, fun ⟨dcs, hreset, hlater⟩ => hno ?_⟩
    obtain ⟨-, -, -, dcsp, hd, hdcsp, -, hdf, rfl⟩ := hreset
    exact ⟨dcs, ⟨hd, hdf⟩, hdcsp, hlater⟩

lemma pageSet_concat_page (hline : ∀ q ∈ ps, q.line < p.line) (hp : CodeSegPragma p) :
    PageSet (ps ++ [p]) := by
  refine ⟨p, by simp, hp, fun ⟨dcsp, hd, hdcsp, hlater⟩ => ?_⟩
  rcases List.mem_append.mp hd with hd | hd
  · have := hline dcsp hd
    omega
  · exact hp.not_default (List.mem_singleton.mp hd ▸ hdcsp)

lemma not_pageSet_concat_default (hline : ∀ q ∈ ps, q.line < p.line)
    (hp : DefaultCodeSegPragma p) : ¬ PageSet (ps ++ [p]) := by
  rintro ⟨csp, hmem, hcsp, hno⟩
  rcases List.mem_append.mp hmem with hmem | hmem
  · exact hno ⟨p, by simp, hp, hline csp hmem⟩
  · exact hcsp.not_default (List.mem_singleton.mp hmem ▸ hp)

lemma pageSet_concat_other (hp : ¬ Recognised p) : PageSet (ps ++ [p]) ↔ PageSet ps := by
  obtain ⟨hcode, hdefault⟩ := not_or.mp hp
  have hmem : ∀ {cls : Pragma → Prop} {q : Pragma}, ¬ cls p → cls q → (q ∈ ps ++ [p] ↔ q ∈ ps) := by
    intro cls q hcls hq
    rw [List.mem_append, List.mem_singleton, or_iff_left]
    rintro rfl
    exact hcls hq
  refine ⟨fun h => ?_, fun h => ?_⟩
  · obtain ⟨csp, hc, hcsp, hno⟩ := h
    refine ⟨csp, (hmem hcode hcsp).mp hc, hcsp, fun ⟨dcsp, hd, hdcsp, hlater⟩ => hno ?_⟩
    exact ⟨dcsp, (hmem hdefault hdcsp).mpr hd, hdcsp, hlater⟩
  · obtain ⟨csp, hc, hcsp, hno⟩ := h
    refine ⟨csp, (hmem hcode hcsp).mpr hc, hcsp, fun ⟨dcsp, hd, hdcsp, hlater⟩ => hno ?_⟩
    exact ⟨dcsp, (hmem hdefault hdcsp).mp hd, hdcsp, hlater⟩

lemma pageSet_iff_inPage (hordered : ps.Pairwise fun p q => p.line < q.line) :
    PageSet ps ↔ InPage (ps.rdropWhile fun p => ¬ Recognised p) := by
  induction ps using List.reverseRecOn with
  | nil => simp [PageSet, InPage, initial]
  | append_singleton ps p ih =>
    have hline : ∀ q ∈ ps, q.line < p.line := fun q hq =>
      (List.pairwise_append.mp hordered).2.2 q hq p (by simp)
    by_cases hp : Recognised p
    · rw [List.rdropWhile_concat_neg _ _ _ (by simpa using hp), InPage, run_concat]
      rcases hp with hp | hp
      · exact iff_of_true (pageSet_concat_page hline hp) (hp.step _)
      · exact iff_of_false (not_pageSet_concat_default hline hp) (hp.segment _)
    · rw [List.rdropWhile_concat_pos _ _ _ (by simpa using hp), pageSet_concat_other hp]
      exact ih (List.pairwise_append.mp hordered).1

/-- **The class of paged functions has a function exactly if `PAGE` is in force there, iff the
pragmas after the last recognised one leave the segment in or out of `PAGE`.** -/
theorem pageSet_iff_inPage_iff (F : SourceFile) (f : ℕ) :
    (FunctionWithPageSet F f ↔ InPage (pragmasBefore F f)) ↔
      (InPage (upToRecognised F f) ↔ InPage (pragmasBefore F f)) := by
  have hordered : (pragmasBefore F f).Pairwise fun p q => p.line < q.line := F.ordered.filter _
  rw [pageSet_iff, pageSet_iff_inPage hordered, upToRecognised]

def setSegment (n : List Char) (hn : '"' ∉ n := by decide) : Directive :=
  { action := .set, segment := some n, segment_plain := by simpa using hn }

/-- A file that goes over to another segment after `PAGE`. -/
def otherSegment : SourceFile where
  pragmas := [⟨1, setSegment "PAGE".toList, fun _ => [], by simp⟩,
    ⟨2, setSegment "LOCKED".toList, fun _ => [], by simp⟩]
  functions := [3]
  ordered := by simp
  distinct := by simp

/-- A file that closes a block in `PAGE`. -/
def closedBlock : SourceFile where
  pragmas := [⟨1, { action := .push, segment := some "PAGE".toList }, fun _ => [], by simp⟩,
    ⟨2, { action := .pop }, fun _ => [], by simp⟩]
  functions := [3]
  ordered := by simp
  distinct := by simp

/-- Both functions are taken as paged, and neither is. -/
theorem pageSet_not_inPage :
    (3 ∈ otherSegment.functions ∧ FunctionWithPageSet otherSegment 3 ∧
      ¬ InPage (pragmasBefore otherSegment 3)) ∧
    (3 ∈ closedBlock.functions ∧ FunctionWithPageSet closedBlock 3 ∧
      ¬ InPage (pragmasBefore closedBlock 3)) := by
  rw [pageSet_iff, pageSet_iff]
  unfold PageSet
  decide

end DriverQueries.CodeSegments
