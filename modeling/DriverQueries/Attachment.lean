import Mathlib.Data.Prod.Lex
import DriverQueries.Ranks
import DriverQueries.Text

/-!
Which declaration entry an annotation belongs to: the first position after it, in its file,
that holds no annotation.

SAL and WFP annotations are told apart by their macros alone. The relation that attaches them
is written once, over the class of macros.
-/

namespace DriverQueries.Attachment

open DriverQueries.Text DriverQueries.Ranks

structure Location where
  getFile : String
  getStartLine : ℕ
  getStartColumn : ℕ
  getEndLine : ℕ
  getEndColumn : ℕ
  deriving DecidableEq, Repr

/-- An invocation of a macro, with the base name of the file that defines the macro. -/
structure MacroInvocation where
  getMacroFile : String
  getMacroName : String
  getLocation : Location
  /-- Some macro invocation has this one inside it. -/
  hasParentInvocation : Bool := false
  deriving DecidableEq, Repr

inductive EntryKind
  | function (getBlock : Option Location)
  | variable (isDefinition : Bool) (getInitializer : Option Location)
  | other
  deriving DecidableEq, Repr

structure DeclarationEntry where
  kind : EntryKind
  getLocation : Location
  deriving DecidableEq, Repr

structure Program where
  invocations : List MacroInvocation
  entries : List DeclarationEntry

/-- A class of annotation macros: the files that define them and the patterns of their names. -/
structure MacroClass where
  files : List String
  patterns : List String

def SALMacro : MacroClass where
  files := ["sal.h", "specstrings_strict.h", "specstrings.h", "w32p.h", "minwindef.h",
    "driverspecs.h", "no_sal2.h", "kernelspecs.h"]
  patterns := ["\\_%\\_", "\\_\\_%"]

def WfpMacro : MacroClass where
  files := ["fwpl.h", "Wfp_Annotations.h"]
  patterns := ["\\_%\\_"]

structure Position where
  file : String
  line : ℕ
  col : ℕ
  deriving DecidableEq, Repr

/-- Positions of one file are ordered by line, then by column. -/
def Position.key (p : Position) : ℕ ×ₗ ℕ := toLex (p.line, p.col)

lemma Position.eq_of_key {p q : Position} (hfile : p.file = q.file) (hkey : p.key = q.key) :
    p = q := by
  obtain ⟨f, l, c⟩ := p
  obtain ⟨f', l', c'⟩ := q
  have h : (l, c) = (l', c') := toLex.injective hkey
  simp only [Prod.mk.injEq] at h
  simp only at hfile
  rw [hfile, h.1, h.2]

def Location.startPosition (l : Location) : Position :=
  ⟨l.getFile, l.getStartLine, l.getStartColumn⟩

def Location.endPosition (l : Location) : Position := ⟨l.getFile, l.getEndLine, l.getEndColumn⟩

def MacroInvocation.getStartPosition (a : MacroInvocation) : Position :=
  a.getLocation.startPosition

def DeclarationEntry.getStartPosition (d : DeclarationEntry) : Position :=
  d.getLocation.startPosition

/-- `hasEndPosition`: where the body of a function ends, or the initializer of a variable. -/
def DeclarationEntry.endPositions (d : DeclarationEntry) : List Position :=
  match d.kind with
  | .function block => block.toList.map Location.endPosition
  | .variable isDefinition initializer =>
    if isDefinition then initializer.toList.map Location.endPosition else []
  | .other => []

variable (C : MacroClass) (P : Program)

/-- `SALAnnotation`, `WfpAnnotation`: a top-level invocation of a macro of the class. -/
def Annotation (m : MacroInvocation) : Prop :=
  m.getMacroFile ∈ C.files ∧ (∃ p ∈ C.patterns, matchesPattern m.getMacroName p) ∧
    m.hasParentInvocation = false

instance : DecidablePred <| Annotation C := fun _ => inferInstanceAs (Decidable (_ ∧ _ ∧ _))

def annotations : List MacroInvocation := P.invocations.filter fun m => Annotation C m

def containsAnnotation (file : String) : Prop :=
  ∃ a ∈ annotations C P, a.getLocation.getFile = file

instance : DecidablePred <| containsAnnotation C P :=
  fun _ => inferInstanceAs (Decidable (∃ _ ∈ _, _))

/-- The declaration entries that are `SALElement`s, or `WfpElement`s. -/
def entryElements : List DeclarationEntry :=
  P.entries.filter fun d => containsAnnotation C P d.getLocation.getFile

def entryPositions : List Position :=
  (entryElements C P).flatMap fun d => d.getStartPosition :: d.endPositions

def positions : List Position :=
  (annotations C P).map MacroInvocation.getStartPosition ++ entryPositions C P

/-- `salAnnotationPos`, `wfpAnnotationPos`. -/
def annotationPos (pos : Position) : Prop :=
  ∃ a ∈ annotations C P, a.getStartPosition = pos

instance : DecidablePred (annotationPos C P) := fun _ => inferInstanceAs (Decidable (∃ _ ∈ _, _))

/-- The positions of one file, in their order. -/
def keys (file : String) : Finset (ℕ ×ₗ ℕ) :=
  (((positions C P).filter fun pos => pos.file = file).map Position.key).toFinset

/-- `salRelevantPositionAt`, `wfpRelevantPositionAt`: `pos` has rank `idx` in its file. -/
def relevantPositionAt (file : String) (idx : ℕ) (pos : Position) : Prop :=
  pos ∈ positions C P ∧ pos.file = file ∧ rank (keys C P file) pos.key = idx

/-- `pos` is the position number `idx`, and annotates `d`. -/
inductive annotatesAtPosition (d : DeclarationEntry) (file : String) : Position → ℕ → Prop
  -- right before `d`
  | base {pos : Position} {idx : ℕ} (hpos : relevantPositionAt C P file idx pos)
      (ha : annotationPos C P pos) (hd : d ∈ entryElements C P)
      (hnext : relevantPositionAt C P file (idx + 1) d.getStartPosition) :
      annotatesAtPosition d file pos idx
  -- right before some annotation of `d`
  | next {pos pos' : Position} {idx : ℕ} (hpos : relevantPositionAt C P file idx pos)
      (ha : annotationPos C P pos) (h : annotatesAtPosition d file pos' (idx + 1)) :
      annotatesAtPosition d file pos idx

def annotatesAt (a : MacroInvocation) (d : DeclarationEntry) (file : String) (idx : ℕ) : Prop :=
  annotatesAtPosition C P d file a.getStartPosition idx

/-- `annotatesAt` of SAL.qll. -/
def salAnnotatesAt (a : MacroInvocation) (d : DeclarationEntry) (file : String) (idx : ℕ) : Prop :=
  annotatesAt SALMacro P a d file idx

/-- `annotatesAt` of wfp.qll. -/
def wfpAnnotatesAt (a : MacroInvocation) (d : DeclarationEntry) (file : String) (idx : ℕ) : Prop :=
  annotatesAt WfpMacro P a d file idx

/-! ### Runs of annotations -/

/-- `a` starts before `d` in its file, and every position between them is an annotation's. -/
def OnlyAnnotationsBetween (a : MacroInvocation) (d : DeclarationEntry) : Prop :=
  a.getStartPosition.file = d.getStartPosition.file ∧
    a.getStartPosition.key < d.getStartPosition.key ∧
    ∀ pos ∈ positions C P, pos.file = d.getStartPosition.file →
      a.getStartPosition.key < pos.key → pos.key < d.getStartPosition.key → annotationPos C P pos

instance (a : MacroInvocation) (d : DeclarationEntry) :
    Decidable (OnlyAnnotationsBetween C P a d) :=
  inferInstanceAs (Decidable (_ ∧ _ ∧ ∀ pos ∈ positions C P, _))

/-- An annotation of the file starts there. -/
def Marked (file : String) (k : ℕ ×ₗ ℕ) : Prop :=
  ∃ pos, annotationPos C P pos ∧ pos.file = file ∧ pos.key = k

variable {C P} {a : MacroInvocation} {d d' : DeclarationEntry} {file : String} {idx : ℕ}
  {pos pos' : Position}

lemma mem_keys {k : ℕ ×ₗ ℕ} :
    k ∈ keys C P file ↔ ∃ pos ∈ positions C P, pos.file = file ∧ pos.key = k := by
  simp only [keys, List.mem_toFinset, List.mem_map, List.mem_filter, decide_eq_true_eq]
  exact ⟨fun ⟨pos, ⟨hmem, hfile⟩, hk⟩ => ⟨pos, hmem, hfile, hk⟩,
    fun ⟨pos, hmem, hfile, hk⟩ => ⟨pos, ⟨hmem, hfile⟩, hk⟩⟩

lemma annotationPos.mem (h : annotationPos C P pos) : pos ∈ positions C P := by
  obtain ⟨a, ha, rfl⟩ := h
  exact List.mem_append_left _ (List.mem_map_of_mem ha)

lemma start_mem_positions (hd : d ∈ entryElements C P) : d.getStartPosition ∈ positions C P :=
  List.mem_append_right _ (List.mem_flatMap.mpr ⟨d, hd, by simp⟩)

lemma mem_entryElements (ha : a ∈ annotations C P) (hd : d ∈ P.entries)
    (hfile : a.getStartPosition.file = d.getStartPosition.file) : d ∈ entryElements C P := by
  simp only [entryElements, List.mem_filter, decide_eq_true_eq]
  exact ⟨hd, a, ha, hfile⟩

lemma relevantPositionAt.unique (h : relevantPositionAt C P file idx pos)
    (h' : relevantPositionAt C P file idx pos') : pos = pos' := by
  obtain ⟨hmem, hfile, hrank⟩ := h
  obtain ⟨hmem', hfile', hrank'⟩ := h'
  have hkey := eq_of_rank_eq (mem_keys.mpr ⟨pos, hmem, hfile, rfl⟩)
    (mem_keys.mpr ⟨pos', hmem', hfile', rfl⟩) (hrank.trans hrank'.symm)
  exact Position.eq_of_key (hfile.trans hfile'.symm) hkey

lemma annotatesAtPosition.run (h : annotatesAtPosition C P d file pos idx) :
    d ∈ entryElements C P ∧ d.getStartPosition.file = file ∧
      relevantPositionAt C P file idx pos ∧
      Run (keys C P file) (Marked C P file) d.getStartPosition.key idx := by
  induction h with
  | @base pos idx hpos ha hd hnext =>
    refine ⟨hd, hnext.2.1, hpos, ?_⟩
    obtain ⟨-, hfile, rfl⟩ := hpos
    exact .last (mem_keys.mpr ⟨pos, ha.mem, hfile, rfl⟩) ⟨pos, ha, hfile, rfl⟩ hnext.2.2
  | @next pos pos' idx hpos ha _ ih =>
    obtain ⟨hd, hdfile, -, hrun⟩ := ih
    refine ⟨hd, hdfile, hpos, ?_⟩
    obtain ⟨-, hfile, rfl⟩ := hpos
    exact .more (mem_keys.mpr ⟨pos, ha.mem, hfile, rfl⟩) ⟨pos, ha, hfile, rfl⟩ hrun

lemma exists_annotatesAtPosition (hd : d ∈ entryElements C P)
    (h : Run (keys C P d.getStartPosition.file) (Marked C P d.getStartPosition.file)
      d.getStartPosition.key idx) :
    ∃ pos, annotatesAtPosition C P d d.getStartPosition.file pos idx := by
  induction h with
  | last _ ha hnext =>
    obtain ⟨pos, ha, hfile, rfl⟩ := ha
    exact ⟨pos, .base ⟨ha.mem, hfile, rfl⟩ ha hd ⟨start_mem_positions hd, rfl, hnext⟩⟩
  | more _ ha _ ih =>
    obtain ⟨pos, ha, hfile, rfl⟩ := ha
    obtain ⟨pos', h⟩ := ih
    exact ⟨pos, .next ⟨ha.mem, hfile, rfl⟩ ha h⟩

/-- Every position from `pos` on, up to the start of `d`, is an annotation's. -/
def AnnotationsUpTo (C : MacroClass) (P : Program) (d : DeclarationEntry) (pos : Position) : Prop :=
  pos.key < d.getStartPosition.key ∧
    ∀ q ∈ positions C P, q.file = d.getStartPosition.file →
      pos.key < q.key → q.key < d.getStartPosition.key → annotationPos C P q

instance : Decidable (AnnotationsUpTo C P d pos) :=
  inferInstanceAs (Decidable (_ ∧ ∀ q ∈ positions C P, _))

lemma run_iff_annotationsUpTo (hd : d ∈ entryElements C P) (ha : annotationPos C P pos)
    (hfile : pos.file = d.getStartPosition.file) :
    Run (keys C P d.getStartPosition.file) (Marked C P d.getStartPosition.file)
      d.getStartPosition.key (rank (keys C P d.getStartPosition.file) pos.key) ↔
    AnnotationsUpTo C P d pos := by
  rw [run_iff (mem_keys.mpr ⟨_, start_mem_positions hd, rfl, rfl⟩)
    (mem_keys.mpr ⟨pos, ha.mem, hfile, rfl⟩)]
  constructor
  · rintro ⟨hlt, -, hbetween⟩
    refine ⟨hlt, fun q hq hqfile h1 h2 => ?_⟩
    obtain ⟨q', ha', hfile', hkey⟩ := hbetween q.key (mem_keys.mpr ⟨q, hq, hqfile, rfl⟩) h1 h2
    rwa [← Position.eq_of_key (hfile'.trans hqfile.symm) hkey]
  · rintro ⟨hlt, hbetween⟩
    refine ⟨hlt, ⟨pos, ha, hfile, rfl⟩, fun k hk h1 h2 => ?_⟩
    obtain ⟨q, hmem, hqfile, rfl⟩ := mem_keys.mp hk
    exact ⟨q, hbetween q hmem hqfile h1 h2, hqfile, rfl⟩

/-- The recursion over the numbers of positions, without the numbers. -/
lemma annotatesAtPosition_iff :
    annotatesAtPosition C P d file pos idx ↔
      relevantPositionAt C P file idx pos ∧ annotationPos C P pos ∧ d ∈ entryElements C P ∧
        d.getStartPosition.file = file ∧ AnnotationsUpTo C P d pos := by
  constructor
  · intro h
    obtain ⟨hd, rfl, hpos, hrun⟩ := h.run
    have ha : annotationPos C P pos := by cases h <;> assumption
    obtain ⟨-, hfile, rfl⟩ := id hpos
    exact ⟨hpos, ha, hd, rfl, (run_iff_annotationsUpTo hd ha hfile).mp hrun⟩
  · rintro ⟨hpos, ha, hd, rfl, hup⟩
    obtain ⟨-, hfile, rfl⟩ := id hpos
    obtain ⟨pos', h⟩ :=
      exists_annotatesAtPosition hd ((run_iff_annotationsUpTo hd ha hfile).mpr hup)
    obtain rfl := hpos.unique h.run.2.2.1
    exact h

instance : Decidable (relevantPositionAt C P file idx pos) :=
  inferInstanceAs (Decidable (_ ∧ _ ∧ _))

instance : Decidable (annotatesAtPosition C P d file pos idx) :=
  decidable_of_iff _ annotatesAtPosition_iff.symm

instance : Decidable (annotatesAt C P a d file idx) :=
  inferInstanceAs (Decidable (annotatesAtPosition _ _ _ _ _ _))

/-- What an annotation is attached to, for every class of annotation macros. -/
lemma exists_annotatesAt_iff (ha : a ∈ annotations C P) (hd : d ∈ P.entries) :
    (∃ file idx, annotatesAt C P a d file idx) ↔ OnlyAnnotationsBetween C P a d := by
  have hpos : annotationPos C P a.getStartPosition := ⟨a, ha, rfl⟩
  constructor
  · rintro ⟨file, idx, h⟩
    obtain ⟨⟨-, hfile, -⟩, -, -, rfl, hup⟩ := annotatesAtPosition_iff.mp h
    exact ⟨hfile, hup⟩
  · rintro ⟨hfile, hup⟩
    exact ⟨_, _, annotatesAtPosition_iff.mpr
      ⟨⟨hpos.mem, hfile, rfl⟩, hpos, mem_entryElements ha hd hfile, rfl, hup⟩⟩

/-! ### The law -/

/-- No annotation starts where a declaration entry starts or ends. -/
def DistinctPositions (C : MacroClass) (P : Program) : Prop :=
  ∀ a ∈ annotations C P, a.getStartPosition ∉ entryPositions C P

instance : Decidable (DistinctPositions C P) :=
  inferInstanceAs (Decidable (∀ _ ∈ annotations C P, _))

/-- What `annotates` attaches is what comes right after the annotations; and where annotations
have positions of their own, each attaches to entries at one position only. -/
structure AttachmentLaw (C : MacroClass) (P : Program)
    (annotates : MacroInvocation → DeclarationEntry → String → ℕ → Prop) : Prop where
  attaches_iff : ∀ a ∈ annotations C P, ∀ d ∈ P.entries,
    (∃ file idx, annotates a d file idx) ↔ OnlyAnnotationsBetween C P a d
  one_position : DistinctPositions C P → ∀ a ∈ annotations C P, ∀ d ∈ P.entries, ∀ d' ∈ P.entries,
    (∃ file idx, annotates a d file idx) → (∃ file idx, annotates a d' file idx) →
      d.getStartPosition = d'.getStartPosition

lemma not_lt_of_between (hdistinct : DistinctPositions C P) (ha : a ∈ annotations C P)
    (hd : d ∈ P.entries) (h : OnlyAnnotationsBetween C P a d)
    (h' : OnlyAnnotationsBetween C P a d') :
    ¬ d.getStartPosition.key < d'.getStartPosition.key := by
  intro hlt
  have helem := mem_entryElements ha hd h.1
  obtain ⟨b, hb, heq⟩ :=
    h'.2.2 _ (start_mem_positions helem) (h.1.symm.trans h'.1) h.2.1 hlt
  refine hdistinct b hb ?_
  rw [heq]
  exact List.mem_flatMap.mpr ⟨d, helem, by simp⟩

lemma attachmentLaw_annotatesAt : AttachmentLaw C P (annotatesAt C P) where
  attaches_iff _ ha _ hd := exists_annotatesAt_iff ha hd
  one_position hdistinct a ha d hd d' hd' h h' := by
    rw [exists_annotatesAt_iff ha hd] at h
    rw [exists_annotatesAt_iff ha hd'] at h'
    refine Position.eq_of_key (h.1.symm.trans h'.1) ?_
    exact le_antisymm (not_lt.mp (not_lt_of_between hdistinct ha hd' h' h))
      (not_lt.mp (not_lt_of_between hdistinct ha hd h h'))

/-- **SAL and WFP annotations attach to the entries right after them.** -/
theorem attachment_law (P : Program) :
    AttachmentLaw SALMacro P (salAnnotatesAt P) ∧ AttachmentLaw WfpMacro P (wfpAnnotatesAt P) :=
  ⟨attachmentLaw_annotatesAt, attachmentLaw_annotatesAt⟩

/-- Two annotations before a function with a body, and a second function after it. -/
def twoFunctions : Program where
  invocations := [⟨"sal.h", "_IRQL_requires_max_", ⟨"a.c", 1, 1, 1, 30⟩, false⟩,
    ⟨"sal.h", "_Must_inspect_result_", ⟨"a.c", 2, 1, 2, 20⟩, false⟩]
  entries := [⟨.function (some ⟨"a.c", 4, 1, 9, 1⟩), ⟨"a.c", 3, 5, 3, 8⟩⟩,
    ⟨.function none, ⟨"a.c", 12, 5, 12, 8⟩⟩]

example : (annotations SALMacro twoFunctions).zipIdx.map (fun a => twoFunctions.entries.map fun d =>
    decide (annotatesAt SALMacro twoFunctions a.1 d "a.c" (a.2 + 1))) =
    [[true, false], [true, false]] := by decide

end DriverQueries.Attachment
