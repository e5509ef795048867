import Mathlib.Data.Fintype.Basic

/-!
Suppressing alerts by pragmas.

A `suppress` pragma is about the next line of code, a `disable` pragma about the rest of its
push/pop segment or of the file. The library says so twice: `appliesToLocation` decides for
one location, and `scopeCovers` gives the lines of a suppression as ranges. Here the two are
compared at every single-line location of a file.
-/

namespace DriverQueries.Suppression

/-! ### Files -/

structure Location where
  startLine : ℕ
  endLine : ℕ
  ordered : startLine ≤ endLine
  deriving DecidableEq

/-- What the head of a pragma says. Push and pop are `warning` pragmas or `prefast` ones. -/
inductive PragmaKind
  | push (isWarning : Bool)
  | pop (isWarning : Bool)
  | disable (disabledRule : List String)
  | suppress (suppressedRule : List String)
  | other
  deriving DecidableEq

structure Pragma where
  location : Location
  kind : PragmaKind
  deriving DecidableEq

/-- A file with its pragmas, its other elements, and all its locations. -/
structure SourceFile where
  pragmas : List Pragma
  elements : List Location
  locations : List Location
  pragma_location : ∀ p ∈ pragmas, p.location ∈ locations
  element_location : ∀ l ∈ elements, l ∈ locations

variable (F : SourceFile)

def SuppressPragma (p : Pragma) : Prop := ∃ rules, p.kind = .suppress rules

def DisablePragma (p : Pragma) : Prop := ∃ rules, p.kind = .disable rules

def CASuppression (p : Pragma) : Prop := SuppressPragma p ∨ DisablePragma p

def SuppressionPushPragma (p : Pragma) (isWarning : Bool) : Prop := p.kind = .push isWarning

def SuppressionPopPragma (p : Pragma) (isWarning : Bool) : Prop := p.kind = .pop isWarning

instance : DecidablePred SuppressPragma := fun p => by
  unfold SuppressPragma
  cases p.kind <;> first | exact isTrue ⟨_, rfl⟩ | exact isFalse (by simp)

instance : DecidablePred DisablePragma := fun p => by
  unfold DisablePragma
  cases p.kind <;> first | exact isTrue ⟨_, rfl⟩ | exact isFalse (by simp)

instance : DecidablePred CASuppression := fun _ => inferInstanceAs (Decidable (_ ∨ _))
instance (p : Pragma) (w : Bool) : Decidable (SuppressionPushPragma p w) :=
  inferInstanceAs (Decidable (_ = _))
instance (p : Pragma) (w : Bool) : Decidable (SuppressionPopPragma p w) :=
  inferInstanceAs (Decidable (_ = _))

/-! ### Segments -/

/-- `pop` is the closest pop of its kind after `push`. -/
def ClosestPop (push pop : Pragma) : Prop :=
  ∃ isWarning, SuppressionPushPragma push isWarning ∧ SuppressionPopPragma pop isWarning ∧
    push.location.endLine ≤ pop.location.startLine ∧
    ¬ ∃ closerPop ∈ F.pragmas, SuppressionPopPragma closerPop isWarning ∧
      push.location.endLine ≤ closerPop.location.startLine ∧
      closerPop.location.endLine < pop.location.startLine

instance (push pop : Pragma) : Decidable (ClosestPop F push pop) :=
  inferInstanceAs (Decidable (∃ _, _))

/-- The fields `start` and `end` of the instances of `SuppressionPushPopSegment`. -/
def SuppressionPushPopSegment : List (Location × Location) :=
  F.pragmas.flatMap fun push =>
    (F.pragmas.filter fun pop => ClosestPop F push pop).map fun pop => (push.location, pop.location)

def isInPushPopSegment (spps : Location × Location) (startLine endLine : ℕ) : Prop :=
  spps.1.endLine ≤ startLine ∧ endLine ≤ spps.2.startLine

/-- `disableInSegment`. The segment is the location of its push; the line of its pop is looked
up again by everyone who asks. -/
def disableInSegment (d : Pragma) (start : Location) : Prop :=
  ∃ spps ∈ SuppressionPushPopSegment F, spps.1 = start ∧
    isInPushPopSegment spps d.location.startLine d.location.endLine

def disableHasSegment (d : Pragma) : Prop :=
  ∃ spps ∈ SuppressionPushPopSegment F, disableInSegment F d spps.1

def locationInAnySegment (startLine endLine : ℕ) : Prop :=
  ∃ spps ∈ SuppressionPushPopSegment F, isInPushPopSegment spps startLine endLine

instance (spps : Location × Location) (startLine endLine : ℕ) :
    Decidable (isInPushPopSegment spps startLine endLine) :=
  inferInstanceAs (Decidable (_ ∧ _))
instance (d : Pragma) (start : Location) : Decidable (disableInSegment F d start) :=
  inferInstanceAs (Decidable (∃ spps ∈ _, _))
instance (d : Pragma) : Decidable (disableHasSegment F d) :=
  inferInstanceAs (Decidable (∃ spps ∈ _, _))
instance (startLine endLine : ℕ) : Decidable (locationInAnySegment F startLine endLine) :=
  inferInstanceAs (Decidable (∃ spps ∈ _, _))

/-! ### Suppressions -/

/-- The first line of every element that is no suppression. -/
def nonSuppressionLines : List ℕ :=
  ((F.pragmas.filter fun p => ¬ CASuppression p).map Pragma.location ++ F.elements).map
    Location.startLine

def nextNonSuppressionLine (c : Pragma) : Option ℕ :=
  ((nonSuppressionLines F).filter fun line => c.location.endLine < line).min?

def getMinimumLocationOffset (c : Pragma) : Option ℤ :=
  (nextNonSuppressionLine F c).map fun nextLine => nextLine - c.location.endLine

def lastLine : Option ℕ := (F.locations.map Location.endLine).max?

def appliesToLocation (c : Pragma) (l : Location) : Prop :=
  match c.kind with
  | .suppress _ =>
    ∃ offset ∈ getMinimumLocationOffset F c, (c.location.endLine : ℤ) + offset = l.startLine
  | .disable _ =>
    c.location.endLine ≤ l.startLine ∧
      ((∃ spps ∈ SuppressionPushPopSegment F, disableInSegment F c spps.1 ∧
          isInPushPopSegment spps l.startLine l.endLine) ∨
        (¬ disableHasSegment F c ∧ ¬ locationInAnySegment F l.startLine l.endLine))
  | _ => False

def scopeCovers (c : Pragma) (startLine endLine : ℕ) : Prop :=
  match c.kind with
  | .suppress _ =>
    (∃ offset ∈ getMinimumLocationOffset F c, (startLine : ℤ) = c.location.endLine + offset) ∧
      endLine = startLine
  | .disable _ =>
    startLine = c.location.endLine ∧
      ((∃ spps ∈ SuppressionPushPopSegment F, disableInSegment F c spps.1 ∧
          endLine = spps.2.startLine) ∨
        (¬ disableHasSegment F c ∧ endLine ∈ lastLine F))
  | _ => False

/-- The line is in a range of the suppression. -/
def Covered (c : Pragma) (line : ℕ) : Prop :=
  ∃ startLine endLine, scopeCovers F c startLine endLine ∧ startLine ≤ line ∧ line ≤ endLine

/-! ### Comparison -/

variable {F} {c : Pragma} {l : Location} {line : ℕ}

lemma covered_suppress_iff {rules : List String} (hc : c.kind = .suppress rules) :
    Covered F c line ↔
      ∃ offset ∈ getMinimumLocationOffset F c, (c.location.endLine : ℤ) + offset = line := by
  unfold Covered scopeCovers
  rw [hc]
  refine ⟨fun h => ?_, fun h => ?_⟩
  · obtain ⟨s, e, ⟨⟨offset, hoffset, hs⟩, rfl⟩, hse, hes⟩ := h
    exact ⟨offset, hoffset, by omega⟩
  · obtain ⟨offset, hoffset, hline⟩ := h
    exact ⟨line, line, ⟨⟨offset, hoffset, hline.symm⟩, rfl⟩, le_rfl, le_rfl⟩

lemma covered_disable_iff {rules : List String} (hc : c.kind = .disable rules) :
    Covered F c line ↔ c.location.endLine ≤ line ∧
      ((∃ spps ∈ SuppressionPushPopSegment F, disableInSegment F c spps.1 ∧
          line ≤ spps.2.startLine) ∨
        (¬ disableHasSegment F c ∧ ∃ e ∈ lastLine F, line ≤ e)) := by
  unfold Covered scopeCovers
  rw [hc]
  refine ⟨fun h => ?_, fun h => ?_⟩
  · obtain ⟨s, e, ⟨rfl, ⟨spps, hspps, hd, rfl⟩ | ⟨hseg, he⟩⟩, hse, hes⟩ := h
    · exact ⟨hse, Or.inl ⟨spps, hspps, hd, hes⟩⟩
    · exact ⟨hse, Or.inr ⟨hseg, e, he, hes⟩⟩
  · obtain ⟨hline, ⟨spps, hspps, hd, hes⟩ | ⟨hseg, e, he, hes⟩⟩ := h
    · exact ⟨_, _, ⟨rfl, Or.inl ⟨spps, hspps, hd, rfl⟩⟩, hline, hes⟩
    · exact ⟨_, e, ⟨rfl, Or.inr ⟨hseg, he⟩⟩, hline, hes⟩

lemma exists_lastLine (hl : l ∈ F.locations) : ∃ e ∈ lastLine F, l.endLine ≤ e := by
  have hmem : l.endLine ∈ F.locations.map Location.endLine := List.mem_map_of_mem hl
  obtain ⟨e, he⟩ := Option.isSome_iff_exists.mp (List.isSome_max?_of_mem hmem)
  exact ⟨e, he, (List.max?_eq_some_iff.mp he).2 _ hmem⟩

lemma disableInSegment.start_le {start : Location} (h : disableInSegment F c start) :
    start.endLine ≤ c.location.endLine := by
  obtain ⟨spps, -, rfl, hstart, -⟩ := h
  exact hstart.trans c.location.ordered

/-- **The two predicates agree at a line iff the suppression is for one line, or is a disable
in a segment, or comes after the line, or the line is in no segment.** -/
theorem applies_iff_covered_iff (hc : CASuppression c) (hl : l ∈ F.locations)
    (hsingle : l.startLine = l.endLine) :
    (appliesToLocation F c l ↔ Covered F c l.startLine) ↔
      SuppressPragma c ∨ disableHasSegment F c ∨ l.startLine < c.location.endLine ∨
        ¬ locationInAnySegment F l.startLine l.endLine := by
  obtain ⟨rules, hkind⟩ | ⟨rules, hkind⟩ := hc
  · -- the two definitions name the same line
    have happ : appliesToLocation F c l ↔ Covered F c l.startLine := by
      rw [covered_suppress_iff hkind]
      unfold appliesToLocation
      rw [hkind]
    exact iff_of_true happ (Or.inl ⟨rules, hkind⟩)
  · have hsuppress : ¬ SuppressPragma c := by
      rintro ⟨rules', h⟩
      rw [hkind] at h
      exact PragmaKind.noConfusion h
    rw [covered_disable_iff hkind]
    unfold appliesToLocation
    rw [hkind]
    simp only [hsuppress, false_or]
    by_cases hseg : disableHasSegment F c
    · simp only [hseg, not_true_eq_false, false_and, or_false, true_or, iff_true]
      refine and_congr_right fun hline => exists_congr fun spps => and_congr_right fun _ =>
        and_congr_right fun hd => ?_
      have hstart := hd.start_le
      unfold isInPushPopSegment
      omega
    · -- the range goes to the end of the file, over every segment after the disable
      have hnone : ∀ q : Location × Location → Prop,
          ¬ ∃ spps ∈ SuppressionPushPopSegment F, disableInSegment F c spps.1 ∧ q spps :=
        fun q ⟨spps, hspps, hd, _⟩ => hseg ⟨spps, hspps, hd⟩
      obtain ⟨e, he, hle⟩ := exists_lastLine hl
      have hlast : ∃ e ∈ lastLine F, l.startLine ≤ e := ⟨e, he, by omega⟩
      simp only [hnone, hseg, hlast, not_false_eq_true, true_and, and_true, false_or]
      rw [and_iff_left_iff_imp, imp_iff_not_or, not_le]

/-- A line of its own. -/
def onLine (n : ℕ) : Location := ⟨n, n, le_rfl⟩

/-- Pragmas on lines of their own, in a file with code on the lines between them. -/
def fileOf (pragmas : List (ℕ × PragmaKind)) (code : List ℕ) : SourceFile where
  pragmas := pragmas.map fun p => ⟨onLine p.1, p.2⟩
  elements := code.map onLine
  locations := (pragmas.map fun p => onLine p.1) ++ code.map onLine
  pragma_location := by
    intro p hp
    obtain ⟨q, hq, rfl⟩ := List.mem_map.mp hp
    exact List.mem_append_left _ (List.mem_map_of_mem hq)
  element_location := fun l hl => List.mem_append_right _ hl

/-- A disable on line 1, and a segment from line 3 to line 5 after it. -/
def disableThenSegment : SourceFile :=
  fileOf [(1, .disable ["28719"]), (3, .push false), (5, .pop false)] [2, 4, 6]

def disableOnOne : Pragma := ⟨onLine 1, .disable ["28719"]⟩

theorem applies_iff_covered_outside :
    (appliesToLocation disableThenSegment disableOnOne (onLine 2) ↔
        Covered disableThenSegment disableOnOne 2) ↔
      SuppressPragma disableOnOne ∨ disableHasSegment disableThenSegment disableOnOne ∨ 2 < 1 ∨
        ¬ locationInAnySegment disableThenSegment 2 2 :=
  applies_iff_covered_iff (Or.inr ⟨_, rfl⟩) (by decide) rfl

/-- Inside the segment the range covers a line the disable does not apply to. -/
theorem disable_covers_later_segment :
    DisablePragma disableOnOne ∧ disableOnOne ∈ disableThenSegment.pragmas ∧
      onLine 4 ∈ disableThenSegment.locations ∧
      Covered disableThenSegment disableOnOne 4 ∧
      ¬ appliesToLocation disableThenSegment disableOnOne (onLine 4) := by
  refine ⟨⟨_, rfl⟩, by decide, by decide, ⟨1, 6, ?_⟩, ?_⟩
  · exact ⟨⟨rfl, Or.inr ⟨by decide, by decide⟩⟩, by decide⟩
  · rintro ⟨-, ⟨spps, hspps, hd, -⟩ | ⟨-, hseg⟩⟩
    · exact absurd ⟨spps, hspps, hd⟩ (show ¬ disableHasSegment _ disableOnOne by decide)
    · exact hseg (by decide)

end DriverQueries.Suppression
