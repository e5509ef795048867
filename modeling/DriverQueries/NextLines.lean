import Mathlib.Order.MinMax
import DriverQueries.Suppression

/-!
The line that a `suppress` pragma covers, against the next line of code.

The library takes the next line on which anything but a suppression begins. Comments and the
other pragmas begin on lines too.
-/

namespace DriverQueries.NextLines

open DriverQueries.Suppression

/-! ### The next line of several -/

def nextAfter (k : ℕ) (lines : List ℕ) : Option ℕ := (lines.filter fun line => k < line).min?

lemma nextAfter_eq_some {k n : ℕ} {lines : List ℕ} :
    nextAfter k lines = some n ↔ n ∈ lines ∧ k < n ∧ ∀ m ∈ lines, k < m → n ≤ m := by
  simp only [nextAfter, List.min?_eq_some_iff, List.mem_filter, decide_eq_true_eq, and_assoc,
    and_imp]

lemma exists_nextAfter {k n : ℕ} {lines : List ℕ} (hn : n ∈ lines) (hk : k < n) :
    ∃ m, nextAfter k lines = some m ∧ m ≤ n := by
  cases h : nextAfter k lines with
  | none =>
    rw [nextAfter, List.min?_eq_none_iff, List.filter_eq_nil_iff] at h
    exact absurd hk (by simpa using h n hn)
  | some m => exact ⟨m, rfl, (nextAfter_eq_some.mp h).2.2 n hn hk⟩

/-- **More lines do not change the next one iff each of them that counts is preceded by an old
one.** -/
theorem nextAfter_append_iff {k : ℕ} {lines more : List ℕ} :
    (∀ n, nextAfter k (more ++ lines) = some n ↔ nextAfter k lines = some n) ↔
      ∀ n ∈ more, k < n → ∃ m ∈ lines, k < m ∧ m ≤ n := by
  constructor
  · intro h n hn hk
    obtain ⟨m, hm, hmn⟩ := exists_nextAfter (List.mem_append_left lines hn) hk
    obtain ⟨hmem, hkm, -⟩ := nextAfter_eq_some.mp ((h m).mp hm)
    exact ⟨m, hmem, hkm, hmn⟩
  · intro h n
    rw [nextAfter_eq_some, nextAfter_eq_some]
    constructor
    · rintro ⟨hmem, hk, hleast⟩
      have hlines : ∀ m ∈ lines, k < m → n ≤ m := fun m hm => hleast m (List.mem_append_right _ hm)
      refine ⟨?_, hk, hlines⟩
      rcases List.mem_append.mp hmem with hmore | hmem
      · obtain ⟨m, hm, hkm, hmn⟩ := h n hmore hk
        rwa [le_antisymm (hlines m hm hkm) hmn]
      · exact hmem
    · rintro ⟨hmem, hk, hleast⟩
      refine ⟨List.mem_append_right _ hmem, hk, fun m hm hkm => ?_⟩
      rcases List.mem_append.mp hm with hmore | hm
      · obtain ⟨m', hm', hkm', hle⟩ := h m hmore hkm
        exact (hleast m' hm' hkm').trans hle
      · exact hleast m hm hkm

/-! ### Layouts -/

/-- What a file consists of: pragmas, comments and code. -/
structure Layout where
  pragmas : List Pragma
  comments : List Location
  code : List Location

/-- The file as the library sees it, where comments are elements like others. -/
def Layout.file (L : Layout) : SourceFile where
  pragmas := L.pragmas
  elements := L.comments ++ L.code
  locations := L.pragmas.map Pragma.location ++ (L.comments ++ L.code)
  pragma_location _ hp := List.mem_append_left _ (List.mem_map_of_mem hp)
  element_location _ hl := List.mem_append_right _ hl

/-- The lines on which code begins. -/
def codeLines (L : Layout) : List ℕ := L.code.map Location.startLine

/-- The lines on which comments begin, and pragmas that are no suppressions. -/
def otherLines (L : Layout) : List ℕ :=
  ((L.pragmas.filter fun p => ¬ CASuppression p).map Pragma.location ++ L.comments).map
    Location.startLine

def nextCodeLine (L : Layout) (c : Pragma) : Option ℕ := nextAfter c.location.endLine (codeLines L)

variable {L : Layout} {c : Pragma}

lemma nextNonSuppressionLine_eq :
    nextNonSuppressionLine L.file c =
      nextAfter c.location.endLine (otherLines L ++ codeLines L) := by
  simp only [nextNonSuppressionLine, nextAfter, nonSuppressionLines, otherLines, codeLines,
    Layout.file, List.map_append, List.append_assoc]

lemma minimumLocationOffset_eq_some {F : SourceFile} {offset : ℤ} :
    getMinimumLocationOffset F c = some offset ↔
      ∃ n : ℕ, nextNonSuppressionLine F c = some n ∧ (n : ℤ) - c.location.endLine = offset := by
  unfold getMinimumLocationOffset
  cases nextNonSuppressionLine F c <;> simp

lemma covered_iff_next (hc : SuppressPragma c) (line : ℕ) :
    Covered L.file c line ↔
      nextAfter c.location.endLine (otherLines L ++ codeLines L) = some line := by
  obtain ⟨rules, hc⟩ := hc
  rw [covered_suppress_iff hc, ← nextNonSuppressionLine_eq]
  simp only [Option.mem_def, minimumLocationOffset_eq_some]
  constructor
  · rintro ⟨offset, ⟨n, hn, rfl⟩, hline⟩
    have : n = line := by omega
    rwa [← this]
  · intro hline
    exact ⟨_, ⟨line, hline, rfl⟩, by omega⟩

/-- **A suppression covers exactly the next line of code iff no comment and no other pragma
begins between it and that line.** -/
theorem covered_iff_nextCodeLine_iff (hc : SuppressPragma c) :
    (∀ line, Covered L.file c line ↔ nextCodeLine L c = some line) ↔
      ∀ n ∈ otherLines L, c.location.endLine < n →
        ∃ m ∈ codeLines L, c.location.endLine < m ∧ m ≤ n := by
  simp only [covered_iff_next hc, nextCodeLine]
  exact nextAfter_append_iff

/-- A run of suppressions with nothing else before a line of code covers that line. -/
theorem covered_of_run {cs : List Pragma} (hcs : ∀ c ∈ cs, SuppressPragma c) {k n : ℕ}
    (hstart : ∀ c ∈ cs, k ≤ c.location.endLine ∧ c.location.endLine < n) (hn : n ∈ codeLines L)
    (hrun : ∀ m ∈ otherLines L ++ codeLines L, k < m → n ≤ m) : ∀ c ∈ cs, Covered L.file c n := by
  intro c hc
  obtain ⟨hk, hlt⟩ := hstart c hc
  refine (covered_iff_next (hcs c hc) n).mpr (nextAfter_eq_some.mpr ⟨?_, hlt, fun m hm hkm => ?_⟩)
  · exact List.mem_append_right _ hn
  · exact hrun m hm (hk.trans_lt hkm)

/-! ### A pragma before the code -/

def suppressOnOne : Pragma := ⟨onLine 1, .suppress ["28719"]⟩

/-- A suppression on line 1, a push on line 2 and code on line 3. -/
def pushBeforeCode : Layout where
  pragmas := [suppressOnOne, ⟨onLine 2, .push false⟩]
  comments := []
  code := [onLine 3]

/-- A suppression on line 1, a comment on line 2 and code on line 3. -/
def commentBeforeCode : Layout where
  pragmas := [suppressOnOne]
  comments := [onLine 2]
  code := [onLine 3]

/-- The covered line is the one of the push, or of the comment. -/
theorem covered_not_nextCodeLine :
    SuppressPragma suppressOnOne ∧
      (nextCodeLine pushBeforeCode suppressOnOne = some 3 ∧
        ¬ Covered pushBeforeCode.file suppressOnOne 3 ∧
        Covered pushBeforeCode.file suppressOnOne 2) ∧
      (nextCodeLine commentBeforeCode suppressOnOne = some 3 ∧
        ¬ Covered commentBeforeCode.file suppressOnOne 3 ∧
        Covered commentBeforeCode.file suppressOnOne 2) := by
  have hc : SuppressPragma suppressOnOne := ⟨_, rfl⟩
  simp only [covered_iff_next hc]
  decide

/-- Two suppressions stacked before the code. -/
def stacked : Layout where
  pragmas := [suppressOnOne, ⟨onLine 2, .suppress ["28182"]⟩]
  comments := [onLine 4]
  code := [onLine 3, onLine 5]

theorem covered_iff_nextCodeLine_stacked :
    Covered stacked.file suppressOnOne 3 ∧ ¬ Covered stacked.file suppressOnOne 5 := by
  have hlines := (covered_iff_nextCodeLine_iff (c := suppressOnOne) (L := stacked) ⟨_, rfl⟩).mpr
    (by decide)
  exact ⟨(hlines 3).mpr (by decide), fun h => absurd ((hlines 5).mp h) (by decide)⟩

end DriverQueries.NextLines
