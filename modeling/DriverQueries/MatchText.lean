import DriverQueries.Saves

/-!
The comparison by which a restore finds its save.

Two arguments are compared by their texts and those of their first children. The texts of the second
are taken as patterns, and arguments without children are the same whatever their texts are. Apart
from this the comparison is one of texts.
-/

namespace DriverQueries.MatchText

open DriverQueries.Text DriverQueries.Database DriverQueries.Calls

/-- A program in which an expression has at most one child at an index. -/
structure ExprProgram (Fn Node : Type) extends Program Fn Node where
  child_unique : ∀ e i, ∀ c ∈ getChild toProgram e i, ∀ c' ∈ getChild toProgram e i, c = c'

variable {Fn Node : Type} (P : ExprProgram Fn Node) (e1 e2 : Node)

def Childless (e : Node) : Prop := P.children e = []

instance (e : Node) [DecidableEq Node] : Decidable (Childless P e) :=
  inferInstanceAs (Decidable (_ = _))

/-! ### Textual equality -/

def SameFirstChild : Prop :=
  ∃ c1 ∈ getChild P.toProgram e1 0, ∃ c2 ∈ getChild P.toProgram e2 0, P.toString c1 = P.toString c2

/-- The expressions are textually the same, as far as they are compared. -/
structure SameText : Prop where
  text : P.toString e1 = P.toString e2
  child : ¬ (Childless P e1 ∧ Childless P e2) → SameFirstChild P e1 e2

structure Textual : Prop where
  same : exprsMatchText P.toProgram e1 e2 → SameText P e1 e2
  symm : exprsMatchText P.toProgram e1 e2 ↔ exprsMatchText P.toProgram e2 e1

/-- The texts of the second expression match as patterns, and one stands for another text. -/
def WildMatch : Prop :=
  matchesPattern (P.toString e1) (P.toString e2) ∧
    ∃ c1 ∈ getChild P.toProgram e1 0, ∃ c2 ∈ getChild P.toProgram e2 0,
      matchesPattern (P.toString c1) (P.toString c2) ∧
        (P.toString e1 ≠ P.toString e2 ∨ P.toString c1 ≠ P.toString c2)

instance [DecidableEq Node] : Decidable (WildMatch P e1 e2) :=
  inferInstanceAs (Decidable (_ ∧ ∃ c1 ∈ _, ∃ c2 ∈ _, _ ∧ (_ ∨ _)))

variable {P e1 e2} {c1 c2 : Node}

lemma not_childless_of_child {e c : Node} {i : ℤ} (h : c ∈ getChild P.toProgram e i) :
    ¬ Childless P e := by
  intro hnil
  unfold Childless at hnil
  simp [getChild, hnil] at h

lemma SameText.symm (h : SameText P e1 e2) : SameText P e2 e1 where
  text := h.text.symm
  child hnot := by
    obtain ⟨c1, hc1, c2, hc2, heq⟩ := h.child fun hboth => hnot hboth.symm
    exact ⟨c2, hc2, c1, hc1, heq.symm⟩

lemma SameText.first (h : SameText P e1 e2) (hc1 : c1 ∈ getChild P.toProgram e1 0)
    (hc2 : c2 ∈ getChild P.toProgram e2 0) : P.toString c1 = P.toString c2 := by
  obtain ⟨c1', hc1', c2', hc2', heq⟩ :=
    h.child fun hboth => not_childless_of_child hc1 hboth.1
  rw [P.child_unique e1 0 c1 hc1 c1' hc1', P.child_unique e2 0 c2 hc2 c2' hc2', heq]

lemma exprsMatchText_iff : exprsMatchText P.toProgram e1 e2 ↔
    (∃ c1 ∈ getChild P.toProgram e1 0, ∃ c2 ∈ getChild P.toProgram e2 0,
      matchesPattern (P.toString e1) (P.toString e2) ∧
        matchesPattern (P.toString c1) (P.toString c2)) ∨
    (Childless P e1 ∧ Childless P e2) := by
  unfold exprsMatchText
  refine or_congr ⟨fun ⟨ht, _, c1, hc1, c2, hc2, hc⟩ => ⟨c1, hc1, c2, hc2, ht, hc⟩,
    fun ⟨c1, hc1, c2, hc2, ht, hc⟩ => ⟨ht, ?_, c1, hc1, c2, hc2, hc⟩⟩ Iff.rfl
  exact not_childless_of_child hc1

lemma exprsMatchText_swap (h : exprsMatchText P.toProgram e1 e2) (hsame : SameText P e1 e2) :
    exprsMatchText P.toProgram e2 e1 := by
  rw [exprsMatchText_iff] at h ⊢
  refine h.imp (fun ⟨c1, hc1, c2, hc2, ht, hc⟩ => ⟨c2, hc2, c1, hc1, ?_, ?_⟩) And.symm
  · rwa [hsame.text] at ht ⊢
  · rwa [hsame.first hc1 hc2] at hc ⊢

lemma sameText_of_match (h : exprsMatchText P.toProgram e1 e2)
    (hchildless : Childless P e1 → Childless P e2 → P.toString e1 = P.toString e2)
    (hwild : ¬ WildMatch P e1 e2) : SameText P e1 e2 := by
  obtain ⟨c1, hc1, c2, hc2, ht, hc⟩ | ⟨h1, h2⟩ := exprsMatchText_iff.mp h
  · have heq : P.toString e1 = P.toString e2 ∧ P.toString c1 = P.toString c2 := by
      by_contra hne
      exact hwild ⟨ht, c1, hc1, c2, hc2, hc, not_and_or.mp hne⟩
    exact ⟨heq.1, fun _ => ⟨c1, hc1, c2, hc2, heq.2⟩⟩
  · exact ⟨hchildless h1 h2, fun hnot => absurd ⟨h1, h2⟩ hnot⟩

lemma WildMatch.not_same (h : WildMatch P e1 e2) : ¬ SameText P e1 e2 := by
  obtain ⟨-, c1, hc1, c2, hc2, -, hne⟩ := h
  exact fun hsame => hne.elim (fun ht => ht hsame.text) fun hc => hc (hsame.first hc1 hc2)

lemma WildMatch.matches (h : WildMatch P e1 e2) : exprsMatchText P.toProgram e1 e2 := by
  obtain ⟨ht, c1, hc1, c2, hc2, hc, -⟩ := h
  exact exprsMatchText_iff.mpr (Or.inl ⟨c1, hc1, c2, hc2, ht, hc⟩)

lemma textual_of (hchildless : Childless P e1 → Childless P e2 → P.toString e1 = P.toString e2)
    (h12 : ¬ WildMatch P e1 e2) (h21 : ¬ WildMatch P e2 e1) : Textual P e1 e2 where
  same h := sameText_of_match h hchildless h12
  symm := by
    refine ⟨fun h => exprsMatchText_swap h (sameText_of_match h hchildless h12), fun h => ?_⟩
    exact exprsMatchText_swap h (sameText_of_match h (fun h2 h1 => (hchildless h1 h2).symm) h21)

lemma not_wildMatch_of_plain (htext : Plain (P.toString e2).toList)
    (hchild : ∀ c ∈ getChild P.toProgram e2 0, Plain (P.toString c).toList) :
    ¬ WildMatch P e1 e2 := by
  rintro ⟨ht, c1, hc1, c2, hc2, hc, hne⟩
  have heq := String.toList_injective (like_plain htext ht)
  have heq' := String.toList_injective (like_plain (hchild c2 hc2) hc)
  exact hne.elim (fun h => h heq.symm) fun h => h heq'.symm

/-- **The comparison is of texts for expressions with children and without wildcards.** -/
theorem textual_of_plain (hchildren : ¬ (Childless P e1 ∧ Childless P e2))
    (htext : ∀ e ∈ [e1, e2], Plain (P.toString e).toList)
    (hchild : ∀ e ∈ [e1, e2], ∀ c ∈ getChild P.toProgram e 0, Plain (P.toString c).toList) :
    Textual P e1 e2 := by
  have h1 : e1 ∈ [e1, e2] := List.mem_cons_self
  have h2 : e2 ∈ [e1, e2] := List.mem_cons_of_mem e1 List.mem_cons_self
  refine textual_of (fun hc1 hc2 => absurd ⟨hc1, hc2⟩ hchildren) ?_ ?_
  · exact not_wildMatch_of_plain (htext e2 h2) (hchild e2 h2)
  · exact not_wildMatch_of_plain (htext e1 h1) (hchild e1 h1)

/-- **The comparison is of texts iff the expressions are not childless with different texts, and
neither matches the other by a wildcard.** -/
theorem textual_iff (P : ExprProgram Fn Node) (e1 e2 : Node) :
    Textual P e1 e2 ↔
      (Childless P e1 → Childless P e2 → P.toString e1 = P.toString e2) ∧
        ¬ WildMatch P e1 e2 ∧ ¬ WildMatch P e2 e1 := by
  refine ⟨fun h => ⟨fun h1 h2 => ?_, fun hwild => ?_, fun hwild => ?_⟩, fun ⟨h, h12, h21⟩ => ?_⟩
  · exact (h.same (exprsMatchText_iff.mpr (Or.inr ⟨h1, h2⟩))).text
  · exact hwild.not_same (h.same hwild.matches)
  · exact hwild.not_same (h.same (h.symm.mpr hwild.matches)).symm
  · exact textual_of h h12 h21

/-! ### Two locks -/

inductive LockRoutine
  | routine | acquire | release
  deriving DecidableEq

/-- The argument of each call. -/
def lockArgument (n : Fin 8) : Option (Fin 8) :=
  if n = 2 then some 1 else if n = 4 then some 3 else none

open Saves in
/-- `acquire(lock); release(other);` in a routine, with the texts of the two arguments. The calls
are the nodes 2 and 4, each after its argument. -/
def acquireRelease (lock other : String) : ExprProgram LockRoutine (Fin 8) where
  function f :=
    match f with
    | .routine => { getName := "routine" }
    | .acquire => globalLock.acquire
    | .release => globalLock.release
  getBlock f := if f = .routine then some 0 else none
  exitNode f :=
    match f with
    | .routine => 5
    | .acquire => 6
    | .release => 7
  getASuccessor n := if n < 5 then [n + 1] else []
  getControlFlowScope n :=
    some (if n = 6 then .acquire else if n = 7 then .release else .routine)
  getTarget n := if n = 2 then some .acquire else if n = 4 then some .release else none
  getArgument n := (lockArgument n).toList
  children n := (lockArgument n).toList.map fun c => (0, c)
  toString n := if n = 1 then lock else if n = 3 then other else ""
  successor_scope := by decide
  exit_scope f := by cases f <;> rfl
  exit_enclosing f := by cases f <;> rfl
  block_scope f := by cases f <;> decide
  block_enclosing f := by cases f <;> decide
  child_unique e i c hc c' hc' := by
    simp only [getChild, List.mem_map, List.mem_filter, Option.mem_toList] at hc hc'
    obtain ⟨-, ⟨⟨a, ha, rfl⟩, -⟩, rfl⟩ := hc
    obtain ⟨-, ⟨⟨b, hb, rfl⟩, -⟩, rfl⟩ := hc'
    exact Option.mem_unique ha hb

/-- The release of one lock is taken to restore what was saved when another one was acquired. -/
theorem acquireRelease_different_match :
    RestoresGlobalIrqlCall.matchingSaveCall (acquireRelease "first" "second").toProgram 4 2 ∧
      exprsMatchText (acquireRelease "first" "second").toProgram 3 1 ∧
      ¬ SameText (acquireRelease "first" "second") 3 1 ∧
      ¬ Textual (acquireRelease "first" "second") 3 1 := by
  have hmatch : exprsMatchText (acquireRelease "first" "second").toProgram 3 1 := by decide
  have hdiffer : ¬ SameText (acquireRelease "first" "second") 3 1 :=
    fun h => absurd h.text (by decide)
  exact ⟨by decide, hmatch, hdiffer, fun h => hdiffer (h.same hmatch)⟩

end DriverQueries.MatchText
