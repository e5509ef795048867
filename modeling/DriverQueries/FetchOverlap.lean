import Mathlib.Data.List.Infix

/-!
When two reads of user memory through one pointer overlap: the syntactic test of the
double-fetch query, on the expressions around the two uses of the pointer, against the paths
of fields that the reads take.
-/

namespace DriverQueries.FetchOverlap

/-- What an expression is, where the test asks. -/
inductive Kind (E : Type)
  | fieldAccess (getTarget : String) (getQualifier : Option E)
  | arrayExpr (getArrayBase getArrayOffset : E)
  | pointerDereference (getOperand : E)
  | other

/-- The expressions of a program. A dereferencing access has the memory origins it is nested
in. -/
structure Code (E Origin : Type) where
  getParent : E → Option E
  kind : E → Kind E
  getAnOrigin : E → Origin → Prop
  getEnclosingFunction : E → String
  getTargetVariable : E → Option String
  useUsePair : E → E → Prop
  reaches : E → E → Prop
  isWriteExprTarget : E → Prop

variable {E Origin : Type} (C : Code E Origin)

def FieldAccess (e : E) : Bool :=
  match C.kind e with
  | .fieldAccess _ _ => true
  | _ => false

def ArrayExpr (e : E) : Bool :=
  match C.kind e with
  | .arrayExpr _ _ => true
  | _ => false

/-- `e.getParent().(FieldAccess)`. -/
def parentField (e : E) : Option E := (C.getParent e).filter (FieldAccess C)

/-- `e.getParent().(ArrayExpr)`. -/
def parentArray (e : E) : Option E := (C.getParent e).filter (ArrayExpr C)

/-- `e.getTarget().getName()` of a field access. -/
def fieldName (e : E) : Option String :=
  match C.kind e with
  | .fieldAccess name _ => some name
  | _ => none

/-- `e.getQualifier()` of a field access. -/
def qualifier (e : E) : Option E :=
  match C.kind e with
  | .fieldAccess _ q => q
  | _ => none

def SameName (a b : Option String) : Prop := ∃ n ∈ a, n ∈ b

instance (a b : Option String) : Decidable (SameName a b) :=
  inferInstanceAs (Decidable (∃ n ∈ a, _))

/-- The access is not of a more specific type. -/
def General (e : E) : Prop :=
  parentField C e = none ∧ (parentArray C e).bind (parentField C) = none

/-- The name of the first field, where fields come right after the pointer. -/
def firstField (e : E) : Option String := (parentField C e).bind (fieldName C)

def secondField (e : E) : Option String :=
  ((parentField C e).bind (parentField C)).bind (fieldName C)

def arrayField (e : E) : Option String :=
  ((parentArray C e).bind (parentField C)).bind (fieldName C)

/-- Are the two dereferences overlapping? -/
def Overlapping (this result : E) : Prop :=
  General C this ∨ General C result ∨
  -- ptr->Field.field and ptr->Field.field
  SameName (secondField C this) (secondField C result) ∨
  -- ptr[_].field and ptr[_].field
  SameName (arrayField C this) (arrayField C result) ∨
  -- ptr->Field, of `this` only
  ((parentField C this).bind (parentField C) = none ∧
    SameName (firstField C this) (firstField C result) ∧
    ((parentField C this).bind (qualifier C)).isSome)

def getAnEquivalentCandidateInSameFunction (this result : E) : Prop :=
  (∃ mo, C.getAnOrigin this mo ∧ C.getAnOrigin result mo) ∧
    C.getEnclosingFunction this = C.getEnclosingFunction result ∧
    (C.useUsePair this result ∨ C.useUsePair result this ∨
      ¬ SameName (C.getTargetVariable this) (C.getTargetVariable result) ∧
        (C.reaches this result ∨ C.reaches result this))

def getAnEquivalentCandidateInOtherFunction (this result : E) : Prop :=
  (∃ mo, C.getAnOrigin this mo ∧ C.getAnOrigin result mo) ∧
    C.getEnclosingFunction this ≠ C.getEnclosingFunction result

def getAnEquivalentCandidate (this result : E) : Prop :=
  getAnEquivalentCandidateInSameFunction C this result ∨
    getAnEquivalentCandidateInOtherFunction C this result

def getAnEquivalent (this result : E) : Prop :=
  getAnEquivalentCandidate C this result ∧
    (C.isWriteExprTarget this → C.isWriteExprTarget result) ∧
    (C.isWriteExprTarget result → C.isWriteExprTarget this) ∧ Overlapping C this result

/-! ### Access paths -/

/-- What stands between the pointer and the first field of a read. -/
inductive Lead
  | subscript
  | star
  deriving DecidableEq, Repr

/-- The expressions from the pointer up to the object whose fields are read. -/
inductive Leads : E → List Lead → E → Prop
  | nil {e : E} : Leads e [] e
  | subscript {e a t : E} {o : E} {ls : List Lead} (hparent : C.getParent e = some a)
      (hkind : C.kind a = .arrayExpr e o) (h : Leads a ls t) : Leads e (.subscript :: ls) t
  | star {e a t : E} {ls : List Lead} (hparent : C.getParent e = some a)
      (hkind : C.kind a = .pointerDereference e) (h : Leads a ls t) : Leads e (.star :: ls) t

/-- The field accesses from an object up to the value that is read. -/
inductive Fields : E → List String → E → Prop
  | nil {e : E} : Fields e [] e
  | cons {e a t : E} {name : String} {names : List String} (hparent : C.getParent e = some a)
      (hkind : C.kind a = .fieldAccess name (some e)) (h : Fields a names t) :
      Fields e (name :: names) t

/-- The value is used as a whole: no field of it is accessed, and it is not dereferenced. -/
def Ends (t : E) : Prop :=
  ∀ a, C.getParent t = some a → FieldAccess C a = false ∧ C.kind a ≠ .pointerDereference t ∧
    ∀ o, C.kind a ≠ .arrayExpr t o

/-- The read through the pointer `e` takes the path `names`, after `leads`. The pointer is no
array's offset. -/
def AccessPath (e : E) (leads : List Lead) (names : List String) : Prop :=
  (∀ a b o, C.getParent e = some a → C.kind a = .arrayExpr b o → b = e) ∧
    ∃ b t, Leads C e leads b ∧ Fields C b names t ∧ Ends C t

/-- One path is a prefix of the other. -/
def Comparable (p1 p2 : List String) : Prop := p1 <+: p2 ∨ p2 <+: p1

instance (p1 p2 : List String) : Decidable (Comparable p1 p2) := inferInstanceAs (Decidable (_ ∨ _))

def Diverge (p1 p2 : List String) : Prop :=
  ∃ common f g r1 r2, f ≠ g ∧ p1 = common ++ f :: r1 ∧ p2 = common ++ g :: r2

/-- The test is prefix overlap at these reads: it does not depend on their order, holds if
one path is a prefix of the other and fails if they diverge. -/
structure PrefixOverlap (e1 e2 : E) (p1 p2 : List String) : Prop where
  symmetric : Overlapping C e1 e2 ↔ Overlapping C e2 e1
  of_prefix : Comparable p1 p2 → Overlapping C e1 e2
  of_diverge : Diverge p1 p2 → ¬ Overlapping C e1 e2

/-! ### What the test sees of a path -/

/-- The three ways to begin that the test tells apart. -/
inductive Start
  | arrow
  | subscript
  | deeper
  deriving DecidableEq, Repr

def start : List Lead → Start
  | [] => .arrow
  | [.subscript] => .subscript
  | _ => .deeper

variable {C} {e e1 e2 a b t : E} {ls ls1 ls2 : List Lead} {ns p1 p2 : List String}

lemma parentField_of_kind {name : String} {q : Option E} (hparent : C.getParent e = some a)
    (hkind : C.kind a = .fieldAccess name q) : parentField C e = some a := by
  simp [parentField, hparent, FieldAccess, hkind]

lemma parentField_of_not (hparent : C.getParent e = some a) (hkind : FieldAccess C a = false) :
    parentField C e = none := by
  simp [parentField, hparent, hkind]

lemma parentArray_of_not (hparent : C.getParent e = some a) (hkind : ArrayExpr C a = false) :
    parentArray C e = none := by
  simp [parentArray, hparent, hkind]

lemma Ends.parentField (h : Ends C t) : parentField C t = none := by
  cases hparent : C.getParent t with
  | none => simp [FetchOverlap.parentField, hparent]
  | some a => exact parentField_of_not hparent (h a hparent).1

lemma Fields.parentField (h : Fields C b ns t) (hend : Ends C t) :
    (ns = [] ∧ parentField C b = none) ∨
      ∃ name names a, ns = name :: names ∧ parentField C b = some a ∧
        C.kind a = .fieldAccess name (some b) ∧ Fields C a names t := by
  cases h with
  | nil => exact .inl ⟨rfl, hend.parentField⟩
  | cons hparent hkind h => exact .inr ⟨_, _, _, rfl, parentField_of_kind hparent hkind, hkind, h⟩

lemma Fields.head_name (h : Fields C b ns t) (hend : Ends C t) :
    (FetchOverlap.parentField C b).bind (fieldName C) = ns.head? := by
  rcases h.parentField hend with ⟨rfl, hnone⟩ | ⟨name, names, a, rfl, hsome, hkind, -⟩
  · simp [hnone]
  · simp [hsome, fieldName, hkind]

/-- What the test reads around a pointer, as a path begins. -/
structure View (C : Code E Origin) (e : E) (s : Start) (ns : List String) : Prop where
  general : General C e ↔ ns = [] ∨ s = .deeper
  first : firstField C e = if s = .arrow then ns.head? else none
  second : secondField C e = if s = .arrow then ns.tail.head? else none
  array : arrayField C e = if s = .subscript then ns.head? else none
  last : s = .arrow → ns ≠ [] →
    (((parentField C e).bind (parentField C) = none ↔ ns.tail = []) ∧
      ((parentField C e).bind (qualifier C)).isSome)

lemma view_arrow (hoffset : ∀ a b o, C.getParent e = some a → C.kind a = .arrayExpr b o → b = e)
    (h : Fields C e ns t) (hend : Ends C t) : View C e .arrow ns := by
  cases h with
  | nil =>
    have hfield := hend.parentField
    have harray : parentArray C e = none := by
      cases hparent : C.getParent e with
      | none => simp [parentArray, hparent]
      | some a =>
        refine parentArray_of_not hparent ?_
        unfold ArrayExpr
        split
        · next b o hkind =>
          obtain rfl := hoffset a b o hparent hkind
          exact absurd hkind ((hend a hparent).2.2 o)
        · rfl
    constructor <;> simp [General, firstField, secondField, arrayField, hfield, harray]
  | @cons _ a _ name names hparent hkind h =>
    have hfield := parentField_of_kind hparent hkind
    have harray : parentArray C e = none := parentArray_of_not hparent (by simp [ArrayExpr, hkind])
    refine ⟨?_, ?_, ?_, ?_, fun _ _ => ⟨?_, ?_⟩⟩
    · simp [General, hfield]
    · simp [firstField, hfield, fieldName, hkind]
    · simpa [secondField, hfield] using h.head_name hend
    · simp [arrayField, harray]
    · rcases h.parentField hend with ⟨rfl, hnone⟩ | ⟨name', names', a', rfl, hsome, -⟩
      · simp [hfield, hnone]
      · simp [hfield, hsome]
    · simp [hfield, qualifier, hkind]

lemma view_subscript {o : E} (hparent : C.getParent e = some a) (hkind : C.kind a = .arrayExpr e o)
    (h : Fields C a ns t) (hend : Ends C t) : View C e .subscript ns := by
  have hfield : parentField C e = none := parentField_of_not hparent (by simp [FieldAccess, hkind])
  have harray : parentArray C e = some a := by simp [parentArray, hparent, ArrayExpr, hkind]
  refine ⟨?_, ?_, ?_, ?_, nofun⟩
  · rcases h.parentField hend with ⟨rfl, hnone⟩ | ⟨name, names, a', rfl, hsome, -⟩
    · simp [General, hfield, harray, hnone]
    · simp [General, hfield, harray, hsome]
  · simp [firstField, hfield]
  · simp [secondField, hfield]
  · simpa [arrayField, harray] using h.head_name hend

/-- Past a dereference, or two subscripts, the test sees no field. -/
lemma view_deeper (hfield : parentField C e = none)
    (harray : (parentArray C e).bind (parentField C) = none) : View C e .deeper ns := by
  refine ⟨?_, ?_, ?_, ?_, nofun⟩
  · simp [General, hfield, harray]
  · simp [firstField, hfield]
  · simp [secondField, hfield]
  · simp [arrayField, harray]

lemma Leads.not_field {l : Lead} (h : Leads C e (l :: ls) b) : parentField C e = none := by
  cases h with
  | subscript hparent hkind _ => exact parentField_of_not hparent (by simp [FieldAccess, hkind])
  | star hparent hkind _ => exact parentField_of_not hparent (by simp [FieldAccess, hkind])

/-- **A path as the test sees it.** -/
theorem AccessPath.view (h : AccessPath C e ls ns) : View C e (start ls) ns := by
  obtain ⟨hoffset, b, t, hleads, hfields, hend⟩ := h
  have hnofield := @Leads.not_field _ _ C e b
  cases hleads with
  | nil => exact view_arrow hoffset hfields hend
  | star hparent hkind hrest =>
    have harray : parentArray C e = none := parentArray_of_not hparent (by simp [ArrayExpr, hkind])
    exact view_deeper (hnofield (.star hparent hkind hrest)) (by simp [harray])
  | @subscript _ a _ o ls hparent hkind hrest =>
    cases ls with
    | nil =>
      cases hrest
      exact view_subscript hparent hkind hfields hend
    | cons l ls =>
      refine view_deeper (hnofield (.subscript hparent hkind hrest)) ?_
      simp [parentArray, hparent, ArrayExpr, hkind, hrest.not_field]

/-! ### Prefixes -/

@[simp] lemma comparable_nil_left : Comparable [] p2 := .inl List.nil_prefix
@[simp] lemma comparable_nil_right : Comparable p1 [] := .inr List.nil_prefix

@[simp] lemma comparable_cons {f g : String} :
    Comparable (f :: p1) (g :: p2) ↔ f = g ∧ Comparable p1 p2 := by
  unfold Comparable
  rw [List.cons_prefix_cons, List.cons_prefix_cons]
  constructor
  · rintro (⟨h, hp⟩ | ⟨h, hp⟩)
    · exact ⟨h, .inl hp⟩
    · exact ⟨h.symm, .inr hp⟩
  · rintro ⟨h, hp | hp⟩
    · exact .inl ⟨h, hp⟩
    · exact .inr ⟨h.symm, hp⟩

lemma diverge_cons {f g : String} :
    Diverge (f :: p1) (g :: p2) ↔ f ≠ g ∨ f = g ∧ Diverge p1 p2 := by
  constructor
  · rintro ⟨common, x, y, r1, r2, hne, h1, h2⟩
    cases common with
    | nil =>
      simp only [List.nil_append, List.cons.injEq] at h1 h2
      rw [h1.1, h2.1]
      exact .inl hne
    | cons c common =>
      simp only [List.cons_append, List.cons.injEq] at h1 h2
      exact .inr ⟨h1.1.trans h2.1.symm, common, x, y, r1, r2, hne, h1.2, h2.2⟩
  · rintro (hne | ⟨rfl, common, x, y, r1, r2, hne, rfl, rfl⟩)
    · exact ⟨[], f, g, p1, p2, hne, rfl, rfl⟩
    · exact ⟨f :: common, x, y, r1, r2, hne, rfl, rfl⟩

lemma not_diverge_nil : ¬ Diverge p1 [] ∧ ¬ Diverge [] p1 := by
  constructor
  · rintro ⟨common, f, g, r1, r2, -, -, h⟩
    simp at h
  · rintro ⟨common, f, g, r1, r2, -, h, -⟩
    simp at h

/-- Two paths diverge iff neither is a prefix of the other. -/
lemma diverge_iff : Diverge p1 p2 ↔ ¬ Comparable p1 p2 := by
  induction p1 generalizing p2 with
  | nil => simp [not_diverge_nil.2]
  | cons f p1 ih =>
    cases p2 with
    | nil => simp [not_diverge_nil.1]
    | cons g p2 =>
      rw [diverge_cons, ih, comparable_cons]
      by_cases h : f = g <;> simp [h]

/-! ### Where the test is prefix overlap -/

/-- The test on two paths, as they begin. -/
def Sees (s1 : Start) (p1 : List String) (s2 : Start) (p2 : List String) : Prop :=
  (p1 = [] ∨ s1 = .deeper) ∨ (p2 = [] ∨ s2 = .deeper) ∨
  (s1 = .arrow ∧ s2 = .arrow ∧ SameName p1.tail.head? p2.tail.head?) ∨
  (s1 = .subscript ∧ s2 = .subscript ∧ SameName p1.head? p2.head?) ∨
  (s1 = .arrow ∧ s2 = .arrow ∧ p1.tail = [] ∧ SameName p1.head? p2.head?)

@[simp] lemma sameName_some {f g : String} : SameName (some f) (some g) ↔ f = g := by
  simp [SameName, eq_comm]

@[simp] lemma sameName_none_left {o : Option String} : ¬ SameName none o := by simp [SameName]
@[simp] lemma sameName_none_right {o : Option String} : ¬ SameName o none := by simp [SameName]

/-- The disjunct that reads the number of fields of one side only. -/
lemma View.only_field {s : Start} (h : View C e s ns) {o : Option String} :
    ((parentField C e).bind (parentField C) = none ∧ SameName (firstField C e) o ∧
      ((parentField C e).bind (qualifier C)).isSome) ↔
    s = .arrow ∧ ns.tail = [] ∧ SameName ns.head? o := by
  rw [h.first]
  by_cases hs : s = .arrow
  · cases ns with
    | nil => simp [hs]
    | cons f ns =>
      obtain ⟨hlast, hqualifier⟩ := h.last hs (by simp)
      rw [hlast, if_pos hs]
      exact ⟨fun ⟨h1, h2, _⟩ => ⟨hs, h1, h2⟩, fun ⟨_, h1, h2⟩ => ⟨h1, h2, hqualifier⟩⟩
  · simp [hs]

lemma overlapping_iff {s1 s2 : Start} (h1 : View C e1 s1 p1) (h2 : View C e2 s2 p2) :
    Overlapping C e1 e2 ↔ Sees s1 p1 s2 p2 := by
  unfold Overlapping Sees
  rw [h1.only_field, h1.general, h2.general, h2.first, h1.second, h2.second, h1.array, h2.array]
  cases s1 <;> cases s2 <;> simp

/-- How two paths have to lie for the test to be prefix overlap. -/
def Agrees : Start → List String → Start → List String → Prop
  | _, [], _, _ => True
  | _, _, _, [] => True
  -- the test sees no field of one of them, and holds
  | .deeper, p1, _, p2 => Comparable p1 p2
  | _, p1, .deeper, p2 => Comparable p1 p2
  -- one begins with an array subscript and the other does not, and the test fails
  | .arrow, p1, .subscript, p2 => ¬ Comparable p1 p2
  | .subscript, p1, .arrow, p2 => ¬ Comparable p1 p2
  -- the first fields alone are compared
  | .subscript, f :: r1, .subscript, g :: r2 => f = g → Comparable r1 r2
  | .arrow, [_], .arrow, [_] => True
  -- equal first fields are seen from the shorter path only
  | .arrow, [f], .arrow, g :: _ :: _ => f ≠ g
  | .arrow, f :: _ :: _, .arrow, [g] => f ≠ g
  -- the second fields alone are compared
  | .arrow, f :: x :: r1, .arrow, g :: y :: r2 => x = y → f = g ∧ Comparable r1 r2

lemma prefixOverlap_iff {s1 s2 : Start} (h1 : View C e1 s1 p1) (h2 : View C e2 s2 p2) :
    PrefixOverlap C e1 e2 p1 p2 ↔
      (Sees s1 p1 s2 p2 ↔ Comparable p1 p2) ∧ (Sees s2 p2 s1 p1 ↔ Comparable p1 p2) := by
  have h12 := overlapping_iff h1 h2
  have h21 := overlapping_iff h2 h1
  constructor
  · rintro ⟨hsymm, hprefix, hdiverge⟩
    rw [diverge_iff, h12] at hdiverge
    rw [h12] at hprefix
    rw [h12, h21] at hsymm
    have h : Sees s1 p1 s2 p2 ↔ Comparable p1 p2 :=
      ⟨fun h => by_contra fun hn => hdiverge hn h, hprefix⟩
    exact ⟨h, hsymm.symm.trans h⟩
  · rintro ⟨h, h'⟩
    refine ⟨by rw [h12, h21, h, h'], fun hp => h12.mpr (h.mpr hp), fun hd ho => ?_⟩
    exact diverge_iff.mp hd (h.mp (h12.mp ho))

/-- Both begin with a field: the first fields are compared where one path ends there, and the
second fields where neither does. -/
lemma agrees_arrow {f g : String} {r1 r2 : List String} :
    ((Sees .arrow (f :: r1) .arrow (g :: r2) ↔ Comparable (f :: r1) (g :: r2)) ∧
      (Sees .arrow (g :: r2) .arrow (f :: r1) ↔ Comparable (f :: r1) (g :: r2))) ↔
      Agrees .arrow (f :: r1) .arrow (g :: r2) := by
  cases r1 with
  | nil =>
    cases r2 with
    | nil => simp [Sees, Agrees, eq_comm]
    | cons y r2 => simp [Sees, Agrees, eq_comm]
  | cons x r1 =>
    cases r2 with
    | nil => simp [Sees, Agrees, eq_comm]
    | cons y r2 =>
      have h12 : Sees .arrow (f :: x :: r1) .arrow (g :: y :: r2) ↔ x = y := by simp [Sees]
      have h21 : Sees .arrow (g :: y :: r2) .arrow (f :: x :: r1) ↔ x = y := by
        simp [Sees, eq_comm]
      rw [h12, h21, and_self, comparable_cons, comparable_cons]
      constructor
      · intro h hxy
        obtain ⟨hfg, -, hrest⟩ := h.mp hxy
        exact ⟨hfg, hrest⟩
      · intro h
        exact ⟨fun hxy => ⟨(h hxy).1, hxy, (h hxy).2⟩, fun hc => hc.2.1⟩

lemma agrees_iff (s1 s2 : Start) :
    ((Sees s1 p1 s2 p2 ↔ Comparable p1 p2) ∧ (Sees s2 p2 s1 p1 ↔ Comparable p1 p2)) ↔
      Agrees s1 p1 s2 p2 := by
  cases p1 with
  | nil => cases s1 <;> cases s2 <;> cases p2 <;> simp [Sees, Agrees]
  | cons f r1 =>
    cases p2 with
    | nil => cases s1 <;> cases s2 <;> simp [Sees, Agrees]
    | cons g r2 =>
      cases s1 with
      | deeper => cases s2 <;> simp [Sees, Agrees]
      | subscript =>
        cases s2 with
        | deeper => simp [Sees, Agrees]
        | arrow => simp [Sees, Agrees]
        | subscript =>
          simp [Sees, Agrees, eq_comm]
      | arrow =>
        cases s2 with
        | deeper => simp [Sees, Agrees]
        | subscript => simp [Sees, Agrees]
        | arrow => exact agrees_arrow

/-- **The test is prefix overlap at two reads exactly if their paths lie so.** -/
theorem prefixOverlap_iff_agrees (h1 : AccessPath C e1 ls1 p1) (h2 : AccessPath C e2 ls2 p2) :
    PrefixOverlap C e1 e2 p1 p2 ↔ Agrees (start ls1) p1 (start ls2) p2 := by
  rw [prefixOverlap_iff h1.view h2.view, agrees_iff]

lemma candidate_comm : getAnEquivalentCandidate C e1 e2 ↔ getAnEquivalentCandidate C e2 e1 := by
  have swap : ∀ {e1 e2}, getAnEquivalentCandidate C e1 e2 → getAnEquivalentCandidate C e2 e1 := by
    rintro e1 e2 (⟨⟨mo, h1, h2⟩, hfn, h⟩ | ⟨⟨mo, h1, h2⟩, hfn⟩)
    · refine .inl ⟨⟨mo, h2, h1⟩, hfn.symm, ?_⟩
      rcases h with h | h | ⟨hne, h⟩
      · exact .inr (.inl h)
      · exact .inl h
      · exact .inr (.inr ⟨fun ⟨n, hn, hn'⟩ => hne ⟨n, hn', hn⟩, h.symm⟩)
    · exact .inr ⟨⟨mo, h2, h1⟩, hfn.symm⟩
  exact ⟨swap, swap⟩

/-- All else that makes two dereferences equivalent is symmetric. -/
theorem equivalent_comm_iff (hcandidate : getAnEquivalentCandidate C e1 e2)
    (hwrite : C.isWriteExprTarget e1 ↔ C.isWriteExprTarget e2) :
    (getAnEquivalent C e1 e2 ↔ getAnEquivalent C e2 e1) ↔
      (Overlapping C e1 e2 ↔ Overlapping C e2 e1) := by
  simp only [getAnEquivalent, hcandidate, candidate_comm.mp hcandidate, hwrite, imp_self, true_and]

/-! ### Reads of two paths -/

/-- Two reads through one pointer, with these fields. -/
def reads (p1 p2 : List String) : Code (Bool × ℕ) Unit where
  getParent | (w, n) => if n < (cond w p2 p1).length then some (w, n + 1) else none
  kind
    | (_, 0) => .other
    | (w, n + 1) => match (cond w p2 p1)[n]? with
      | some name => .fieldAccess name (some (w, n))
      | none => .other
  getAnOrigin _ _ := True
  getEnclosingFunction _ := "f"
  getTargetVariable _ := some "ptr"
  useUsePair e1 e2 := e1 = (false, 0) ∧ e2 = (true, 0)
  reaches e1 e2 := e1 = (false, 0) ∧ e2 = (true, 0)
  isWriteExprTarget _ := False

lemma fields_reads (w : Bool) (ns : List String) :
    ∀ n, (cond w p2 p1).drop n = ns → Fields (reads p1 p2) (w, n) ns (w, n + ns.length) := by
  induction ns with
  | nil => exact fun n _ => .nil
  | cons name names ih =>
    intro n hdrop
    have hlt : n < (cond w p2 p1).length := by
      by_contra hle
      rw [List.drop_eq_nil_of_le (by omega)] at hdrop
      simp at hdrop
    rw [List.drop_eq_getElem_cons hlt, List.cons.injEq] at hdrop
    have hrest := ih (n + 1) hdrop.2
    rw [List.length_cons, show n + (names.length + 1) = n + 1 + names.length by omega]
    refine .cons (by simp [reads, hlt]) ?_ hrest
    simp [reads, hlt, hdrop.1]

lemma accessPath_reads (w : Bool) : AccessPath (reads p1 p2) (w, 0) [] (cond w p2 p1) := by
  refine ⟨fun a b o hparent hkind => ?_, (w, 0), _, .nil, fields_reads w _ 0 rfl, ?_⟩
  · obtain ⟨w', n⟩ := a
    cases n with
    | zero => simp [reads] at hkind
    | succ n =>
      simp only [reads] at hkind
      split at hkind <;> simp at hkind
  · intro a hparent
    simp [reads] at hparent

/-- `ptr->A.x` and `ptr->B.x` overlap; `ptr->F.x` overlaps `ptr->F` in one order only. -/
theorem prefixOverlap_fails :
    (AccessPath (reads ["A", "x"] ["B", "x"]) (false, 0) [] ["A", "x"] ∧
      AccessPath (reads ["A", "x"] ["B", "x"]) (true, 0) [] ["B", "x"] ∧
      ¬ PrefixOverlap (reads ["A", "x"] ["B", "x"]) (false, 0) (true, 0) ["A", "x"] ["B", "x"]) ∧
    (AccessPath (reads ["F", "x"] ["F"]) (false, 0) [] ["F", "x"] ∧
      AccessPath (reads ["F", "x"] ["F"]) (true, 0) [] ["F"] ∧
      ¬ PrefixOverlap (reads ["F", "x"] ["F"]) (false, 0) (true, 0) ["F", "x"] ["F"]) := by
  refine ⟨⟨accessPath_reads false, accessPath_reads true, fun h => ?_⟩,
    ⟨accessPath_reads false, accessPath_reads true, fun h => ?_⟩⟩
  · refine h.of_diverge ⟨[], "A", "B", ["x"], ["x"], by decide, rfl, rfl⟩ ?_
    exact .inr (.inr (.inl ⟨"x", by decide, by decide⟩))
  · have hback : Overlapping (reads ["F", "x"] ["F"]) (true, 0) (false, 0) :=
      .inr (.inr (.inr (.inr ⟨by decide, ⟨"F", by decide, by decide⟩, by decide⟩)))
    have hforth := h.symmetric.mpr hback
    rw [overlapping_iff (accessPath_reads false).view (accessPath_reads true).view] at hforth
    simp [Sees, start] at hforth

theorem prefixOverlap_iff_agrees_first :
    PrefixOverlap (reads ["Size"] ["Data"]) (false, 0) (true, 0) ["Size"] ["Data"] :=
  (prefixOverlap_iff_agrees (accessPath_reads false) (accessPath_reads true)).mpr trivial

end DriverQueries.FetchOverlap
