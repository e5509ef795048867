import DriverQueries.DriverIsolation

/-!
The root directory of object attributes.

An access of a variable is linked to a field and to a value of the field by a common ancestor. The
ancestors of an expression end with the statement that it is in, so that an access is classified by
the root directories of its own statement, whatever the others do.
-/

namespace DriverQueries.RootDirectory

open Relation DriverQueries.Text DriverQueries.DriverIsolation

/-! ### Code -/

/-- The statements, initializers and expressions of a program. The parents of an expression are
expressions up to the statement or initializer that it is in, which is `top`. -/
structure Code (E Fn Var : Type) where
  isExpr : E → Bool
  getParent : E → Option E
  top : E → E
  getEnclosingFunction : E → Option Fn
  variableAccess : E → Option Var
  getType : E → String
  getValue : E → Option String
  access_expr : ∀ e, (variableAccess e).isSome → isExpr e
  top_above : ∀ e, isExpr e → TransGen (fun x p => isExpr x ∧ getParent x = some p) e (top e)
  top_statement : ∀ e, isExpr e → isExpr (top e) = false

/-- The access of a field: the variable whose field it is, and the value, if it is assigned one. -/
structure FieldAccess (E Field Var : Type) where
  getTarget : Field
  qualifier : Option Var
  assignedValue : Option E

variable {E Fn Var Field Node : Type}

/-- The accesses of fields in a program, and the values of fields in aggregate initializers, with
the variables whose fields they are. A field is assigned a value in one expression. -/
structure Fields (C : Code E Fn Var) (Field : Type) where
  getName : Field → String
  fieldAccess : E → Option (FieldAccess E Field Var)
  aggregate : E → Option (Field × Option Var)
  access_expr : ∀ e, (fieldAccess e).isSome → C.isExpr e
  aggregate_expr : ∀ e, (aggregate e).isSome → C.isExpr e
  assigned_expr : ∀ fa x value, fieldAccess fa = some x → x.assignedValue = some value →
    C.isExpr value ∧ C.top value = C.top fa

variable {C : Code E Fn Var} (F : Fields C Field) (N : Nodes E Node)

/-- The field is assigned the value, as a field of the variable if this is known. -/
def Assigns (field : Field) (v : Option Var) (value : E) : Prop :=
  (∃ fa x, F.fieldAccess fa = some x ∧ x.getTarget = field ∧ x.qualifier = v ∧
    x.assignedValue = some value) ∨ F.aggregate value = some (field, v)

/-! ### The classes of nodes -/

/-- `Expr.getParent`: a statement has a `getParent` of its own, which is another predicate. -/
def ExprParent (C : Code E Fn Var) (x p : E) : Prop := C.isExpr x ∧ C.getParent x = some p

/-- `x.getParent+() = y.getParent+()`. -/
def CommonAncestor (C : Code E Fn Var) (x y : E) : Prop :=
  ∃ p, TransGen (ExprParent C) x p ∧ TransGen (ExprParent C) y p

def RootAccess (fa : E) (field : Field) : Prop :=
  (∃ x, F.fieldAccess fa = some x ∧ x.getTarget = field) ∧
    matchesPattern (F.getName field) "RootDirectory"

def ObjectAttributes (C : Code E Fn Var) (va : E) : Prop :=
  (C.variableAccess va).isSome ∧ matchesPattern (C.getType va) "OBJECT_ATTRIBUTES"

/-- A constant that the field is assigned has a common ancestor with the access. -/
def ConstantNear (field : Field) (va : E) : Prop :=
  ∃ v assignedValue, Assigns F field v assignedValue ∧ CommonAncestor C assignedValue va ∧
    ∃ s ∈ C.getValue assignedValue, matchesPattern s "%"

def NullRootDirectoryObjAttr (va : E) : Prop :=
  ∃ fa field, RootAccess F fa field ∧ ObjectAttributes C va ∧ CommonAncestor C va fa ∧
    ConstantNear F field va

def NullRootDirectoryNode (n : Node) : Prop :=
  ∃ va ∈ N.asIndirectExpr n, NullRootDirectoryObjAttr F va

def NonNullRootDirectoryNode (n : Node) : Prop :=
  ∃ va ∈ N.asIndirectExpr n, ∃ fa field, RootAccess F fa field ∧ ObjectAttributes C va ∧
    CommonAncestor C va fa ∧ ¬ ConstantNear F field va

/-! ### Statements -/

/-- The statement accesses the field, which has the name. -/
def AccessedIn (t : E) (field : Field) : Prop := ∃ fa, RootAccess F fa field ∧ C.top fa = t

/-- The statement assigns the field a constant. -/
def ConstantIn (t : E) (field : Field) : Prop :=
  ∃ v value, Assigns F field v value ∧ C.top value = t ∧ (C.getValue value).isSome

variable {F N} {F' : Fields C Field} {a b : Var} {f : Fn} {t va x y p : E} {n : Node}
variable {field : Field}

lemma rightUnique_parent : Relator.RightUnique (ExprParent C) := fun _ _ _ hb hc =>
  Option.some.inj (hb.2.symm.trans hc.2)

lemma eq_of_statement (ht : C.isExpr t = false) (h : ReflTransGen (ExprParent C) t p) : p = t := by
  obtain rfl | ⟨c, hc, -⟩ := ReflTransGen.cases_head h
  · rfl
  · exact absurd hc.1 (by simp [ht])

lemma reach_top (hx : C.isExpr x) (h : TransGen (ExprParent C) x p) :
    ReflTransGen (ExprParent C) p (C.top x) := by
  have htop : ReflTransGen (ExprParent C) x (C.top x) := (C.top_above x hx).to_reflTransGen
  rcases ReflTransGen.total_of_right_unique rightUnique_parent h.to_reflTransGen htop with h | h
  · exact h
  · rw [eq_of_statement (C.top_statement x hx) h]

/-- **Two expressions have a common ancestor iff they are in one statement.** -/
theorem commonAncestor_iff (hx : C.isExpr x) (hy : C.isExpr y) :
    CommonAncestor C x y ↔ C.top x = C.top y := by
  constructor
  · rintro ⟨p, hxp, hyp⟩
    rcases ReflTransGen.total_of_right_unique rightUnique_parent (reach_top hx hxp)
      (reach_top hy hyp) with h | h
    · exact (eq_of_statement (C.top_statement x hx) h).symm
    · exact eq_of_statement (C.top_statement y hy) h
  · intro h
    exact ⟨C.top x, C.top_above x hx, h ▸ C.top_above y hy⟩

lemma matchesPattern_percent (s : String) : matchesPattern s "%" = true :=
  anySuffix_isEmpty s.toList

lemma Assigns.isExpr {v : Option Var} {value : E} (h : Assigns F field v value) :
    C.isExpr value := by
  rcases h with ⟨fa, x, hx, -, -, hvalue⟩ | h
  · exact (F.assigned_expr fa x value hx hvalue).1
  · exact F.aggregate_expr value (by simp [h])

section

variable (hva : C.variableAccess va = some a)
include hva

lemma access_isExpr : C.isExpr va := C.access_expr va (by simp [hva])

lemma constantNear_iff : ConstantNear F field va ↔ ConstantIn F (C.top va) field := by
  have hexpr := access_isExpr hva
  refine exists₂_congr fun v value => and_congr_right fun hassigns => ?_
  rw [commonAncestor_iff hassigns.isExpr hexpr]
  refine and_congr_right fun _ => ⟨fun ⟨s, hs, _⟩ => ?_, fun h => ?_⟩
  · exact Option.isSome_iff_exists.mpr ⟨s, hs⟩
  · obtain ⟨s, hs⟩ := Option.isSome_iff_exists.mp h
    exact ⟨s, hs, matchesPattern_percent s⟩

lemma rootAccess_near_iff :
    (∃ fa, RootAccess F fa field ∧ CommonAncestor C va fa) ↔ AccessedIn F (C.top va) field := by
  refine exists_congr fun fa => and_congr_right fun hroot => ?_
  obtain ⟨⟨x, hx, -⟩, -⟩ := hroot
  rw [commonAncestor_iff (access_isExpr hva) (F.access_expr fa (by simp [hx])), eq_comm]

variable (htype : matchesPattern (C.getType va) "OBJECT_ATTRIBUTES") (hn : va ∈ N.asIndirectExpr n)
include htype hn

lemma null_iff :
    NullRootDirectoryNode F N n ↔
      ∃ field, AccessedIn F (C.top va) field ∧ ConstantIn F (C.top va) field := by
  have hattributes : ObjectAttributes C va := ⟨Option.isSome_iff_exists.mpr ⟨a, hva⟩, htype⟩
  constructor
  · rintro ⟨va', hva', fa, field, hroot, -, hnear, hconst⟩
    obtain rfl := Option.mem_unique hn hva'
    exact ⟨field, (rootAccess_near_iff hva).mp ⟨fa, hroot, hnear⟩,
      (constantNear_iff hva).mp hconst⟩
  · rintro ⟨field, haccess, hconst⟩
    obtain ⟨fa, hroot, hnear⟩ := (rootAccess_near_iff hva).mpr haccess
    exact ⟨va, hn, fa, field, hroot, hattributes, hnear, (constantNear_iff hva).mpr hconst⟩

lemma nonNull_iff :
    NonNullRootDirectoryNode F N n ↔
      ∃ field, AccessedIn F (C.top va) field ∧ ¬ ConstantIn F (C.top va) field := by
  have hattributes : ObjectAttributes C va := ⟨Option.isSome_iff_exists.mpr ⟨a, hva⟩, htype⟩
  constructor
  · rintro ⟨va', hva', fa, field, hroot, -, hnear, hconst⟩
    obtain rfl := Option.mem_unique hn hva'
    exact ⟨field, (rootAccess_near_iff hva).mp ⟨fa, hroot, hnear⟩,
      mt (constantNear_iff hva).mpr hconst⟩
  · rintro ⟨field, haccess, hconst⟩
    obtain ⟨fa, hroot, hnear⟩ := (rootAccess_near_iff hva).mpr haccess
    exact ⟨va, hn, fa, field, hroot, hattributes, hnear, mt (constantNear_iff hva).mp hconst⟩

end

/-! ### Initializations in other statements -/

variable (F F') in
/-- The two programs differ in initializations of the variable only, and in none that is in the
statement. -/
structure AgreeOff (b : Var) (t : E) : Prop where
  getName : F.getName = F'.getName
  fieldAccess : ∀ e x, x.qualifier ≠ some b ∨ C.top e = t →
    (F.fieldAccess e = some x ↔ F'.fieldAccess e = some x)
  aggregate : ∀ e field v, v ≠ some b ∨ C.top e = t →
    (F.aggregate e = some (field, v) ↔ F'.aggregate e = some (field, v))

lemma AgreeOff.accessedIn (h : AgreeOff F F' b t) :
    AccessedIn F t field ↔ AccessedIn F' t field := by
  unfold AccessedIn RootAccess
  rw [h.getName]
  refine exists_congr fun fa => and_congr_left fun hfa => and_congr_left fun _ => ?_
  exact exists_congr fun x => and_congr_left fun _ => h.fieldAccess fa x (.inr hfa)

lemma AgreeOff.constantIn (h : AgreeOff F F' b t) :
    ConstantIn F t field ↔ ConstantIn F' t field := by
  refine exists₂_congr fun v value => ?_
  constructor
  · rintro ⟨⟨fa, x, hx, htarget, hv, hvalue⟩ | haggregate, htop, hconst⟩
    · have hfa := (F.assigned_expr fa x value hx hvalue).2.symm.trans htop
      exact ⟨.inl ⟨fa, x, (h.fieldAccess fa x (.inr hfa)).mp hx, htarget, hv, hvalue⟩, htop, hconst⟩
    · exact ⟨.inr ((h.aggregate value field v (.inr htop)).mp haggregate), htop, hconst⟩
  · rintro ⟨⟨fa, x, hx, htarget, hv, hvalue⟩ | haggregate, htop, hconst⟩
    · have hfa := (F'.assigned_expr fa x value hx hvalue).2.symm.trans htop
      exact ⟨.inl ⟨fa, x, (h.fieldAccess fa x (.inr hfa)).mpr hx, htarget, hv, hvalue⟩, htop,
        hconst⟩
    · exact ⟨.inr ((h.aggregate value field v (.inr htop)).mpr haggregate), htop, hconst⟩

variable (F) in
/-- Every root directory that the statement accesses or initializes is one of the variable. -/
def OnlyOwn (a : Var) (t : E) : Prop :=
  ∀ field v, matchesPattern (F.getName field) "RootDirectory" →
    ((∃ fa x, F.fieldAccess fa = some x ∧ C.top fa = t ∧ x.getTarget = field ∧ x.qualifier = v) ∨
      ∃ value, F.aggregate value = some (field, v) ∧ C.top value = t) → v = some a

variable (F) in
def OwnAccess (a : Var) (t : E) (field : Field) : Prop :=
  ∃ fa x, F.fieldAccess fa = some x ∧ x.getTarget = field ∧ x.qualifier = some a ∧
    C.top fa = t ∧ matchesPattern (F.getName field) "RootDirectory"

variable (F) in
def OwnConstant (a : Var) (t : E) (field : Field) : Prop :=
  ∃ value, Assigns F field (some a) value ∧ C.top value = t ∧ (C.getValue value).isSome

lemma OnlyOwn.accessedIn_iff (h : OnlyOwn F a t) :
    AccessedIn F t field ↔ OwnAccess F a t field := by
  constructor
  · rintro ⟨fa, ⟨⟨x, hx, htarget⟩, hname⟩, htop⟩
    exact ⟨fa, x, hx, htarget, h field _ hname (.inl ⟨fa, x, hx, htop, htarget, rfl⟩), htop, hname⟩
  · rintro ⟨fa, x, hx, htarget, -, htop, hname⟩
    exact ⟨fa, ⟨⟨x, hx, htarget⟩, hname⟩, htop⟩

lemma OnlyOwn.constantIn_iff (h : OnlyOwn F a t)
    (hname : matchesPattern (F.getName field) "RootDirectory") :
    ConstantIn F t field ↔ OwnConstant F a t field := by
  constructor
  · rintro ⟨v, value, hassigns, htop, hconst⟩
    obtain rfl : v = some a := by
      refine h field v hname ?_
      rcases hassigns with ⟨fa, x, hx, htarget, hv, hvalue⟩ | haggregate
      · have hfa := (F.assigned_expr fa x value hx hvalue).2.symm.trans htop
        exact .inl ⟨fa, x, hx, hfa, htarget, hv⟩
      · exact .inr ⟨value, haggregate, htop⟩
    exact ⟨value, hassigns, htop, hconst⟩
  · rintro ⟨value, hassigns, htop, hconst⟩
    exact ⟨some a, value, hassigns, htop, hconst⟩

/-- **An access is classified by its statement**: initializations of another variable in other
statements do not count, and in a statement with no other root directory the access is null-rooted
iff the variable's own is accessed and assigned a constant there. -/
theorem classified_by_statement (hva : C.variableAccess va = some a)
    (htype : matchesPattern (C.getType va) "OBJECT_ATTRIBUTES") (hn : va ∈ N.asIndirectExpr n) :
    (∀ (F F' : Fields C Field) (b : Var), AgreeOff F F' b (C.top va) →
      (NullRootDirectoryNode F N n ↔ NullRootDirectoryNode F' N n) ∧
        (NonNullRootDirectoryNode F N n ↔ NonNullRootDirectoryNode F' N n)) ∧
    ∀ F : Fields C Field, OnlyOwn F a (C.top va) →
      (NullRootDirectoryNode F N n ↔
        ∃ field, OwnAccess F a (C.top va) field ∧ OwnConstant F a (C.top va) field) ∧
      (NonNullRootDirectoryNode F N n ↔
        ∃ field, OwnAccess F a (C.top va) field ∧ ¬ OwnConstant F a (C.top va) field) := by
  have hnull : ∀ F : Fields C Field, _ := fun F => null_iff (F := F) hva htype hn
  have hnonNull : ∀ F : Fields C Field, _ := fun F => nonNull_iff (F := F) hva htype hn
  refine ⟨fun F F' b h => ?_, fun F h => ?_⟩
  · simp only [hnull, hnonNull, h.accessedIn, h.constantIn, and_self]
  · have hconst : ∀ {field}, OwnAccess F a (C.top va) field →
        (ConstantIn F (C.top va) field ↔ OwnConstant F a (C.top va) field) := by
      rintro field ⟨-, -, -, -, -, -, hname⟩
      exact h.constantIn_iff hname
    rw [hnull, hnonNull]
    simp only [h.accessedIn_iff]
    exact ⟨exists_congr fun _ => and_congr_right fun haccess => hconst haccess,
      exists_congr fun _ => and_congr_right fun haccess => not_congr (hconst haccess)⟩

/-! ### An access in another statement -/

/-- The nodes of `a.RootDirectory = NULL; ZwOpenKey(&key, KEY_READ, &a);`: two statements with an
access of `a` in each. -/
inductive Point
  | assignment | rootDirectory | accessInAssignment | null | call | accessInCall
  deriving DecidableEq

def pointParent : Point → Option Point
  | .rootDirectory | .null => some .assignment
  | .accessInAssignment => some .rootDirectory
  | .accessInCall => some .call
  | _ => none

def oneVariable : Code Point Unit String where
  isExpr e := e ≠ .assignment ∧ e ≠ .call
  getParent := pointParent
  top e := if e = .call ∨ e = .accessInCall then .call else .assignment
  getEnclosingFunction _ := some ()
  variableAccess e := if e = .accessInAssignment ∨ e = .accessInCall then some "a" else none
  getType e := if e = .accessInAssignment ∨ e = .accessInCall then "OBJECT_ATTRIBUTES" else "HANDLE"
  getValue e := if e = .null then some "0" else none
  access_expr e h := by cases e <;> simp_all
  top_above e h := by
    cases e
    case accessInAssignment =>
      exact .tail (b := .rootDirectory) (.single ⟨by decide, rfl⟩) ⟨by decide, rfl⟩
    all_goals first | exact .single ⟨by decide, rfl⟩ | exact absurd h (by decide)
  top_statement e _ := by cases e <;> decide

def nullRoot : Fields oneVariable Unit where
  getName _ := "RootDirectory"
  fieldAccess e := if e = .rootDirectory then some ⟨(), some "a", some .null⟩ else none
  aggregate _ := none
  access_expr e h := by cases e <;> simp_all [oneVariable]
  aggregate_expr _ h := by simp at h
  assigned_expr fa x value hx hvalue := by
    split_ifs at hx with hfa
    obtain rfl := Option.some.inj hx
    obtain rfl := Option.some.inj hvalue
    subst hfa
    decide

/-- The nodes of the two accesses. -/
def accessNode : Nodes Point Bool :=
  ⟨fun inCall => some (if inCall then .accessInCall else .accessInAssignment), fun _ => none⟩

lemma ownConstant_nullRoot : OwnConstant nullRoot "a" .assignment () :=
  ⟨.null, .inl ⟨.rootDirectory, ⟨(), some "a", some .null⟩, rfl, rfl, rfl, rfl⟩, rfl, rfl⟩

theorem classified_by_statement_nullRoot : NullRootDirectoryNode nullRoot accessNode false := by
  have hown : OnlyOwn nullRoot "a" .assignment := by
    rintro field v - (⟨fa, x, hx, -, -, rfl⟩ | ⟨value, hvalue, -⟩)
    · simp only [nullRoot] at hx
      split_ifs at hx
      obtain rfl := Option.some.inj hx
      rfl
    · exact absurd hvalue (by simp [nullRoot])
  have haccess : OwnAccess nullRoot "a" .assignment () :=
    ⟨.rootDirectory, ⟨(), some "a", some .null⟩, rfl, rfl, rfl, rfl, by decide⟩
  have hva : oneVariable.variableAccess .accessInAssignment = some "a" := rfl
  have hn : Point.accessInAssignment ∈ accessNode.asIndirectExpr false := rfl
  have h := (classified_by_statement hva (by decide) hn).2 nullRoot hown
  exact h.1.mpr ⟨(), haccess, ownConstant_nullRoot⟩

/-- The root directory of `a` is assigned a constant in the function, and the access of `a` in the
call is not null-rooted. -/
theorem accessInCall_not_null :
    oneVariable.getEnclosingFunction .accessInCall = oneVariable.getEnclosingFunction .null ∧
      OwnConstant nullRoot "a" .assignment () ∧
      ¬ NullRootDirectoryNode nullRoot accessNode true := by
  refine ⟨rfl, ownConstant_nullRoot, ?_⟩
  have hva : oneVariable.variableAccess .accessInCall = some "a" := rfl
  have hn : Point.accessInCall ∈ accessNode.asIndirectExpr true := rfl
  rw [null_iff hva (by decide) hn]
  rintro ⟨field, ⟨fa, ⟨⟨x, hx, -⟩, -⟩, htop⟩, -⟩
  simp only [nullRoot] at hx
  split_ifs at hx with hfa
  subst hfa
  exact absurd htop (by decide)

end DriverQueries.RootDirectory
