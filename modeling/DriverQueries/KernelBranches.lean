import Mathlib.Data.List.Basic
import DriverQueries.TreePaths

/-!
Branches that are only taken in kernel mode.

A dereference is left out of some queries if it occurs in a branch whose condition rules out user
mode. The predicate looks for the branch among the parents of the statement of the dereference, and
this statement itself is not one of them. So a branch that is a block is found, and one that is a
single statement is not, except from the statements inside it.
-/

namespace DriverQueries.KernelBranches

open Relation DriverQueries.TreePaths

/-! ### Statements and expressions -/

abbrev Path := List ℕ

/-- Comparisons by `==` and `!=`, accesses of enumerators by name, and other expressions. -/
inductive Expr
  | enumConstantAccess (target : String)
  | equality (isEQ : Bool) (left right : Expr)
  | other (children : List Expr)

/-- Other statements have expressions and statements in them, as loops do. -/
inductive Stmt
  | ifStmt (condition : Expr) (thenStmt : Stmt) (elseStmt : Option Stmt)
  | block (stmts : List Stmt)
  | other (exprs : List Expr) (stmts : List Stmt)

inductive Node
  | expr (e : Expr)
  | stmt (s : Stmt)

def Expr.children : Expr → List Expr
  | enumConstantAccess _ => []
  | equality _ left right => [left, right]
  | other children => children

def Node.children : Node → List Node
  | expr e => e.children.map expr
  | stmt (.ifStmt condition thenStmt elseStmt) =>
    [expr condition, stmt thenStmt] ++ elseStmt.toList.map stmt
  | stmt (.block stmts) => stmts.map stmt
  | stmt (.other exprs stmts) => exprs.map expr ++ stmts.map stmt

def Node.isStmt : Node → Bool
  | expr _ => false
  | stmt _ => true

variable (root : Stmt)

def nodeAt (p : Path) : Option Node := get Node.children (.stmt root) p

def getEnclosingStmt (e : Path) : Option Path := nearest Node.children Node.isStmt (.stmt root) e

def getCondition (ifStmt : Path) : Option Expr :=
  match nodeAt root ifStmt with
  | some (.stmt (.ifStmt condition _ _)) => some condition
  | _ => none

def getThen (ifStmt : Path) : Option Path :=
  match nodeAt root ifStmt with
  | some (.stmt (.ifStmt _ _ _)) => some (ifStmt ++ [1])
  | _ => none

def getElse (ifStmt : Path) : Option Path :=
  match nodeAt root ifStmt with
  | some (.stmt (.ifStmt _ _ (some _))) => some (ifStmt ++ [2])
  | _ => none

/-! ### The predicate -/

def Expr.isAccess (name : String) : Expr → Bool
  | enumConstantAccess target => target = name
  | _ => false

/-- `eq.getAnOperand().(EnumConstantAccess).getTarget().hasName(name)`. -/
def AnOperand (name : String) (left right : Expr) : Prop :=
  left.isAccess name ∨ right.isAccess name

/-- `branch = e.getEnclosingStmt().getParent+()`. -/
def HasBranch (e branch : Path) : Prop :=
  ∃ s ∈ getEnclosingStmt root e, TransGen (fun p q => q ∈ parent p) s branch

def inKernelModeIfStmt (e : Path) : Prop :=
  (∃ ifStmt isEQ left right, getCondition root ifStmt = some (.equality isEQ left right) ∧
    AnOperand "UserMode" left right ∧
      if isEQ then ∃ branch ∈ getElse root ifStmt, HasBranch root e branch
      else ∃ branch ∈ getThen root ifStmt, HasBranch root e branch) ∨
  ∃ ifStmt isEQ left right, getCondition root ifStmt = some (.equality isEQ left right) ∧
    AnOperand "KernelMode" left right ∧
      if isEQ then ∃ branch ∈ getThen root ifStmt, HasBranch root e branch
      else ∃ branch ∈ getElse root ifStmt, HasBranch root e branch

/-! ### Modes -/

inductive Mode
  | kernelMode | userMode | maximumMode
  deriving DecidableEq

/-- The condition may have the truth value in the mode. What conditions other than comparisons with
the two modes say is not known. -/
def Admits (condition : Expr) (mode : Mode) (value : Bool) : Prop :=
  ∀ isEQ left right, condition = .equality isEQ left right →
    (AnOperand "UserMode" left right → value = (isEQ == decide (mode = .userMode))) ∧
    (AnOperand "KernelMode" left right → value = (isEQ == decide (mode = .kernelMode)))

/-- The branch that is taken for the truth value of the condition. -/
def branchFor (ifStmt : Path) (value : Bool) : Option Path :=
  if value then getThen root ifStmt else getElse root ifStmt

/-- The branch is taken only when the mode is not `UserMode`. -/
def KernelBranch (branch : Path) : Prop :=
  ∃ ifStmt, ∃ condition ∈ getCondition root ifStmt, ∃ value,
    branch ∈ branchFor root ifStmt value ∧ ∀ mode, Admits condition mode value → mode ≠ .userMode

def LiesInKernelBranch (e : Path) : Prop := ∃ branch, KernelBranch root branch ∧ branch <+: e

variable {root} {e branch ifStmt : Path} {condition : Expr} {value : Bool}

/-- The four combinations of a comparison and a branch. -/
lemma kernelBranch_iff : KernelBranch root branch ↔
    ∃ ifStmt isEQ left right, getCondition root ifStmt = some (.equality isEQ left right) ∧
      (AnOperand "UserMode" left right ∧ branch ∈ branchFor root ifStmt (!isEQ) ∨
        AnOperand "KernelMode" left right ∧ branch ∈ branchFor root ifStmt isEQ) := by
  constructor
  · rintro ⟨ifStmt, condition, hcondition, value, hbranch, hmode⟩
    have hnot : ¬ Admits condition .userMode value := fun h => hmode _ h rfl
    unfold Admits at hnot
    push Not at hnot
    obtain ⟨isEQ, left, right, rfl, hcompared⟩ := hnot
    refine ⟨ifStmt, isEQ, left, right, hcondition, ?_⟩
    by_cases huser : AnOperand "UserMode" left right ∧ value ≠ isEQ
    · refine Or.inl ⟨huser.1, ?_⟩
      rwa [← Bool.eq_not.mpr huser.2]
    · obtain ⟨hkernel, hvalue⟩ := hcompared (by simpa using huser)
      have hvalue : value = isEQ := by simpa using hvalue
      exact Or.inr ⟨hkernel, hvalue ▸ hbranch⟩
  · rintro ⟨ifStmt, isEQ, left, right, hcondition, ⟨hoperand, hbranch⟩ | ⟨hoperand, hbranch⟩⟩
    · refine ⟨ifStmt, _, hcondition, _, hbranch, fun mode h hmode => ?_⟩
      have hvalue := (h isEQ left right rfl).1 hoperand
      simp [hmode] at hvalue
    · refine ⟨ifStmt, _, hcondition, _, hbranch, fun mode h hmode => ?_⟩
      have hvalue := (h isEQ left right rfl).2 hoperand
      simp [hmode] at hvalue

/-! ### The law -/

lemma hasBranch_iff :
    HasBranch root e branch ↔ ∃ s ∈ getEnclosingStmt root e, branch <+: s ∧ branch ≠ s := by
  simp only [HasBranch, transGen_parent_iff]

/-- The predicate looks for a kernel-mode branch above the statement. -/
lemma inKernelModeIfStmt_iff_exists :
    inKernelModeIfStmt root e ↔ ∃ branch, KernelBranch root branch ∧ HasBranch root e branch := by
  have huser : ∀ ifStmt isEQ, (if isEQ = true then ∃ branch ∈ getElse root ifStmt,
      HasBranch root e branch else ∃ branch ∈ getThen root ifStmt, HasBranch root e branch) ↔
      ∃ branch ∈ branchFor root ifStmt (!isEQ), HasBranch root e branch := by
    intro ifStmt isEQ
    cases isEQ <;> simp [branchFor]
  have hkernel : ∀ ifStmt isEQ, (if isEQ = true then ∃ branch ∈ getThen root ifStmt,
      HasBranch root e branch else ∃ branch ∈ getElse root ifStmt, HasBranch root e branch) ↔
      ∃ branch ∈ branchFor root ifStmt isEQ, HasBranch root e branch := by
    intro ifStmt isEQ
    cases isEQ <;> simp [branchFor]
  unfold inKernelModeIfStmt
  simp only [huser, hkernel, kernelBranch_iff]
  constructor
  · rintro (⟨ifStmt, isEQ, left, right, hcondition, hoperand, branch, hbranch, h⟩ |
      ⟨ifStmt, isEQ, left, right, hcondition, hoperand, branch, hbranch, h⟩)
    · exact ⟨branch, ⟨ifStmt, isEQ, left, right, hcondition, Or.inl ⟨hoperand, hbranch⟩⟩, h⟩
    · exact ⟨branch, ⟨ifStmt, isEQ, left, right, hcondition, Or.inr ⟨hoperand, hbranch⟩⟩, h⟩
  · rintro ⟨branch, ⟨ifStmt, isEQ, left, right, hcondition, hkind⟩, h⟩
    obtain ⟨hoperand, hbranch⟩ | ⟨hoperand, hbranch⟩ := hkind
    · exact Or.inl ⟨ifStmt, isEQ, left, right, hcondition, hoperand, branch, hbranch, h⟩
    · exact Or.inr ⟨ifStmt, isEQ, left, right, hcondition, hoperand, branch, hbranch, h⟩

lemma exists_of_branchFor (h : branch ∈ branchFor root ifStmt value) :
    ∃ i s, branch = ifStmt ++ [i] ∧ nodeAt root branch = some (.stmt s) := by
  unfold branchFor getThen getElse at h
  split_ifs at h
  all_goals
    split at h
    · rename_i hnode
      obtain rfl := Option.mem_some_iff.mp h
      exact ⟨_, _, rfl, get_child hnode⟩
    · exact absurd h (Option.not_mem_none _)

lemma KernelBranch.isStmt (h : KernelBranch root branch) :
    Holds Node.children Node.isStmt (.stmt root) branch := by
  obtain ⟨ifStmt, condition, -, value, hbranch, -⟩ := h
  obtain ⟨-, s, -, hs⟩ := exists_of_branchFor hbranch
  simpa [Holds, nodeAt, Node.isStmt] using congrArg (Option.any Node.isStmt) hs

lemma exists_enclosingStmt (root : Stmt) (e : Path) : ∃ s, s ∈ getEnclosingStmt root e :=
  exists_nearest (q := []) List.nil_prefix rfl

lemma liesInKernelBranch_iff_stmt {s : Path} (hs : s ∈ getEnclosingStmt root e) :
    LiesInKernelBranch root e ↔ ∃ branch, KernelBranch root branch ∧ branch <+: s := by
  obtain ⟨hse, -, hmax⟩ := nearest_eq_some_iff.mp hs
  refine exists_congr fun branch => and_congr_right fun hbranch => ?_
  exact ⟨fun h => hmax branch h hbranch.isStmt, fun h => h.trans hse⟩

lemma inKernelModeIfStmt_iff_stmt {s : Path} (hs : s ∈ getEnclosingStmt root e) :
    inKernelModeIfStmt root e ↔ ∃ branch, KernelBranch root branch ∧ branch <+: s ∧ branch ≠ s := by
  simp only [inKernelModeIfStmt_iff_exists, hasBranch_iff, Option.mem_def.mp hs,
    Option.mem_some_iff, exists_eq_left']

lemma inKernelModeIfStmt_iff_lies {s : Path} (hs : s ∈ getEnclosingStmt root e) :
    (inKernelModeIfStmt root e ↔ LiesInKernelBranch root e) ↔ (KernelBranch root s →
      ∃ branch, KernelBranch root branch ∧ branch <+: s ∧ branch ≠ s) := by
  rw [inKernelModeIfStmt_iff_stmt hs, liesInKernelBranch_iff_stmt hs]
  refine ⟨fun h hself => h.mpr ⟨s, hself, List.prefix_rfl⟩, fun h => ⟨?_, ?_⟩⟩
  · exact fun ⟨branch, hbranch, habove, _⟩ => ⟨branch, hbranch, habove⟩
  · rintro ⟨branch, hbranch, habove⟩
    by_cases heq : branch = s
    · exact h (heq ▸ hbranch)
    · exact ⟨branch, hbranch, habove, heq⟩

/-- **An expression is taken to be in kernel mode iff it lies in a kernel-mode branch, as long as
its statement is not itself such a branch, or lies in another one.** -/
theorem inKernelModeIfStmt_iff (root : Stmt) (e : Path) :
    (inKernelModeIfStmt root e ↔ LiesInKernelBranch root e) ↔
      ∀ s ∈ getEnclosingStmt root e, KernelBranch root s →
        ∃ branch, KernelBranch root branch ∧ branch <+: s ∧ branch ≠ s := by
  obtain ⟨s, hs⟩ := exists_enclosingStmt root e
  rw [inKernelModeIfStmt_iff_lies hs]
  exact ⟨fun h t ht => Option.mem_unique hs ht ▸ h, fun h => h s hs⟩

/-- The statement of an expression is no block. -/
lemma enclosingStmt_ne_block {x : Expr} {s : Path} (he : nodeAt root e = some (.expr x))
    (hs : s ∈ getEnclosingStmt root e) (stmts : List Stmt) :
    nodeAt root s ≠ some (.stmt (.block stmts)) := by
  intro hblock
  obtain ⟨hse, -, hmax⟩ := nearest_eq_some_iff.mp hs
  obtain ⟨t, rfl⟩ := hse
  cases t with
  | nil =>
    rw [List.append_nil, hblock] at he
    exact absurd he (by simp)
  | cons i t =>
    have habove : s ++ [i] <+: s ++ i :: t := ⟨t, by simp⟩
    obtain ⟨k, hk⟩ := exists_get_of_prefix he habove
    have hchild := (get_child hblock).symm.trans hk
    simp only [Node.children, List.getElem?_map, Option.map_eq_some_iff] at hchild
    obtain ⟨child, -, rfl⟩ := hchild
    have hlength := (hmax _ habove (by simp [Holds, hk, Node.isStmt])).length_le
    rw [List.length_append, List.length_singleton] at hlength
    omega

/-- **Where the kernel-mode branches are blocks, the predicate holds of exactly the expressions in
them.** -/
theorem inKernelModeIfStmt_of_blocks
    (hblock : ∀ branch, KernelBranch root branch →
      ∃ stmts, nodeAt root branch = some (.stmt (.block stmts)))
    {x : Expr} (he : nodeAt root e = some (.expr x)) :
    inKernelModeIfStmt root e ↔ LiesInKernelBranch root e := by
  obtain ⟨s, hs⟩ := exists_enclosingStmt root e
  refine (inKernelModeIfStmt_iff_lies hs).mpr fun hself => ?_
  obtain ⟨stmts, hstmts⟩ := hblock s hself
  exact absurd hstmts (enclosingStmt_ne_block he hs stmts)

/-! ### Executions in user mode -/

/-- The places that an execution in which the modes have the value may come to: at an `if` it goes
on to a branch only if the condition may have the truth value. -/
inductive Visits (root : Stmt) (mode : Mode) : Path → Prop
  | root : Visits root mode []
  | child {p : Path} {i : ℕ} {n : Node} (h : Visits root mode p)
      (hn : nodeAt root (p ++ [i]) = some n)
      (hbranch : ∀ condition ∈ getCondition root p, ∀ value,
        p ++ [i] ∈ branchFor root p value → Admits condition mode value) :
      Visits root mode (p ++ [i])

lemma visits_iff {mode : Mode} {n : Node} (he : nodeAt root e = some n) : Visits root mode e ↔
    ∀ ifStmt, ∀ condition ∈ getCondition root ifStmt, ∀ value,
      ∀ branch ∈ branchFor root ifStmt value, branch <+: e → Admits condition mode value := by
  constructor
  · intro h
    clear he
    induction h with
    | root =>
      intro ifStmt condition _ value branch hbranch habove
      obtain ⟨i, -, rfl, -⟩ := exists_of_branchFor hbranch
      exact absurd (List.prefix_nil.mp habove) (by simp)
    | child _ _ hstep ih =>
      intro ifStmt condition hcondition value branch hbranch habove
      obtain ⟨j, -, rfl, -⟩ := exists_of_branchFor hbranch
      obtain heq | habove := List.prefix_concat_iff.mp habove
      · obtain ⟨rfl, hij⟩ := List.append_inj' heq rfl
        exact hstep condition hcondition value (hij ▸ hbranch)
      · exact ih ifStmt condition hcondition value _ hbranch habove
  · intro h
    induction e using List.reverseRecOn generalizing n with
    | nil => exact .root
    | append_singleton p i ih =>
      obtain ⟨k, hk⟩ := exists_get_of_prefix he (List.prefix_append p [i])
      refine .child (ih hk fun ifStmt condition hcondition value branch hbranch habove => ?_) he
        fun condition hcondition value hbranch => ?_
      · exact h ifStmt condition hcondition value branch hbranch
          (habove.trans (List.prefix_append p [i]))
      · exact h p condition hcondition value _ hbranch List.prefix_rfl

/-- **What lies in a kernel-mode branch is what no execution in user mode comes to.** -/
theorem liesInKernelBranch_iff_not_visits {n : Node} (he : nodeAt root e = some n) :
    LiesInKernelBranch root e ↔ ¬ Visits root .userMode e := by
  rw [visits_iff he]
  push Not
  unfold LiesInKernelBranch KernelBranch
  constructor
  · rintro ⟨branch, ⟨ifStmt, condition, hcondition, value, hbranch, hmode⟩, habove⟩
    exact ⟨ifStmt, condition, hcondition, value, branch, hbranch, habove, fun h => hmode _ h rfl⟩
  · rintro ⟨ifStmt, condition, hcondition, value, branch, hbranch, habove, hnot⟩
    refine ⟨branch, ⟨ifStmt, condition, hcondition, value, hbranch, ?_⟩, habove⟩
    rintro mode h rfl
    exact hnot h

/-! ### A branch without braces -/

/-- `if (mode == UserMode) {} else branch`. -/
def userCheck (branch : Stmt) : Stmt :=
  .ifStmt (.equality true (.other []) (.enumConstantAccess "UserMode")) (.block []) (some branch)

/-- `*p = 0;`, where the access is the first expression of the first one. -/
def writeThrough : Stmt := .other [.other [.other []]] []

lemma kernelBranch_userCheck {branch : Stmt} : KernelBranch (userCheck branch) [2] :=
  kernelBranch_iff.mpr ⟨[], true, _, _, rfl, Or.inl ⟨Or.inr rfl, rfl⟩⟩

/-- In braces the access is found to be in the branch, and without them it is not. -/
theorem userCheck_unbraced_missed :
    LiesInKernelBranch (userCheck writeThrough) [2, 0, 0] ∧
      ¬ inKernelModeIfStmt (userCheck writeThrough) [2, 0, 0] ∧
      LiesInKernelBranch (userCheck (.block [writeThrough])) [2, 0, 0, 0] ∧
      inKernelModeIfStmt (userCheck (.block [writeThrough])) [2, 0, 0, 0] := by
  have hs : [2] ∈ getEnclosingStmt (userCheck writeThrough) [2, 0, 0] := rfl
  have hs' : [2, 0] ∈ getEnclosingStmt (userCheck (.block [writeThrough])) [2, 0, 0, 0] := rfl
  refine ⟨⟨[2], kernelBranch_userCheck, by decide⟩, fun h => ?_,
    ⟨[2], kernelBranch_userCheck, by decide⟩,
    (inKernelModeIfStmt_iff_stmt hs').mpr ⟨[2], kernelBranch_userCheck, by decide, by decide⟩⟩
  obtain ⟨branch, ⟨ifStmt, condition, -, value, hbranch, -⟩, habove, hne⟩ :=
    (inKernelModeIfStmt_iff_stmt hs).mp h
  obtain ⟨i, -, rfl, -⟩ := exists_of_branchFor hbranch
  have hlength := habove.length_le
  obtain rfl : ifStmt = [] := List.eq_nil_of_length_eq_zero (by simpa using hlength)
  exact hne (habove.eq_of_length rfl)

end DriverQueries.KernelBranches
