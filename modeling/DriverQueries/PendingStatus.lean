import DriverQueries.Changing
import DriverQueries.WdmDrivers

/-!
What a dispatch routine returns after a call of IoMarkIrpPending.

The query accepts a call if a return of STATUS_PENDING can be reached from it, or if STATUS_PENDING
is assigned to a variable before or after it and a variable of that name is returned later on. The
values on a path are those of the last writers.
-/

namespace DriverQueries.PendingStatus

open Relation DriverQueries.Text DriverQueries.Database DriverQueries.Calls DriverQueries.Paths
open DriverQueries.Changing DriverQueries.WdmDrivers

variable {Fn Node Place : Type} {P : Program Fn Node}

def literal (P : Program Fn Node) (n : Node) : Option ℤ := (P.literalValue n).bind toInt

/-- The statements and expressions of the functions. A place is a variable, or a field of an object,
and `getName` the name of what is accessed there. A store gives a place a value, which is known if
it is a constant. -/
structure Statements (P : Program Fn Node) (Place : Type) where
  ReturnStmt : Node → Bool
  getExpr : Node → Option Node
  assignExpr : Node → Option (Node × Node)
  variableAccess : Node → Option Place
  getName : Place → String
  stored : Node → Option (Place × Option ℤ)
  expr_parent : ∀ rs e, getExpr rs = some e → P.getParent e = some rs
  assign_stored : ∀ ae l r p, assignExpr ae = some (l, r) → variableAccess l = some p →
    stored ae = some (p, literal P r)

variable (S : Statements P Place) (D : Driver Fn)

/-! ### The query -/

def isIOCompletionRoutine (f : Fn) : Prop :=
  ∃ t ∈ D.typedefs f, matchesPattern t.getName "IO_COMPLETION_ROUTINE"

def ReturnsLiteral (rs : Node) : Prop :=
  S.ReturnStmt rs ∧ ∃ e, S.getExpr rs = some e ∧ literal P e = some 259

def AssignsPending (ae : Node) (va1 : Place) : Prop :=
  ∃ l r, S.assignExpr ae = some (l, r) ∧ literal P r = some 259 ∧ S.variableAccess l = some va1

/-- An assignment of 259, before or after the call in its function, leads to a return of a variable
with the name of the one assigned to. -/
def AssignedDisjunct (call : Node) : Prop :=
  ∃ rs ae va1 va2 p, S.ReturnStmt rs ∧
    (∃ f ∈ getEnclosingFunction P call, getEnclosingFunction P ae = some f) ∧
    (ReflTransGen P.Edge ae call ∨ ReflTransGen P.Edge call ae) ∧ AssignsPending S ae va1 ∧
    ReflTransGen P.Edge ae rs ∧ P.getParent va2 = some rs ∧ S.variableAccess va2 = some p ∧
    S.getName p = S.getName va1

def returnsStatusPending (call : Node) : Prop :=
  (∃ rs, ReturnsLiteral S rs ∧ ReflTransGen P.Edge call rs) ∨ AssignedDisjunct S call

def PendingStatusError (call : Node) : Prop :=
  CallToName P ["IoMarkIrpPending"] call ∧
    (∃ f ∈ getEnclosingFunction P call, ∃ k e, WdmDispatchRoutine D f k e) ∧
    ¬ returnsStatusPending S call ∧
    ¬ ∃ f ∈ getEnclosingFunction P call, isIOCompletionRoutine D f

/-! ### Paths -/

/-- The place that the node gives a value to. -/
def writes (n : Node) : Option Place := (S.stored n).map Prod.fst

/-- The return statement returns 259, or the value of a place that was last given 259. -/
def ReturnsPending (rs : Node) (last : Place → Option Node) : Prop :=
  ReturnsLiteral S rs ∨ ∃ e p n, S.getExpr rs = some e ∧ S.variableAccess e = some p ∧
    last p = some n ∧ S.stored n = some (p, some 259)

variable [DecidableEq Place]

/-- The last writers at the call, on a path from the node `entry`, or from the call itself if no
path from `entry` comes to it. -/
def AtCall (entry call : Node) (last : Place → Option Node) : Prop :=
  ReflTransGen (Traced P.Edge (writes S)) (entry, record (writes S) (fun _ => none) entry)
      (call, last) ∨
    ¬ ReflTransGen P.Edge entry call ∧ last = record (writes S) (fun _ => none) call

/-- Some path through the call comes to a return for which this holds. -/
def SomePath (entry call : Node) (returns : Node → (Place → Option Node) → Prop) : Prop :=
  ∃ atCall rs last, AtCall S entry call atCall ∧
    ReflTransGen (Traced P.Edge (writes S)) (call, atCall) (rs, last) ∧ S.ReturnStmt rs ∧
    returns rs last

/-- Some path from the call to a return returns a value other than STATUS_PENDING. -/
def SomePathOther (entry call : Node) : Prop :=
  SomePath S entry call fun rs last => ¬ ReturnsPending S rs last

/-! ### One status on all paths -/

/-- The store of the place is the last one on some path through the call to the return. -/
def LastStore (call : Node) (p : Place) (n rs : Node) : Prop :=
  writes S n = some p ∧
    (Unwritten P.Edge (writes S) p n call ∧ Unwritten P.Edge (writes S) p call rs ∨
      ReflTransGen P.Edge call n ∧ Unwritten P.Edge (writes S) p n rs)

/-- Some path through the call to the return has no store of the place. -/
def NoStore (entry call : Node) (p : Place) (rs : Node) : Prop :=
  (writes S entry ≠ some p ∧ Unwritten P.Edge (writes S) p entry call ∨
      ¬ ReflTransGen P.Edge entry call ∧ writes S call ≠ some p) ∧
    Unwritten P.Edge (writes S) p call rs

/-- Every return that the call leads to returns the literal 259 or a place whose last stores are of
259, and one of them the literal or what an assignment expression stored. -/
structure OnlyPending (entry call : Node) : Prop where
  pending : ∀ rs, S.ReturnStmt rs → ReflTransGen P.Edge call rs → ReturnsLiteral S rs ∨
    ∃ e p, S.getExpr rs = some e ∧ S.variableAccess e = some p ∧ ¬ NoStore S entry call p rs ∧
      ∀ n, LastStore S call p n rs → S.stored n = some (p, some 259)
  assigned : ∃ rs, S.ReturnStmt rs ∧ ReflTransGen P.Edge call rs ∧ (ReturnsLiteral S rs ∨
    ∃ e p n, S.getExpr rs = some e ∧ S.variableAccess e = some p ∧ LastStore S call p n rs ∧
      AssignsPending S n p)

/-- The call leads to returns and to none of the literal 259, and no store of 259 before or after it
leads to a return of a variable of that name. -/
structure NoPending (call : Node) : Prop where
  returns : ∃ rs, S.ReturnStmt rs ∧ ReflTransGen P.Edge call rs
  literal : ∀ rs, ReflTransGen P.Edge call rs → ¬ ReturnsLiteral S rs
  stored : ∀ n p rs va q, S.stored n = some (p, some 259) →
    ReflTransGen P.Edge n call ∨ ReflTransGen P.Edge call n → ReflTransGen P.Edge n rs →
    S.ReturnStmt rs → P.getParent va = some rs → S.variableAccess va = some q →
    S.getName q ≠ S.getName p

variable {S D} {entry call : Node}

variable (S entry call) in
lemma exists_atCall : ∃ last, AtCall S entry call last := by
  by_cases h : ReflTransGen P.Edge entry call
  · obtain ⟨last, hlast⟩ := exists_traced (writes S) h (record (writes S) (fun _ => none) entry)
    exact ⟨last, Or.inl hlast⟩
  · exact ⟨_, Or.inr ⟨h, rfl⟩⟩

omit [DecidableEq Place] in
lemma LastStore.cases {p : Place} {n rs : Node} (h : LastStore S call p n rs) :
    (ReflTransGen P.Edge n call ∨ ReflTransGen P.Edge call n) ∧ ReflTransGen P.Edge n rs := by
  obtain ⟨-, ⟨hnc, hcr⟩ | ⟨hcn, hnr⟩⟩ := h
  · have hreach := Unwritten.reach hnc
    exact ⟨Or.inl hreach, hreach.trans (Unwritten.reach hcr)⟩
  · exact ⟨Or.inr hcn, Unwritten.reach hnr⟩

/-- What the places have at a return comes from last stores. -/
lemma lastStore_or_noStore {rs : Node} {atCall last : Place → Option Node}
    (hat : AtCall S entry call atCall)
    (hpath : ReflTransGen (Traced P.Edge (writes S)) (call, atCall) (rs, last)) (p : Place) :
    (∃ n, last p = some n ∧ LastStore S call p n rs) ∨
      last p = none ∧ NoStore S entry call p rs := by
  obtain ⟨hkept, hafter⟩ | ⟨n, hn, hw, hcn, hnr⟩ := last_writer_cases hpath p
  · change last p = atCall p at hkept
    rw [hkept]
    -- no store after the call: the one before it, on the path from the entry or at its first node
    obtain hat | ⟨hnot, rfl⟩ := hat
    · obtain ⟨hstart, hbefore⟩ | ⟨n, hn, hw, -, hbefore⟩ := last_writer_cases hat p
      · change atCall p = record (writes S) (fun _ => none) entry p at hstart
        rw [hstart, record]
        split_ifs with hw
        · exact Or.inl ⟨entry, rfl, hw, Or.inl ⟨hbefore, hafter⟩⟩
        · exact Or.inr ⟨rfl, Or.inl ⟨hw, hbefore⟩, hafter⟩
      · exact Or.inl ⟨n, hn, hw, Or.inl ⟨hbefore, hafter⟩⟩
    · rw [record]
      split_ifs with hw
      · exact Or.inl ⟨call, rfl, hw, Or.inl ⟨.refl, hafter⟩⟩
      · exact Or.inr ⟨rfl, Or.inr ⟨hnot, hw⟩, hafter⟩
  · exact Or.inl ⟨n, hn, hw, Or.inr ⟨hcn, hnr⟩⟩

lemma OnlyPending.not_other (h : OnlyPending S entry call) : ¬ SomePathOther S entry call := by
  rintro ⟨atCall, rs, last, hat, hpath, hrs, hother⟩
  obtain hlit | ⟨e, p, he, hp, hset, hstores⟩ := h.pending rs hrs (reach_of_traced hpath)
  · exact hother (Or.inl hlit)
  · obtain ⟨n, hn, hstore⟩ | ⟨-, hno⟩ := lastStore_or_noStore hat hpath p
    · exact hother (Or.inr ⟨e, p, n, he, hp, hn, hstores n hstore⟩)
    · exact hset hno

omit [DecidableEq Place] in
lemma OnlyPending.returnsStatusPending (h : OnlyPending S entry call) {f : Fn}
    (hf : f ∈ getEnclosingFunction P call) : returnsStatusPending S call := by
  obtain ⟨rs, hrs, hreach, hlit | ⟨e, p, n, he, hp, hstore, hassign⟩⟩ := h.assigned
  · exact Or.inl ⟨rs, hlit, hreach⟩
  · obtain ⟨hside, hnr⟩ := hstore.cases
    have hscope : getEnclosingFunction P n = some f := by
      obtain hbefore | hafter := hside
      · exact (P.reach_scope hbefore).symm.trans hf
      · exact (P.reach_scope hafter).trans hf
    exact Or.inr ⟨rs, n, p, e, p, hrs, ⟨f, hf, hscope⟩, hside, hassign, hnr,
      S.expr_parent rs e he, hp, rfl⟩

omit [DecidableEq Place] in
lemma AssignsPending.stored {ae : Node} {p : Place} (h : AssignsPending S ae p) :
    S.stored ae = some (p, some 259) := by
  obtain ⟨l, r, hassign, hvalue, hl⟩ := h
  rw [S.assign_stored ae l r p hassign hl, hvalue]

omit [DecidableEq Place] in
lemma NoPending.not_returnsStatusPending (h : NoPending S call) :
    ¬ returnsStatusPending S call := by
  rintro (⟨rs, hlit, hreach⟩ |
    ⟨rs, ae, va1, va2, p, hrs, -, hside, hassign, hreach, hva, hp, hname⟩)
  · exact h.literal rs hreach hlit
  · exact h.stored ae va1 rs va2 p hassign.stored hside hreach hrs hva hp hname

lemma NoPending.other (h : NoPending S call) : SomePathOther S entry call := by
  obtain ⟨rs, hrs, hreach⟩ := h.returns
  obtain ⟨atCall, hat⟩ := exists_atCall S entry call
  obtain ⟨last, hpath⟩ := exists_traced (writes S) hreach atCall
  refine ⟨atCall, rs, last, hat, hpath, hrs, ?_⟩
  rintro (hlit | ⟨e, p, n, he, hp, hlast, hvalue⟩)
  · exact h.literal rs hreach hlit
  · obtain ⟨m, hm, hstore⟩ | ⟨hnone, -⟩ := lastStore_or_noStore hat hpath p
    · obtain rfl := Option.some.inj (hlast.symm.trans hm)
      obtain ⟨hside, hnr⟩ := hstore.cases
      exact h.stored n p rs e p hvalue hside hnr hrs (S.expr_parent rs e he) hp rfl
    · exact absurd (hlast.symm.trans hnone) (by simp)

/-- **A call with one status around it, STATUS_PENDING or not, is reported iff some path returns
another value.** -/
theorem pending_reported_iff {f : Fn} (hname : CallToName P ["IoMarkIrpPending"] call)
    (hf : f ∈ getEnclosingFunction P call) (hdispatch : ∃ k e, WdmDispatchRoutine D f k e)
    (hcompletion : ¬ isIOCompletionRoutine D f)
    (hone : OnlyPending S entry call ∨ NoPending S call) :
    PendingStatusError S D call ↔ SomePathOther S entry call := by
  have hreport : PendingStatusError S D call ↔ ¬ returnsStatusPending S call := by
    refine ⟨fun h => h.2.2.1, fun h => ⟨hname, ⟨f, hf, hdispatch⟩, h, ?_⟩⟩
    rintro ⟨g, hg, hgio⟩
    exact hcompletion (Option.mem_unique hf hg ▸ hgio)
  rw [hreport]
  obtain honly | hnone := hone
  · exact iff_of_false (not_not.mpr (honly.returnsStatusPending hf)) honly.not_other
  · exact iff_of_true hnone.not_returnsStatusPending hnone.other

/-! ### A return of each kind -/

/-- The nodes of `IoMarkIrpPending(Irp); if (c) return status; return STATUS_SUCCESS;` in its
function, and the exits of the functions. -/
inductive Point
  | body | mark | condition | status | returnStatus | success | returnSuccess
  | exit | markExit | driverExit
  deriving DecidableEq

inductive Routine
  | dispatch | ioMarkIrpPending | driverEntry
  deriving DecidableEq

/-- The program, with a literal for the status. -/
def twoReturns (status : String) : Program Routine Point where
  function f :=
    match f with
    | .dispatch => { getName := "DispatchRead" }
    | .ioMarkIrpPending => { getName := "IoMarkIrpPending" }
    | .driverEntry => { getName := "DriverEntry" }
  getBlock f :=
    match f with
    | .dispatch => some .body
    | _ => none
  exitNode f :=
    match f with
    | .dispatch => .exit
    | .ioMarkIrpPending => .markExit
    | .driverEntry => .driverExit
  getASuccessor n :=
    match n with
    | .body => [.mark]
    | .mark => [.condition]
    | .condition => [.status, .success]
    | .status => [.returnStatus]
    | .success => [.returnSuccess]
    | .returnStatus | .returnSuccess => [.exit]
    | _ => []
  getControlFlowScope n :=
    match n with
    | .markExit => some .ioMarkIrpPending
    | .driverExit => some .driverEntry
    | _ => some .dispatch
  getTarget n := if n = .mark then some .ioMarkIrpPending else none
  literalValue n := if n = .status then some status else if n = .success then some "0" else none
  getParent n :=
    match n with
    | .status => some .returnStatus
    | .success => some .returnSuccess
    | _ => none
  successor_scope n := by cases n <;> decide
  exit_scope f := by cases f <;> decide
  exit_enclosing f := by cases f <;> decide
  block_scope f := by cases f <;> decide
  block_enclosing f := by cases f <;> decide

/-- The routine has no variables. -/
def returns (status : String) : Statements (twoReturns status) Empty where
  ReturnStmt n := n = .returnStatus ∨ n = .returnSuccess
  getExpr n :=
    match n with
    | .returnStatus => some .status
    | .returnSuccess => some .success
    | _ => none
  assignExpr _ := none
  variableAccess _ := none
  getName := Empty.elim
  stored _ := none
  expr_parent rs e h := by cases rs <;> simp_all [twoReturns] <;> subst h <;> rfl
  assign_stored _ _ _ p := p.elim

/-- `DriverObject->MajorFunction[IRP_MJ_READ] = DispatchRead;` in DriverEntry. -/
def driver : Driver Routine where
  typedefs f :=
    match f with
    | .dispatch => [⟨"DRIVER_DISPATCH", "wdm.h"⟩]
    | .ioMarkIrpPending => []
    | .driverEntry => [⟨"DRIVER_INITIALIZE", "wdm.h"⟩]
  assigns f :=
    match f with
    | .driverEntry =>
      [⟨.arrayExpr (some ⟨some "PDRIVER_OBJECT"⟩) (some 3), .functionAccess .dispatch⟩]
    | _ => []
  chained f := by cases f <;> simp

lemma dispatch_driver : WdmDispatchRoutine driver .dispatch 3 .driverEntry :=
  .of_assigned (by decide) (by decide) List.mem_cons_self (by decide) (by decide)

lemma not_completion : ¬ isIOCompletionRoutine driver .dispatch := by
  unfold isIOCompletionRoutine
  decide

/-- Both returns are of other values, the first of STATUS_UNSUCCESSFUL. -/
theorem pending_reported_iff_twoReturns :
    PendingStatusError (returns "3221225473") driver .mark ↔
      SomePathOther (returns "3221225473") .body .mark := by
  have hcondition : ReflTransGen (twoReturns "3221225473").Edge .mark .condition :=
    .single (by decide)
  refine pending_reported_iff (by decide) rfl ⟨3, .driverEntry, dispatch_driver⟩ not_completion
    (.inr ⟨⟨.returnSuccess, rfl, ?_⟩, ?_, fun _ p => p.elim⟩)
  · exact (hcondition.tail (c := .success) (by decide)).tail (by decide)
  · rintro rs - ⟨-, e, he, hvalue⟩
    cases rs <;> simp only [returns, reduceCtorEq] at he
    all_goals obtain rfl := Option.some.inj he
    all_goals exact absurd hvalue (by decide)

/-- A path returns STATUS_SUCCESS, and the call is not reported. -/
theorem bothReturns_missed :
    CallToName (twoReturns "259") ["IoMarkIrpPending"] .mark ∧
      WdmDispatchRoutine driver .dispatch 3 .driverEntry ∧
      ¬ isIOCompletionRoutine driver .dispatch ∧ SomePathOther (returns "259") .body .mark ∧
      ¬ PendingStatusError (returns "259") driver .mark := by
  have hcondition : ReflTransGen (twoReturns "259").Edge .mark .condition := .single (by decide)
  refine ⟨by decide, dispatch_driver, not_completion, ?_, fun h => h.2.2.1 (Or.inl ?_)⟩
  · obtain ⟨atCall, hat⟩ := exists_atCall (returns "259") .body .mark
    have hreach : ReflTransGen (twoReturns "259").Edge .mark .returnSuccess :=
      (hcondition.tail (c := .success) (by decide)).tail (by decide)
    obtain ⟨last, hlast⟩ := exists_traced (writes (returns "259")) hreach atCall
    refine ⟨atCall, .returnSuccess, last, hat, hlast, rfl, ?_⟩
    rintro (⟨-, e, he, hvalue⟩ | ⟨-, p, -⟩)
    · obtain rfl := Option.some.inj he
      exact absurd hvalue (by decide)
    · exact p.elim
  · exact ⟨.returnStatus, ⟨rfl, .status, rfl, by decide⟩,
      (hcondition.tail (c := .status) (by decide)).tail (by decide)⟩

end DriverQueries.PendingStatus
