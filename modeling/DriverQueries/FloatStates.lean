import DriverQueries.Changing
import DriverQueries.Structured

/-!
IRQL changes between a save and a restore of the floating-point state.

The query compares the lines of three calls, or looks for a loop whose statement has all three.
Executions of a structured body that save, then change the IRQL and then restore are found by
this, unless a loop brings the change between the two from above or from below.
-/

namespace DriverQueries.FloatStates

open DriverQueries.Database DriverQueries.Calls DriverQueries.Changing DriverQueries.CopyRules
open DriverQueries.Structured

/-- A program with the bodies of its functions. Every call stands in one place of its body. -/
structure Source (Fn Node : Type) where
  program : Program Fn Node
  body : Fn → Stmt Node
  mem_body_iff : ∀ f n, n ∈ (body f).calls ↔
    FunctionCall program n ∧ getEnclosingFunction program n = some f
  nodup : ∀ f, (body f).calls.Nodup

variable {Fn Node : Type} (S : Source Fn Node) (save restore mid : Node)

/-! ### The predicate -/

/-- The line is an `anchorLineForCall` of the call in `f`. -/
def anchorLineForCall (f : Fn) (fc : Node) (line : ℤ) : Prop :=
  (getEnclosingFunction S.program fc = some f ∧ line = S.program.startLine fc) ∨
    ∃ site, FunctionCall S.program site ∧ getEnclosingFunction S.program site = some f ∧
      S.program.getTarget site = getEnclosingFunction S.program fc ∧
      getEnclosingFunction S.program fc ≠ some f ∧ line = S.program.startLine site

/-- An IRQL-changing call other than the two. -/
structure OtherChange : Prop where
  call : FunctionCall S.program mid
  changing : isIrqlChangingCall S.program mid
  ne_save : mid ≠ save
  ne_restore : mid ≠ restore

def loopHas (l : Stmt Node) (fc : Node) : Prop :=
  ∃ s ∈ l.getStmt, ∃ t ∈ s.descendants, fc ∈ t.ownCalls

/-- A change is on a line from the save to the restore, as they are seen in one function. -/
def Bracketed : Prop :=
  ∃ f saveLine restoreLine mid, anchorLineForCall S f save saveLine ∧
    anchorLineForCall S f restore restoreLine ∧ getEnclosingFunction S.program mid = some f ∧
    OtherChange S save restore mid ∧ saveLine ≤ S.program.startLine mid ∧
    S.program.startLine mid ≤ restoreLine

/-- A change is in the statement of a loop with both. -/
def ShareLoop : Prop :=
  ∃ f g mid, ∃ l ∈ (S.body g).descendants, getEnclosingFunction S.program save = some f ∧
    getEnclosingFunction S.program restore = some f ∧
    getEnclosingFunction S.program mid = some f ∧ OtherChange S save restore mid ∧
    loopHas l save ∧ loopHas l restore ∧ loopHas l mid

def irqlChangesBetween : Prop := Bracketed S save restore ∨ ShareLoop S save restore

/-! ### Executions -/

/-- Some execution of the function makes the three calls in this order. -/
def RunsBetween (g : Fn) : Prop := Subword (S.body g).runs [save, mid, restore]

/-- The predicate holds if some execution changes the IRQL between the two. -/
def Complete (g : Fn) : Prop :=
  ∀ mid ∈ (S.body g).calls, OtherChange S save restore mid → RunsBetween S save restore mid g →
    irqlChangesBetween S save restore

def CalledElsewhere (g : Fn) : Prop :=
  ∃ site f, getEnclosingFunction S.program site = some f ∧ f ≠ g ∧ S.program.getTarget site = some g

/-- The line of the call is above that of the save, or below that of the restore. -/
def Displaced : Prop :=
  S.program.startLine mid < S.program.startLine save ∨
    S.program.startLine restore < S.program.startLine mid

/-- A change of the function is on a line from the save to the restore. -/
def ChangeOnLines (g : Fn) : Prop :=
  ∃ mid ∈ (S.body g).calls, OtherChange S save restore mid ∧ ¬ Displaced S save restore mid

/-- A change is in the statement of a loop of the function with both. -/
def ChangeInLoop (g : Fn) : Prop :=
  ∃ mid, OtherChange S save restore mid ∧ ∃ l ∈ (S.body g).descendants, ∃ s ∈ l.getStmt,
    save ∈ s.calls ∧ restore ∈ s.calls ∧ mid ∈ s.calls

variable {S save restore mid} {g : Fn}

lemma OtherChange.mem_body (h : OtherChange S save restore mid)
    (hscope : getEnclosingFunction S.program mid = some g) : mid ∈ (S.body g).calls :=
  (S.mem_body_iff g mid).mpr ⟨h.call, hscope⟩

lemma changing_of_callee {site : Node} (htarget : S.program.getTarget site = some g)
    (hmid : mid ∈ (S.body g).calls) (hchanging : isIrqlChangingCall S.program mid) :
    isIrqlChangingCall S.program site := by
  obtain ⟨hcall, hscope⟩ := (S.mem_body_iff g mid).mp hmid
  exact .copy ⟨g, htarget, hcall, hscope⟩ hchanging

lemma loopHas_iff {l : Stmt Node} {fc : Node} :
    loopHas l fc ↔ ∃ s ∈ l.getStmt, fc ∈ s.calls := by
  simp only [loopHas, Stmt.mem_calls_iff]

/-! ### What the predicate sees -/

lemma ChangeOnLines.bracketed (hsave : save ∈ (S.body g).calls)
    (hrestore : restore ∈ (S.body g).calls)
    (h : ChangeOnLines S save restore g) : Bracketed S save restore := by
  obtain ⟨mid, hmid, hother, hlines⟩ := h
  obtain ⟨-, hscope⟩ := (S.mem_body_iff g save).mp hsave
  obtain ⟨-, hscope'⟩ := (S.mem_body_iff g restore).mp hrestore
  rw [Displaced, not_or, not_lt, not_lt] at hlines
  exact ⟨g, _, _, mid, Or.inl ⟨hscope, rfl⟩, Or.inl ⟨hscope', rfl⟩,
    ((S.mem_body_iff g mid).mp hmid).2, hother, hlines⟩

/-- A call of the function anchors the save and the restore, and is a change itself. -/
lemma CalledElsewhere.bracketed (hsave : save ∈ (S.body g).calls)
    (hrestore : restore ∈ (S.body g).calls) (h : CalledElsewhere S g)
    (hmid : mid ∈ (S.body g).calls) (hchanging : isIrqlChangingCall S.program mid) :
    Bracketed S save restore := by
  obtain ⟨site, f, hsite, hne, htarget⟩ := h
  obtain ⟨-, hscope⟩ := (S.mem_body_iff g save).mp hsave
  obtain ⟨-, hscope'⟩ := (S.mem_body_iff g restore).mp hrestore
  have hcall : FunctionCall S.program site := Option.isSome_iff_exists.mpr ⟨g, htarget⟩
  have hanchor : ∀ fc, getEnclosingFunction S.program fc = some g →
      anchorLineForCall S f fc (S.program.startLine site) := fun fc hfc =>
    Or.inr ⟨site, hcall, hsite, htarget.trans hfc.symm,
      fun heq => hne (Option.some.inj (heq.symm.trans hfc)), rfl⟩
  have hother : ∀ fc, getEnclosingFunction S.program fc = some g → site ≠ fc := by
    rintro fc hfc rfl
    exact hne (Option.some.inj (hsite.symm.trans hfc))
  exact ⟨f, _, _, site, hanchor save hscope, hanchor restore hscope', hsite,
    ⟨hcall, changing_of_callee htarget hmid hchanging, hother save hscope, hother restore hscope'⟩,
    le_rfl, le_rfl⟩

/-- Lines of another function need a call there. -/
lemma Bracketed.cases (hsave : save ∈ (S.body g).calls) (hrestore : restore ∈ (S.body g).calls)
    (h : Bracketed S save restore) : CalledElsewhere S g ∨ ChangeOnLines S save restore g := by
  obtain ⟨f, saveLine, restoreLine, mid, hanchor, hanchor', hscope, hother, hlines⟩ := h
  obtain ⟨-, hg⟩ := (S.mem_body_iff g save).mp hsave
  obtain ⟨-, hg'⟩ := (S.mem_body_iff g restore).mp hrestore
  obtain ⟨hf, rfl⟩ | ⟨site, -, hsite, htarget, hne, -⟩ := hanchor
  · obtain rfl : g = f := Option.some.inj (hg.symm.trans hf)
    obtain ⟨-, rfl⟩ | ⟨-, -, -, -, hne, -⟩ := hanchor'
    · refine Or.inr ⟨mid, hother.mem_body hscope, hother, ?_⟩
      rw [Displaced, not_or, not_lt, not_lt]
      exact hlines
    · exact absurd hg' hne
  · rw [hg] at htarget hne
    exact Or.inl ⟨site, f, hsite, fun heq => hne (congrArg some heq.symm), htarget⟩

lemma shareLoop_iff (hsave : save ∈ (S.body g).calls) (hrestore : restore ∈ (S.body g).calls) :
    ShareLoop S save restore ↔ ChangeInLoop S save restore g := by
  obtain ⟨-, hg⟩ := (S.mem_body_iff g save).mp hsave
  obtain ⟨-, hg'⟩ := (S.mem_body_iff g restore).mp hrestore
  have hin : ∀ {f l s}, l ∈ (S.body f).descendants → s ∈ l.getStmt → ∀ n ∈ s.calls,
      getEnclosingFunction S.program n = some f := fun hl hs n hn =>
    ((S.mem_body_iff _ n).mp (Stmt.calls_subset hl (Stmt.getStmt_calls_subset hs hn))).2
  refine ⟨fun h => ?_, fun h => ?_⟩
  · obtain ⟨f, f', mid, l, hl, -, -, -, hother, hhas, hhas', hmid⟩ := h
    obtain ⟨s, hs, hsave⟩ := loopHas_iff.mp hhas
    obtain ⟨s', hs', hrestore⟩ := loopHas_iff.mp hhas'
    obtain ⟨s'', hs'', hmid⟩ := loopHas_iff.mp hmid
    obtain rfl : s = s' := Option.mem_unique hs hs'
    obtain rfl : s = s'' := Option.mem_unique hs hs''
    obtain rfl : g = f' := Option.some.inj (hg.symm.trans (hin hl hs save hsave))
    exact ⟨mid, hother, l, hl, s, hs, hsave, hrestore, hmid⟩
  · obtain ⟨mid, hother, l, hl, s, hs, hsave, hrestore, hmid⟩ := h
    exact ⟨g, g, mid, l, hl, hg, hg', hin hl hs mid hmid, hother, loopHas_iff.mpr ⟨s, hs, hsave⟩,
      loopHas_iff.mpr ⟨s, hs, hrestore⟩, loopHas_iff.mpr ⟨s, hs, hmid⟩⟩

/-! ### What it does not see -/

variable (S) in
def LinesInOrder (g : Fn) : Prop :=
  ∀ x y, [x, y].Sublist (S.body g).calls → ¬ (S.body g).SharesLoop x y →
    S.program.startLine x ≤ S.program.startLine y

variable (S save restore) in
/-- A loop with all three calls has them in its statement, and where the save comes before the
restore in the body, no loop has the change with the one and without the other. -/
structure WholeLoops (g : Fn) (mid : Node) : Prop where
  all : ∀ l ∈ (S.body g).descendants, ∀ s ∈ l.getStmt, save ∈ l.calls → mid ∈ l.calls →
    restore ∈ l.calls → save ∈ s.calls ∧ mid ∈ s.calls ∧ restore ∈ s.calls
  with_save : [save, restore].Sublist (S.body g).calls → ∀ l ∈ (S.body g).descendants,
    l.getStmt.isSome → save ∈ l.calls → mid ∈ l.calls → restore ∈ l.calls
  with_restore : [save, restore].Sublist (S.body g).calls → ∀ l ∈ (S.body g).descendants,
    l.getStmt.isSome → mid ∈ l.calls → restore ∈ l.calls → save ∈ l.calls

/-- **A change that comes between the two from above the save or from below the restore shares a
loop with one of them**, if calls outside loops are on lines in their order. -/
theorem Displaced.sharesLoop (hdisplaced : Displaced S save restore mid)
    (horder : (S.body g).InOrder [save, mid, restore]) (hlines : LinesInOrder S g) :
    (S.body g).SharesLoop save mid ∨ (S.body g).SharesLoop mid restore ∨
      (S.body g).SharesLoop save restore := by
  by_contra hnone
  simp only [not_or] at hnone
  obtain ⟨hsave, hrestore, hboth⟩ := hnone
  have hsublist : [save, mid, restore].Sublist (S.body g).calls := by
    refine Stmt.sublist_of_inOrder horder fun x y hxy => ?_
    have hpair : (x = save ∧ y = mid) ∨ (x = save ∧ y = restore) ∨ (x = mid ∧ y = restore) := by
      simp only [List.sublist_cons_iff, List.cons.injEq, List.sublist_nil] at hxy
      grind
    obtain ⟨rfl, rfl⟩ | ⟨rfl, rfl⟩ | ⟨rfl, rfl⟩ := hpair
    · exact hsave
    · exact hboth
    · exact hrestore
  have hfirst := hlines save mid (List.Sublist.trans (by simp) hsublist) hsave
  have hsecond := hlines mid restore (List.Sublist.trans (by simp) hsublist) hrestore
  exact hdisplaced.elim (not_lt.mpr hfirst) (not_lt.mpr hsecond)

lemma sublist_of_order (horder : (S.body g).InOrder [save, mid, restore])
    (hboth : ¬ (S.body g).SharesLoop save restore) :
    [save, restore].Sublist (S.body g).calls := by
  have hpair : (S.body g).InOrder [save, restore] :=
    (S.body g).subword_iff.mp (((S.body g).subword_iff.mpr horder).mono (by simp))
  refine Stmt.sublist_of_inOrder hpair fun x y hxy => ?_
  obtain ⟨rfl, rfl⟩ : x = save ∧ y = restore := by
    simpa using hxy.eq_of_length rfl
  exact hboth

/-- A change that some execution brings between the two is in a loop with both. -/
lemma WholeLoops.changeInLoop (h : WholeLoops S save restore g mid) (hlines : LinesInOrder S g)
    (hother : OtherChange S save restore mid) (hdisplaced : Displaced S save restore mid)
    (horder : (S.body g).InOrder [save, mid, restore]) : ChangeInLoop S save restore g := by
  have hall : ∀ l ∈ (S.body g).descendants, l.getStmt.isSome → save ∈ l.calls → mid ∈ l.calls →
      restore ∈ l.calls → ChangeInLoop S save restore g := by
    intro l hl hloop hsave hmid hrestore
    obtain ⟨s, hs⟩ := Option.isSome_iff_exists.mp hloop
    obtain ⟨hsave, hmid, hrestore⟩ := h.all l hl s hs hsave hmid hrestore
    exact ⟨mid, hother, l, hl, s, hs, hsave, hrestore, hmid⟩
  by_cases hboth : (S.body g).SharesLoop save restore
  · obtain ⟨l, hl, hloop, hmem⟩ :=
      Stmt.exists_loop_of_ends (w := [mid]) (S.nodup g) horder hboth
    exact hall l hl hloop (hmem _ (by simp)) (hmem _ (by simp)) (hmem _ (by simp))
  have hsublist := sublist_of_order horder hboth
  obtain ⟨l, hl, hloop, hsave, hmid⟩ | ⟨l, hl, hloop, hmid, hrestore⟩ | hshare :=
    hdisplaced.sharesLoop horder hlines
  · exact hall l hl hloop hsave hmid (h.with_save hsublist l hl hloop hsave hmid)
  · exact hall l hl hloop (h.with_restore hsublist l hl hloop hmid hrestore) hmid hrestore
  · exact absurd hshare hboth

namespace RaiseInLoop

inductive Callee
  | save | restore | raise
  deriving DecidableEq

/-- The nodes of a routine that calls each of them once. It is the function `none`. -/
inductive Place
  | block
  | call (c : Callee)
  | exit (f : Option Callee)
  deriving DecidableEq

open Callee Place

def function : Option Callee → FunctionInfo
  | none => { getName := "routine" }
  | some .save => { getName := "KeSaveFloatingPointState" }
  | some .restore => { getName := "KeRestoreFloatingPointState" }
  | some .raise => { getName := "KeRaiseIrql" }

/-- With the save before the loop or in it. -/
def getASuccessor (saveInLoop : Bool) : Place → List Place
  | block => [call .save]
  | call .save => [call .restore, exit none]
  | call .restore => [call .raise]
  | call .raise => if saveInLoop then [call .save, exit none] else [call .restore, exit none]
  | exit _ => []

def getControlFlowScope : Place → Option (Option Callee)
  | block | call _ => some none
  | exit f => some f

def getTarget : Place → Option (Option Callee)
  | call c => some (some c)
  | _ => none

def startLine : Place → ℤ
  | call .save => 1
  | call .restore => 3
  | call .raise => 4
  | _ => 0

lemma successor_scope (saveInLoop : Bool) (n m : Place) (h : m ∈ getASuccessor saveInLoop n) :
    getControlFlowScope m = getControlFlowScope n := by
  rcases n with _ | (_ | _ | _) | f <;> cases saveInLoop <;>
    simp only [getASuccessor, if_true, if_false, Bool.false_eq_true, List.mem_cons,
      List.not_mem_nil, or_false] at h <;>
    obtain rfl | rfl := h <;> rfl

/-- `KeSaveFloatingPointState(&b); while (busy) { KeRestoreFloatingPointState(&b);
KeRaiseIrql(APC_LEVEL, &old); }`, and the same with the save in the loop, one call on a line. -/
def program (saveInLoop : Bool) : Program (Option Callee) Place where
  function := function
  getBlock f := if f = none then some block else none
  exitNode := exit
  getASuccessor := getASuccessor saveInLoop
  getControlFlowScope := getControlFlowScope
  getTarget := getTarget
  startLine := startLine
  successor_scope := successor_scope saveInLoop
  exit_scope _ := rfl
  exit_enclosing _ := rfl
  block_scope f b hb := by
    split_ifs at hb with hf
    · obtain rfl := Option.some.inj hb
      exact congrArg some hf.symm
    · exact absurd hb (by simp)
  block_enclosing _ _ _ s hs := absurd hs (by simp)

def callStmt (c : Callee) : Stmt Place := .expr (.call (call c))

def body (saveInLoop : Bool) : Option Callee → Stmt Place
  | none =>
    if saveInLoop then
      .whileStmt .value (.seq (callStmt .save) (.seq (callStmt .restore) (callStmt .raise)))
    else
      .seq (callStmt .save) (.whileStmt .value (.seq (callStmt .restore) (callStmt .raise)))
  | some _ => .expr .value

lemma calls_body (saveInLoop : Bool) :
    (body saveInLoop none).calls = [call .save, call .restore, call .raise] := by
  cases saveInLoop <;> rfl

def source (saveInLoop : Bool) : Source (Option Callee) Place where
  program := program saveInLoop
  body := body saveInLoop
  mem_body_iff f n := by
    rcases f with _ | c
    · rw [calls_body]
      rcases n with _ | c' | f <;>
        simp [FunctionCall, getEnclosingFunction, program, getTarget, getControlFlowScope]
      cases c' <;> simp
    · rcases n with _ | c' | f <;>
        simp [body, Stmt.calls, Expr.calls, FunctionCall, getEnclosingFunction, program, getTarget,
          getControlFlowScope]
  nodup f := by
    rcases f with _ | c
    · rw [calls_body]
      decide
    · exact List.nodup_nil

lemma raise_changes (saveInLoop : Bool) :
    OtherChange (source saveInLoop) (call .save) (call .restore) (call .raise) where
  call := rfl
  changing := isIrqlChangingCall_iff_chain.mpr
    ⟨_, .refl, Or.inl ⟨some .raise, rfl, List.mem_cons_self⟩⟩
  ne_save := by decide
  ne_restore := by decide

end RaiseInLoop

open RaiseInLoop

end DriverQueries.FloatStates
