import DriverQueries.CopyRules
import DriverQueries.Text

/-!
Functions that initialize a parameter on some paths only.

A function that assigns through a pointer parameter is conditional if its exit can be reached past
no such assignment. The search leaves out the edges on which the parameter itself is null and, where
exactly one other parameter is tested for null, it is made once for each outcome of that test. A
call then leaves out the outcomes that its arguments contradict. Here it is shown that nothing is
lost by that: a call whose argument is not conditionally initialized assigns it on every execution.
And where at most one other parameter is tested, every report has an execution that assigns nothing.
-/

namespace DriverQueries.InitFunctions

open Relation DriverQueries.Text DriverQueries.Paths DriverQueries.CopyRules

/-! ### Conditions -/

/-- What a condition tests: a parameter, a local flag that is initialized with a double negation
and not assigned, a negation, or a comparison with zero. -/
inductive Test
  | param (index : ℕ)
  | flag (condition : Test)
  | not (operand : Test)
  | eqZero (operand : Test)
  | neZero (operand : Test)
  | other
  deriving DecidableEq

namespace Test

/-- The parameter that is null where the condition is true. -/
def nullIfTrue : Test → Option ℕ
  | .not (.param i) | .eqZero (.param i) => some i
  | .not (.flag (.param i)) | .not (.flag (.neZero (.param i))) => some i
  | _ => none

def nullIfFalse : Test → Option ℕ
  | .param i | .neZero (.param i) => some i
  | .not (.flag (.eqZero (.param i))) => some i
  | _ => none

/-- The truth of a condition that depends on the parameters that are null, and on nothing else. -/
def truth (isNull : ℕ → Bool) : Test → Option Bool
  | .param i => some !isNull i
  | .flag e | .neZero e => e.truth isNull
  | .not e | .eqZero e => (e.truth isNull).map (!·)
  | .other => none

lemma truth_of_nullIfTrue {t : Test} {i : ℕ} (h : t.nullIfTrue = some i) (isNull : ℕ → Bool) :
    t.truth isNull = some (isNull i) := by
  unfold nullIfTrue at h
  split at h
  · obtain rfl := Option.some.inj h; simp [truth]
  · obtain rfl := Option.some.inj h; simp [truth]
  · obtain rfl := Option.some.inj h; simp [truth]
  · obtain rfl := Option.some.inj h; simp [truth]
  · exact absurd h (by simp)

lemma truth_of_nullIfFalse {t : Test} {i : ℕ} (h : t.nullIfFalse = some i) (isNull : ℕ → Bool) :
    t.truth isNull = some !isNull i := by
  unfold nullIfFalse at h
  split at h
  · obtain rfl := Option.some.inj h; rfl
  · obtain rfl := Option.some.inj h; rfl
  · obtain rfl := Option.some.inj h; simp [truth]
  · exact absurd h (by simp)

end Test

/-! ### The database -/

inductive Argument
  | addressOf | array | zero | other
  deriving DecidableEq

/-- A call: its arguments, the function it names, and those that dispatch finds for it. -/
structure Call (Fn Node : Type) where
  getArgument : List (Node × Argument)
  staticTarget : Option Fn
  getAViableTarget : List Fn
  deriving DecidableEq

/-- An `if` statement: the nodes of its condition, and those of the statements of its branch. -/
structure IfStmt (Node : Type) where
  condition : List Node
  branch : List Node
  deriving DecidableEq

structure Parameter where
  isPointer : Bool := true
  isOut : Bool := false
  deriving DecidableEq

structure Signature where
  qualifiedName : String
  typeSig : String
  deriving DecidableEq

structure FunctionInfo where
  getName : String
  signature : Signature
  getParameter : List Parameter
  hasDefinition : Bool := true
  isPureVirtual : Bool := false
  returnsStatus : Bool := true
  returnTypeName : String := "int"
  deriving DecidableEq

/-- The functions, their bodies, and the rows of the files that name conditional initializers. The
exit of a function is the function as a node. -/
structure InitDatabase (Fn Node : Type) where
  function : Fn → FunctionInfo
  getAnOverridingFunction : Fn → List Fn := fun _ => []
  condInit : List (Signature × ℕ) := []
  getEntryPoint : Fn → Option Node
  exitNode : Fn → Node
  getASuccessor : Node → List Node
  getATrueSuccessor : Node → List Node := fun _ => []
  getAFalseSuccessor : Node → List Node := fun _ => []
  /-- What is tested at a node of the function, for the nodes that are conditions. -/
  condition : Fn → Node → Option Test := fun _ _ => none
  /-- The parameter of the function that is accessed at a node. -/
  access : Fn → Node → Option ℕ
  /-- The access is dereferenced, and the result is assigned to. -/
  isDereferenceTarget : Node → Bool := fun _ => false
  /-- The access qualifies a field that is assigned to, directly or as the ultimate qualifier. -/
  isFieldTarget : Node → Bool := fun _ => false
  /-- The address of the access qualifies a field that is assigned to. -/
  isAddressFieldTarget : Node → Bool := fun _ => false
  /-- The node assumes a literal zero. -/
  assumesZero : Fn → Node → Bool := fun _ _ => false
  calls : Fn → List (Call Fn Node) := fun _ => []
  ifStmts : Fn → List (IfStmt Node) := fun _ => []
  /-- The parameter that is itself assigned to at a node of the function. -/
  setsParameter : Fn → Node → Option ℕ := fun _ _ => none

variable {Fn Node : Type} (D : InitDatabase Fn Node)

/-- The targets of a call: the definitions found for it, else those with the signature of an
undefined target, else the undefined targets. -/
def getTarget (c : Call Fn Node) (g : Fn) : Prop :=
  let defined := fun g => g ∈ c.getAViableTarget ∧ (D.function g).hasDefinition
  let possible := fun g => (D.function g).hasDefinition ∧ ∃ u ∈ c.getAViableTarget,
    ¬ (D.function u).hasDefinition ∧ (D.function u).signature = (D.function g).signature
  ((∃ g, defined g) ∧ defined g) ∨
    ((¬ ∃ g, defined g) ∧ (∃ g, possible g) ∧ possible g) ∨
    ((¬ ∃ g, defined g) ∧ (¬ ∃ g, possible g) ∧ g ∈ c.getAViableTarget)

/-! ### Initialization functions -/

def Assigns (f : Fn) (i : ℕ) : Prop :=
  ∃ va, D.access f va = some i ∧ (D.isDereferenceTarget va ∨ D.isFieldTarget va ∨
    D.isAddressFieldTarget va)

def SuggestiveSALAnnotation (f : Fn) (i : ℕ) : Prop :=
  ¬ (D.function f).hasDefinition ∧ ∃ p ∈ (D.function f).getParameter[i]?, p.isOut

def ExternalEvidence (f : Fn) (i : ℕ) : Prop :=
  ¬ (D.function f).hasDefinition ∧ ((D.function f).signature, i) ∈ D.condInit

/-- Where an initialized parameter comes from: that of an overriding function, or the parameter
that an access of this one is given to. -/
def PassesTo (p q : Fn × ℕ) : Prop :=
  (q.2 = p.2 ∧ TransGen (fun f g => g ∈ D.getAnOverridingFunction f) p.1 q.1) ∨
    ∃ c ∈ D.calls p.1, getTarget D c q.1 ∧ ∃ a ∈ c.getArgument[q.2]?, D.access p.1 a.1 = some p.2

def InitializationFunction (f : Fn) (i : ℕ) : Prop :=
  Derives (fun (p : Fn × ℕ) (_ : Unit) =>
    Assigns D p.1 p.2 ∨ SuggestiveSALAnnotation D p.1 p.2 ∨ ExternalEvidence D p.1 p.2)
    (PassesTo D) (f, i) ()

def InitializedArgument (c : Call Fn Node) (j : ℕ) : Prop :=
  ∃ g, getTarget D c g ∧ InitializationFunction D g j

/-! ### Null checks -/

/-- `ParameterNullCheck`: the node tests whether the parameter is null, and has both successors. -/
def ParameterNullCheck (f : Fn) (n : Node) (i : ℕ) : Prop :=
  (∃ j, InitializationFunction D f j) ∧ (∃ p ∈ (D.function f).getParameter[i]?, p.isPointer) ∧
    (∃ t ∈ D.condition f n, t.nullIfTrue = some i ∨ t.nullIfFalse = some i) ∧
    D.getATrueSuccessor n ≠ [] ∧ D.getAFalseSuccessor n ≠ []

/-- The successor at which the parameter is confirmed to be null. -/
def NullSuccessor (f : Fn) (n m : Node) (i : ℕ) : Prop :=
  ∃ t ∈ D.condition f n, (t.nullIfTrue = some i ∧ m ∈ D.getATrueSuccessor n) ∨
    (t.nullIfFalse = some i ∧ m ∈ D.getAFalseSuccessor n)

def NotNullSuccessor (f : Fn) (n m : Node) (i : ℕ) : Prop :=
  ∃ t ∈ D.condition f n, (t.nullIfTrue = some i ∧ m ∈ D.getAFalseSuccessor n) ∨
    (t.nullIfFalse = some i ∧ m ∈ D.getATrueSuccessor n)

inductive Context
  | noContext
  | paramNull (index : ℕ)
  | paramNotNull (index : ℕ)
  deriving DecidableEq

def OtherChecked (f : Fn) (i j : ℕ) : Prop := j ≠ i ∧ ∃ n, ParameterNullCheck D f n j

def getAContext (f : Fn) (i : ℕ) (c : Context) : Prop :=
  InitializationFunction D f i ∧
    ((∃ j, (OtherChecked D f i j ∧ ∀ k, OtherChecked D f i k → k = j) ∧
        (c = .paramNull j ∨ c = .paramNotNull j)) ∨
      ((¬ ∃ j, OtherChecked D f i j ∧ ∀ k, OtherChecked D f i k → k = j) ∧ c = .noContext))

def Ignored (f : Fn) (c : Context) (n m : Node) : Prop :=
  ∃ j, ParameterNullCheck D f n j ∧
    ((c = .paramNull j ∧ NotNullSuccessor D f n m j) ∨
      (c = .paramNotNull j ∧ NullSuccessor D f n m j))

/-! ### Reassignments -/

/-- The access is assigned through, or given to a function that initializes its parameter. -/
def AssignedThrough (f : Fn) (n : Node) : Prop :=
  D.isDereferenceTarget n ∨ D.isFieldTarget n ∨
    ∃ c ∈ D.calls f, ∃ j, InitializedArgument D c j ∧ ∃ a ∈ c.getArgument[j]?, a.1 = n

/-- `paramReassignment`: an access that is assigned through, an assumption of zero, or an access in
the condition of an `if` with such a node in its branch. -/
inductive ParamReassignment (f : Fn) (i : ℕ) : Node → Prop
  | assigned {n} (hn : D.access f n = some i) (h : AssignedThrough D f n) : ParamReassignment f i n
  | assumed {n} (h : D.assumesZero f n) : ParamReassignment f i n
  | guard {n m check} (hn : D.access f n = some i) (hcheck : check ∈ D.ifStmts f)
      (hcondition : n ∈ check.condition) (hbranch : m ∈ check.branch)
      (h : ParamReassignment f i m) : ParamReassignment f i n

def Passes (f : Fn) (i : ℕ) (c : Context) (n m : Node) : Prop :=
  m ∈ D.getASuccessor n ∧ ¬ ParamReassignment D f i m ∧
    ¬ (ParameterNullCheck D f n i ∧ NullSuccessor D f n m i) ∧ ¬ Ignored D f c n m

def paramNotReassignedAt (f : Fn) (n : Node) (i : ℕ) (c : Context) : Prop :=
  getAContext D f i c ∧
    ((D.getEntryPoint f = none ∧ n = D.exitNode f) ∨
      ∃ b ∈ D.getEntryPoint f, ReflTransGen (Passes D f i c) b n)

/-! ### Conditional initialization functions -/

/-- The functions that count as always initializing, by name. -/
def whitelisted (name : String) : Prop :=
  matchesPattern name "_Interlocked%" ∨
    name ∈ ["QueryPerformanceCounter", "QueryPerformanceFrequency",
      "InitializeCriticalSectionAndSpinCount", "rand_s", "IntersectRect", "SetRect", "UnionRect",
      "PhysicalToLogicalDPIPoint", "LogicalToPhysicalDPIPoint", "RtlGetNtProductType",
      "StringCchLengthA", "RtlUnicodeToMultiByteSize", "RtlMultiByteToUnicodeSize",
      "RtlUnicodeToMultiByteN", "RtlGetFirstRange", "memcpy_s", "SeCreateAccessState"]

instance : DecidablePred whitelisted := fun _ => inferInstanceAs (Decidable (_ ∨ _))

/-- The clauses about the name and the type of the function. -/
def ReturnsStatus (f : Fn) : Prop :=
  ¬ whitelisted (D.function f).getName ∧ (D.function f).returnsStatus ∧
    (D.function f).returnTypeName.toList.map Char.toLower ≠ "size_t".toList

def ConditionalInitializationFunction (f : Fn) (i : ℕ) (c : Context) : Prop :=
  getAContext D f i c ∧ ReturnsStatus D f ∧
    ((ExternalEvidence D f i ∨ SuggestiveSALAnnotation D f i) ∨
      ((D.function f).hasDefinition ∧ paramNotReassignedAt D f (D.exitNode f) i c ∧
        ¬ (D.function f).isPureVirtual))

def Contradicts (call : Call Fn Node) : Context → Prop
  | .noContext => False
  | .paramNull j => ∃ a ∈ call.getArgument[j]?, a.2 = .addressOf ∨ a.2 = .array
  | .paramNotNull j => ∃ a ∈ call.getArgument[j]?, a.2 = .zero

/-- `getAConditionallyInitializedArgument`, as the position of the argument. The argument for
another parameter is looked for among those of the function that the call names. -/
def ConditionallyInitializedArgument (call : Call Fn Node) (f : Fn) (i : ℕ) : Prop :=
  getTarget D call f ∧ (call.getArgument[i]?).isSome ∧
    ∃ c, ConditionalInitializationFunction D f i c ∧ ¬ Contradicts call c ∧
      ∀ j, c = .paramNull j ∨ c = .paramNotNull j →
        call.staticTarget = some f ∧ (call.getArgument[j]?).isSome

/-! ### Executions -/

structure State (Node : Type) where
  node : Node
  isNull : ℕ → Bool

/-- Control goes from a node to the next one, as its condition says if it depends on the parameters
only. A parameter changes only where it is itself assigned to. -/
structure Step (f : Fn) (s s' : State Node) : Prop where
  successor : s'.node ∈ D.getASuccessor s.node
  follows : ∀ t ∈ D.condition f s.node, ∀ b, t.truth s.isNull = some b →
    s'.node ∈ if b then D.getATrueSuccessor s.node else D.getAFalseSuccessor s.node
  keeps : ∀ j, D.setsParameter f s'.node ≠ some j → s'.isNull j = s.isNull j

/-- The node assigns through the parameter, or gives it to a function that initializes it, or is
never run past, being an assumption of zero. -/
def Assigned (f : Fn) (i : ℕ) (n : Node) : Prop :=
  (D.access f n = some i ∧ AssignedThrough D f n) ∨ D.assumesZero f n

def StepUnassigned (f : Fn) (i : ℕ) (s s' : State Node) : Prop :=
  Step D f s s' ∧ ¬ Assigned D f i s'.node

/-- The execution comes from the entry to the exit of the function, and to no assignment. -/
def LeavesUnassigned (f : Fn) (i : ℕ) (isNull : ℕ → Bool) : Prop :=
  ∃ b ∈ D.getEntryPoint f, ∃ s, s.node = D.exitNode f ∧
    ReflTransGen (StepUnassigned D f i) ⟨b, isNull⟩ s

/-- What the search takes for a reassignment is one: from an access in the condition of an `if` with
a reassignment in its branch, no execution with the parameter not null leaves without assigning. -/
def GuardsAssign (f : Fn) (i : ℕ) : Prop :=
  ∀ s s', ParamReassignment D f i s.node → s.isNull i = false → s'.node = D.exitNode f →
    ReflTransGen (StepUnassigned D f i) s s' → Assigned D f i s.node

/-- The context is that of an execution with these null parameters. -/
def Context.Holds (isNull : ℕ → Bool) : Context → Prop
  | .noContext => True
  | .paramNull j => isNull j = true
  | .paramNotNull j => isNull j = false

/-- No node is both a true and a false successor, and the parameters that matter are not assigned
to themselves. -/
structure WellFormed (f : Fn) (i : ℕ) : Prop where
  separate : ∀ n m, m ∈ D.getATrueSuccessor n → m ∉ D.getAFalseSuccessor n
  kept : ∀ n j, D.setsParameter f n = some j → j ≠ i ∧ ¬ OtherChecked D f i j

section Soundness

variable {D} {f : Fn} {i j : ℕ} {s s' : State Node} {c : Context}

lemma isNull_of_nullSuccessor (hwf : WellFormed D f i) (hstep : Step D f s s')
    (h : NullSuccessor D f s.node s'.node j) : s.isNull j = true := by
  obtain ⟨t, ht, ⟨hnull, hm⟩ | ⟨hnull, hm⟩⟩ := h
  · have hgoes := hstep.follows t ht _ (t.truth_of_nullIfTrue hnull s.isNull)
    cases hj : s.isNull j with
    | true => rfl
    | false => rw [hj] at hgoes; exact absurd hgoes (hwf.separate _ _ hm)
  · have hgoes := hstep.follows t ht _ (t.truth_of_nullIfFalse hnull s.isNull)
    cases hj : s.isNull j with
    | true => rfl
    | false => rw [hj] at hgoes; exact absurd hm (hwf.separate _ _ hgoes)

lemma isNull_of_notNullSuccessor (hwf : WellFormed D f i) (hstep : Step D f s s')
    (h : NotNullSuccessor D f s.node s'.node j) : s.isNull j = false := by
  obtain ⟨t, ht, ⟨hnull, hm⟩ | ⟨hnull, hm⟩⟩ := h
  · have hgoes := hstep.follows t ht _ (t.truth_of_nullIfTrue hnull s.isNull)
    cases hj : s.isNull j with
    | false => rfl
    | true => rw [hj] at hgoes; exact absurd hm (hwf.separate _ _ hgoes)
  · have hgoes := hstep.follows t ht _ (t.truth_of_nullIfFalse hnull s.isNull)
    cases hj : s.isNull j with
    | false => rfl
    | true => rw [hj] at hgoes; exact absurd hgoes (hwf.separate _ _ hm)

lemma passes_of_step (hwf : WellFormed D f i) (hstep : Step D f s s')
    (hassign : ¬ ParamReassignment D f i s'.node) (hi : s.isNull i = false)
    (hc : c.Holds s.isNull) : Passes D f i c s.node s'.node := by
  refine ⟨hstep.successor, hassign, fun ⟨_, hnull⟩ => ?_, fun ⟨k, _, hignored⟩ => ?_⟩
  · simp [isNull_of_nullSuccessor hwf hstep hnull] at hi
  · rcases hignored with ⟨rfl, hnull⟩ | ⟨rfl, hnull⟩
    · simp [Context.Holds, isNull_of_notNullSuccessor hwf hstep hnull] at hc
    · simp [Context.Holds, isNull_of_nullSuccessor hwf hstep hnull] at hc

lemma holds_of_step (hwf : WellFormed D f i) (hcontext : getAContext D f i c)
    (hstep : Step D f s s') (hi : s.isNull i = false) (hc : c.Holds s.isNull) :
    s'.isNull i = false ∧ c.Holds s'.isNull := by
  have hkeeps : ∀ j, j = i ∨ OtherChecked D f i j → s'.isNull j = s.isNull j := by
    intro j hj
    refine hstep.keeps j fun hset => ?_
    obtain ⟨hne, hother⟩ := hwf.kept _ j hset
    exact hj.elim hne hother
  refine ⟨(hkeeps i (.inl rfl)).trans hi, ?_⟩
  obtain ⟨-, ⟨k, ⟨hk, -⟩, rfl | rfl⟩ | ⟨-, rfl⟩⟩ := hcontext
  · exact (hkeeps k (.inr hk)).trans hc
  · exact (hkeeps k (.inr hk)).trans hc
  · trivial

lemma Assigned.reassignment {n : Node} (h : Assigned D f i n) : ParamReassignment D f i n := by
  obtain ⟨haccess, hthrough⟩ | hassumed := h
  · exact .assigned haccess hthrough
  · exact .assumed hassumed

lemma run_of_unassigned (hwf : WellFormed D f i) (hguards : GuardsAssign D f i)
    (hs : s'.node = D.exitNode f) (h : ReflTransGen (StepUnassigned D f i) s s')
    (hi : s.isNull i = false) :
    ReflTransGen (fun s s' => Step D f s s' ∧ ¬ ParamReassignment D f i s'.node) s s' := by
  induction h using ReflTransGen.head_induction_on with
  | refl => exact .refl
  | @head s t hstep hrest ih =>
    have hi' : t.isNull i = false :=
      (hstep.1.keeps i fun hset => (hwf.kept _ i hset).1 rfl).trans hi
    refine .head ⟨hstep.1, fun hreassigned => ?_⟩ (ih hi')
    exact hstep.2 (hguards t s' hreassigned hi' hs hrest)

lemma notReassignedAt_of_execution (hwf : WellFormed D f i) (hguards : GuardsAssign D f i)
    (hcontext : getAContext D f i c) {isNull : ℕ → Bool} (hi : isNull i = false)
    (hc : c.Holds isNull) (h : LeavesUnassigned D f i isNull) :
    paramNotReassignedAt D f (D.exitNode f) i c := by
  obtain ⟨b, hb, s, hs, hrun⟩ := h
  replace hrun := run_of_unassigned hwf hguards hs hrun hi
  suffices ReflTransGen (Passes D f i c) b s.node ∧ s.isNull i = false ∧ c.Holds s.isNull from
    ⟨hcontext, .inr ⟨b, hb, hs ▸ this.1⟩⟩
  clear hs
  induction hrun with
  | refl => exact ⟨.refl, hi, hc⟩
  | tail _ hstep ih =>
    obtain ⟨hpath, hi', hc'⟩ := ih
    exact ⟨hpath.tail (passes_of_step hwf hstep.1 hstep.2 hi' hc'),
      holds_of_step hwf hcontext hstep.1 hi' hc'⟩

lemma exists_context (hinit : InitializationFunction D f i) (isNull : ℕ → Bool) :
    ∃ c, getAContext D f i c ∧ c.Holds isNull := by
  by_cases hone : ∃ j, OtherChecked D f i j ∧ ∀ k, OtherChecked D f i k → k = j
  · obtain ⟨j, hj⟩ := hone
    cases hnull : isNull j with
    | true => exact ⟨.paramNull j, ⟨hinit, .inl ⟨j, hj, .inl rfl⟩⟩, hnull⟩
    | false => exact ⟨.paramNotNull j, ⟨hinit, .inl ⟨j, hj, .inr rfl⟩⟩, hnull⟩
  · exact ⟨.noContext, ⟨hinit, .inr ⟨hone, rfl⟩⟩, trivial⟩

/-- The arguments of a call are null or not as they are written. -/
def Fits (call : Call Fn Node) (isNull : ℕ → Bool) : Prop :=
  ∀ j, ∀ a ∈ call.getArgument[j]?,
    (a.2 = .addressOf ∨ a.2 = .array → isNull j = false) ∧ (a.2 = .zero → isNull j = true)

/-- **An argument of a call that does not count as conditionally initialized is assigned through on
every execution of the target**, if it is not null, and the target is the function that the call
names, returns a status and initializes the parameter at all. -/
theorem assigns_of_not_conditional {call : Call Fn Node} (hwf : WellFormed D f i)
    (hguards : GuardsAssign D f i) (hinit : InitializationFunction D f i)
    (hdefined : (D.function f).hasDefinition) (hstatus : ReturnsStatus D f)
    (hvirtual : ¬ (D.function f).isPureVirtual) (htarget : getTarget D call f)
    (hnamed : call.staticTarget = some f)
    (harguments : ∀ j < (D.function f).getParameter.length, (call.getArgument[j]?).isSome)
    (hi : i < (D.function f).getParameter.length)
    (hcall : ¬ ConditionallyInitializedArgument D call f i) {isNull : ℕ → Bool}
    (hfits : Fits call isNull) (hnull : isNull i = false) : ¬ LeavesUnassigned D f i isNull := by
  intro hrun
  obtain ⟨c, hcontext, hc⟩ := exists_context hinit isNull
  have hpath := notReassignedAt_of_execution hwf hguards hcontext hnull hc hrun
  refine hcall ⟨htarget, harguments i hi, c, ⟨hcontext, hstatus, .inr ⟨hdefined, hpath, hvirtual⟩⟩,
    fun hcontra => ?_, fun j hj => ⟨hnamed, harguments j ?_⟩⟩
  · cases c with
    | noContext => exact hcontra
    | paramNull j =>
      obtain ⟨a, ha, hwritten⟩ := hcontra
      exact absurd ((hfits j a ha).1 hwritten) (by rw [show isNull j = true from hc]; simp)
    | paramNotNull j =>
      obtain ⟨a, ha, hwritten⟩ := hcontra
      exact absurd ((hfits j a ha).2 hwritten) (by rw [show isNull j = false from hc]; simp)
  · -- the other parameter is one of the function
    obtain ⟨-, ⟨k, ⟨⟨-, n, -, ⟨p, hp, -⟩, -⟩, -⟩, hck⟩ | ⟨-, rfl⟩⟩ := hcontext
    · obtain rfl : k = j := by rcases hck with rfl | rfl <;> simpa using hj
      exact (List.getElem?_eq_some_iff.mp hp).1
    · simp at hj

/-! ### Reports are executions -/

variable (D) in
/-- Every condition that depends on the parameters only is a null check, at most one other parameter
has one, and a condition has true and false successors only. -/
structure Precise (f : Fn) (i : ℕ) : Prop where
  recognized : ∀ n, ∀ t ∈ D.condition f n,
    (∃ j, ParameterNullCheck D f n j) ∨ ∀ isNull, t.truth isNull = none
  one : ∀ j k, OtherChecked D f i j → OtherChecked D f i k → j = k
  branches : ∀ n, ∀ m ∈ D.getASuccessor n, (D.condition f n).isSome →
    m ∈ D.getATrueSuccessor n ∨ m ∈ D.getAFalseSuccessor n

/-- The search takes no edge that the context contradicts, if it tells of every check. -/
lemma Passes.agrees (hprecise : Precise D f i) (hcontext : getAContext D f i c) {n m : Node}
    (h : Passes D f i c n m) (hcheck : ParameterNullCheck D f n j) {isNull : ℕ → Bool}
    (hi : isNull i = false) (hc : c.Holds isNull) :
    (isNull j = true → ¬ NotNullSuccessor D f n m j) ∧
      (isNull j = false → ¬ NullSuccessor D f n m j) := by
  obtain ⟨-, -, hnull, hignored⟩ := h
  by_cases hj : j = i
  · subst hj
    exact ⟨fun hj => by simp [hi] at hj, fun _ hs => hnull ⟨hcheck, hs⟩⟩
  · have hother : OtherChecked D f i j := ⟨hj, n, hcheck⟩
    obtain ⟨-, ⟨k, ⟨hk, -⟩, hck⟩ | ⟨hone, -⟩⟩ := hcontext
    · obtain rfl := hprecise.one k j hk hother
      rcases hck with rfl | rfl
      · have htrue : isNull k = true := hc
        exact ⟨fun _ hs => hignored ⟨k, hcheck, .inl ⟨rfl, hs⟩⟩, fun hf => by simp [htrue] at hf⟩
      · have hfalse : isNull k = false := hc
        exact ⟨fun ht => by simp [hfalse] at ht, fun _ hs => hignored ⟨k, hcheck, .inr ⟨rfl, hs⟩⟩⟩
    · exact absurd ⟨j, hother, fun k hk => hprecise.one k j hk hother⟩ hone

/-- An edge of the search is a step of every execution in the context. -/
lemma Passes.step (hprecise : Precise D f i) (hcontext : getAContext D f i c) {n m : Node}
    (h : Passes D f i c n m) {isNull : ℕ → Bool} (hi : isNull i = false) (hc : c.Holds isNull) :
    Step D f ⟨n, isNull⟩ ⟨m, isNull⟩ := by
  refine ⟨h.1, fun t ht b hb => ?_, fun _ _ => rfl⟩
  -- the check tells which successor is for null, and the context what the parameter is
  rcases hprecise.recognized n t ht with ⟨j, hcheck⟩ | hnone
  · obtain ⟨hnotNull, hnull⟩ := h.agrees hprecise hcontext hcheck hi hc
    have hbranch := hprecise.branches n m h.1 (Option.isSome_iff_exists.mpr ⟨t, ht⟩)
    obtain ⟨-, -, ⟨t', ht', htest⟩, -⟩ := id hcheck
    obtain rfl := Option.mem_unique ht ht'
    rcases htest with htest | htest
    · rw [t.truth_of_nullIfTrue htest] at hb
      obtain rfl := Option.some.inj hb
      cases hj : isNull j with
      | true =>
        have hm := hbranch.resolve_right fun hm => hnotNull hj ⟨t, ht, .inl ⟨htest, hm⟩⟩
        simpa [hj] using hm
      | false =>
        have hm := hbranch.resolve_left fun hm => hnull hj ⟨t, ht, .inl ⟨htest, hm⟩⟩
        simpa [hj] using hm
    · rw [t.truth_of_nullIfFalse htest] at hb
      obtain rfl := Option.some.inj hb
      cases hj : isNull j with
      | true =>
        have hm := hbranch.resolve_left fun hm => hnotNull hj ⟨t, ht, .inr ⟨htest, hm⟩⟩
        simpa [hj] using hm
      | false =>
        have hm := hbranch.resolve_right fun hm => hnull hj ⟨t, ht, .inr ⟨htest, hm⟩⟩
        simpa [hj] using hm
  · exact absurd (hb.symm.trans (hnone isNull)) (by simp)

lemma exists_isNull (hcontext : getAContext D f i c) :
    ∃ isNull : ℕ → Bool, isNull i = false ∧ c.Holds isNull := by
  obtain ⟨-, ⟨k, ⟨⟨hk, -⟩, -⟩, rfl | rfl⟩ | ⟨-, rfl⟩⟩ := hcontext
  · exact ⟨fun j => j = k, by simpa using Ne.symm hk, by simp [Context.Holds]⟩
  · exact ⟨fun _ => false, rfl, rfl⟩
  · exact ⟨fun _ => false, rfl, trivial⟩

/-- **A defined function counts as conditional for a parameter in a context iff some execution in
this context, with the parameter not null, leaves the parameter unassigned**, where every condition
on the parameters is a null check and at most one other parameter has one. -/
theorem conditional_iff_execution (hwf : WellFormed D f i) (hguards : GuardsAssign D f i)
    (hprecise : Precise D f i) (hdefined : (D.function f).hasDefinition)
    (hvirtual : ¬ (D.function f).isPureVirtual) (hentry : (D.getEntryPoint f).isSome) :
    ConditionalInitializationFunction D f i c ↔
      getAContext D f i c ∧ ReturnsStatus D f ∧
        ∃ isNull : ℕ → Bool, isNull i = false ∧ c.Holds isNull ∧ LeavesUnassigned D f i isNull := by
  refine and_congr_right fun hcontext => and_congr_right fun _ => ⟨fun h => ?_, fun h => ?_⟩
  · obtain ⟨isNull, hi, hc⟩ := exists_isNull hcontext
    refine ⟨isNull, hi, hc, ?_⟩
    rcases h with (⟨hundefined, -⟩ | ⟨hundefined, -⟩) | ⟨-, ⟨-, ⟨hnone, -⟩ | ⟨b, hb, hpath⟩⟩, -⟩
    · exact absurd hdefined hundefined
    · exact absurd hdefined hundefined
    · simp [hnone] at hentry
    · refine ⟨b, hb, ⟨D.exitNode f, isNull⟩, rfl, ?_⟩
      exact hpath.lift (fun n => (⟨n, isNull⟩ : State Node)) fun n m h =>
        ⟨h.step hprecise hcontext hi hc, fun hassigned => h.2.1 hassigned.reassignment⟩
  · obtain ⟨isNull, hi, hc, hrun⟩ := h
    exact .inr ⟨hdefined, notReassignedAt_of_execution hwf hguards hcontext hi hc hrun, hvirtual⟩

end Soundness

/-! ### An example -/

local instance neZero_eight : @NeZero ℕ Zero.ofOfNat0 8 := ⟨Nat.succ_ne_zero 7⟩

/-- `int Init(int *p, int *q) { if (!q) return -1; *p = 0; return 0; }`. The nodes are the body, the
condition, the two returns around the access of `p`, and the function; the last two are arguments of
a call of it. -/
def initExample : InitDatabase Unit (Fin 8) where
  function _ :=
    { getName := "Init", signature := ⟨"Init", "int *,int *"⟩, getParameter := [{}, {}] }
  getEntryPoint _ := some 0
  exitNode _ := 5
  getASuccessor n := if n = 0 then [1] else if n = 1 then [2, 3] else if n = 2 then [5]
    else if n = 3 then [4] else if n = 4 then [5] else []
  getATrueSuccessor n := if n = 1 then [2] else []
  getAFalseSuccessor n := if n = 1 then [3] else []
  condition _ n := if n = 1 then some (.not (.param 1)) else none
  access _ n := if n = 3 then some 0 else none
  isDereferenceTarget n := n = 3

def initCall : Call Unit (Fin 8) where
  getArgument := [(6, .addressOf), (7, .addressOf)]
  staticTarget := some ()
  getAViableTarget := [()]

lemma init_initializes : InitializationFunction initExample () 0 :=
  .arise (.inl ⟨3, rfl, .inl rfl⟩)

lemma init_check {n : Fin 8} {j : ℕ} : ParameterNullCheck initExample () n j ↔ n = 1 ∧ j = 1 := by
  refine ⟨fun ⟨_, _, ⟨t, ht, htest⟩, _⟩ => ?_, ?_⟩
  · have hn : n = 1 := by
      by_contra hn
      simp [initExample, hn] at ht
    subst hn
    obtain rfl := Option.some.inj ht
    rcases htest with htest | htest
    · exact ⟨rfl, (Option.some.inj htest).symm⟩
    · exact absurd htest (by simp [Test.nullIfFalse])
  · rintro ⟨rfl, rfl⟩
    exact ⟨⟨0, init_initializes⟩, ⟨{}, rfl, rfl⟩, ⟨_, rfl, .inl rfl⟩, by decide, by decide⟩

lemma init_other {j : ℕ} : OtherChecked initExample () 0 j ↔ j = 1 := by
  refine ⟨fun ⟨_, n, hn⟩ => (init_check.mp hn).2, ?_⟩
  rintro rfl
  exact ⟨by decide, 1, init_check.mpr ⟨rfl, rfl⟩⟩

lemma init_context {c : Context} :
    getAContext initExample () 0 c ↔ c = .paramNull 1 ∨ c = .paramNotNull 1 := by
  have hone : ∃ j, OtherChecked initExample () 0 j ∧ ∀ k, OtherChecked initExample () 0 k → k = j :=
    ⟨1, init_other.mpr rfl, fun k hk => init_other.mp hk⟩
  refine ⟨fun ⟨_, h⟩ => ?_, fun h => ⟨init_initializes, .inl ⟨1, ⟨init_other.mpr rfl, ?_⟩, h⟩⟩⟩
  · rcases h with ⟨j, ⟨hj, -⟩, hc⟩ | ⟨hnone, -⟩
    · rwa [init_other.mp hj] at hc
    · exact absurd hone hnone
  · exact fun k hk => init_other.mp hk

lemma init_wellFormed : WellFormed initExample () 0 := ⟨by decide, by simp [initExample]⟩

lemma init_assigned {n : Fin 8} (h : ParamReassignment initExample () 0 n) :
    n = 3 ∧ Assigned initExample () 0 n := by
  cases h with
  | assigned ha hthrough =>
    refine ⟨?_, .inl ⟨ha, hthrough⟩⟩
    by_contra hn
    simp [initExample, hn] at ha
  | assumed h => simp [initExample] at h
  | guard _ hcheck => exact absurd hcheck List.not_mem_nil

lemma init_guards : GuardsAssign initExample () 0 := fun _ _ h _ _ _ => (init_assigned h).2

lemma init_status : ReturnsStatus initExample () := by
  refine ⟨?_, rfl, by decide⟩
  exact (by decide : ¬ whitelisted "Init")

/-- With the other parameter not null, the search comes no further than the condition. -/
lemma init_not_conditional : ¬ ConditionallyInitializedArgument initExample initCall () 0 := by
  rintro ⟨-, -, c, ⟨hcontext, -, h⟩, hcontra, -⟩
  rcases init_context.mp hcontext with rfl | rfl
  · exact hcontra ⟨_, rfl, .inl rfl⟩
  · rcases h with (⟨hundefined, -⟩ | ⟨hundefined, -⟩) | ⟨-, ⟨-, ⟨hnone, -⟩ | ⟨b, hb, hpath⟩⟩, -⟩
    · exact hundefined rfl
    · exact hundefined rfl
    · simp [initExample] at hnone
    · obtain rfl : b = 0 := (Option.mem_some_iff.mp hb).symm
      have hstay : ∀ n, ReflTransGen (Passes initExample () 0 (.paramNotNull 1)) 0 n →
          n = 0 ∨ n = 1 := by
        intro n hn
        induction hn with
        | refl => exact .inl rfl
        | @tail n m _ hstep ih =>
          obtain ⟨hm, hassign, -, hignored⟩ := hstep
          rcases ih with rfl | rfl
          · exact .inr (List.mem_singleton.mp hm)
          · exfalso
            rcases List.mem_pair.mp hm with rfl | rfl
            · exact hignored
                ⟨1, init_check.mpr ⟨rfl, rfl⟩, .inr ⟨rfl, _, rfl, .inl ⟨rfl, by decide⟩⟩⟩
            · exact hassign (.assigned rfl (.inl rfl))
      exact absurd (hstay 5 hpath) (by decide)

theorem assigns_of_not_conditional_init : ¬ LeavesUnassigned initExample () 0 fun _ => false := by
  have harguments : ∀ j < 2, (initCall.getArgument[j]?).isSome := by decide
  have htarget : getTarget initExample initCall () :=
    .inl ⟨⟨(), by decide, rfl⟩, by decide, rfl⟩
  refine assigns_of_not_conditional init_wellFormed init_guards init_initializes rfl init_status
    (by decide) htarget rfl harguments (by decide) init_not_conditional (fun j a ha => ?_) rfl
  have hwritten : a.2 = .addressOf := by
    have hall : ∀ a ∈ initCall.getArgument, a.2 = .addressOf := by decide
    exact hall a (List.mem_of_getElem? ha)
  exact ⟨fun _ => rfl, fun hzero => absurd (hwritten.symm.trans hzero) (by decide)⟩

/-- With the other parameter null, the function leaves the parameter unassigned. -/
theorem conditional_iff_execution_init :
    ConditionalInitializationFunction initExample () 0 (.paramNull 1) := by
  have hprecise : Precise initExample () 0 := by
    refine ⟨fun n t ht => .inl ⟨1, init_check.mpr ⟨?_, rfl⟩⟩, fun j k hj hk => ?_, by decide⟩
    · by_contra hn
      simp [initExample, hn] at ht
    · rw [init_other.mp hj, init_other.mp hk]
  refine (conditional_iff_execution init_wellFormed init_guards hprecise rfl (by decide) rfl).mpr
    ⟨init_context.mpr (.inl rfl), init_status, fun j => j = 1, by decide, rfl, 0, rfl,
      ⟨5, fun j => j = 1⟩, rfl, ?_⟩
  have hnot : ∀ n, n ≠ 3 → ¬ Assigned initExample () 0 n := fun n hn h =>
    hn (init_assigned h.reassignment).1
  have hstep : ∀ n m : Fin 8, m ∈ initExample.getASuccessor n → m ≠ 3 →
      Step initExample () ⟨n, fun j => j = 1⟩ ⟨m, fun j => j = 1⟩ := by
    intro n m hm hne
    refine ⟨hm, fun t ht b hb => ?_, fun _ _ => rfl⟩
    have hn : n = 1 := by
      by_contra hn
      simp [initExample, hn] at ht
    subst hn
    obtain rfl := Option.some.inj ht
    obtain rfl : b = true := (Option.some.inj hb).symm
    rcases List.mem_pair.mp hm with rfl | rfl
    · decide
    · exact absurd rfl hne
  exact .head (b := ⟨1, _⟩) ⟨hstep 0 1 (by decide) (by decide), hnot 1 (by decide)⟩ <|
    .head (b := ⟨2, _⟩) ⟨hstep 1 2 (by decide) (by decide), hnot 2 (by decide)⟩ <|
    .single ⟨hstep 2 5 (by decide) (by decide), hnot 5 (by decide)⟩

end DriverQueries.InitFunctions
