import DriverQueries.Precision

/-!
The values of the fallback, and the IRQL at the end of a statement.

Where the cascade is silent, the fallback has the values of the cascade at the node of a sibling
statement. The nodes of the statement's expressions come after this node, so these are values
before the statement. Runs end the statement at them where it can be passed through without a call
that changes the IRQL.
-/

namespace DriverQueries.Fallback

open Relation DriverQueries.Sal DriverQueries.Database DriverQueries.Calls DriverQueries.Paths
open DriverQueries.CopyRules DriverQueries.Cascade DriverQueries.Runs DriverQueries.Totality
open DriverQueries.Precision

variable {Fn Node : Type} (P : Program Fn Node)

/-! ### The end of a statement -/

def InStmt (s n : Node) : Prop := ReflTransGen (fun x y => y ∈ P.getParent x) n s

instance [DecidableEq Node] [Fintype Node] (s n : Node) : Decidable (InStmt P s n) :=
  decidableReach _ _

/-- What can come after the node, which is in the statement, is not in it. -/
def EndsStmt (s n : Node) : Prop := InStmt P s n ∧ ∃ m, P.Edge n m ∧ ¬ InStmt P s m

/-- Some run completes the statement at the IRQL. -/
def CompletesAt {P : Program Fn Node} (W : World P) (s : Node) (v : ℤ) : Prop :=
  ∃ n, EndsStmt P s n ∧ RunAt W n v

/-- An edge to a node that is no call, or calls a function that requires the same IRQL. -/
def QuietEdge (n m : Node) : Prop :=
  P.Edge n m ∧ (FunctionCall P m → P.CallTo IrqlRequiresSameAnnotatedFunction m)

/-- A way through the statement makes no call but of functions that require the same IRQL. -/
def QuietWay (s : Node) : Prop := ∃ n, EndsStmt P s n ∧ ReflTransGen (QuietEdge P) s n

/-! ### The values of the fallback -/

variable [DecidableEq Fn] [DecidableEq Node] [Fintype Node] {P} {W : World P} {cfn s n : Node}
  {v : ℤ}

variable (P) in
def Silent (cfn : Node) : Prop := ¬ ∃ v, getPotentialExitIrqlAtCfnInternal P cfn v

instance (cfn : Node) : Decidable (Silent P cfn) :=
  decidable_of_iff (¬ LeadsToLevel P cfn) (not_congr exists_internal_iff.symm)

/-- What the estimate has at the node from a sibling are IRQLs at the end of the sibling, and it
adds nothing to the cascade where this has a value. -/
structure FallbackSound (W : World P) (cfn : Node) : Prop where
  completes : Silent P cfn → ∀ prev v, ClosestBefore P cfn prev →
    getPotentialExitIrqlAtCfnInternal P prev v → CompletesAt W prev v
  binds : ¬ Silent P cfn → ∀ v, getPotentialExitIrqlAtCfn P cfn v →
    getPotentialExitIrqlAtCfnInternal P cfn v

lemma internal_of_not_silent (hbinds : ¬ Silent P cfn) (h : getPotentialExitIrqlAtCfn P cfn v) :
    getPotentialExitIrqlAtCfnInternal P cfn v := by
  obtain h | ⟨hsilent, -⟩ := h
  · exact h
  · exact absurd hsilent hbinds

lemma runAt_of_quiet (h : Realised W) (hs : RunAt W s v)
    (hway : ReflTransGen (QuietEdge P) s n) : RunAt W n v := by
  induction hway with
  | refl => exact hs
  | @tail k n _ hstep ih =>
    obtain ⟨c, hc, rfl, rfl⟩ := ih
    obtain ⟨hedge, hquiet⟩ := hstep
    by_cases hcall : FunctionCall P n
    · exact h.returned n (hquiet hcall) c hc hedge
    · exact runAt_of_step hc (.pass hedge hcall)

variable (W s) in
/-- The levels at the statement belong to runs, and a way leads through it that keeps the IRQL. -/
structure PassedQuietly : Prop where
  live : ∀ m, ReflTransGen (copiesFrom P) s m → Live W m
  way : QuietWay P s

local instance neZero_ten : @NeZero ℕ Zero.ofOfNat0 10 := ⟨Nat.succ_ne_zero 9⟩

/-- The call that lowers. Its argument is the node before. -/
def lowering (lowerFirst : Bool) : Fin 10 := if lowerFirst then 5 else 7

def second (lowerFirst : Bool) : Fin 10 := if lowerFirst then 6 else 5

/-- `_IRQL_requires_(DISPATCH_LEVEL) void routine() { for (;;) { ... } }` with the statements
`work;` and `KeLowerIrql(PASSIVE_LEVEL);` in the loop, on a line each. The nodes are the body, the
loop, its statement, the two statements in it with their expressions, and the exits of the routine
and of `KeLowerIrql`. -/
def loopWith (lowerFirst : Bool) : Program Bool (Fin 10) where
  macros := wdm
  function routine :=
    if routine then { getName := "routine", declAnnotations :=
      [{ getMacroName := "_IRQL_requires_", getUnexpandedArgument := ["DISPATCH_LEVEL"] }] }
    else { getName := "KeLowerIrql" }
  getBlock routine := if routine then some 0 else none
  exitNode routine := if routine then 8 else 9
  getASuccessor n := if n < 7 then [n + 1] else if n = 7 then [2] else []
  getControlFlowScope n := some (n ≠ 9)
  getTarget n := if n = lowering lowerFirst then some false else none
  getArgument n := if n = lowering lowerFirst then [n - 1] else []
  literalValue n := if n = lowering lowerFirst - 1 then some "0" else none
  getEnclosingStmt n :=
    if n < 4 then some n else if n < second lowerFirst then some 3
    else if n < 8 then some (second lowerFirst) else none
  getParent n :=
    if n = 1 then some 0 else if n = 2 then some 1
    else if n = 3 ∨ n = second lowerFirst then some 2
    else if n = lowering lowerFirst - 1 then some (lowering lowerFirst)
    else if 3 < n ∧ n < second lowerFirst then some 3
    else if 3 < n ∧ n < 8 then some (second lowerFirst) else none
  isStmt n := n ≤ 3 ∨ n = second lowerFirst
  isLoop n := n = 1
  startLine n := if n < 3 then 1 else if n < second lowerFirst then 2 else 3
  successor_scope := by cases lowerFirst <;> decide
  exit_scope := by cases lowerFirst <;> decide
  exit_enclosing := by cases lowerFirst <;> decide
  block_scope := by cases lowerFirst <;> decide
  block_enclosing := by cases lowerFirst <;> decide

def literalWorld (lowerFirst : Bool) : World (loopWith lowerFirst) where
  values e := if e = lowering lowerFirst - 1 then [0] else []
  literal e v h := by
    by_cases he : e = lowering lowerFirst - 1
    · simp only [loopWith, if_pos he, Option.bind_some] at h
      have hv : v = 0 := (Option.some.inj h).symm
      rw [if_pos he, hv]
    · simp [loopWith, he] at h

/-- The configurations of the first round: at `DISPATCH_LEVEL` up to the call, and at
`PASSIVE_LEVEL` from the call on. -/
def firstRound (lowerFirst : Bool) : List (Config (Fin 10)) :=
  ([0, 1, 2, 3, 4, 5, 6, 7] : List (Fin 10)).map fun n =>
    ⟨n, if n < lowering lowerFirst then 2 else 0, [], []⟩

/-- The configurations of all rounds. -/
def loopRuns (lowerFirst : Bool) : List (Config (Fin 10)) :=
  firstRound lowerFirst ++ ([2, 3, 4, 5, 6, 7] : List (Fin 10)).map fun n => ⟨n, 0, [], []⟩

lemma mem_loopRuns {lowerFirst : Bool} {c : Config (Fin 10)}
    (h : Reachable (literalWorld lowerFirst) c) : c ∈ loopRuns lowerFirst := by
  refine mem_of_reachable ?_ ?_ h
  · cases lowerFirst <;> decide
  · cases lowerFirst <;> decide

lemma live_of_lt {n : Fin 10} (hn : n < 8) : Live (literalWorld false) n := by
  have hround : ∀ n : Fin 10, n < 8 → ∃ c ∈ firstRound false, c.node = n := by decide
  have hchain : List.IsChain (Step (literalWorld false)) (firstRound false) := by decide
  obtain ⟨c, hc, hnode⟩ := hround n hn
  refine ⟨c, ?_, hnode⟩
  refine hchain.induction (fun c => Reachable (literalWorld false) c) _
    (fun _ _ hstep hc => hc.tail hstep) (fun _ => ?_) c hc
  exact ⟨⟨0, 2, [], []⟩, ⟨rfl, rfl, true, by decide⟩, .refl⟩

lemma loopWith_realised : Realised (literalWorld false) := by
  have hnone : ∀ n g, (loopWith false).getTarget n = some g →
      (loopWith false).getBlock g = none := by decide
  have hraise : ∀ n, ¬ KeRaiseIrqlCall (loopWith false) n := by decide
  have hsame : ∀ n, ¬ (loopWith false).CallTo IrqlRequiresSameAnnotatedFunction n := by decide
  have hkeeps : ∀ c ∈ loopRuns false, KeepsAnnotations (loopWith false) c := by decide
  exact {
    entry := by unfold EntryNodes; decide
    onlyLowers := by unfold OnlyLowers; decide
    ends := (externals_of_none (by decide)).level
    truthful := fun c hc => hkeeps c (mem_loopRuns hc)
    received := fun _ r _ hr => absurd hr.1 (hraise r)
    oneLevel := by decide
    primitive := fun n g hg hbody => absurd hbody (by simp [hnone n g hg])
    sites := fun n _ g hg _ hbody => absurd hbody (by simp [hnone n g hg])
    lowered := fun _ r _ hr => absurd hr.1 (hraise r)
    returned := fun n hn => absurd hn (hsame n) }

end DriverQueries.Fallback
