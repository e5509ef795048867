import Mathlib.Computability.Language

/-!
Structured bodies and the orders in which their calls run.

An execution of a body is the list of the calls it makes, so the executions are a language: a
sequence is a product, a branch a sum and a loop a star. Some execution makes given calls in a
given order when these are a subword of one of its words, and this can be read off the body: all
calls of a loop come in any order, the others as they are written.
-/

namespace DriverQueries.Structured

open Computability

variable {α : Type*} {L M : Language α} {w u v : List α} {x : α}

/-! ### Subwords -/

/-- Some word of the language has these letters in this order. -/
def Subword (L : Language α) (w : List α) : Prop := ∃ t ∈ L, w.Sublist t

/-- The list is one of the first kind followed by one of the second. -/
def Split (p q : List α → Prop) (w : List α) : Prop :=
  ∃ i ∈ List.range (w.length + 1), p (w.take i) ∧ q (w.drop i)

instance (p q : List α → Prop) [DecidablePred p] [DecidablePred q] : DecidablePred (Split p q) :=
  fun _ => inferInstanceAs (Decidable (∃ i ∈ _, _))

lemma split_iff {p q : List α → Prop} : Split p q w ↔ ∃ u v, w = u ++ v ∧ p u ∧ q v := by
  refine ⟨fun h => ?_, fun h => ?_⟩
  · obtain ⟨i, -, hp, hq⟩ := h
    exact ⟨_, _, (List.take_append_drop i w).symm, hp, hq⟩
  · obtain ⟨u, v, rfl, hp, hq⟩ := h
    refine ⟨u.length, List.mem_range.mpr (by rw [List.length_append]; omega), ?_, ?_⟩
    · simpa using hp
    · simpa using hq

lemma split_congr {p q p' q' : List α → Prop} (hp : ∀ u, p u ↔ p' u) (hq : ∀ u, q u ↔ q' u) :
    Split p q w ↔ Split p' q' w := by
  simp only [Split, hp, hq]

lemma Subword.mono (h : Subword L w) (hv : v.Sublist w) : Subword L v := by
  obtain ⟨t, ht, hw⟩ := h
  exact ⟨t, ht, hv.trans hw⟩

lemma Subword.letter (h : Subword L w) (hx : x ∈ w) : Subword L [x] :=
  h.mono (List.singleton_sublist.mpr hx)

lemma subword_one : Subword (1 : Language α) w ↔ w = [] := by
  simp [Subword, Language.mem_one]

lemma subword_singleton : Subword ({[x]} : Language α) w ↔ w = [] ∨ w = [x] := by
  refine ⟨fun h => ?_, fun h => ⟨[x], rfl, List.sublist_singleton.mpr h⟩⟩
  obtain ⟨t, rfl, hw⟩ := h
  exact List.sublist_singleton.mp hw

lemma subword_add : Subword (L + M) w ↔ Subword L w ∨ Subword M w := by
  simp only [Subword, Language.mem_add, or_and_right, exists_or]

lemma subword_mul : Subword (L * M) w ↔ Split (Subword L) (Subword M) w := by
  rw [split_iff]
  refine ⟨fun h => ?_, fun h => ?_⟩
  · obtain ⟨t, ht, hw⟩ := h
    obtain ⟨a, ha, b, hb, rfl⟩ := Language.mem_mul.mp ht
    obtain ⟨u, v, rfl, hu, hv⟩ := List.sublist_append_iff.mp hw
    exact ⟨u, v, rfl, ⟨a, ha, hu⟩, ⟨b, hb, hv⟩⟩
  · obtain ⟨u, v, rfl, ⟨a, ha, hu⟩, ⟨b, hb, hv⟩⟩ := h
    exact ⟨a ++ b, Language.append_mem_mul ha hb, hu.append hv⟩

lemma letter_mul (hL : Subword L []) (hM : Subword M []) :
    Subword (L * M) [x] ↔ Subword L [x] ∨ Subword M [x] := by
  rw [subword_mul, split_iff]
  refine ⟨fun h => ?_, fun h => ?_⟩
  · obtain ⟨u, v, heq, hu, hv⟩ := h
    obtain ⟨rfl, rfl⟩ | ⟨rfl, rfl⟩ := List.append_eq_singleton_iff.mp heq.symm
    · exact Or.inr hv
    · exact Or.inl hu
  · obtain h | h := h
    · exact ⟨[x], [], rfl, h, hM⟩
    · exact ⟨[], [x], rfl, hL, h⟩

lemma nil_mul (hL : Subword L []) (hM : Subword M []) : Subword (L * M) [] :=
  subword_mul.mpr (split_iff.mpr ⟨[], [], rfl, hL, hM⟩)

lemma nil_kstar : Subword L∗ [] := ⟨[], Language.nil_mem_kstar L, List.nil_sublist _⟩

/-- **Repetition lets the letters come in any order.** -/
theorem subword_kstar : Subword L∗ w ↔ ∀ x ∈ w, Subword L [x] := by
  refine ⟨fun h x hx => ?_, fun h => ?_⟩
  · obtain ⟨t, ht, hw⟩ := h
    obtain ⟨words, rfl, hwords⟩ := Language.mem_kstar.mp ht
    obtain ⟨y, hy, hxy⟩ := List.mem_flatten.mp (hw.subset hx)
    exact ⟨y, hwords y hy, List.singleton_sublist.mpr hxy⟩
  · induction w with
    | nil => exact nil_kstar
    | cons x w ih =>
      rw [← Language.one_add_self_mul_kstar_eq_kstar, subword_add, subword_mul, split_iff]
      obtain ⟨hx, hw⟩ := List.forall_mem_cons.mp h
      exact Or.inr ⟨[x], w, rfl, hx, ih hw⟩

lemma subword_kstar_mul (hM : Subword M []) (hletters : ∀ x, Subword M [x] → Subword L [x]) :
    Subword (L∗ * M) w ↔ ∀ x ∈ w, Subword L [x] := by
  rw [subword_mul, split_iff]
  refine ⟨fun h => ?_, fun h => ⟨w, [], by simp, subword_kstar.mpr h, hM⟩⟩
  obtain ⟨u, v, rfl, hu, hv⟩ := h
  exact List.forall_mem_append.mpr
    ⟨subword_kstar.mp hu, fun x hx => hletters x (hv.letter hx)⟩

/-! ### Bodies -/

/-- The calls of an expression, in the order of their evaluation. What is evaluated only under a
condition is a choice. -/
inductive Expr (α : Type*)
  | value
  | call (c : α)
  | seq (a b : Expr α)
  | choice (a b : Expr α)

/-- A block is a chain of `seq`. -/
inductive Stmt (α : Type*)
  | expr (e : Expr α)
  | seq (a b : Stmt α)
  | ifStmt (condition : Expr α) (t e : Stmt α)
  | whileStmt (condition : Expr α) (s : Stmt α)
  | doStmt (s : Stmt α) (condition : Expr α)
  | forStmt (initialization : Stmt α) (condition update : Expr α) (s : Stmt α)

namespace Expr

def calls : Expr α → List α
  | value => []
  | call c => [c]
  | seq a b | choice a b => a.calls ++ b.calls

def runs : Expr α → Language α
  | value => 1
  | call c => {[c]}
  | seq a b => a.runs * b.runs
  | choice a b => a.runs + b.runs

/-- Some evaluation makes these calls in this order. -/
def InOrder : Expr α → List α → Prop
  | value, w => w = []
  | call c, w => w = [] ∨ w = [c]
  | seq a b, w => Split a.InOrder b.InOrder w
  | choice a b, w => a.InOrder w ∨ b.InOrder w

instance decidableInOrder [DecidableEq α] : (e : Expr α) → DecidablePred e.InOrder
  | value => fun _ => inferInstanceAs (Decidable (_ = _))
  | call _ => fun _ => inferInstanceAs (Decidable (_ ∨ _))
  | seq a b =>
    have := decidableInOrder a
    have := decidableInOrder b
    fun w => inferInstanceAs (Decidable (Split a.InOrder b.InOrder w))
  | choice a b =>
    have := decidableInOrder a
    have := decidableInOrder b
    fun w => inferInstanceAs (Decidable (a.InOrder w ∨ b.InOrder w))

theorem subword_iff (e : Expr α) : Subword e.runs w ↔ e.InOrder w := by
  induction e generalizing w with
  | value => exact subword_one
  | call c => exact subword_singleton
  | seq a b iha ihb => exact subword_mul.trans (split_congr (fun _ => iha) fun _ => ihb)
  | choice a b iha ihb => exact subword_add.trans (or_congr iha ihb)

lemma nil_runs (e : Expr α) : Subword e.runs [] := by
  induction e with
  | value => exact subword_one.mpr rfl
  | call c => exact ⟨[c], rfl, List.nil_sublist _⟩
  | seq a b iha ihb => exact nil_mul iha ihb
  | choice a b iha ihb => exact subword_add.mpr (Or.inl iha)

lemma letter_iff (e : Expr α) : Subword e.runs [x] ↔ x ∈ e.calls := by
  induction e with
  | value => simp [runs, calls, subword_one]
  | call c => simp [runs, calls, subword_singleton]
  | seq a b iha ihb =>
    rw [runs, letter_mul a.nil_runs b.nil_runs, iha, ihb, calls, List.mem_append]
  | choice a b iha ihb => rw [runs, subword_add, iha, ihb, calls, List.mem_append]

end Expr

namespace Stmt

def calls : Stmt α → List α
  | expr e => e.calls
  | seq a b => a.calls ++ b.calls
  | ifStmt condition t e => condition.calls ++ (t.calls ++ e.calls)
  | whileStmt condition s => condition.calls ++ s.calls
  | doStmt s condition => s.calls ++ condition.calls
  | forStmt initialization condition update s =>
    initialization.calls ++ (condition.calls ++ (s.calls ++ update.calls))

/-- The calls of the executions. Every condition can come out either way. -/
def runs : Stmt α → Language α
  | expr e => e.runs
  | seq a b => a.runs * b.runs
  | ifStmt condition t e => condition.runs * (t.runs + e.runs)
  | whileStmt condition s => (condition.runs * s.runs)∗ * condition.runs
  | doStmt s condition => (s.runs * condition.runs)∗ * (s.runs * condition.runs)
  | forStmt initialization condition update s =>
    initialization.runs * ((condition.runs * (s.runs * update.runs))∗ * condition.runs)

/-- Some execution makes these calls in this order. -/
def InOrder : Stmt α → List α → Prop
  | expr e, w => e.InOrder w
  | seq a b, w => Split a.InOrder b.InOrder w
  | ifStmt condition t e, w => Split condition.InOrder (fun v => t.InOrder v ∨ e.InOrder v) w
  | whileStmt condition s, w => ∀ x ∈ w, x ∈ condition.calls ++ s.calls
  | doStmt s condition, w => ∀ x ∈ w, x ∈ s.calls ++ condition.calls
  | forStmt initialization condition update s, w =>
    Split initialization.InOrder
      (fun v => ∀ x ∈ v, x ∈ condition.calls ++ (s.calls ++ update.calls)) w

instance decidableInOrder [DecidableEq α] : (s : Stmt α) → DecidablePred s.InOrder
  | expr e => fun w => inferInstanceAs (Decidable (e.InOrder w))
  | seq a b =>
    have := decidableInOrder a
    have := decidableInOrder b
    fun w => inferInstanceAs (Decidable (Split a.InOrder b.InOrder w))
  | ifStmt condition t e =>
    have := decidableInOrder t
    have := decidableInOrder e
    fun w => inferInstanceAs
      (Decidable (Split condition.InOrder (fun v => t.InOrder v ∨ e.InOrder v) w))
  | whileStmt _ _ => fun _ => inferInstanceAs (Decidable (∀ x ∈ _, _))
  | doStmt _ _ => fun _ => inferInstanceAs (Decidable (∀ x ∈ _, _))
  | forStmt initialization condition update s =>
    have := decidableInOrder initialization
    fun w => inferInstanceAs (Decidable (Split initialization.InOrder
      (fun v => ∀ x ∈ v, x ∈ condition.calls ++ (s.calls ++ update.calls)) w))

lemma nil_runs (s : Stmt α) : Subword s.runs [] := by
  induction s with
  | expr e => exact e.nil_runs
  | seq a b iha ihb => exact nil_mul iha ihb
  | ifStmt c t e iht ihe => exact nil_mul c.nil_runs (subword_add.mpr (Or.inl iht))
  | whileStmt c s ih => exact nil_mul nil_kstar c.nil_runs
  | doStmt s c ih => exact nil_mul nil_kstar (nil_mul ih c.nil_runs)
  | forStmt i c u s ihi ihs => exact nil_mul ihi (nil_mul nil_kstar c.nil_runs)

lemma subword_rounds {c : Expr α} {M : Language α} (hM : Subword M []) :
    Subword ((c.runs * M)∗ * c.runs) w ↔ ∀ x ∈ w, x ∈ c.calls ∨ Subword M [x] := by
  have hletter : ∀ x, Subword (c.runs * M) [x] ↔ x ∈ c.calls ∨ Subword M [x] := fun x => by
    rw [letter_mul c.nil_runs hM, c.letter_iff]
  rw [subword_kstar_mul c.nil_runs fun x hx => (hletter x).mpr (Or.inl (c.letter_iff.mp hx))]
  exact forall₂_congr fun x _ => hletter x

/-- Every call of a statement is made by some execution. -/
lemma letter_iff (s : Stmt α) : Subword s.runs [x] ↔ x ∈ s.calls := by
  induction s with
  | expr e => exact e.letter_iff
  | seq a b iha ihb => rw [runs, letter_mul a.nil_runs b.nil_runs, iha, ihb, calls, List.mem_append]
  | ifStmt c t e iht ihe =>
    have hnil : Subword (t.runs + e.runs) [] := subword_add.mpr (Or.inl t.nil_runs)
    rw [runs, letter_mul c.nil_runs hnil, subword_add, c.letter_iff, iht, ihe]
    simp only [calls, List.mem_append]
  | whileStmt c s ih =>
    rw [runs, subword_rounds s.nil_runs, List.forall_mem_singleton, ih, calls, List.mem_append]
  | doStmt s c ih =>
    have hnil := nil_mul s.nil_runs c.nil_runs
    rw [runs, subword_kstar_mul hnil fun _ => id, List.forall_mem_singleton,
      letter_mul s.nil_runs c.nil_runs, ih, c.letter_iff, calls, List.mem_append]
  | forStmt i c u s ihi ihs =>
    have hnil := nil_mul s.nil_runs u.nil_runs
    rw [runs, letter_mul i.nil_runs (nil_mul nil_kstar c.nil_runs), subword_rounds hnil,
      List.forall_mem_singleton, letter_mul s.nil_runs u.nil_runs, ihi, ihs, u.letter_iff]
    simp only [calls, List.mem_append]

/-- **Some execution makes the calls in the order iff the body has them in the order.** -/
theorem subword_iff (s : Stmt α) : Subword s.runs w ↔ s.InOrder w := by
  induction s generalizing w with
  | expr e => exact e.subword_iff
  | seq a b iha ihb => exact subword_mul.trans (split_congr (fun _ => iha) fun _ => ihb)
  | ifStmt c t e iht ihe =>
    exact subword_mul.trans
      (split_congr (fun _ => c.subword_iff) fun _ => subword_add.trans (or_congr iht ihe))
  | whileStmt c s ih =>
    simp only [runs, InOrder, subword_rounds s.nil_runs, s.letter_iff, List.mem_append]
  | doStmt s c ih =>
    have hnil := nil_mul s.nil_runs c.nil_runs
    simp only [runs, InOrder, subword_kstar_mul hnil fun _ => id,
      letter_mul s.nil_runs c.nil_runs, s.letter_iff, c.letter_iff, List.mem_append]
  | forStmt i c u s ihi ihs =>
    refine subword_mul.trans (split_congr (fun _ => ihi) fun v => ?_)
    simp only [subword_rounds (nil_mul s.nil_runs u.nil_runs),
      letter_mul s.nil_runs u.nil_runs, s.letter_iff, u.letter_iff, List.mem_append]

/-! ### Parts of a statement -/

def descendants : Stmt α → List (Stmt α)
  | expr e => [expr e]
  | seq a b => seq a b :: (a.descendants ++ b.descendants)
  | ifStmt condition t e => ifStmt condition t e :: (t.descendants ++ e.descendants)
  | whileStmt condition s => whileStmt condition s :: s.descendants
  | doStmt s condition => doStmt s condition :: s.descendants
  | forStmt initialization condition update s =>
    forStmt initialization condition update s :: (initialization.descendants ++ s.descendants)

/-- The calls of the expressions of a statement: it is their `getEnclosingStmt`. -/
def ownCalls : Stmt α → List α
  | expr e => e.calls
  | seq _ _ => []
  | ifStmt condition _ _ | whileStmt condition _ | doStmt _ condition => condition.calls
  | forStmt _ condition update _ => condition.calls ++ update.calls

section

variable (a b s : Stmt α) (c e : Expr α)

@[simp] lemma ownCalls_expr : (expr e).ownCalls = e.calls := rfl
@[simp] lemma ownCalls_seq : (seq a b).ownCalls = [] := rfl
@[simp] lemma ownCalls_ifStmt : (ifStmt c a b).ownCalls = c.calls := rfl
@[simp] lemma ownCalls_whileStmt : (whileStmt c s).ownCalls = c.calls := rfl
@[simp] lemma ownCalls_doStmt : (doStmt s c).ownCalls = c.calls := rfl
@[simp] lemma ownCalls_forStmt : (forStmt a c e s).ownCalls = c.calls ++ e.calls := rfl

end

/-- `getStmt` of a loop. -/
def getStmt : Stmt α → Option (Stmt α)
  | whileStmt _ s | doStmt s _ | forStmt _ _ _ s => some s
  | _ => none

lemma mem_calls_iff (s : Stmt α) : x ∈ s.calls ↔ ∃ t ∈ s.descendants, x ∈ t.ownCalls := by
  induction s with
  | expr e => simp [calls, descendants]
  | seq a b iha ihb => simp [calls, descendants, or_and_right, exists_or, ← iha, ← ihb]
  | ifStmt c t e iht ihe => simp [calls, descendants, or_and_right, exists_or, ← iht, ← ihe]
  | whileStmt c s ih => simp [calls, descendants, ← ih]
  | doStmt s c ih => simp [calls, descendants, ← ih, or_comm]
  | forStmt i c u s ihi ihs =>
    simp only [calls, descendants, List.mem_append, List.exists_mem_cons_iff, or_and_right,
      exists_or, ← ihi, ← ihs, ownCalls_forStmt]
    tauto

lemma calls_subset {l s : Stmt α} (h : l ∈ s.descendants) : l.calls ⊆ s.calls := by
  induction s with
  | expr e =>
    obtain rfl := List.mem_singleton.mp h
    exact List.Subset.refl _
  | seq a b iha ihb =>
    obtain rfl | h := List.mem_cons.mp h
    · exact List.Subset.refl _
    obtain h | h := List.mem_append.mp h
    · exact List.subset_append_of_subset_left _ (iha h)
    · exact List.subset_append_of_subset_right _ (ihb h)
  | ifStmt c t e iht ihe =>
    obtain rfl | h := List.mem_cons.mp h
    · exact List.Subset.refl _
    refine List.subset_append_of_subset_right _ ?_
    obtain h | h := List.mem_append.mp h
    · exact List.subset_append_of_subset_left _ (iht h)
    · exact List.subset_append_of_subset_right _ (ihe h)
  | whileStmt c s ih =>
    obtain rfl | h := List.mem_cons.mp h
    · exact List.Subset.refl _
    · exact List.subset_append_of_subset_right _ (ih h)
  | doStmt s c ih =>
    obtain rfl | h := List.mem_cons.mp h
    · exact List.Subset.refl _
    · exact List.subset_append_of_subset_left _ (ih h)
  | forStmt i c u s ihi ihs =>
    obtain rfl | h := List.mem_cons.mp h
    · exact List.Subset.refl _
    obtain h | h := List.mem_append.mp h
    · exact List.subset_append_of_subset_left _ (ihi h)
    · exact List.subset_append_of_subset_right _
        (List.subset_append_of_subset_right _ (List.subset_append_of_subset_left _ (ihs h)))

lemma getStmt_calls_subset {l s : Stmt α} (h : s ∈ l.getStmt) : s.calls ⊆ l.calls := by
  cases l with
  | expr e | seq a b | ifStmt c t e => exact absurd h (by simp [getStmt])
  | whileStmt c t =>
    obtain rfl := Option.some.inj h
    exact List.subset_append_right _ _
  | doStmt t c =>
    obtain rfl := Option.some.inj h
    exact List.subset_append_left _ _
  | forStmt i c u t =>
    obtain rfl := Option.some.inj h
    exact List.subset_append_of_subset_right _
      (List.subset_append_of_subset_right _ (List.subset_append_left _ _))

/-! ### Orders without loops -/

/-- A loop has both calls, in its statement or elsewhere. -/
def SharesLoop (s : Stmt α) (x y : α) : Prop :=
  ∃ l ∈ s.descendants, l.getStmt.isSome ∧ x ∈ l.calls ∧ y ∈ l.calls

lemma sublist_of_inOrder_expr {e : Expr α} (h : e.InOrder w) : w.Sublist e.calls := by
  induction e generalizing w with
  | value => exact List.sublist_nil.mpr h
  | call c => exact List.sublist_singleton.mpr h
  | seq a b iha ihb =>
    obtain ⟨u, v, rfl, hu, hv⟩ := split_iff.mp h
    exact (iha hu).append (ihb hv)
  | choice a b iha ihb =>
    obtain h | h := h
    · exact (iha h).trans (List.sublist_append_left _ _)
    · exact (ihb h).trans (List.sublist_append_right _ _)

lemma sublist_of_no_pair {l : List α} (hmem : ∀ x ∈ w, x ∈ l)
    (hpair : ∀ x y, [x, y].Sublist w → x ∈ l → y ∉ l) : w.Sublist l := by
  match w, hmem, hpair with
  | [], _, _ => exact List.nil_sublist _
  | [x], hmem, _ => exact List.singleton_sublist.mpr (hmem x (List.mem_singleton_self x))
  | x :: y :: w, hmem, hpair =>
    exact absurd (hmem y (by simp)) (hpair x y (by simp) (hmem x (by simp)))

lemma SharesLoop.mono {s t : Stmt α} {x y : α} (h : s.SharesLoop x y)
    (hst : s.descendants ⊆ t.descendants) : t.SharesLoop x y := by
  obtain ⟨l, hl, h⟩ := h
  exact ⟨l, hst hl, h⟩

lemma mem_calls_of_inOrder {s : Stmt α} (h : s.InOrder w) (hx : x ∈ w) : x ∈ s.calls :=
  s.letter_iff.mp ((s.subword_iff.mpr h).letter hx)

lemma sublist_of_loop {s : Stmt α} (hs : s.getStmt.isSome) (hself : s ∈ s.descendants)
    (h : s.InOrder w) (hloop : ∀ x y, [x, y].Sublist w → ¬ s.SharesLoop x y) :
    w.Sublist s.calls :=
  sublist_of_no_pair (fun _ => mem_calls_of_inOrder h)
    fun x y hxy hx hy => hloop x y hxy ⟨s, hself, hs, hx, hy⟩

/-- **Calls of which no loop has two come in the order in which the body has them.** -/
theorem sublist_of_inOrder {s : Stmt α} (h : s.InOrder w)
    (hloop : ∀ x y, [x, y].Sublist w → ¬ s.SharesLoop x y) : w.Sublist s.calls := by
  induction s generalizing w with
  | expr e => exact sublist_of_inOrder_expr h
  | seq a b iha ihb =>
    obtain ⟨u, v, rfl, hu, hv⟩ := split_iff.mp h
    refine (iha hu fun x y hxy hshare => ?_).append (ihb hv fun x y hxy hshare => ?_)
    · refine hloop x y (hxy.trans (List.sublist_append_left _ _)) (hshare.mono ?_)
      exact List.subset_cons_of_subset _ (List.subset_append_left _ _)
    · refine hloop x y (hxy.trans (List.sublist_append_right _ _)) (hshare.mono ?_)
      exact List.subset_cons_of_subset _ (List.subset_append_right _ _)
  | ifStmt c t e iht ihe =>
    obtain ⟨u, v, rfl, hu, hv | hv⟩ := split_iff.mp h
    · refine (sublist_of_inOrder_expr hu).append
        ((iht hv fun x y hxy hshare => ?_).trans (List.sublist_append_left _ _))
      refine hloop x y (hxy.trans (List.sublist_append_right _ _)) (hshare.mono ?_)
      exact List.subset_cons_of_subset _ (List.subset_append_left _ _)
    · refine (sublist_of_inOrder_expr hu).append
        ((ihe hv fun x y hxy hshare => ?_).trans (List.sublist_append_right _ _))
      refine hloop x y (hxy.trans (List.sublist_append_right _ _)) (hshare.mono ?_)
      exact List.subset_cons_of_subset _ (List.subset_append_right _ _)
  | whileStmt c s ih => exact sublist_of_loop rfl (by simp [descendants]) h hloop
  | doStmt s c ih => exact sublist_of_loop rfl (by simp [descendants]) h hloop
  | forStmt i c u s ihi ihs => exact sublist_of_loop rfl (by simp [descendants]) h hloop

/-! ### Calls at the ends of an order -/

lemma first_mem (h : x :: w = u ++ v) (hu : u ≠ []) : x ∈ u := by
  cases u with
  | nil => exact absurd rfl hu
  | cons z u =>
    obtain ⟨rfl, -⟩ := List.cons.inj h
    exact List.mem_cons_self

lemma last_mem (h : w ++ [x] = u ++ v) (hv : v ≠ []) : x ∈ v := by
  obtain ⟨v', z, rfl⟩ := List.eq_nil_or_concat v |>.resolve_left hv
  rw [List.concat_eq_append, ← List.append_assoc] at h
  obtain ⟨-, hxz⟩ := List.append_inj' h rfl
  rw [List.singleton_inj.mp hxz]
  simp

variable {y : α} {p q : List α → Prop}

lemma split_of_first (h : Split p q (x :: w)) (hx : ∀ u, p u → x ∉ u) : q (x :: w) := by
  obtain ⟨u, v, heq, hp, hq⟩ := split_iff.mp h
  obtain rfl : u = [] := by_contra fun hu => hx u hp (first_mem heq hu)
  rwa [heq]

lemma split_of_last (h : Split p q (w ++ [x])) (hx : ∀ v, q v → x ∉ v) : p (w ++ [x]) := by
  obtain ⟨u, v, heq, hp, hq⟩ := split_iff.mp h
  obtain rfl : v = [] := by_contra fun hv => hx v hq (last_mem heq hv)
  rw [heq]
  simpa using hp

/-- **Where a loop has the first and the last call of an order, some loop has all its calls**, if
every call stands in one place. -/
theorem exists_loop_of_ends {s : Stmt α} (hnodup : s.calls.Nodup)
    (h : s.InOrder (x :: (w ++ [y]))) (hshare : s.SharesLoop x y) :
    ∃ l ∈ s.descendants, l.getStmt.isSome ∧ ∀ z ∈ x :: (w ++ [y]), z ∈ l.calls := by
  have hself : ∀ {s : Stmt α}, s ∈ s.descendants → s.getStmt.isSome →
      s.InOrder (x :: (w ++ [y])) →
      ∃ l ∈ s.descendants, l.getStmt.isSome ∧ ∀ z ∈ x :: (w ++ [y]), z ∈ l.calls :=
    fun hmem hloop h => ⟨_, hmem, hloop, fun _ => mem_calls_of_inOrder h⟩
  induction s with
  | expr e =>
    obtain ⟨l, hl, hloop, -⟩ := hshare
    obtain rfl := List.mem_singleton.mp hl
    exact absurd hloop (by simp [getStmt])
  | seq a b iha ihb =>
    obtain ⟨l, hl, hloop, hx, hy⟩ := hshare
    obtain ⟨hna, hnb, hdisjoint⟩ := List.nodup_append.mp hnodup
    obtain rfl | hl := List.mem_cons.mp hl
    · exact absurd hloop (by simp [getStmt])
    -- the calls are different, so the part with the shared loop has the whole order
    obtain hl | hl := List.mem_append.mp hl
    · have hword : a.InOrder (x :: w ++ [y]) := split_of_last (p := a.InOrder) h fun v hv hmem =>
        hdisjoint y (calls_subset hl hy) y (mem_calls_of_inOrder hv hmem) rfl
      obtain ⟨k, hk, hall⟩ := iha hna hword ⟨l, hl, hloop, hx, hy⟩
      exact ⟨k, List.mem_cons_of_mem _ (List.mem_append_left _ hk), hall⟩
    · have hword : b.InOrder (x :: (w ++ [y])) := split_of_first (q := b.InOrder) h fun u hu hmem =>
        hdisjoint x (mem_calls_of_inOrder hu hmem) x (calls_subset hl hx) rfl
      obtain ⟨k, hk, hall⟩ := ihb hnb hword ⟨l, hl, hloop, hx, hy⟩
      exact ⟨k, List.mem_cons_of_mem _ (List.mem_append_right _ hk), hall⟩
  | ifStmt c t e iht ihe =>
    obtain ⟨l, hl, hloop, hx, hy⟩ := hshare
    obtain ⟨-, hbranches, hcond⟩ := List.nodup_append.mp hnodup
    obtain ⟨hnt, hne, hdisjoint⟩ := List.nodup_append.mp hbranches
    obtain rfl | hl := List.mem_cons.mp hl
    · exact absurd hloop (by simp [getStmt])
    have hword : t.InOrder (x :: (w ++ [y])) ∨ e.InOrder (x :: (w ++ [y])) := by
      refine split_of_first (q := fun v => t.InOrder v ∨ e.InOrder v) h fun u hu hmem => ?_
      refine hcond x ((sublist_of_inOrder_expr hu).subset hmem) x (List.mem_append.mpr ?_) rfl
      exact (List.mem_append.mp hl).imp (calls_subset · hx) (calls_subset · hx)
    have hfirst : x ∈ x :: (w ++ [y]) := List.mem_cons_self
    obtain hl | hl := List.mem_append.mp hl
    · obtain hword | hword := hword
      · obtain ⟨k, hk, hall⟩ := iht hnt hword ⟨l, hl, hloop, hx, hy⟩
        exact ⟨k, List.mem_cons_of_mem _ (List.mem_append_left _ hk), hall⟩
      · exact absurd rfl
          (hdisjoint x (calls_subset hl hx) x (mem_calls_of_inOrder hword hfirst))
    · obtain hword | hword := hword
      · exact absurd rfl
          (hdisjoint x (mem_calls_of_inOrder hword hfirst) x (calls_subset hl hx))
      · obtain ⟨k, hk, hall⟩ := ihe hne hword ⟨l, hl, hloop, hx, hy⟩
        exact ⟨k, List.mem_cons_of_mem _ (List.mem_append_right _ hk), hall⟩
  | whileStmt c s ih => exact hself (by simp [descendants]) rfl h
  | doStmt s c ih => exact hself (by simp [descendants]) rfl h
  | forStmt i c u s ihi ihs => exact hself (by simp [descendants]) rfl h

end Stmt

end DriverQueries.Structured
