import Mathlib.Data.Finset.Union
import Mathlib.Data.Fintype.Card
import Mathlib.Data.Fintype.EquivFin
import Mathlib.Logic.Relation
import Mathlib.Order.WellFounded

/-!
Paths in a directed graph, and the definitions that reach a node.

The edges are a relation. A path is clear of a set when none of its nodes strictly between
the ends is in the set, and a definition reaches a node when a path clear of the other
definitions leads there. An analysis that drops a definition as soon as some other one can
be reached from it, wherever that is, keeps a subset of the reaching definitions; one section
says when it keeps them all. On a finite graph everything about sets of nodes can be decided.
-/

namespace DriverQueries.Paths

open Relation

variable {α : Type*} {r : α → α → Prop} {D K : α → Prop} {a b c s t : α}

/-- A path from `a` to `b` with no node strictly between the two in `K`. -/
def ClearPath (r : α → α → Prop) (K : α → Prop) (a b : α) : Prop :=
  a = b ∨ ∃ c, ReflTransGen (fun x y => r x y ∧ ¬ K y) a c ∧ r c b

lemma ClearPath.reach (h : ClearPath r K a b) : ReflTransGen r a b := by
  obtain rfl | ⟨c, hac, hcb⟩ := h
  · exact .refl
  · exact ReflTransGen.tail (hac.lift id fun _ _ h => h.1) hcb

lemma ClearPath.head (h : r a c) (hc : ¬ K c) (hcb : ClearPath r K c b) : ClearPath r K a b := by
  obtain rfl | ⟨d, hcd, hdb⟩ := hcb
  · exact Or.inr ⟨a, .refl, h⟩
  · exact Or.inr ⟨d, .head ⟨h, hc⟩ hcd, hdb⟩

lemma ClearPath.mono {K' : α → Prop} (hK : ∀ x, ReflTransGen r a x → K' x → K x)
    (h : ClearPath r K a b) : ClearPath r K' a b := by
  have avoid : ∀ {c}, ReflTransGen (fun x y => r x y ∧ ¬ K y) a c →
      ReflTransGen r a c ∧ ReflTransGen (fun x y => r x y ∧ ¬ K' y) a c := by
    intro c hac
    induction hac with
    | refl => exact ⟨.refl, .refl⟩
    | tail _ hyz ih =>
      have hz := ih.1.tail hyz.1
      exact ⟨hz, ih.2.tail ⟨hyz.1, fun hK' => hyz.2 (hK _ hz hK')⟩⟩
  obtain rfl | ⟨c, hac, hcb⟩ := h
  · exact Or.inl rfl
  · exact Or.inr ⟨c, (avoid hac).2, hcb⟩

lemma clearPath_of_reach (h : ReflTransGen r a b) (hK : ∀ d, K d → ¬ ReflTransGen r a d) :
    ClearPath r K a b := by
  have avoid : ∀ {c}, ReflTransGen r a c → ReflTransGen (fun x y => r x y ∧ ¬ K y) a c := by
    intro c hac
    induction hac with
    | refl => exact .refl
    | tail hxy hyz ih => exact ih.tail ⟨hyz, fun hz => hK _ hz (hxy.tail hyz)⟩
  obtain h | ⟨c, hac, hcb⟩ := (ReflTransGen.cases_tail_iff r a b).mp h
  · exact Or.inl h.symm
  · exact Or.inr ⟨c, avoid hac, hcb⟩

lemma exists_last (h : ReflTransGen r a b) :
    ClearPath r K a b ∨ ∃ d, K d ∧ ReflTransGen r a d ∧ ClearPath r K d b := by
  induction h using ReflTransGen.head_induction_on with
  | refl => exact Or.inl (Or.inl rfl)
  | head hac hcb ih =>
    rename_i x y
    obtain hclear | ⟨d, hd, hyd, hdb⟩ := ih
    · by_cases hy : K y
      · exact Or.inr ⟨y, hy, .single hac, hclear⟩
      · exact Or.inl (hclear.head hac hy)
    · exact Or.inr ⟨d, hd, hyd.head hac, hdb⟩

/-- A path of one step or more, with no node strictly between its ends in `K`. -/
def ClearRun (r : α → α → Prop) (K : α → Prop) (a b : α) : Prop :=
  ∃ c, ReflTransGen (fun x y => r x y ∧ ¬ K y) a c ∧ r c b

lemma ClearRun.mono {K' : α → Prop} (hK : ∀ x, K' x → K x) (h : ClearRun r K a b) :
    ClearRun r K' a b := by
  obtain ⟨c, hac, hcb⟩ := h
  refine ⟨c, ReflTransGen.mono (fun x y hstep => ?_) _ _ hac, hcb⟩
  exact ⟨hstep.1, fun hk => hstep.2 (hK y hk)⟩

/-! ### Reaching definitions -/

/-- The definition `s` reaches `t`: a path leads there clear of the other definitions. -/
def ReachingDef (r : α → α → Prop) (D : α → Prop) (s t : α) : Prop :=
  D s ∧ ClearPath r (fun d => D d ∧ d ≠ s) s t

lemma ReachingDef.reach (h : ReachingDef r D s t) : ReflTransGen r s t := h.2.reach

lemma reachingDef_congr {D' : α → Prop} (h : ∀ d, ReflTransGen r s d → (D d ↔ D' d)) :
    ReachingDef r D s t ↔ ReachingDef r D' s t := by
  refine and_congr (h s .refl) ⟨fun hclear => ?_, fun hclear => ?_⟩
  · exact hclear.mono fun d hd hk => ⟨(h d hd).mpr hk.1, hk.2⟩
  · exact hclear.mono fun d hd hk => ⟨(h d hd).mp hk.1, hk.2⟩

lemma exists_reachingDef (hs : D s) (h : ReflTransGen r s t) : ∃ d, ReachingDef r D d t := by
  obtain hclear | ⟨d, hd, -, hclear⟩ := exists_last (K := D) h
  · exact ⟨s, hs, hclear.mono fun _ _ h => h.1⟩
  · exact ⟨d, hd, hclear.mono fun _ _ h => h.1⟩

/-! ### Dropping a definition when another one can be reached from it -/

/-- The definition `s` leads to `t`, and no other node of `K` can be reached from `s`. -/
def Unkilled (r : α → α → Prop) (D K : α → Prop) (s t : α) : Prop :=
  D s ∧ ReflTransGen r s t ∧ ¬ ∃ d, d ≠ s ∧ ReflTransGen r s d ∧ K d

/-- Exactly the reaching definitions are kept iff none of them leads to another killer, and
every other definition that leads to `t` does. -/
theorem unkilled_iff_reachingDef_iff :
    (∀ s, Unkilled r D K s t ↔ ReachingDef r D s t) ↔
      (∀ s d, ReachingDef r D s t → K d → ReflTransGen r s d → d = s) ∧
        ∀ s, D s → ReflTransGen r s t → ¬ ReachingDef r D s t →
          ∃ d, d ≠ s ∧ ReflTransGen r s d ∧ K d := by
  refine ⟨fun h => ⟨fun s d hdef hd hsd => ?_, fun s hs hst hdef => ?_⟩, fun h s => ?_⟩
  · by_contra hne
    exact ((h s).mpr hdef).2.2 ⟨d, hne, hsd, hd⟩
  · by_contra hk
    exact hdef ((h s).mp ⟨hs, hst, hk⟩)
  · refine ⟨fun hk => ?_, fun hdef => ⟨hdef.1, hdef.reach, fun hk => ?_⟩⟩
    · by_contra hdef
      exact hk.2.2 (h.2 s hk.1 hk.2.1 hdef)
    · obtain ⟨d, hne, hsd, hd⟩ := hk
      exact hne (h.1 s d hdef hd hsd)

lemma exists_other_of_not_reachingDef (hs : D s) (hst : ReflTransGen r s t)
    (h : ¬ ReachingDef r D s t) : ∃ d, d ≠ s ∧ ReflTransGen r s d ∧ D d := by
  by_contra hk
  exact h ⟨hs, clearPath_of_reach hst fun d hd hsd => hk ⟨d, hd.2, hsd, hd.1⟩⟩

/-- When every other definition kills, exactly the reaching definitions are kept iff none
of these leads to another definition. -/
theorem unkilled_self_iff :
    (∀ s, Unkilled r D D s t ↔ ReachingDef r D s t) ↔
      ∀ s d, ReachingDef r D s t → D d → ReflTransGen r s d → d = s := by
  rw [unkilled_iff_reachingDef_iff, and_iff_left_iff_imp]
  exact fun _ s hs hst hdef => exists_other_of_not_reachingDef hs hst hdef

/-! ### First nodes of a set -/

section First

variable {V : α → Prop} {v : α}

def Within (r : α → α → Prop) (V : α → Prop) (x y : α) : Prop := V x ∧ V y ∧ r x y

def First (r : α → α → Prop) (V : α → Prop) (v : α) : Prop := V v ∧ ¬ ∃ u, V u ∧ r u v

/-- Inside the set, a cycle leads to the node. -/
def AfterCycle (r : α → α → Prop) (V : α → Prop) (v : α) : Prop :=
  ∃ c, TransGen (Within r V) c c ∧ ReflTransGen (Within r V) c v

lemma First.not_afterCycle (h : First r V v) : ¬ AfterCycle r V v := by
  rintro ⟨c, hcycle, hcv⟩
  have hv : TransGen (Within r V) c v := TransGen.trans_left hcycle hcv
  obtain ⟨u, -, hu, -, huv⟩ := TransGen.tail'_iff.mp hv
  exact h.2 ⟨u, hu, huv⟩

/-- Backwards from a node that no cycle leads to, a path in a finite set comes to an end. -/
lemma exists_first_of_not_afterCycle [Finite α] (hv : V v) (h : ¬ AfterCycle r V v) :
    ∃ w, First r V w := by
  have htrans : IsTrans {x // ReflTransGen (Within r V) x v}
      fun x y => TransGen (Within r V) x.1 y.1 := ⟨fun _ _ _ => TransGen.trans⟩
  have hirrefl : Std.Irrefl fun x y : {x // ReflTransGen (Within r V) x v} =>
      TransGen (Within r V) x.1 y.1 := ⟨fun x hx => h ⟨x.1, hx, x.2⟩⟩
  have hwf := Finite.wellFounded_of_trans_of_irrefl
    fun x y : {x // ReflTransGen (Within r V) x v} => TransGen (Within r V) x.1 y.1
  obtain ⟨w, -, hmin⟩ := hwf.has_min Set.univ ⟨⟨v, .refl⟩, trivial⟩
  have hw : V w.1 := by
    obtain heq | ⟨x, hx, -⟩ := w.2.cases_head
    · rwa [heq]
    · exact hx.1
  refine ⟨w.1, hw, fun ⟨u, hu, huw⟩ => ?_⟩
  exact hmin ⟨u, w.2.head ⟨hu, hw, huw⟩⟩ trivial (.single ⟨hu, hw, huw⟩)

/-- **A finite set has a first node iff cycles inside it do not lead to all of it.** -/
theorem exists_first_iff [Finite α] :
    (∃ v, First r V v) ↔ ∃ v, V v ∧ ¬ AfterCycle r V v := by
  refine ⟨fun h => ?_, fun h => ?_⟩
  · obtain ⟨v, hv⟩ := h
    exact ⟨v, hv.1, hv.not_afterCycle⟩
  · obtain ⟨v, hv, hcycle⟩ := h
    exact exists_first_of_not_afterCycle hv hcycle

end First

/-! ### Runs from a start -/

def Reached (r : α → α → Prop) (start : α → Prop) (a : α) : Prop :=
  ∃ s, start s ∧ ReflTransGen r s a

lemma Reached.trans {start : α → Prop} (h : Reached r start a) (hab : ReflTransGen r a b) :
    Reached r start b := by
  obtain ⟨s, hs, hsa⟩ := h
  exact ⟨s, hs, hsa.trans hab⟩

/-! ### Last writers -/

section Writers

variable {β : Type*} [DecidableEq β] {writes : α → Option β} {p q : α × (β → Option α)} {x : β}

/-- The last writers when the node has run after the others. -/
def record (writes : α → Option β) (last : β → Option α) (a : α) : β → Option α :=
  fun x => if writes a = some x then some a else last x

/-- A step of a path that keeps the last writers. -/
def Traced (r : α → α → Prop) (writes : α → Option β) (p q : α × (β → Option α)) : Prop :=
  r p.1 q.1 ∧ q.2 = record writes p.2 q.1

variable (writes) in
lemma exists_traced (h : ReflTransGen r a b) (last : β → Option α) :
    ∃ last', ReflTransGen (Traced r writes) (a, last) (b, last') := by
  induction h with
  | refl => exact ⟨last, .refl⟩
  | @tail b c _ hbc ih =>
    obtain ⟨last', h⟩ := ih
    exact ⟨record writes last' c, h.tail ⟨hbc, rfl⟩⟩

lemma reach_of_traced (h : ReflTransGen (Traced r writes) p q) : ReflTransGen r p.1 q.1 :=
  h.lift Prod.fst fun _ _ h => h.1

/-- A path with no writer of `x` after its beginning. -/
def Unwritten (r : α → α → Prop) (writes : α → Option β) (x : β) : α → α → Prop :=
  ReflTransGen fun a b => r a b ∧ writes b ≠ some x

omit [DecidableEq β] in
lemma Unwritten.reach (h : Unwritten r writes x a b) : ReflTransGen r a b :=
  h.lift id fun _ _ => And.left

/-- **What wrote last did so before the path, with no writer on it, or on the path, with no writer
after it.** -/
theorem last_writer_cases (h : ReflTransGen (Traced r writes) p q) (x : β) :
    (q.2 x = p.2 x ∧ Unwritten r writes x p.1 q.1) ∨
      ∃ c, q.2 x = some c ∧ writes c = some x ∧ ReflTransGen r p.1 c ∧
        Unwritten r writes x c q.1 := by
  induction h with
  | refl => exact Or.inl ⟨rfl, .refl⟩
  | @tail q q' hpq hstep ih =>
    obtain ⟨hedge, hlast⟩ := hstep
    by_cases hw : writes q'.1 = some x
    · exact Or.inr ⟨q'.1, by simp [hlast, record, hw], hw, (reach_of_traced hpq).tail hedge, .refl⟩
    · have hkept : q'.2 x = q.2 x := by simp [hlast, record, hw]
      rw [hkept]
      obtain ⟨hold, hpath⟩ | ⟨c, hc, hwrites, hpc, hcq⟩ := ih
      · exact Or.inl ⟨hold, hpath.tail ⟨hedge, hw⟩⟩
      · exact Or.inr ⟨c, hc, hwrites, hpc, hcq.tail ⟨hedge, hw⟩⟩

end Writers

/-! ### Deciding -/

section Decide

variable [Fintype α] [DecidableEq α] [DecidableRel r]

def expand (r : α → α → Prop) [DecidableRel r] (S : Finset α) : Finset α :=
  S ∪ Finset.univ.filter fun y => ∃ x ∈ S, r x y

lemma mem_iterate_expand {S : Finset α} {n : ℕ} (h : b ∈ (expand r)^[n] S) :
    ∃ a ∈ S, ReflTransGen r a b := by
  induction n generalizing b with
  | zero => exact ⟨b, h, .refl⟩
  | succ n ih =>
    rw [Function.iterate_succ_apply'] at h
    rcases Finset.mem_union.mp h with h | h
    · exact ih h
    · obtain ⟨x, hx, hxb⟩ := (Finset.mem_filter.mp h).2
      obtain ⟨a, ha, hax⟩ := ih hx
      exact ⟨a, ha, hax.tail hxb⟩

lemma subset_iterate_expand (S : Finset α) (n : ℕ) : S ⊆ (expand r)^[n] S := by
  induction n with
  | zero => exact subset_rfl
  | succ n ih =>
    rw [Function.iterate_succ_apply']
    exact ih.trans Finset.subset_union_left

/-- After as many rounds as there are nodes, another one adds nothing. -/
lemma expand_iterate_card (S : Finset α) :
    expand r ((expand r)^[Fintype.card α] S) = (expand r)^[Fintype.card α] S := by
  -- each round adds nothing, or leaves one more element than there were rounds
  have grow : ∀ n, expand r ((expand r)^[n] S) = (expand r)^[n] S ∨
      n + 1 ≤ ((expand r)^[n + 1] S).card := by
    intro n
    induction n with
    | zero =>
      rcases Nat.eq_zero_or_pos ((expand r)^[1] S).card with h | h
      · have hempty : (expand r)^[1] S = ∅ := Finset.card_eq_zero.mp h
        have hS : S = ∅ := Finset.subset_empty.mp (hempty ▸ subset_iterate_expand S 1)
        left; simpa [hS] using hempty
      · exact Or.inr h
    | succ n ih =>
      rw [Function.iterate_succ_apply' _ (n + 1)]
      by_cases hfix : expand r ((expand r)^[n + 1] S) = (expand r)^[n + 1] S
      · exact Or.inl hfix
      · right
        have hlt : ((expand r)^[n + 1] S).card < (expand r ((expand r)^[n + 1] S)).card :=
          Finset.card_lt_card (Finset.ssubset_iff_subset_ne.mpr
            ⟨Finset.subset_union_left, fun h => hfix h.symm⟩)
        rcases ih with ih | ih
        · rw [Function.iterate_succ_apply', ih, ih] at hfix
          exact absurd rfl hfix
        · omega
  rcases grow (Fintype.card α) with h | h
  · exact h
  · have := Finset.card_le_univ ((expand r)^[Fintype.card α + 1] S)
    omega

/-- Reachability is computed in as many rounds as there are nodes. -/
theorem mem_expand_card_iff :
    b ∈ (expand r)^[Fintype.card α] {a} ↔ ReflTransGen r a b := by
  constructor
  · intro h
    obtain ⟨x, hx, hxb⟩ := mem_iterate_expand h
    rwa [Finset.mem_singleton.mp hx] at hxb
  · intro h
    induction h with
    | refl => exact subset_iterate_expand _ _ (Finset.mem_singleton_self a)
    | tail _ hyz ih =>
      rw [← expand_iterate_card]
      exact Finset.mem_union_right _
        (Finset.mem_filter.mpr ⟨Finset.mem_univ _, _, ih, hyz⟩)

instance decidableReach (a b : α) : Decidable (ReflTransGen r a b) :=
  decidable_of_iff _ mem_expand_card_iff

instance decidableTransGen (a b : α) : Decidable (TransGen r a b) :=
  decidable_of_iff (∃ c, r a c ∧ ReflTransGen r c b) TransGen.head'_iff.symm

instance decidableClearPath [DecidablePred K] (a b : α) : Decidable (ClearPath r K a b) :=
  inferInstanceAs (Decidable (_ ∨ _))

instance decidableReachingDef [DecidablePred D] (s t : α) : Decidable (ReachingDef r D s t) :=
  inferInstanceAs (Decidable (_ ∧ _))

instance decidableUnkilled [DecidablePred D] [DecidablePred K] (s t : α) :
    Decidable (Unkilled r D K s t) :=
  inferInstanceAs (Decidable (_ ∧ _))

end Decide

end DriverQueries.Paths
