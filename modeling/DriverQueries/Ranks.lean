import Mathlib.Data.Finset.Card
import Mathlib.Data.Finset.Max

/-!
The elements of a finite set numbered along a linear order, from one, and the runs of marked
elements that end right before a given one.
-/

namespace DriverQueries.Ranks

variable {α : Type*} [LinearOrder α] {S : Finset α} {A : α → Prop} {x y t : α}

/-- The number of `x` in `S`: how many elements of `S` are not after it. -/
def rank (S : Finset α) (x : α) : ℕ := {y ∈ S | y ≤ x}.card

lemma rank_le (h : x ≤ y) : rank S x ≤ rank S y :=
  Finset.card_le_card fun z hz => by
    simp only [Finset.mem_filter] at hz ⊢
    exact ⟨hz.1, hz.2.trans h⟩

lemma lt_of_rank_lt (h : rank S x < rank S y) : x < y := by
  by_contra hle
  have := rank_le (S := S) (not_lt.mp hle)
  omega

lemma rank_lt (hy : y ∈ S) (h : x < y) : rank S x < rank S y := by
  refine Finset.card_lt_card ⟨fun z hz => ?_, fun hsub => ?_⟩
  · simp only [Finset.mem_filter] at hz ⊢
    exact ⟨hz.1, hz.2.trans h.le⟩
  · have hmem : y ∈ {z ∈ S | z ≤ y} := by simp [hy]
    have hle := (Finset.mem_filter.mp (hsub hmem)).2
    exact absurd h (not_lt.mpr hle)

lemma eq_of_rank_eq (hx : x ∈ S) (hy : y ∈ S) (h : rank S x = rank S y) : x = y := by
  rcases lt_trichotomy x y with hlt | heq | hgt
  · have := rank_lt hy hlt
    omega
  · exact heq
  · have := rank_lt hx hgt
    omega

/-- The first element after `x` has the next number. -/
lemma exists_rank_succ (ht : t ∈ S) (h : x < t) :
    ∃ y ∈ S, x < y ∧ y ≤ t ∧ rank S y = rank S x + 1 ∧ ∀ z ∈ S, x < z → y ≤ z := by
  have hne : {y ∈ S | x < y}.Nonempty := ⟨t, by simp [ht, h]⟩
  have hleast : ∀ z ∈ S, x < z → {y ∈ S | x < y}.min' hne ≤ z := fun z hz hxz =>
    Finset.min'_le _ _ (by simp [hz, hxz])
  obtain ⟨hy, hxy⟩ := Finset.mem_filter.mp (Finset.min'_mem _ hne)
  generalize {y ∈ S | x < y}.min' hne = y at hleast hy hxy
  refine ⟨y, hy, hxy, hleast t ht h, ?_, hleast⟩
  -- no element lies between the two, so that one more is counted
  have hins : {z ∈ S | z ≤ y} = insert y {z ∈ S | z ≤ x} := by
    ext z
    simp only [Finset.mem_filter, Finset.mem_insert]
    constructor
    · rintro ⟨hz, hzy⟩
      rcases lt_or_ge x z with hxz | hzx
      · exact .inl (le_antisymm hzy (hleast z hz hxz))
      · exact .inr ⟨hz, hzx⟩
    · rintro (rfl | ⟨hz, hzx⟩)
      · exact ⟨hy, le_rfl⟩
      · exact ⟨hz, hzx.trans hxy.le⟩
  unfold rank
  rw [hins, Finset.card_insert_of_notMem]
  simp [hxy]

lemma le_of_rank_succ (hy : y ∈ S) (h : rank S y = rank S x + 1) {z : α} (hz : z ∈ S)
    (hzy : z < y) : z ≤ x := by
  by_contra hxz
  have h1 := rank_lt hz (not_le.mp hxz)
  have h2 := rank_lt hy hzy
  omega

/-! ### Runs -/

/-- From the number `i` on, all elements of `S` before `t` are marked. -/
inductive Run (S : Finset α) (A : α → Prop) (t : α) : ℕ → Prop
  | last {x : α} (hx : x ∈ S) (ha : A x) (ht : rank S t = rank S x + 1) : Run S A t (rank S x)
  | more {x : α} (hx : x ∈ S) (ha : A x) (h : Run S A t (rank S x + 1)) : Run S A t (rank S x)

lemma Run.marked {i : ℕ} (ht : t ∈ S) (h : Run S A t i) :
    i < rank S t ∧ ∀ y ∈ S, i ≤ rank S y → y < t → A y := by
  induction h with
  | @last x hx ha hsucc =>
    refine ⟨by omega, fun y hy hi hyt => ?_⟩
    have hle := rank_le (S := S) (le_of_rank_succ ht hsucc hy hyt)
    rwa [eq_of_rank_eq hy hx (by omega)]
  | @more x hx ha _ ih =>
    refine ⟨by omega, fun y hy hi hyt => ?_⟩
    rcases Nat.eq_or_lt_of_le hi with heq | hlt
    · rwa [← eq_of_rank_eq hx hy heq]
    · exact ih.2 y hy hlt hyt

lemma run_of_marked {x : α} (ht : t ∈ S) (hx : x ∈ S) (hlt : x < t) (ha : A x)
    (h : ∀ y ∈ S, x < y → y < t → A y) : Run S A t (rank S x) := by
  obtain ⟨y, hy, hxy, hyt, hsucc, hleast⟩ := exists_rank_succ ht hlt
  rcases hyt.eq_or_lt with rfl | hyt
  · exact .last hx ha hsucc
  · have hrun : Run S A t (rank S y) :=
      run_of_marked ht hy hyt (h y hy hxy hyt) fun z hz hyz => h z hz (hxy.trans hyz)
    exact .more hx ha (hsucc ▸ hrun)
termination_by rank S t - rank S x
decreasing_by
  have := rank_lt ht hyt
  omega

/-- **A run from the number of `x` to `t`: all elements from `x` on, up to `t`, are marked.** -/
theorem run_iff (ht : t ∈ S) (hx : x ∈ S) :
    Run S A t (rank S x) ↔ x < t ∧ A x ∧ ∀ y ∈ S, x < y → y < t → A y := by
  constructor
  · intro h
    obtain ⟨hlt, hmarked⟩ := h.marked ht
    have hxt := lt_of_rank_lt hlt
    exact ⟨hxt, hmarked x hx le_rfl hxt, fun y hy hxy => hmarked y hy (rank_le hxy.le)⟩
  · rintro ⟨hlt, ha, h⟩
    exact run_of_marked ht hx hlt ha h

end DriverQueries.Ranks
