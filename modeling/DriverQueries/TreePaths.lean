import Mathlib.Data.List.Infix
import Mathlib.Logic.Relation

/-!
Places in trees.

A place is a path from the root, its parent is the path without the last step, and what is above a
place are the paths that it begins with. The nearest node of a kind above a place, which may be the
node itself, is the longest such path.
-/

namespace DriverQueries.TreePaths

open Relation

variable {N : Type*} (children : N → List N)

def get : N → List ℕ → Option N
  | n, [] => some n
  | n, i :: p => (children n)[i]?.bind fun m => get m p

variable {children} {n m : N} {p q : List ℕ} {i : ℕ}

lemma get_append (n : N) (p q : List ℕ) :
    get children n (p ++ q) = (get children n p).bind fun m => get children m q := by
  induction p generalizing n with
  | nil => rfl
  | cons i p ih => simp [get, ih, Option.bind_assoc]

lemma get_child (h : get children n p = some m) : get children n (p ++ [i]) = (children m)[i]? := by
  rw [get_append, h]
  simp [get]

lemma exists_get_of_prefix (h : get children n p = some m) (hq : q <+: p) :
    ∃ k, get children n q = some k := by
  obtain ⟨t, rfl⟩ := hq
  rw [get_append] at h
  obtain ⟨k, hk, -⟩ := Option.bind_eq_some_iff.mp h
  exact ⟨k, hk⟩

/-! ### Parents -/

/-- The place of the parent. The root has none. -/
def parent (p : List ℕ) : Option (List ℕ) := if p = [] then none else some p.dropLast

lemma parent_concat (p : List ℕ) (i : ℕ) : parent (p ++ [i]) = some p := by
  simp [parent]

lemma transGen_parent_iff : TransGen (fun p q => q ∈ parent p) p q ↔ q <+: p ∧ q ≠ p := by
  induction p using List.reverseRecOn with
  | nil =>
    refine iff_of_false (fun h => ?_) fun ⟨h, hne⟩ => hne (List.prefix_nil.mp h)
    obtain ⟨r, hr, -⟩ := TransGen.head'_iff.mp h
    exact absurd hr (by simp [parent])
  | append_singleton p i ih =>
    have hne : p ≠ p ++ [i] := by simp
    rw [TransGen.head'_iff]
    simp only [parent_concat, Option.mem_some_iff, exists_eq_left', List.prefix_concat_iff]
    rw [reflTransGen_iff_eq_or_transGen, ih]
    constructor
    · rintro (rfl | ⟨h, -⟩)
      · exact ⟨Or.inr List.prefix_rfl, hne⟩
      · refine ⟨Or.inr h, fun heq => ?_⟩
        have hlength := (heq ▸ h).length_le
        rw [List.length_append, List.length_singleton] at hlength
        omega
    · rintro ⟨rfl | h, hnot⟩
      · exact absurd rfl hnot
      · exact (eq_or_ne q p).imp id fun hqp => ⟨h, hqp⟩

/-! ### The nearest node of a kind -/

variable (children) (S : N → Bool)

def Holds (n : N) (p : List ℕ) : Bool := (get children n p).any S

def nearest (n : N) (p : List ℕ) : Option (List ℕ) := (p.inits.filter (Holds children S n)).getLast?

variable {children S}

lemma nearest_nil : nearest children S n [] = if S n then some [] else none := by
  cases h : S n <;> simp [nearest, Holds, get, h]

lemma nearest_concat : nearest children S n (p ++ [i]) =
    if Holds children S n (p ++ [i]) then some (p ++ [i]) else nearest children S n p := by
  unfold nearest
  rw [List.inits_append]
  split_ifs with h
  · simp [h]
  · simp [h]

lemma exists_nearest (hq : q <+: p) (hS : Holds children S n q) :
    ∃ r, nearest children S n p = some r := by
  have hmem : q ∈ p.inits.filter (Holds children S n) :=
    List.mem_filter.mpr ⟨(List.mem_inits q p).mpr hq, hS⟩
  exact ⟨_, List.getLast?_eq_some_getLast (List.ne_nil_of_mem hmem)⟩

/-- **The nearest node is the one below all others of the kind that are above the place.** -/
theorem nearest_eq_some_iff : nearest children S n p = some q ↔
    q <+: p ∧ Holds children S n q ∧ ∀ r, r <+: p → Holds children S n r → r <+: q := by
  induction p using List.reverseRecOn with
  | nil =>
    rw [nearest_nil]
    refine ⟨fun h => ?_, fun ⟨h, hq, _⟩ => ?_⟩
    · split_ifs at h with hn
      obtain rfl := Option.some.inj h
      exact ⟨List.prefix_rfl, hn, fun r hr _ => hr⟩
    · obtain rfl := List.prefix_nil.mp h
      exact if_pos hq
  | append_singleton p i ih =>
    rw [nearest_concat]
    by_cases hlast : Holds children S n (p ++ [i])
    · rw [if_pos hlast, Option.some_inj]
      refine ⟨fun h => ?_, fun ⟨h, _, hmax⟩ => ?_⟩
      · subst h
        exact ⟨List.prefix_rfl, hlast, fun r hr _ => hr⟩
      · exact (hmax _ List.prefix_rfl hlast).eq_of_length_le h.length_le
    · have hstep : ∀ r, Holds children S n r → (r <+: p ++ [i] ↔ r <+: p) := by
        intro r hr
        rw [List.prefix_concat_iff, or_iff_right]
        rintro rfl
        exact hlast hr
      rw [if_neg hlast, ih]
      refine ⟨fun ⟨h, hq, hmax⟩ => ⟨(hstep q hq).mpr h, hq, fun r hr hS => ?_⟩,
        fun ⟨h, hq, hmax⟩ => ⟨(hstep q hq).mp h, hq, fun r hr hS => ?_⟩⟩
      · exact hmax r ((hstep r hS).mp hr) hS
      · exact hmax r ((hstep r hS).mpr hr) hS

end DriverQueries.TreePaths
