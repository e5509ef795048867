import DriverQueries.Paths

/-!
The definitions that a path has come by.

A path keeps a list of the definitions it has come by, the latest first, each with what it has
defined. The first one of the list that is in some set is a last one in that set: from there the
path has come by no other. So it is a reaching definition for every edge that the path can take.
-/

namespace DriverQueries.Histories

open Relation DriverQueries.Paths

variable {α β : Type*} {r : α → α → Prop} {D K : α → Prop} [DecidablePred K]
variable {l : List (α × β)} {n m : α} {s : α × β}

def latest (K : α → Prop) [DecidablePred K] (l : List (α × β)) : Option (α × β) :=
  l.find? fun s => K s.1

/-- From the latest definition in any set, a path leads to the node that comes by no other. -/
def Records (r : α → α → Prop) (D : α → Prop) (l : List (α × β)) (n : α) : Prop :=
  ∀ (K : α → Prop) [DecidablePred K], (∀ k, K k → D k) → ∀ s ∈ latest K l,
    ReflTransGen (fun x y => r x y ∧ ¬ K y) s.1 n

lemma mem_of_latest (h : s ∈ latest K l) : s ∈ l := List.mem_of_find?_eq_some h

lemma latest_mem (h : s ∈ latest K l) : K s.1 := by
  have hs := List.find?_some h
  exact of_decide_eq_true hs

lemma latest_cons_of_pos (h : K s.1) : latest K (s :: l) = some s :=
  List.find?_cons_of_pos (decide_eq_true h)

lemma latest_cons_of_neg (h : ¬ K s.1) : latest K (s :: l) = latest K l :=
  List.find?_cons_of_neg (by simpa using h)

lemma Records.nil : Records r D ([] : List (α × β)) n := by
  intro K _ _ s hs
  exact absurd (mem_of_latest hs) List.not_mem_nil

lemma Records.pass (h : Records r D l n) (hnm : r n m) (hm : ¬ D m) : Records r D l m := by
  intro K _ hK s hs
  exact (h K hK s hs).tail ⟨hnm, fun hk => hm (hK m hk)⟩

lemma Records.define (h : Records r D l n) (hnm : r n m) (v : β) : Records r D ((m, v) :: l) m := by
  intro K _ hK s hs
  by_cases hm : K m
  · rw [latest_cons_of_pos (s := (m, v)) hm] at hs
    obtain rfl := Option.some.inj hs
    exact .refl
  · rw [latest_cons_of_neg (s := (m, v)) hm] at hs
    exact (h K hK s hs).tail ⟨hnm, hm⟩

/-- **The latest definition in a set is a reaching definition** at every node that comes next. -/
theorem Records.reachingDef (h : Records r D l n) (hK : ∀ k, K k → D k) (hs : s ∈ latest K l)
    (hnm : r n m) : ReachingDef r K s.1 m := by
  refine ⟨latest_mem hs, Or.inr ⟨n, ?_, hnm⟩⟩
  refine ReflTransGen.mono (fun x y hxy => ?_) _ _ (h K hK s hs)
  exact ⟨hxy.1, fun hy => hxy.2 hy.1⟩

end DriverQueries.Histories
