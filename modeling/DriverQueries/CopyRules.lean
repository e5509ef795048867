import DriverQueries.Paths

/-!
Recursive predicates that only copy.

Many recursive predicates of a query language give a node the values that arise there and
the values of the nodes it copies from. The least relation closed under the two rules is
reachability: a value is derived at a node when it arises at a node that copy edges lead to.
-/

namespace DriverQueries.CopyRules

open Relation DriverQueries.Paths

variable {ι β : Type*} {source : ι → β → Prop} {feeds : ι → ι → Prop} {a b n : ι} {v : β}

/-- The least relation that holds of the values that arise at a node and, when `n` copies
from `m`, of the values of `m` at `n`. -/
inductive Derives (source : ι → β → Prop) (feeds : ι → ι → Prop) : ι → β → Prop
  | arise {n : ι} {v : β} (h : source n v) : Derives source feeds n v
  | copy {n m : ι} {v : β} (h : feeds n m) (hm : Derives source feeds m v) :
      Derives source feeds n v

/-- The recursive equation the relation solves. -/
lemma derives_unfold :
    Derives source feeds n v ↔ source n v ∨ ∃ m, feeds n m ∧ Derives source feeds m v := by
  refine ⟨fun h => ?_, fun h => ?_⟩
  · cases h with
    | arise h => exact Or.inl h
    | copy h hm => exact Or.inr ⟨_, h, hm⟩
  · obtain h | ⟨m, h, hm⟩ := h
    · exact .arise h
    · exact .copy h hm

/-- Every relation closed under the two rules contains the relation. -/
lemma Derives.least {R : ι → β → Prop}
    (hR : ∀ n v, (source n v ∨ ∃ m, feeds n m ∧ R m v) → R n v) (h : Derives source feeds n v) :
    R n v := by
  induction h with
  | arise h => exact hR _ _ (Or.inl h)
  | copy h _ ih => exact hR _ _ (Or.inr ⟨_, h, ih⟩)

lemma Derives.of_source {p : β → Prop} (h : Derives source feeds n v)
    (hp : ∀ m w, source m w → p w) : p v := by
  refine h.least (R := fun _ w => p w) fun m w hw => ?_
  obtain hw | ⟨-, -, hw⟩ := hw
  · exact hp m w hw
  · exact hw

lemma Derives.of_reach (h : ReflTransGen feeds a b) (hb : Derives source feeds b v) :
    Derives source feeds a v := by
  induction h using ReflTransGen.head_induction_on with
  | refl => exact hb
  | head hac _ ih => exact .copy hac ih

/-- **A value is derived at a node when it arises at a node that copy edges lead to.** -/
theorem derives_iff_reach :
    Derives source feeds n v ↔ ∃ m, ReflTransGen feeds n m ∧ source m v := by
  refine ⟨fun h => ?_, fun h => ?_⟩
  · induction h with
    | arise h => exact ⟨_, .refl, h⟩
    | copy h _ ih =>
      obtain ⟨m, hm, hv⟩ := ih
      exact ⟨m, hm.head h, hv⟩
  · obtain ⟨m, hm, hv⟩ := h
    exact .of_reach hm (.arise hv)

/-- A node has a value when copy edges lead to one where a value arises. -/
lemma exists_derives_iff :
    (∃ v, Derives source feeds n v) ↔ ∃ m, ReflTransGen feeds n m ∧ ∃ v, source m v := by
  refine ⟨fun h => ?_, fun h => ?_⟩
  · obtain ⟨v, hv⟩ := h
    obtain ⟨m, hm, hsource⟩ := derives_iff_reach.mp hv
    exact ⟨m, hm, v, hsource⟩
  · obtain ⟨m, hm, v, hv⟩ := h
    exact ⟨v, derives_iff_reach.mpr ⟨m, hm, hv⟩⟩

/-! ### Two sets of rules -/

variable {source' : ι → β → Prop} {feeds' : ι → ι → Prop} {D : ι → Prop}

/-- A copy step from a node outside `D`. -/
def Common (feeds : ι → ι → Prop) (D : ι → Prop) (a b : ι) : Prop := ¬ D a ∧ feeds a b

/-- Where all rules outside `D` are rules of the second set, a value that is derived is derived
by the second set, or comes past a node of `D`. -/
lemma Derives.or_past (hsource : ∀ n v, ¬ D n → source n v → source' n v)
    (hfeeds : ∀ n m, ¬ D n → feeds n m → feeds' n m) (h : Derives source feeds n v) :
    Derives source' feeds' n v ∨
      ∃ c, ReflTransGen (Common feeds D) n c ∧ D c ∧ Derives source feeds c v := by
  induction h with
  | @arise n v h =>
    by_cases hD : D n
    · exact .inr ⟨n, .refl, hD, .arise h⟩
    · exact .inl (.arise (hsource n v hD h))
  | @copy n m v h hm ih =>
    by_cases hD : D n
    · exact .inr ⟨n, .refl, hD, .copy h hm⟩
    · rcases ih with ih | ⟨c, hc, hDc, hv⟩
      · exact .inl (.copy (hfeeds n m hD h) ih)
      · exact .inr ⟨c, hc.head ⟨hD, h⟩, hDc, hv⟩

instance decidableDerives [Fintype ι] [DecidableEq ι] [DecidableRel feeds]
    [∀ n v, Decidable (source n v)] (n : ι) (v : β) : Decidable (Derives source feeds n v) :=
  decidable_of_iff _ derives_iff_reach.symm

end DriverQueries.CopyRules
