import DriverQueries.Paths

/-!
Basic blocks of a directed graph.

Two nodes are linked when the edge between them is the only one from the first and the only one to
the second. A basic block is a chain of links that begins at a node without a link to it. A path
from an entry to an exit that comes to a node passes through the rest of its block.
-/

namespace DriverQueries.Blocks

open Relation DriverQueries.Paths

variable {α : Type*} {r : α → α → Prop} {K : α → Prop} {a b c d e x : α}

def Link (r : α → α → Prop) (a b : α) : Prop := (∀ x, r a x ↔ x = b) ∧ ∀ x, r x b ↔ x = a

def StartsBlock (r : α → α → Prop) (b : α) : Prop := ¬ ∃ a, Link r a b

/-- The basic block of `a` begins with `b`. -/
def BlockOf (r : α → α → Prop) (b a : α) : Prop := StartsBlock r b ∧ ReflTransGen (Link r) b a

/-- A path from `a` to `b` has no node in `K`. -/
def Avoids (r : α → α → Prop) (K : α → Prop) (a b : α) : Prop :=
  ¬ K a ∧ ReflTransGen (fun x y => r x y ∧ ¬ K y) a b

lemma Avoids.exists_entering {S : α → Prop} (h : Avoids r K a b) (hS : S b) :
    ∃ y, S y ∧ Avoids r K y b ∧ (y = a ∨ ∃ x, r x y ∧ Avoids r K a x ∧ ¬ S x) := by
  obtain ⟨hK, hpath⟩ := h
  -- induction on the end: the last edge enters `S`, or the path before it is in `S` already
  induction hpath with
  | refl => exact ⟨a, hS, ⟨hK, .refl⟩, .inl rfl⟩
  | @tail x b hax hstep ih =>
    by_cases hx : S x
    · obtain ⟨y, hy, hyx, hentry⟩ := ih hx
      exact ⟨y, hy, ⟨hyx.1, hyx.2.tail hstep⟩, hentry⟩
    · exact ⟨b, hS, ⟨hstep.2, .refl⟩, .inr ⟨x, hstep.1, ⟨hK, hax⟩, hx⟩⟩

lemma Avoids.reach (h : Avoids r K a b) : ReflTransGen r a b :=
  ReflTransGen.mono (fun _ _ => And.left) a b h.2

lemma Avoids.trans (h : Avoids r K a b) (h' : Avoids r K b c) : Avoids r K a c :=
  ⟨h.1, h.2.trans h'.2⟩

lemma avoids_of_reach (h : ReflTransGen r a b) (hb : ∀ p, K p → ¬ ReflTransGen r p b) :
    Avoids r K a b := by
  induction h using ReflTransGen.head_induction_on with
  | refl => exact ⟨fun hK => hb _ hK .refl, .refl⟩
  | head hstep hcb ih => exact ⟨fun hK => hb _ hK (.head hstep hcb), .head ⟨hstep, ih.1⟩ ih.2⟩

section Decide

variable [Fintype α] [DecidableEq α] [DecidableRel r]

instance : DecidableRel (Link r) := fun _ _ => inferInstanceAs (Decidable (_ ∧ _))
instance : DecidablePred (StartsBlock r) := fun _ => inferInstanceAs (Decidable (¬ _))
instance : DecidableRel (BlockOf r) := fun _ _ => inferInstanceAs (Decidable (_ ∧ _))
instance [DecidablePred K] : DecidableRel (Avoids r K) :=
  fun _ _ => inferInstanceAs (Decidable (_ ∧ _))

end Decide

lemma Link.edge (h : Link r a b) : r a b := (h.1 b).mpr rfl

lemma Link.unique_right (h : Link r a b) (h' : Link r a c) : b = c := (h'.1 b).mp h.edge

lemma Link.unique_left (h : Link r a c) (h' : Link r b c) : a = b := (h'.2 a).mp h.edge

lemma StartsBlock.eq_of_reach (h : StartsBlock r b) (hab : ReflTransGen (Link r) a b) : a = b := by
  obtain heq | ⟨c, -, hcb⟩ := (ReflTransGen.cases_tail_iff _ a b).mp hab
  · exact heq.symm
  · exact absurd ⟨c, hcb⟩ h

lemma BlockOf.unique (h : BlockOf r b a) (h' : BlockOf r c a) : b = c := by
  obtain ⟨hb, hba⟩ := h
  obtain ⟨hc, hca⟩ := h'
  induction hba with
  | refl => exact (hb.eq_of_reach hca).symm
  | tail hbx hxa ih =>
    obtain heq | ⟨y, hcy, hya⟩ := (ReflTransGen.cases_tail_iff _ _ _).mp hca
    · exact absurd ⟨_, heq ▸ hxa⟩ hc
    · exact ih (hxa.unique_left hya ▸ hcy)

lemma BlockOf.comparable (h : BlockOf r b a) (h' : BlockOf r b c) :
    ReflTransGen (Link r) a c ∨ ReflTransGen (Link r) c a :=
  ReflTransGen.total_of_right_unique (fun _ _ _ => Link.unique_right) h.2 h'.2

/-! ### From an entry -/

section Entry

variable (he : ∀ p, ¬ r p e)

include he

lemma eq_of_reach_entry (h : ReflTransGen r a e) : a = e := by
  obtain heq | ⟨c, -, hce⟩ := (ReflTransGen.cases_tail_iff _ a e).mp h
  · exact heq.symm
  · exact absurd hce (he c)

lemma startsBlock_entry : StartsBlock r e := fun ⟨p, hp⟩ => he p hp.edge

lemma blockOf_entry : BlockOf r e e := ⟨startsBlock_entry he, .refl⟩

lemma eq_of_blockOf_entry (h : BlockOf r b e) : b = e := h.unique (blockOf_entry he)

lemma exists_blockOf (h : ReflTransGen r e a) : ∃ b, BlockOf r b a := by
  induction h with
  | refl => exact ⟨e, blockOf_entry he⟩
  | @tail x y hex hxy ih =>
    by_cases hlink : Link r x y
    · obtain ⟨b, hb, hbx⟩ := ih
      exact ⟨b, hb, hbx.tail hlink⟩
    · refine ⟨y, fun ⟨p, hp⟩ => hlink ?_, .refl⟩
      rwa [(hp.2 x).mp hxy]

lemma not_avoids_of_links (h : ReflTransGen (Link r) c x) (hc : K c) : ¬ Avoids r K e x := by
  induction h with
  | refl =>
    rintro ⟨hK, hpath⟩
    obtain heq | ⟨y, -, -, hnot⟩ := (ReflTransGen.cases_tail_iff _ _ _).mp hpath
    · exact hK (heq ▸ hc)
    · exact hnot hc
  | tail _ hlink ih =>
    rintro ⟨hK, hpath⟩
    obtain heq | ⟨y, hey, hyx, -⟩ := (ReflTransGen.cases_tail_iff _ _ _).mp hpath
    · exact he _ (heq ▸ hlink.edge)
    · exact ih ⟨hK, (hlink.2 y).mp hyx ▸ hey⟩

end Entry

/-! ### To an exit -/

section Exit

variable (hx : ∀ s, ¬ r x s)

include hx

lemma not_avoids_of_links_exit (h : ReflTransGen (Link r) a c) (hc : K c) : ¬ Avoids r K a x := by
  induction h using ReflTransGen.head_induction_on with
  | refl => exact fun hK => hK.1 hc
  | head hlink _ ih =>
    rintro ⟨hK, hpath⟩
    obtain rfl | ⟨y, ⟨hay, hy⟩, hyx⟩ := ReflTransGen.cases_head hpath
    · exact hx _ hlink.edge
    · obtain rfl := (hlink.1 y).mp hay
      exact ih ⟨hy, hyx⟩

lemma blockOf_of_reach (h : BlockOf r b x) (hba : ReflTransGen r b a) : BlockOf r b a := by
  induction hba with
  | refl => exact ⟨h.1, .refl⟩
  | @tail y z hby hyz ih =>
    obtain hxy | hyx := h.comparable ih
    · obtain rfl | ⟨w, hxw, -⟩ := ReflTransGen.cases_head hxy
      · exact absurd hyz (hx z)
      · exact absurd hxw.edge (hx w)
    · obtain rfl | ⟨w, hyw, -⟩ := ReflTransGen.cases_head hyx
      · exact absurd hyz (hx z)
      · obtain rfl := (hyw.1 z).mp hyz
        exact ⟨ih.1, ih.2.tail hyw⟩

lemma links_exit (h : BlockOf r b x) (hc : BlockOf r b c) : ReflTransGen (Link r) c x := by
  obtain hxc | hcx := h.comparable hc
  · obtain rfl | ⟨w, hxw, -⟩ := ReflTransGen.cases_head hxc
    · exact .refl
    · exact absurd hxw.edge (hx w)
  · exact hcx

end Exit

end DriverQueries.Blocks
