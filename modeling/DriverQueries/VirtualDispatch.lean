import DriverQueries.Paths

/-!
The simple virtual dispatch analysis: the targets a call may have, from the static type of its
qualifier.

A hierarchy is a set of classes with at most one base class each. What the database says of
overriding may be any relation between the nearest overriders and all of them; the analysis
closes it. The meaning of dispatch is the final overrider: the function of a signature that no
class in between declares again.
-/

namespace DriverQueries.VirtualDispatch

open Relation DriverQueries.Paths

/-- A program's classes and functions. A function that is no member has no declaring type; a
signature is all that an overriding function shares with what it overrides. -/
structure Hierarchy (Class Fn Sig : Type) where
  getName : Class → String
  getABaseClass : Class → Option Class
  getDeclaringType : Fn → Option Class
  signature : Fn → Sig
  isVirtual : Fn → Bool
  overrides : Fn → Fn → Prop

variable {Class Fn Sig : Type} (H : Hierarchy Class Fn Sig)

def Base (c b : Class) : Prop := b ∈ H.getABaseClass c

def Derives : Class → Class → Prop := ReflTransGen (Base H)

def ProperlyDerives : Class → Class → Prop := TransGen (Base H)

/-- The classes form trees, a class has one function of a signature, and functions override
as C++ has it: `overrides` relates only what overrides, and what overrides with nothing in
between. -/
structure Hierarchy.Lawful : Prop where
  acyclic : ∀ c, ¬ ProperlyDerives H c c
  one_member : ∀ {c f g}, H.getDeclaringType f = some c → H.getDeclaringType g = some c →
    H.signature f = H.signature g → f = g
  overrides_below : ∀ {g f}, H.overrides g f → H.signature g = H.signature f ∧
    ∃ G ∈ H.getDeclaringType g, ∃ F ∈ H.getDeclaringType f, ProperlyDerives H G F
  overrides_nearest : ∀ {g f G F}, H.getDeclaringType g = some G → H.getDeclaringType f = some F →
    H.signature g = H.signature f → H.isVirtual f → ProperlyDerives H G F →
    (∀ h K, H.getDeclaringType h = some K → H.signature h = H.signature f →
      ¬ (ProperlyDerives H G K ∧ ProperlyDerives H K F)) → H.overrides g f
  virtual_below : ∀ {g f G F}, H.getDeclaringType g = some G → H.getDeclaringType f = some F →
    H.signature g = H.signature f → H.isVirtual f → ProperlyDerives H G F →
    H.isVirtual g

/-- A call: its static target, if it is a function call to a virtual function, and the class
its qualifier's type strips to. -/
structure Call (Class Fn : Type) where
  getTarget : Fn
  isVirtual : Bool := false
  getQualifierClass : Option Class := none

def getAPossibleImplementation (staticTarget result : Fn) : Prop :=
  (∃ C ∈ H.getDeclaringType staticTarget, H.getName C ≠ "IUnknown") ∧
    ReflTransGen (fun f g => H.overrides g f) staticTarget result

def getCallQualifierType (c : Call Class Fn) (Q : Class) : Prop :=
  c.getQualifierClass = some Q ∧ H.getName Q ≠ "IUnknown"

/-- Holds if `f` is declared in `c` or a transitive base class of `c`. -/
def mayInherit (c : Class) (f : Fn) : Prop :=
  ∃ F ∈ H.getDeclaringType f, Derives H c F

def cannotInheritHelper (c : Class) (f : Fn) (overridingType : Class) (override : Fn) : Prop :=
  Derives H c overridingType ∧ H.getDeclaringType override = some overridingType ∧
    ∃ F ∈ H.getDeclaringType f, ProperlyDerives H overridingType F

/-- Holds if `c` or one of its supertypes overrides `f`. -/
def cannotInherit (c : Class) (f : Fn) : Prop :=
  ∃ overridingType override, cannotInheritHelper H c f overridingType override ∧
    TransGen H.overrides override f

def getAViableTarget (c : Call Class Fn) (result : Fn) : Prop :=
  if c.isVirtual ∧ (H.getDeclaringType c.getTarget).isSome then
    ∃ qualifierType qualifierSubType, getAPossibleImplementation H c.getTarget result ∧
      getCallQualifierType H c qualifierType ∧ Derives H qualifierSubType qualifierType ∧
      mayInherit H qualifierSubType result ∧ ¬ cannotInherit H qualifierSubType result
  else result = c.getTarget

/-- `f` is what a call of `m` runs on an object of class `S`: the function with the signature
of `m` that `S` declares or inherits, and that no class from `S` on declares again below it. -/
def FinalOverrider (S : Class) (m f : Fn) : Prop :=
  H.signature f = H.signature m ∧ ∃ F ∈ H.getDeclaringType f, Derives H S F ∧
    ∀ g G, H.getDeclaringType g = some G → H.signature g = H.signature m → Derives H S G →
      ¬ ProperlyDerives H G F

section Decidable

variable [Fintype Class] [DecidableEq Class] [Fintype Fn] [DecidableEq Fn] [DecidableEq Sig]
  [DecidableRel H.overrides]

instance : DecidableRel (Base H) := fun _ _ => inferInstanceAs (Decidable (_ ∈ _))
instance : DecidableRel (Derives H) := fun c b => decidableReach (r := Base H) c b
instance : DecidableRel (ProperlyDerives H) := fun c b => decidableTransGen (r := Base H) c b
instance (f g : Fn) : Decidable (getAPossibleImplementation H f g) :=
  inferInstanceAs (Decidable (_ ∧ ReflTransGen (fun f g => H.overrides g f) _ _))
instance (c : Call Class Fn) (Q : Class) : Decidable (getCallQualifierType H c Q) :=
  inferInstanceAs (Decidable (_ ∧ _))
instance (c : Class) (f : Fn) : Decidable (mayInherit H c f) :=
  inferInstanceAs (Decidable (∃ F ∈ _, _))
instance (c : Class) (f : Fn) (t : Class) (g : Fn) : Decidable (cannotInheritHelper H c f t g) :=
  inferInstanceAs (Decidable (_ ∧ _ ∧ ∃ F ∈ _, _))
instance (c : Class) (f : Fn) : Decidable (cannotInherit H c f) :=
  inferInstanceAs (Decidable (∃ _ _, _ ∧ TransGen H.overrides _ _))
instance (c : Call Class Fn) (f : Fn) : Decidable (getAViableTarget H c f) :=
  inferInstanceAs (Decidable (ite _ _ _))
instance (S : Class) (m f : Fn) : Decidable (FinalOverrider H S m f) :=
  inferInstanceAs (Decidable (_ ∧ ∃ F ∈ _, _ ∧ ∀ (_ : Fn) (_ : Class), _ → _ → _ → ¬ _))

end Decidable

/-! ### Chains of base classes -/

variable {H} {S M F G : Class} {m f g : Fn} {c : Call Class Fn}

lemma derives_total (h : Derives H S F) (h' : Derives H S G) : Derives H F G ∨ Derives H G F :=
  ReflTransGen.total_of_right_unique (fun _ _ _ hb hb' => Option.some.inj (hb.symm.trans hb')) h h'

lemma properlyDerives_or_eq (h : Derives H F G) : F = G ∨ ProperlyDerives H F G :=
  (reflTransGen_iff_eq_or_transGen.mp h).imp Eq.symm id

lemma derives_of_base {C B : Class} (hbase : Base H C B) (h : ProperlyDerives H C F) :
    Derives H B F := by
  obtain ⟨B', hb, hB'⟩ := TransGen.head'_iff.mp h
  rwa [Option.some.inj (hbase.symm.trans hb)]

namespace Hierarchy.Lawful

lemma not_between (hH : H.Lawful) {C B : Class} (hbase : Base H C B) (h : ProperlyDerives H C F) :
    ¬ ProperlyDerives H F B :=
  fun hF => hH.acyclic F (hF.trans_left (derives_of_base hbase h))

lemma overrides_trans (hH : H.Lawful) (h : TransGen H.overrides g f) :
    H.signature g = H.signature f ∧
      ∃ G ∈ H.getDeclaringType g, ∃ F ∈ H.getDeclaringType f, ProperlyDerives H G F := by
  induction h with
  | single h => exact hH.overrides_below h
  | tail _ h ih =>
    obtain ⟨hsig, G, hG, F, hF, hGF⟩ := ih
    obtain ⟨hsig', F', hF', E, hE, hFE⟩ := hH.overrides_below h
    obtain rfl : F = F' := Option.some.inj (hF.symm.trans hF')
    exact ⟨hsig.trans hsig', G, hG, E, hE, hGF.trans hFE⟩

end Hierarchy.Lawful

/-- From the class of `g` up to `C`, no other function of its signature is declared. -/
def LastUpTo (H : Hierarchy Class Fn Sig) (g : Fn) (C : Class) : Prop :=
  ∃ G ∈ H.getDeclaringType g, Derives H G C ∧
    ∀ h K, H.getDeclaringType h = some K → H.signature h = H.signature g →
      ProperlyDerives H G K → ¬ Derives H K C

namespace Hierarchy.Lawful

lemma lastUpTo_self (hH : H.Lawful) (hg : H.getDeclaringType g = some G) : LastUpTo H g G :=
  ⟨G, hg, .refl, fun _ _ _ _ hGK hKG => hH.acyclic G (hGK.trans_left hKG)⟩

lemma lastUpTo_base (hH : H.Lawful) {C B : Class} (hlast : LastUpTo H g C) (hbase : Base H C B)
    (hnone : ∀ h, H.getDeclaringType h = some B → H.signature h ≠ H.signature g) :
    LastUpTo H g B := by
  obtain ⟨G, hG, hGC, hlast⟩ := hlast
  refine ⟨G, hG, hGC.tail hbase, fun h K hK hsig hGK hKB => ?_⟩
  rcases derives_total hGC hGK.to_reflTransGen with hCK | hKC
  · rcases properlyDerives_or_eq hCK with rfl | hCK
    · exact hlast h _ hK hsig hGK .refl
    · rcases properlyDerives_or_eq hKB with rfl | hKB
      · exact hnone h hK hsig
      · exact hH.not_between hbase hCK hKB
  · exact hlast h K hK hsig hGK hKC

lemma overrides_of_last (hH : H.Lawful) {C B : Class} (hlast : LastUpTo H g C) (hbase : Base H C B)
    (hf : H.getDeclaringType f = some B) (hsig : H.signature g = H.signature f)
    (hvirtual : H.isVirtual f) : H.overrides g f := by
  obtain ⟨G, hG, hGC, hlast⟩ := hlast
  refine hH.overrides_nearest hG hf hsig hvirtual (TransGen.tail' hGC hbase) ?_
  rintro h K hK hsigK ⟨hGK, hKB⟩
  have hKC := hlast h K hK (hsigK.trans hsig.symm) hGK
  rcases derives_total hGC hGK.to_reflTransGen with hCK | hKC'
  · rcases properlyDerives_or_eq hCK with rfl | hCK
    · exact hKC .refl
    · exact hH.not_between hbase hCK hKB
  · exact hKC hKC'

/-- **A function overrides, in one or more steps, every virtual function of its signature above
it**, up the chain of base classes. -/
lemma overrides_of_below (hH : H.Lawful) (hf : H.getDeclaringType f = some F)
    (hvirtual : H.isVirtual f) (h : ProperlyDerives H G F) :
    ∀ g, H.signature g = H.signature f → LastUpTo H g G → TransGen H.overrides g f := by
  induction h using TransGen.head_induction_on with
  | single hbase =>
    intro g hsig hlast
    exact .single (hH.overrides_of_last hlast hbase hf hsig hvirtual)
  | @head C B hbase hB ih =>
    intro g hsig hlast
    by_cases hdecl : ∃ h, H.getDeclaringType h = some B ∧ H.signature h = H.signature f
    · obtain ⟨h, hh, hsigh⟩ := hdecl
      have hover : H.overrides g h :=
        hH.overrides_of_last hlast hbase hh (hsig.trans hsigh.symm)
          (hH.virtual_below hh hf hsigh hvirtual hB)
      exact .head hover (ih h hsigh (hH.lastUpTo_self hh))
    · refine ih g hsig (hH.lastUpTo_base hlast hbase fun h hh hsigh => ?_)
      exact hdecl ⟨h, hh, hsigh.trans hsig⟩

lemma overrides_of_properlyDerives (hH : H.Lawful) (hg : H.getDeclaringType g = some G)
    (hf : H.getDeclaringType f = some F) (hsig : H.signature g = H.signature f)
    (hvirtual : H.isVirtual f) (h : ProperlyDerives H G F) : TransGen H.overrides g f :=
  hH.overrides_of_below hf hvirtual h g hsig (hH.lastUpTo_self hg)

/-! ### The targets -/

/-- What may implement a virtual function: the functions of its signature at or below it. -/
lemma possible_iff (hH : H.Lawful) (hm : H.getDeclaringType m = some M)
    (hname : H.getName M ≠ "IUnknown") (hvirtual : H.isVirtual m) :
    getAPossibleImplementation H m f ↔
      H.signature f = H.signature m ∧ ∃ F ∈ H.getDeclaringType f, Derives H F M := by
  constructor
  · rintro ⟨-, h⟩
    rcases reflTransGen_iff_eq_or_transGen.mp h with rfl | h
    · exact ⟨rfl, M, hm, .refl⟩
    · obtain ⟨hsig, F, hF, M', hM', hFM⟩ := hH.overrides_trans (transGen_swap.mpr h)
      obtain rfl : M = M' := Option.some.inj (hm.symm.trans hM')
      exact ⟨hsig, F, hF, hFM.to_reflTransGen⟩
  · rintro ⟨hsig, F, hF, hFM⟩
    refine ⟨⟨M, hm, hname⟩, ?_⟩
    rcases properlyDerives_or_eq hFM with rfl | hFM
    · rw [hH.one_member hF hm hsig]
    · exact (transGen_swap.mp
        (hH.overrides_of_properlyDerives hF hm hsig hvirtual hFM)).to_reflTransGen

lemma cannotInherit_iff (hH : H.Lawful) (hf : H.getDeclaringType f = some F)
    (hvirtual : H.isVirtual f) :
    cannotInherit H S f ↔ ∃ g G, H.getDeclaringType g = some G ∧
      H.signature g = H.signature f ∧ Derives H S G ∧ ProperlyDerives H G F := by
  constructor
  · rintro ⟨G, g, ⟨hSG, hG, F', hF', hGF⟩, hover⟩
    obtain rfl : F = F' := Option.some.inj (hf.symm.trans hF')
    exact ⟨g, G, hG, (hH.overrides_trans hover).1, hSG, hGF⟩
  · rintro ⟨g, G, hG, hsig, hSG, hGF⟩
    exact ⟨G, g, ⟨hSG, hG, F, hf, hGF⟩, hH.overrides_of_properlyDerives hG hf hsig hvirtual hGF⟩

/-! ### Final overriders -/

/-- **On an object of any class, a call runs one function.** -/
theorem existsUnique_final (hH : H.Lawful) (hm : H.getDeclaringType m = some M)
    (h : Derives H S M) : ∃! f, FinalOverrider H S m f := by
  refine existsUnique_of_exists_of_unique ?_ ?_
  · -- up the chain of bases, the first class that declares the function again decides
    induction h using ReflTransGen.head_induction_on with
    | refl => exact ⟨m, rfl, M, hm, .refl, fun _ G _ _ hMG hGM => hH.acyclic G (hGM.trans_left hMG)⟩
    | @head S B hbase _ ih =>
      by_cases hdecl : ∃ g, H.getDeclaringType g = some S ∧ H.signature g = H.signature m
      · obtain ⟨g, hg, hsig⟩ := hdecl
        exact ⟨g, hsig, S, hg, .refl, fun _ G _ _ hSG hGS => hH.acyclic G (hGS.trans_left hSG)⟩
      · obtain ⟨f, hsig, F, hF, hBF, hlast⟩ := ih
        refine ⟨f, hsig, F, hF, .head hbase hBF, fun g G hG hsigG hSG => ?_⟩
        rcases properlyDerives_or_eq hSG with rfl | hSG
        · exact absurd ⟨g, hG, hsigG⟩ hdecl
        · exact hlast g G hG hsigG (derives_of_base hbase hSG)
  · rintro f f' ⟨hsig, F, hF, hSF, hlast⟩ ⟨hsig', F', hF', hSF', hlast'⟩
    have hnot := hlast f' F' hF' hsig' hSF'
    have hnot' := hlast' f F hF hsig hSF
    obtain rfl : F = F' := by
      rcases derives_total hSF hSF' with h | h
      · exact (properlyDerives_or_eq h).resolve_right hnot'
      · exact ((properlyDerives_or_eq h).resolve_right hnot).symm
    exact hH.one_member hF hF' (hsig.trans hsig'.symm)

end Hierarchy.Lawful

lemma FinalOverrider.derives (hm : H.getDeclaringType m = some M) (hSM : Derives H S M)
    (h : FinalOverrider H S m f) : ∃ F ∈ H.getDeclaringType f, Derives H F M := by
  obtain ⟨-, F, hF, hSF, hlast⟩ := h
  refine ⟨F, hF, ?_⟩
  rcases derives_total hSF hSM with h | h
  · exact h
  · rcases properlyDerives_or_eq h with rfl | h
    · exact .refl
    · exact absurd h (hlast m M hm rfl hSM)

/-- What the analysis asks of one class below the qualifier's. -/
lemma inherits_iff (hH : H.Lawful) (hm : H.getDeclaringType m = some M)
    (hname : H.getName M ≠ "IUnknown") (hvirtual : H.isVirtual m) (hSM : Derives H S M) :
    (getAPossibleImplementation H m f ∧ mayInherit H S f ∧ ¬ cannotInherit H S f) ↔
      FinalOverrider H S m f := by
  rw [hH.possible_iff hm hname hvirtual]
  constructor
  · rintro ⟨⟨hsig, F, hF, hFM⟩, ⟨F', hF', hSF⟩, hcannot⟩
    obtain rfl : F = F' := Option.some.inj (hF.symm.trans hF')
    refine ⟨hsig, F, hF, hSF, fun g G hG hsigG hSG hGF => hcannot ?_⟩
    have hvirtualF : H.isVirtual f := by
      rcases properlyDerives_or_eq hFM with rfl | hFM
      · rwa [hH.one_member hF hm hsig]
      · exact hH.virtual_below hF hm hsig hvirtual hFM
    exact (hH.cannotInherit_iff hF hvirtualF).mpr ⟨g, G, hG, hsigG.trans hsig.symm, hSG, hGF⟩
  · intro hfinal
    have hbelow := hfinal.derives hm hSM
    obtain ⟨hsig, F, hF, hSF, hlast⟩ := hfinal
    refine ⟨⟨hsig, hbelow⟩, ⟨F, hF, hSF⟩, ?_⟩
    rintro ⟨G, g, ⟨hSG, hG, F', hF', hGF⟩, hover⟩
    obtain rfl : F = F' := Option.some.inj (hF.symm.trans hF')
    exact hlast g G hG ((hH.overrides_trans hover).1.trans hsig) hSG hGF

/-- A virtual call as C++ admits it: the static target is a virtual member of `M`, and the
qualifier's class `Q` is `M` or derives from it. -/
structure VirtualCall (H : Hierarchy Class Fn Sig) (c : Call Class Fn) (M Q : Class) : Prop where
  isVirtual : c.isVirtual
  target : H.getDeclaringType c.getTarget = some M
  declared : H.isVirtual c.getTarget
  qualifier : c.getQualifierClass = some Q
  derives : Derives H Q M

/-- **The viable targets of a virtual call are the final overriders in the classes an object
may have, and of any other call the static target.** -/
theorem getAViableTarget_iff (hH : H.Lawful) (hnames : ∀ C, H.getName C ≠ "IUnknown")
    (c : Call Class Fn) (f : Fn) :
    (∀ M Q, VirtualCall H c M Q → (getAViableTarget H c f ↔
      ∃ S, Derives H S Q ∧ FinalOverrider H S c.getTarget f)) ∧
    (c.isVirtual = false → (getAViableTarget H c f ↔ f = c.getTarget)) := by
  constructor
  · intro M Q hc
    have hbranch : c.isVirtual ∧ (H.getDeclaringType c.getTarget).isSome :=
      ⟨hc.isVirtual, by simp [hc.target]⟩
    rw [getAViableTarget, if_pos hbranch]
    have hclass : ∀ {S}, Derives H S Q →
        ((getAPossibleImplementation H c.getTarget f ∧ mayInherit H S f ∧ ¬ cannotInherit H S f) ↔
          FinalOverrider H S c.getTarget f) := fun hSQ =>
      inherits_iff hH hc.target (hnames M) hc.declared (hSQ.trans hc.derives)
    constructor
    · rintro ⟨Q', S, hpossible, ⟨hQ', -⟩, hSQ, hmay, hcannot⟩
      obtain rfl : Q = Q' := Option.some.inj (hc.qualifier.symm.trans hQ')
      exact ⟨S, hSQ, (hclass hSQ).mp ⟨hpossible, hmay, hcannot⟩⟩
    · rintro ⟨S, hSQ, hfinal⟩
      obtain ⟨hpossible, hmay, hcannot⟩ := (hclass hSQ).mpr hfinal
      exact ⟨Q, S, hpossible, ⟨hc.qualifier, hnames Q⟩, hSQ, hmay, hcannot⟩
  · intro hc
    rw [getAViableTarget, if_neg (by simp [hc])]

/-! ### An instance -/

inductive Device
  | device | disk | floppy
  deriving DecidableEq

inductive Method
  | deviceStart | diskStart | floppyStart | deviceName
  deriving DecidableEq

instance : Fintype Device := ⟨{.device, .disk, .floppy}, fun c => by cases c <;> decide⟩

instance : Fintype Method :=
  ⟨{.deviceStart, .diskStart, .floppyStart, .deviceName}, fun f => by cases f <;> decide⟩

/-- A disk is a device and a floppy is a disk; all start in a way of their own. -/
def devices : Hierarchy Device Method String where
  getName | .device => "Device" | .disk => "Disk" | .floppy => "Floppy"
  getABaseClass | .device => none | .disk => some .device | .floppy => some .disk
  getDeclaringType
    | .deviceStart | .deviceName => some .device
    | .diskStart => some .disk
    | .floppyStart => some .floppy
  signature | .deviceName => "Name()" | _ => "Start()"
  isVirtual | .deviceName => false | _ => true
  overrides g f := (g = .diskStart ∧ f = .deviceStart) ∨ (g = .floppyStart ∧ f = .diskStart)

instance : DecidableRel devices.overrides := fun _ _ => inferInstanceAs (Decidable (_ ∨ _))

lemma devices_lawful : devices.Lawful where
  acyclic := by decide
  one_member := by decide
  overrides_below := by decide
  overrides_nearest := by decide
  virtual_below := by decide

theorem getAViableTarget_iff_disk :
    getAViableTarget devices ⟨.deviceStart, true, some .disk⟩ .floppyStart ∧
      ¬ getAViableTarget devices ⟨.deviceStart, true, some .disk⟩ .deviceStart := by
  have hcall : VirtualCall devices ⟨.deviceStart, true, some .disk⟩ .device .disk :=
    ⟨rfl, rfl, rfl, rfl, .single rfl⟩
  have hnames : ∀ C, devices.getName C ≠ "IUnknown" := by decide
  constructor
  · exact ((getAViableTarget_iff devices_lawful hnames _ _).1 _ _ hcall).mpr
      ⟨.floppy, .single rfl, by decide⟩
  · rw [(getAViableTarget_iff devices_lawful hnames _ _).1 _ _ hcall]
    decide

end DriverQueries.VirtualDispatch
