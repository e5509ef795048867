import Mathlib.Data.Fintype.EquivFin
import DriverQueries.Text

/-!
The contracts of filtering callouts.

Three queries look for an annotated callout function that breaks a contract of its layer. Their
conditions ask for calls and assignments anywhere in the program and tie none of them to the
callout. So the code of unrelated functions decides whether a callout is reported, unless the
code of the callout and of the functions it calls already settles the condition.
-/

namespace DriverQueries.Callouts

open DriverQueries.Text

/-! ### Programs -/

/-- The calls and assignments of a function, with what the queries ask of them. The type and
the value of a right-hand side are those after all conversions. -/
inductive Element
  | call (getTarget : String) (startLine : ℕ)
  | assignExpr (lvalueType rvalueType : String) (rvalue : Option String)
  deriving DecidableEq

/-- A function with the names of the macros that annotate its declaration entries. -/
structure Function where
  getName : String
  annotations : List String := []
  body : List Element := []
  deriving DecidableEq

def Function.calls (f : Function) (name : String) : Prop := ∃ line, .call name line ∈ f.body

structure Program where
  functions : List Function
  names_nodup : (functions.map (·.getName)).Nodup := by decide

def Program.code (P : Program) : List Element := P.functions.flatMap (·.body)

/-! ### Calls and assignments -/

def CallOf (names : List String) : Element → Prop
  | .call target _ => target ∈ names
  | .assignExpr _ _ _ => False

instance (names : List String) : DecidablePred (CallOf names)
  | .call _ _ => inferInstanceAs (Decidable (_ ∈ _))
  | .assignExpr _ _ _ => inferInstanceAs (Decidable False)

def StreamInjectCall : Element → Prop := CallOf ["FwpsStreamInjectAsync", "FwpsStreamInjectAsync0"]

def StreamContinueCall : Element → Prop := CallOf ["FwpsStreamContinue0", "FwpsStreamContinue"]

def TransportInjectCall : Element → Prop :=
  CallOf ["FwpsInjectTransportSendAsync", "FwpsInjectTransportSendAsync0",
    "FwpsInjectTransportReceiveAsync0", "FwpsInjectTransportReceiveAsync",
    "FwpsInjectTransportSendAsync1"]

def TransportCloneCall : Element → Prop :=
  CallOf ["FwpsAllocateNetBufferAndNetBufferList0", "FwpsAllocateCloneNetBufferList0",
    "FwpsAllocateDeepCloneNetBufferList0", "FwpsAllocateNetBufferAndNetBufferList",
    "FwpsAllocateCloneNetBufferList", "FwpsAllocateDeepCloneNetBufferList"]

def FwpsPendClassifyCall : Element → Prop := CallOf ["FwpsPendClassify", "FwpsPendClassify0"]

def getStartLine : Element → ℕ
  | .call _ line => line
  | .assignExpr _ _ _ => 0

def ActionTypeExpr : Element → Prop
  | .call _ _ => False
  | .assignExpr lvalueType rvalueType _ =>
    matchesPattern lvalueType "FWP_ACTION_TYPE" ∧ matchesPattern rvalueType "FWP_ACTION_TYPE"

/-- `isBlockExpression`, for an `ActionTypeExpr`. -/
def isBlockExpression (exp : Element) : Prop :=
  ActionTypeExpr exp ∧ match exp with
    | .call _ _ => False
    | .assignExpr _ _ rvalue =>
      ∃ v ∈ rvalue, matchesPattern v "FWP_ACTION_BLOCK" ∨ matchesPattern v "4097"

/-- The value 1 is `FWPS_RIGHT_ACTION_WRITE`. -/
def WriteActionFlagSet : Element → Prop
  | .call _ _ => False
  | .assignExpr lvalueType _ rvalue =>
    matchesPattern lvalueType "UINT32" ∧ ∃ v ∈ rvalue, toInt v = some 1

instance : DecidablePred StreamInjectCall := inferInstanceAs (DecidablePred (CallOf _))
instance : DecidablePred StreamContinueCall := inferInstanceAs (DecidablePred (CallOf _))
instance : DecidablePred TransportInjectCall := inferInstanceAs (DecidablePred (CallOf _))
instance : DecidablePred TransportCloneCall := inferInstanceAs (DecidablePred (CallOf _))
instance : DecidablePred FwpsPendClassifyCall := inferInstanceAs (DecidablePred (CallOf _))

instance : DecidablePred ActionTypeExpr
  | .call _ _ => inferInstanceAs (Decidable False)
  | .assignExpr _ _ _ => inferInstanceAs (Decidable (_ ∧ _))

instance : DecidablePred isBlockExpression
  | .call _ _ => inferInstanceAs (Decidable (_ ∧ False))
  | .assignExpr _ _ _ => inferInstanceAs (Decidable (_ ∧ ∃ v ∈ _, _))

instance : DecidablePred WriteActionFlagSet
  | .call _ _ => inferInstanceAs (Decidable False)
  | .assignExpr _ _ _ => inferInstanceAs (Decidable (_ ∧ ∃ v ∈ _, _))

/-! ### The three queries -/

def AnnotatedWith (macros : List String) (f : Function) : Prop := ∃ a ∈ f.annotations, a ∈ macros

instance (macros : List String) : DecidablePred (AnnotatedWith macros) :=
  fun _ => inferInstanceAs (Decidable (∃ a ∈ _, _))

def StreamCalloutFunction : Function → Prop :=
  AnnotatedWith ["_Wfp_stream_inspection_classify_", "_Wfp_stream_inspection_notify_"]

def TransportInjectionClassifyFunction : Function → Prop :=
  AnnotatedWith ["_Wfp_Transport_inspection_classify_"]

def RedirectCalloutFunction : Function → Prop :=
  AnnotatedWith ["_Wfp_connect_redirect_classify_", "_Wfp_connect_redirect_inline_classify_"]

/-- Some call continues the stream and some call injects into it. -/
def ContinuesAndInjects (code : List Element) : Prop :=
  (∃ continues ∈ code, StreamContinueCall continues) ∧ ∃ inject ∈ code, StreamInjectCall inject

/-- Some packet is cloned on a line before one on which some packet is injected. -/
def ClonesBeforeInject (code : List Element) : Prop :=
  ∃ injectCall ∈ code, TransportInjectCall injectCall ∧ ∃ cloneCall ∈ code,
    TransportCloneCall cloneCall ∧ getStartLine cloneCall < getStartLine injectCall

/-- Some assignment blocks, and some assignment sets the write flag. -/
def BlocksAndSetsFlag (code : List Element) : Prop :=
  (∃ exp ∈ code, isBlockExpression exp) ∧ ∃ flag ∈ code, WriteActionFlagSet flag

/-- Some call pends, and no assignment blocks or none sets the write flag. -/
def PendsUnblocked (code : List Element) : Prop :=
  (∃ pend ∈ code, FwpsPendClassifyCall pend) ∧
    ((¬ ∃ exp ∈ code, isBlockExpression exp) ∨ ¬ ∃ flag ∈ code, WriteActionFlagSet flag)

instance : DecidablePred ContinuesAndInjects := fun _ => inferInstanceAs (Decidable (_ ∧ _))
instance : DecidablePred ClonesBeforeInject := fun _ => inferInstanceAs (Decidable (∃ e ∈ _, _))
instance : DecidablePred BlocksAndSetsFlag := fun _ => inferInstanceAs (Decidable (_ ∧ _))
instance : DecidablePred PendsUnblocked := fun _ => inferInstanceAs (Decidable (_ ∧ _))

/-- The query selects the functions of the class, if the code of the program meets the condition. -/
def Selects (cls : Function → Prop) (condition : List Element → Prop) (P : Program)
    (waf : Function) : Prop :=
  waf ∈ P.functions ∧ cls waf ∧ condition P.code

def StreamInspectionFunctionCallViolation : Program → Function → Prop :=
  Selects StreamCalloutFunction ContinuesAndInjects

def TransportLayerCannotInjectCloneDuringClassify : Program → Function → Prop :=
  Selects TransportInjectionClassifyFunction ClonesBeforeInject

def ConnectRedirectPendClassify : Program → Function → Prop :=
  Selects RedirectCalloutFunction PendsUnblocked

/-! ### Code that settles a condition -/

/-- Whatever code is added to it, the condition holds, or whatever code is added, it does not. -/
def Settles (own : List Element) (condition : List Element → Prop) : Prop :=
  (∀ code, own ⊆ code → condition code) ∨ ∀ code, own ⊆ code → ¬ condition code

/-- A condition that holds of more code as well, and of some code, is settled where it holds. -/
lemma settles_iff_of_mono {condition : List Element → Prop} {own : List Element}
    (hmono : ∀ code code', code ⊆ code' → condition code → condition code')
    (hsome : ∃ code, condition code) : Settles own condition ↔ condition own := by
  refine ⟨fun h => ?_, fun h => Or.inl fun code hcode => hmono own code hcode h⟩
  obtain h | h := h
  · exact h own (List.Subset.refl own)
  · obtain ⟨code, hcode⟩ := hsome
    have hnot := h (own ++ code) (List.subset_append_left own code)
    exact absurd (hmono code _ (List.subset_append_right own code) hcode) hnot

lemma exists_mem_mono {p : Element → Prop} {code code' : List Element} (h : code ⊆ code')
    (he : ∃ e ∈ code, p e) : ∃ e ∈ code', p e := by
  obtain ⟨e, hmem, hp⟩ := he
  exact ⟨e, h hmem, hp⟩

lemma settles_stream (own : List Element) :
    Settles own ContinuesAndInjects ↔ ContinuesAndInjects own := by
  refine settles_iff_of_mono (fun code code' h hcode => ?_) ?_
  · exact ⟨exists_mem_mono h hcode.1, exists_mem_mono h hcode.2⟩
  · exact ⟨[.call "FwpsStreamContinue0" 1, .call "FwpsStreamInjectAsync0" 2], by decide⟩

lemma settles_transport (own : List Element) :
    Settles own ClonesBeforeInject ↔ ClonesBeforeInject own := by
  refine settles_iff_of_mono (fun code code' h hcode => ?_) ?_
  · obtain ⟨inject, hinject, hcall, clone, hclone, hline⟩ := hcode
    exact ⟨inject, h hinject, hcall, clone, h hclone, hline⟩
  · exact ⟨[.call "FwpsAllocateCloneNetBufferList0" 1, .call "FwpsInjectTransportSendAsync0" 2],
      by decide⟩

/-- An assignment that blocks, one that sets the write flag, and a call that pends. -/
def blockExpr : Element := .assignExpr "FWP_ACTION_TYPE" "FWP_ACTION_TYPE" (some "4097")
def flagSet : Element := .assignExpr "UINT32" "UINT32" (some "1")
def pendCall : Element := .call "FwpsPendClassify0" 1

/-- Code that blocks and sets the flag is never reported, and other code is with a call that
pends added to it, but not with the two assignments added. -/
lemma settles_redirect (own : List Element) :
    Settles own PendsUnblocked ↔ BlocksAndSetsFlag own := by
  refine ⟨fun h => ?_, fun h => Or.inr fun code hcode hpends => ?_⟩
  · obtain h | h := h
    · have hunblocked := (h (blockExpr :: flagSet :: own) (by intro e he; simp [he])).2
      have hblock : ∃ exp ∈ blockExpr :: flagSet :: own, isBlockExpression exp :=
        ⟨blockExpr, by simp, by decide⟩
      have hflag : ∃ flag ∈ blockExpr :: flagSet :: own, WriteActionFlagSet flag :=
        ⟨flagSet, by simp, by decide⟩
      exact absurd hunblocked (not_or.mpr ⟨not_not_intro hblock, not_not_intro hflag⟩)
    · have hnot := h (pendCall :: own) (List.subset_cons_self _ _)
      have hpend : ∃ pend ∈ pendCall :: own, FwpsPendClassifyCall pend :=
        ⟨pendCall, by simp, by decide⟩
      have hboth := not_or.mp fun hor => hnot ⟨hpend, hor⟩
      obtain ⟨exp, hexp, hblock⟩ := not_not.mp hboth.1
      obtain ⟨flag, hflag, hset⟩ := not_not.mp hboth.2
      -- the call that pends is neither assignment
      have hne : exp ≠ pendCall ∧ flag ≠ pendCall := by
        constructor
        · rintro rfl
          exact hblock.1
        · rintro rfl
          exact hset
      exact ⟨⟨exp, (List.mem_cons.mp hexp).resolve_left hne.1, hblock⟩,
        ⟨flag, (List.mem_cons.mp hflag).resolve_left hne.2, hset⟩⟩
  · obtain hno | hno := hpends.2
    · exact hno (exists_mem_mono hcode h.1)
    · exact hno (exists_mem_mono hcode h.2)

/-! ### Locality -/

/-- The programs have the callout in common, and the functions it calls. -/
structure Agree (P Q : Program) (waf : Function) : Prop where
  left : waf ∈ P.functions
  right : waf ∈ Q.functions
  called : ∀ g, waf.calls g.getName → (g ∈ P.functions ↔ g ∈ Q.functions)

/-- The function is the callout or one that it calls. -/
def Own (waf g : Function) : Prop := g = waf ∨ waf.calls g.getName

instance (f : Function) (name : String) : Decidable (f.calls name) :=
  decidable_of_iff (∃ e ∈ f.body, ∃ line ∈ [getStartLine e], e = .call name line) <| by
    simp only [Function.calls, List.mem_singleton, exists_eq_left]
    refine ⟨fun ⟨e, he, heq⟩ => ⟨_, heq ▸ he⟩, fun ⟨line, h⟩ => ⟨_, h, rfl⟩⟩

instance (waf : Function) : DecidablePred (Own waf) := fun _ => inferInstanceAs (Decidable (_ ∨ _))

/-- The code of the callout and of the functions it calls. -/
def ownCode (P : Program) (waf : Function) : List Element :=
  (P.functions.filter fun g => Own waf g).flatMap (·.body)

variable {P Q : Program} {waf : Function}

lemma mem_ownCode {e : Element} :
    e ∈ ownCode P waf ↔ ∃ g ∈ P.functions, Own waf g ∧ e ∈ g.body := by
  simp [ownCode, and_assoc]

lemma ownCode_subset (P : Program) (waf : Function) : ownCode P waf ⊆ P.code := by
  intro e he
  obtain ⟨g, hg, -, he⟩ := mem_ownCode.mp he
  exact List.mem_flatMap.mpr ⟨g, hg, he⟩

lemma Agree.ownCode_subset (h : Agree P Q waf) : ownCode P waf ⊆ Q.code := by
  intro e he
  obtain ⟨g, hg, hown, he⟩ := mem_ownCode.mp he
  refine List.mem_flatMap.mpr ⟨g, ?_, he⟩
  obtain rfl | hcalls := hown
  · exact h.right
  · exact (h.called g hcalls).mp hg

lemma exists_fresh_name (P : Program) (waf : Function) :
    ∃ name, (∀ g ∈ P.functions, g.getName ≠ name) ∧ ¬ waf.calls name := by
  obtain ⟨name, hname⟩ := Infinite.exists_notMem_finset
    (P.functions.map (·.getName) ++ waf.body.flatMap fun
      | .call target _ => [target]
      | .assignExpr _ _ _ => []).toFinset
  simp only [List.mem_toFinset, List.mem_append, not_or] at hname
  obtain ⟨hfresh, huncalled⟩ := hname
  refine ⟨name, fun g hg heq => hfresh (heq ▸ List.mem_map_of_mem hg), fun ⟨line, hcall⟩ => ?_⟩
  exact huncalled (List.mem_flatMap.mpr ⟨_, hcall, List.mem_singleton_self _⟩)

/-- The callout and the functions it calls, with a further function. -/
def ownWith (P : Program) (waf extra : Function)
    (hfresh : ∀ g ∈ P.functions, g.getName ≠ extra.getName) : Program where
  functions := (P.functions.filter fun g => Own waf g) ++ [extra]
  names_nodup := by
    rw [List.map_append, List.nodup_append]
    refine ⟨P.names_nodup.sublist (List.filter_sublist.map _), by simp, ?_⟩
    intro a ha b hb
    obtain ⟨g, hg, rfl⟩ := List.mem_map.mp ha
    rw [List.map_singleton, List.mem_singleton] at hb
    exact hb ▸ hfresh g (List.mem_of_mem_filter hg)

lemma exists_agree (hwaf : waf ∈ P.functions) (code : List Element) :
    ∃ Q, Agree P Q waf ∧ ∀ e, e ∈ Q.code ↔ e ∈ ownCode P waf ∨ e ∈ code := by
  obtain ⟨name, hfresh, hcalls⟩ := exists_fresh_name P waf
  refine ⟨ownWith P waf { getName := name, body := code } hfresh, ⟨hwaf, ?_, fun g hg => ?_⟩,
    fun e => ?_⟩
  · simp [ownWith, hwaf, Own]
  · have hne : g ≠ { getName := name, body := code } := by
      rintro rfl
      exact hcalls hg
    simp [ownWith, Own, hg, hne]
  · simp [ownWith, Program.code, ownCode]

/-- A condition that does not depend on the order of the code. -/
def OnMembers (condition : List Element → Prop) : Prop :=
  ∀ code code', (∀ e, e ∈ code ↔ e ∈ code') → (condition code ↔ condition code')

/-- **A query reports the callout in all programs that agree or in none, iff the callout is not
one of its class or its own code settles the condition.** -/
lemma selects_local_iff (cls : Function → Prop) {condition : List Element → Prop}
    (hmem : OnMembers condition) (hwaf : waf ∈ P.functions) :
    (∀ Q, Agree P Q waf → (Selects cls condition P waf ↔ Selects cls condition Q waf)) ↔
      (cls waf → Settles (ownCode P waf) condition) := by
  refine ⟨fun h hcls => ?_, fun h Q hQ => ?_⟩
  · have hsame : ∀ code, ownCode P waf ⊆ code → (condition code ↔ condition P.code) := by
      intro code hcode
      obtain ⟨Q, hQ, hmemQ⟩ := exists_agree hwaf code
      have hcodeQ : condition Q.code ↔ condition code := by
        refine hmem _ _ fun e => ?_
        rw [hmemQ, or_iff_right_of_imp fun he => hcode he]
      have hlocal := h Q hQ
      simp only [Selects, hQ.left, hQ.right, hcls, true_and] at hlocal
      rw [← hcodeQ, hlocal]
    by_cases hP : condition P.code
    · exact Or.inl fun code hcode => (hsame code hcode).mpr hP
    · exact Or.inr fun code hcode hcond => hP ((hsame code hcode).mp hcond)
  · simp only [Selects, hQ.left, hQ.right, true_and]
    refine and_congr_right fun hcls => ?_
    obtain hall | hnone := h hcls
    · exact iff_of_true (hall _ (ownCode_subset P waf)) (hall _ hQ.ownCode_subset)
    · exact iff_of_false (hnone _ (ownCode_subset P waf)) (hnone _ hQ.ownCode_subset)

lemma onMembers_stream : OnMembers ContinuesAndInjects := by
  intro code code' h
  simp only [ContinuesAndInjects, h]

lemma onMembers_transport : OnMembers ClonesBeforeInject := by
  intro code code' h
  simp only [ClonesBeforeInject, h]

lemma onMembers_redirect : OnMembers PendsUnblocked := by
  intro code code' h
  simp only [PendsUnblocked, h]

/-- Each query reports the callout in every program that agrees on it or in none, and the first
reports it only for calls of its own. -/
def Local (P : Program) (waf : Function) : Prop :=
  (∀ Q, Agree P Q waf →
    (StreamInspectionFunctionCallViolation P waf ↔ StreamInspectionFunctionCallViolation Q waf) ∧
    (TransportLayerCannotInjectCloneDuringClassify P waf ↔
      TransportLayerCannotInjectCloneDuringClassify Q waf) ∧
    (ConnectRedirectPendClassify P waf ↔ ConnectRedirectPendClassify Q waf)) ∧
  (StreamInspectionFunctionCallViolation P waf → ContinuesAndInjects waf.body)

lemma stream_own_iff (hwaf : waf ∈ P.functions) :
    ((StreamCalloutFunction waf → ContinuesAndInjects (ownCode P waf)) ∧
      (StreamInspectionFunctionCallViolation P waf → ContinuesAndInjects waf.body)) ↔
      (StreamCalloutFunction waf → ContinuesAndInjects waf.body) := by
  have hbody : waf.body ⊆ ownCode P waf := fun e he => mem_ownCode.mpr ⟨waf, hwaf, Or.inl rfl, he⟩
  have hmono : ∀ {code code'}, code ⊆ code' → ContinuesAndInjects code →
      ContinuesAndInjects code' := fun h hcode =>
    ⟨exists_mem_mono h hcode.1, exists_mem_mono h hcode.2⟩
  refine ⟨fun ⟨hown, honly⟩ hcls => ?_, fun h => ⟨fun hcls => hmono hbody (h hcls), fun hsel => ?_⟩⟩
  · exact honly ⟨hwaf, hcls, hmono (ownCode_subset P waf) (hown hcls)⟩
  · exact h hsel.2.1

/-- **The queries are local to a callout iff its own code settles their conditions**: a stream
callout itself continues and injects, and the code of a transport callout and of the functions it
calls clones before it injects, and that of a redirect callout blocks and sets the write flag. -/
theorem local_iff (P : Program) (waf : Function) :
    Local P waf ↔ (waf ∈ P.functions →
      (StreamCalloutFunction waf → ContinuesAndInjects waf.body) ∧
      (TransportInjectionClassifyFunction waf → ClonesBeforeInject (ownCode P waf)) ∧
      (RedirectCalloutFunction waf → BlocksAndSetsFlag (ownCode P waf))) := by
  by_cases hwaf : waf ∈ P.functions
  · have hstream := selects_local_iff StreamCalloutFunction onMembers_stream hwaf
    have htransport :=
      selects_local_iff TransportInjectionClassifyFunction onMembers_transport hwaf
    have hredirect := selects_local_iff RedirectCalloutFunction onMembers_redirect hwaf
    rw [settles_stream] at hstream
    rw [settles_transport] at htransport
    rw [settles_redirect] at hredirect
    simp only [hwaf, true_imp_iff, ← stream_own_iff hwaf, ← hstream, ← htransport, ← hredirect,
      Local, imp_and, forall_and]
    unfold StreamInspectionFunctionCallViolation TransportLayerCannotInjectCloneDuringClassify
      ConnectRedirectPendClassify
    tauto
  · refine iff_of_true ⟨fun Q hQ => absurd hQ.left hwaf, fun h => absurd h.1 hwaf⟩ ?_
    exact fun h => absurd h hwaf

/-- A stream callout that calls nothing, with an unrelated function or without. -/
def quietCallout : Function :=
  { getName := "classify", annotations := ["_Wfp_stream_inspection_classify_"] }

def alone : Program := { functions := [quietCallout] }

def withOther : Program :=
  { functions := [quietCallout, { getName := "other", body :=
      [.call "FwpsStreamContinue0" 1, .call "FwpsStreamInjectAsync0" 2] }] }

theorem quietCallout_not_local :
    Agree alone withOther quietCallout ∧
      ¬ StreamInspectionFunctionCallViolation alone quietCallout ∧
      StreamInspectionFunctionCallViolation withOther quietCallout ∧
      ¬ ContinuesAndInjects quietCallout.body := by
  refine ⟨⟨by simp [alone], by simp [withOther], fun g hg => ?_⟩, ?_, ?_, by decide⟩
  · obtain ⟨line, hcall⟩ := hg
    exact absurd hcall List.not_mem_nil
  · rintro ⟨-, -, hcode⟩
    exact absurd hcode (by decide)
  · exact ⟨by simp [withOther], by unfold StreamCalloutFunction; decide, by decide⟩

end DriverQueries.Callouts
