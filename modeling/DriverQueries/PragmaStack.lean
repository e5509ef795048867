import DriverQueries.ScopeStack
import DriverQueries.Suppression
import Mathlib.Order.WellFounded

/-!
Disable pragmas against the stack of warning states.

A compiler executes the pragmas of a file in order: a push saves the set of disabled rules, a
pop takes the last saved set back, a disable adds its rules. The library pairs every push with
the closest pop instead, nested or not. Here a line is in the range of a disable pragma, and
the stack has the rule disabled because of it, and it is shown when the two are the same.
-/

namespace DriverQueries.PragmaStack

open DriverQueries.ScopeStack DriverQueries.Suppression

/-! ### The warning state -/

/-- What a pragma does to the rules that are disabled, each because of one pragma. -/
def command (p : Pragma) : Command (String × Pragma) :=
  match p.kind with
  | .push _ => .save
  | .pop _ => .restore
  | .disable rules => .add (rules.map fun rule => (rule, p))
  | _ => .skip

def pragmasBefore (F : SourceFile) (line : ℕ) : List Pragma :=
  F.pragmas.filter fun p => p.location.startLine < line

/-- Executing the pragmas up to the line leaves the rule disabled because of `d`. -/
def DisabledBecauseOf (F : SourceFile) (line : ℕ) (rule : String) (d : Pragma) : Prop :=
  (rule, d) ∈ (run ⟨[], []⟩ ((pragmasBefore F line).map command)).current

/-- Every pragma is on lines of its own, after those of the pragmas before it; push and pop are
of one kind, and no pop comes without a push before it. -/
structure WellNested (F : SourceFile) (isWarning : Bool) : Prop where
  sorted : F.pragmas.Pairwise fun p q => p.location.endLine < q.location.startLine
  kind : ∀ p ∈ F.pragmas, ∀ w, p.kind = .push w ∨ p.kind = .pop w → w = isWarning
  nested : nested 0 (F.pragmas.map command)

/-! ### The condition -/

variable (F : SourceFile) (d : Pragma) (line : ℕ)

def between : List Pragma :=
  F.pragmas.filter fun p => d.location.endLine < p.location.startLine ∧ p.location.startLine < line

def Closed : Prop := closes 0 ((between F d line).map command)

def AfterPush : Prop :=
  ∃ push ∈ F.pragmas, (∃ w, push.kind = .push w) ∧
    push.location.endLine ≤ d.location.startLine ∧
    ∀ pop ∈ F.pragmas, (∃ w, pop.kind = .pop w) →
      ¬ (push.location.endLine ≤ pop.location.startLine ∧
        pop.location.endLine ≤ d.location.startLine)

def PopBetween : Prop := ∃ pop ∈ between F d line, ∃ w, pop.kind = .pop w

variable {F d line} {isWarning : Bool}

/-- The pragmas before the line are some without `d`, `d`, and those between. -/
lemma WellNested.split (hF : WellNested F isWarning) (hd : d ∈ F.pragmas)
    (hline : d.location.endLine < line) : ∃ before,
      pragmasBefore F line = before ++ d :: between F d line ∧
      d ∉ before ∧ d ∉ between F d line := by
  obtain ⟨before, after, hsplit⟩ := List.append_of_mem hd
  -- no two pragmas share a line, so that those in the list before `d` end above it
  have hsorted := hF.sorted
  rw [hsplit, List.pairwise_append, List.pairwise_cons] at hsorted
  obtain ⟨-, ⟨hafter, -⟩, hbefore⟩ := hsorted
  have hdord := d.location.ordered
  have hb : ∀ p ∈ before, p.location.endLine < d.location.startLine := fun p hp =>
    hbefore p hp d List.mem_cons_self
  have hbetween : between F d line = after.filter fun p => p.location.startLine < line := by
    unfold between
    rw [hsplit, List.filter_append, List.filter_cons_of_neg (by simp; omega),
      List.filter_eq_nil_iff.mpr, List.nil_append]
    · refine List.filter_congr fun p hp => ?_
      have := hafter p hp
      simp only [this, true_and]
    · intro p hp
      have := hb p hp
      have := p.location.ordered
      simp only [decide_eq_true_eq]
      omega
  refine ⟨before, ?_, fun hp => ?_, fun hp => ?_⟩
  · rw [hbetween]
    unfold pragmasBefore
    rw [hsplit, List.filter_append, List.filter_cons_of_pos (by simp; omega),
      List.filter_eq_self.mpr]
    intro p hp
    have := hb p hp
    have := p.location.ordered
    simp only [decide_eq_true_eq]
    omega
  · have := hb d hp
    omega
  · rw [hbetween] at hp
    have := hafter d (List.mem_filter.mp hp).1
    omega

lemma untouched_of_not_mem {ps : List Pragma} (h : d ∉ ps) (rule : String) :
    Untouched (rule, d) (ps.map command) := by
  intro xs hxs hmem
  obtain ⟨p, hp, hcmd⟩ := List.mem_map.mp hxs
  unfold command at hcmd
  cases hk : p.kind with
  | disable rules =>
    rw [hk] at hcmd
    obtain rfl := Command.add.inj hcmd
    obtain ⟨r, -, hr⟩ := List.mem_map.mp hmem
    obtain ⟨-, rfl⟩ := Prod.mk.inj hr
    exact h hp
  | push w | pop w | suppress rules | other =>
    simp only [hk, reduceCtorEq] at hcmd

/-- The pragmas before a line come first in the file. -/
lemma filter_prefix {ps : List Pragma}
    (h : ps.Pairwise fun p q => p.location.endLine < q.location.startLine) :
    (ps.filter fun p => p.location.startLine < line) <+: ps := by
  induction ps with
  | nil => exact List.nil_prefix
  | cons p ps ih =>
    rw [List.pairwise_cons] at h
    by_cases hp : p.location.startLine < line
    · rw [List.filter_cons_of_pos (by simpa using hp)]
      exact (List.prefix_cons_inj p).mpr (ih h.2)
    · have hnil : ps.filter (fun p => p.location.startLine < line) = [] := by
        refine List.filter_eq_nil_iff.mpr fun q hq => ?_
        have := h.1 q hq
        have := p.location.ordered
        simp only [decide_eq_true_eq]
        omega
      rw [List.filter_cons_of_neg (by simpa using hp), hnil]
      exact List.nil_prefix

/-- The rule is disabled because of `d` until the block of `d` is closed. -/
lemma disabledBecauseOf_iff (hF : WellNested F isWarning) (hd : d ∈ F.pragmas)
    (hline : d.location.endLine < line) {rules : List String} (hkind : d.kind = .disable rules)
    {rule : String} (hrule : rule ∈ rules) :
    DisabledBecauseOf F line rule d ↔ ¬ Closed F d line := by
  obtain ⟨before, hbefore, hnb, hna⟩ := hF.split hd hline
  have hprefix : pragmasBefore F line <+: F.pragmas := filter_prefix hF.sorted
  obtain ⟨rest, hrest⟩ := hprefix
  have hcmd : command d = .add (rules.map fun rule => (rule, d)) := by
    unfold command
    rw [hkind]
  have hnested : nested 0 ((pragmasBefore F line).map command) := by
    have h := hF.nested
    rw [← hrest, List.map_append] at h
    exact nested_of_append h
  unfold DisabledBecauseOf Closed
  rw [hbefore, List.map_append, List.map_cons, hcmd] at hnested ⊢
  rw [mem_run_add_iff (List.mem_map_of_mem hrule) (untouched_of_not_mem hnb rule)
    (untouched_of_not_mem hna rule) hnested, Bool.not_eq_true]

/-! ### The range -/

lemma WellNested.order (hF : WellNested F isWarning) {p q : Pragma} (hp : p ∈ F.pragmas)
    (hq : q ∈ F.pragmas) : p = q ∨ p.location.endLine < q.location.startLine ∨
      q.location.endLine < p.location.startLine := by
  exact List.Pairwise.forall_of_forall_of_flip (R := fun p q : Pragma => p = q ∨
      p.location.endLine < q.location.startLine ∨ q.location.endLine < p.location.startLine)
    (fun _ _ => Or.inl rfl) (hF.sorted.imp fun h => Or.inr (Or.inl h))
    (hF.sorted.imp fun h => Or.inr (Or.inr h)) hp hq

/-- In a file of one kind, the closest pop is the first one after the push. -/
lemma WellNested.closestPop_iff (hF : WellNested F isWarning) {push pop : Pragma}
    (hpush : push ∈ F.pragmas) (hpop : pop ∈ F.pragmas) :
    ClosestPop F push pop ↔ (∃ w, push.kind = .push w) ∧ (∃ w, pop.kind = .pop w) ∧
      push.location.endLine ≤ pop.location.startLine ∧
      ∀ closerPop ∈ F.pragmas, (∃ w, closerPop.kind = .pop w) →
        ¬ (push.location.endLine ≤ closerPop.location.startLine ∧
          closerPop.location.endLine < pop.location.startLine) := by
  unfold ClosestPop SuppressionPushPragma SuppressionPopPragma
  refine ⟨fun h => ?_, fun h => ?_⟩
  · obtain ⟨w, hw, hw', hle, hcloser⟩ := h
    refine ⟨⟨w, hw⟩, ⟨w, hw'⟩, hle, fun c hc ⟨v, hv⟩ hlines => hcloser ⟨c, hc, ?_, hlines⟩⟩
    rw [hv, hF.kind c hc v (Or.inr hv), hF.kind push hpush w (Or.inl hw)]
  · obtain ⟨⟨w, hw⟩, ⟨v, hv⟩, hle, hcloser⟩ := h
    refine ⟨w, hw, ?_, hle, ?_⟩
    · rw [hv, hF.kind pop hpop v (Or.inr hv), hF.kind push hpush w (Or.inl hw)]
    · rintro ⟨c, hc, hcw, hlines⟩
      exact hcloser c hc ⟨w, hcw⟩ hlines

lemma mem_segment_iff {spps : Location × Location} :
    spps ∈ SuppressionPushPopSegment F ↔ ∃ push ∈ F.pragmas, ∃ pop ∈ F.pragmas,
      ClosestPop F push pop ∧ spps = (push.location, pop.location) := by
  unfold SuppressionPushPopSegment
  simp only [List.mem_flatMap, List.mem_map, List.mem_filter, decide_eq_true_eq, and_assoc]
  exact exists_congr fun _ => and_congr_right fun _ => exists_congr fun _ =>
    and_congr_right fun _ => and_congr_right fun _ => eq_comm

lemma exists_first_pop {r : Pragma} (hr : r ∈ F.pragmas) (hpop : ∃ w, r.kind = .pop w)
    (hdr : d.location.endLine ≤ r.location.startLine) :
    ∃ q ∈ F.pragmas, (∃ w, q.kind = .pop w) ∧ d.location.endLine ≤ q.location.startLine ∧
      ∀ c ∈ F.pragmas, (∃ w, c.kind = .pop w) → d.location.endLine ≤ c.location.startLine →
        q.location.startLine ≤ c.location.startLine := by
  obtain ⟨q, ⟨hq, hqpop, hdq⟩, hmin⟩ :=
    (InvImage.wf (fun p : Pragma => p.location.startLine) Nat.lt_wfRel.wf).has_min
      {q | q ∈ F.pragmas ∧ (∃ w, q.kind = .pop w) ∧ d.location.endLine ≤ q.location.startLine}
      ⟨r, hr, hpop, hdr⟩
  exact ⟨q, hq, hqpop, hdq, fun c hc hcpop hdc => not_lt.mp (hmin c ⟨hc, hcpop, hdc⟩)⟩

/-- A disable after a push has a segment that ends at the first pop after it. -/
lemma disableHasSegment_of_afterPush (hF : WellNested F isWarning) (hd : d ∈ F.pragmas)
    (hkind : ∀ w, d.kind ≠ .pop w) (hafter : AfterPush F d) {r : Pragma} (hr : r ∈ F.pragmas)
    (hpop : ∃ w, r.kind = .pop w) (hdr : d.location.endLine ≤ r.location.startLine) :
    disableHasSegment F d := by
  obtain ⟨push, hpush, hw, hpd, hnone⟩ := hafter
  obtain ⟨q, hq, hqpop, hdq, hfirst⟩ := exists_first_pop hr hpop hdr
  have hord := d.location.ordered
  have hclosest : ClosestPop F push q := by
    refine (hF.closestPop_iff hpush hq).mpr ⟨hw, hqpop, by omega, fun c hc hcpop hlines => ?_⟩
    have hcord := c.location.ordered
    rcases hF.order hd hc with rfl | hdc | hcd
    · obtain ⟨w, hw⟩ := hcpop
      exact hkind w hw
    · have := hfirst c hc hcpop hdc.le
      omega
    · exact hnone c hc hcpop ⟨hlines.1, hcd.le⟩
  have hmem := mem_segment_iff.mpr ⟨push, hpush, q, hq, hclosest, rfl⟩
  exact ⟨_, hmem, _, hmem, rfl, hpd, hdq⟩

/-- No segment of a disable goes beyond a pop after the disable. -/
lemma segment_end_le (hF : WellNested F isWarning) {spps : Location × Location}
    (hspps : spps ∈ SuppressionPushPopSegment F) (hin : disableInSegment F d spps.1) {r : Pragma}
    (hr : r ∈ F.pragmas) (hpop : ∃ w, r.kind = .pop w)
    (hdr : d.location.endLine ≤ r.location.startLine) :
    spps.2.startLine ≤ r.location.startLine := by
  obtain ⟨push, hpush, pop, hpopmem, hclosest, rfl⟩ := mem_segment_iff.mp hspps
  obtain ⟨spps', -, heq, hstart, -⟩ := hin
  obtain ⟨-, -, -, hcloser⟩ := (hF.closestPop_iff hpush hpopmem).mp hclosest
  have hord := d.location.ordered
  have hpord := pop.location.ordered
  rw [heq] at hstart
  simp only at hstart ⊢
  rcases hF.order hr hpopmem with rfl | hrp | hpr
  · exact le_rfl
  · exact absurd ⟨by omega, hrp⟩ (hcloser r hr hpop)
  · omega

/-- A disable in a segment comes after a push, and the pop of the segment after it. -/
lemma afterPush_of_disableHasSegment (hF : WellNested F isWarning) (hd : d ∈ F.pragmas)
    (hkind : ∀ w, d.kind ≠ .pop w) (hseg : disableHasSegment F d) :
    AfterPush F d ∧ ∃ spps ∈ SuppressionPushPopSegment F, disableInSegment F d spps.1 ∧
      ∃ pop ∈ F.pragmas, (∃ w, pop.kind = .pop w) ∧ spps.2 = pop.location ∧
        d.location.endLine < pop.location.startLine := by
  obtain ⟨-, -, spps, hspps, -, hstart, hend⟩ := hseg
  obtain ⟨push, hpush, pop, hpop, hclosest, rfl⟩ := mem_segment_iff.mp hspps
  obtain ⟨hw, hv, -, hcloser⟩ := (hF.closestPop_iff hpush hpop).mp hclosest
  have hord := d.location.ordered
  simp only at hstart hend
  refine ⟨⟨push, hpush, hw, hstart, fun c hc hcpop hlines => ?_⟩, _, hspps,
    ⟨_, hspps, rfl, hstart, hend⟩, pop, hpop, hv, rfl, ?_⟩
  · have hcord := c.location.ordered
    rcases hF.order hd hc with rfl | hdc | hcd
    · obtain ⟨w, hw⟩ := hcpop
      exact hkind w hw
    · omega
    · exact hcloser c hc hcpop ⟨hlines.1, by omega⟩
  · have hpord := pop.location.ordered
    rcases hF.order hd hpop with rfl | hdp | hpd
    · obtain ⟨w, hw⟩ := hv
      exact absurd hw (hkind w)
    · exact hdp
    · omega

/-- The line is out of the range iff the nearest push or pop before `d` is a push and some pop
comes between `d` and the line. -/
lemma covered_iff (hF : WellNested F isWarning) (hd : d ∈ F.pragmas)
    (hline : d.location.endLine < line) (hlast : ∃ e ∈ lastLine F, line ≤ e) {rules : List String}
    (hkind : d.kind = .disable rules) :
    Covered F d line ↔ ¬ (AfterPush F d ∧ PopBetween F d line) := by
  have hnotpop : ∀ w, d.kind ≠ .pop w := fun w h => by
    rw [hkind] at h
    exact PragmaKind.noConfusion h
  rw [covered_disable_iff hkind]
  refine ⟨fun h hcond => ?_, fun h => ⟨hline.le, ?_⟩⟩
  · obtain ⟨hafter, r, hr, hpop⟩ := hcond
    obtain ⟨hr, hlines⟩ := List.mem_filter.mp hr
    simp only [Bool.decide_and, Bool.and_eq_true, decide_eq_true_eq] at hlines
    obtain ⟨-, ⟨spps, hspps, hin, hle⟩ | ⟨hseg, -⟩⟩ := h
    · have hend := segment_end_le hF hspps hin hr hpop hlines.1.le
      omega
    · exact hseg (disableHasSegment_of_afterPush hF hd hnotpop hafter hr hpop hlines.1.le)
  · by_cases hseg : disableHasSegment F d
    · obtain ⟨hafter, spps, hspps, hin, pop, hpop, hpopkind, hend, hlt⟩ :=
        afterPush_of_disableHasSegment hF hd hnotpop hseg
      refine Or.inl ⟨spps, hspps, hin, ?_⟩
      by_contra hcon
      refine h ⟨hafter, pop, List.mem_filter.mpr ⟨hpop, ?_⟩, hpopkind⟩
      rw [hend] at hcon
      simp only [Bool.decide_and, Bool.and_eq_true, decide_eq_true_eq]
      omega
    · exact Or.inr ⟨hseg, hlast⟩

lemma popBetween_of_closed (h : Closed F d line) : PopBetween F d line := by
  obtain ⟨p, hp, hcmd⟩ := List.mem_map.mp (restore_mem_of_closes h)
  refine ⟨p, hp, ?_⟩
  unfold command at hcmd
  cases hk : p.kind with
  | pop w => exact ⟨w, rfl⟩
  | push w | disable rules | suppress rules | other => simp only [hk, reduceCtorEq] at hcmd

/-- **A line after a disable is in its range just when the stack has the rule disabled because
of it iff no pop comes between the two, or the nearest push or pop before the disable is a push
exactly when the block of the disable is closed before the line.** -/
theorem covered_iff_disabled_iff (hF : WellNested F isWarning) (hd : d ∈ F.pragmas)
    {rules : List String} (hkind : d.kind = .disable rules) {rule : String} (hrule : rule ∈ rules)
    (hline : d.location.endLine < line) (hlast : ∃ e ∈ lastLine F, line ≤ e) :
    (Covered F d line ↔ DisabledBecauseOf F line rule d) ↔
      ¬ PopBetween F d line ∨ (AfterPush F d ↔ Closed F d line) := by
  rw [covered_iff hF hd hline hlast hkind, disabledBecauseOf_iff hF hd hline hkind hrule]
  have hclosed := @popBetween_of_closed F d line
  tauto

/-- A disable in a block, and a block inside that one after the disable. -/
def nestedFile : SourceFile :=
  fileOf [(1, .push false), (2, .disable ["28719"]), (3, .push false), (4, .pop false),
    (6, .pop false)] [5, 7]

def disableOnTwo : Pragma := ⟨onLine 2, .disable ["28719"]⟩

lemma wellNested_nestedFile : WellNested nestedFile false :=
  ⟨by decide, by decide, by decide⟩

theorem covered_iff_disabled_after_block :
    (Covered nestedFile disableOnTwo 7 ↔ DisabledBecauseOf nestedFile 7 "28719" disableOnTwo) ↔
      ¬ PopBetween nestedFile disableOnTwo 7 ∨
        (AfterPush nestedFile disableOnTwo ↔ Closed nestedFile disableOnTwo 7) :=
  covered_iff_disabled_iff wellNested_nestedFile (by decide) rfl (by decide) (by decide)
    ⟨7, by decide, le_rfl⟩

/-- A disable in a block, after a block inside that one. -/
def siblingFile : SourceFile :=
  fileOf [(1, .push false), (2, .push false), (3, .pop false), (4, .disable ["28719"]),
    (5, .pop false)] [6]

def disableOnFour : Pragma := ⟨onLine 4, .disable ["28719"]⟩

/-- After an inner block the rule is still disabled, but the range has ended at its pop. With
the inner block before the disable, the range does not end at all. -/
theorem range_ends_at_wrong_pop :
    (WellNested nestedFile false ∧ disableOnTwo ∈ nestedFile.pragmas ∧
      DisabledBecauseOf nestedFile 5 "28719" disableOnTwo ∧ ¬ Covered nestedFile disableOnTwo 5) ∧
    (WellNested siblingFile false ∧ disableOnFour ∈ siblingFile.pragmas ∧
      ¬ DisabledBecauseOf siblingFile 6 "28719" disableOnFour ∧
      Covered siblingFile disableOnFour 6) := by
  have hsibling : WellNested siblingFile false := ⟨by decide, by decide, by decide⟩
  refine ⟨⟨wellNested_nestedFile, by decide, ?_, fun h => ?_⟩, hsibling, by decide, ?_, ?_⟩
  · unfold DisabledBecauseOf
    decide
  · refine (covered_iff wellNested_nestedFile (by decide) (by decide) ⟨7, by decide, by decide⟩
      rfl).mp h ⟨?_, ?_⟩
    · unfold AfterPush
      decide
    · unfold PopBetween
      decide
  · unfold DisabledBecauseOf
    decide
  · exact ⟨4, 6, ⟨rfl, Or.inr ⟨by decide, by decide⟩⟩, by decide⟩

end DriverQueries.PragmaStack
