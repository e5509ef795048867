import DriverQueries.ConditionTexts
import DriverQueries.GreedyRegex
import DriverQueries.Sal
import Mathlib.Data.List.Dedup

/-!
When the condition of a `_When_` annotation counts as false at a call.

The condition is matched as a text against patterns for comparisons with zero. Four of them are
for a whole condition that is a single comparison, and hold only where it is false. The fifth
looks for a test of the lowest bit anywhere in the condition, and for an operator and a zero
after it. It is shown which test and which operator it takes, and that the predicate is sound
exactly if a lowest bit that contradicts that operator makes the condition false.
-/

namespace DriverQueries.WhenCondition

open ConditionTexts GreedyRegex

/-! ### The patterns -/

def dot (c : Char) : Bool := c ∉ ['\n', '\r', '\u0085', '\u2028', '\u2029']

def spaces : Regex := .many space

/-- `(\w+)\s*op\s*` and what follows. -/
def comparison (op : Op) (constant : Regex) : Regex :=
  .seq (wordGroup 1 word) (.seq spaces (.seq (.text op.text) (.seq spaces constant)))

/-- `(\w+)\s*!=\s*0` -/
def neZero : Regex := comparison .ne (.text ['0'])

/-- `(\w+)\s*==\s*([1-9]\d*)` -/
def eqPositive : Regex :=
  comparison .eq (.group 2 (.seq (.one fun c => c ∈ "123456789".toList) (.many Char.isDigit)))

/-- `(\w+)\s*==\s*0` -/
def eqZero : Regex := comparison .eq (.text ['0'])

/-- `(\w+)\s*!=\s*NULL` -/
def neNull : Regex := comparison .ne (.text "NULL".toList)

/-- `(==|!=)\s*0.*` -/
def zeroCheck : Regex :=
  .seq (.group 2 (.alt (.text Op.eq.text) (.text Op.ne.text)))
    (.seq spaces (.seq (.text ['0']) (.many dot)))

/-- `\s*&\s*0x1\s*\)` and what follows. -/
def bitTest (r : Regex) : Regex :=
  .seq spaces (.seq (.text ['&']) (.seq spaces (.seq (.text "0x1".toList)
    (.seq spaces (.seq (.text [')']) r)))))

/-- `\(\s*(\w+)\s*&\s*0x1\s*\)` and what follows. -/
def mask (r : Regex) : Regex :=
  .seq (.text ['(']) (.seq spaces (.seq (wordGroup 1 word) (bitTest r)))

/-- `.*\(\s*(\w+)\s*&\s*0x1\s*\).*(==|!=)\s*0.*` -/
def maskCheck : Regex := .seq (.many dot) (mask (.seq (.many dot) zeroCheck))

/-! ### The predicate -/

/-- A call whose arguments are constants: the parameters of its target with their values. -/
structure Call where
  parameters : List (List Char × ℤ)
  names_nodup : (parameters.map Prod.fst).Nodup

/-- The lowest bit of the value contradicts a comparison of it with zero. -/
def Contradicts (op : Op) (argVal : ℤ) : Prop :=
  match op with
  | .ne => argVal % 2 = 0
  | .eq => argVal % 2 ≠ 0

/-- `whenConditionIsFalseAtCallSite`. The value of an argument is its decimal numeral, with which
`toInt` has a result if it fits in 32 bits. -/
def WhenConditionIsFalseAtCallSite (a : Sal.SALAnnotation) (call : Call) : Prop :=
  a.getMacroName = "_When_" ∧
    ∃ cond ∈ a.getUnexpandedArgument[0]?, ∃ paramName argument,
      (paramName, argument) ∈ call.parameters ∧
        (neZero.capture cond.toList 1 = some paramName ∧ argument = 0 ∨
          eqPositive.capture cond.toList 1 = some paramName ∧ argument = 0 ∨
          eqZero.capture cond.toList 1 = some paramName ∧ argument ≠ 0 ∨
          neNull.capture cond.toList 1 = some paramName ∧ argument = 0 ∨
          ∃ op argVal, maskCheck.capture cond.toList 1 = some paramName ∧
            maskCheck.capture cond.toList 2 = some (Op.text op) ∧
            Text.int32 argument = some argVal ∧ Contradicts op argVal)

def whenMacro (c : Condition) (rest : List String) : Sal.SALAnnotation where
  getMacroName := "_When_"
  getUnexpandedArgument := String.ofList c.text :: rest

def Call.value (call : Call) (p : List Char) : ℤ := (call.parameters.lookup p).getD 0

/-- Where the predicate holds for a call that has the parameters of the condition, the condition
is false. -/
def Sound (c : Condition) (rest : List String) : Prop :=
  ∀ call : Call, (∀ p ∈ c.names, p ∈ call.parameters.map Prod.fst) →
    WhenConditionIsFalseAtCallSite (whenMacro c rest) call → c.eval call.value = false

/-! ### What the fifth pattern takes -/

def NoBreak (s : List Char) : Prop := ∀ c ∈ s, dot c = true

instance (s : List Char) : Decidable (NoBreak s) := decidable_of_iff _ List.all_eq_true

/-- The operator that is taken after the operand of a comparison, where `later` is the one taken
from the pieces after the comparison. -/
def zeroAfter (a : Comparison) (later : Option Op) (ps : List Piece) : Option Op :=
  if NoBreak a.beforeOp.1 then
    (if NoBreak a.afterOp.1 then later else none).or
      (if a.constant.LeadingZero ∧ NoBreak (text ps) then some a.op else none)
  else none

/-- The operator of the last comparison with a constant that is written with a zero first. A line
break is passed over only between this operator and its constant. -/
def lastZero : List Piece → Option Op
  | [] => none
  | .sign c :: ps => if dot c.1 then lastZero ps else none
  | .comparison a :: ps =>
    if NoBreak a.operand.text then zeroAfter a (lastZero ps) ps else none

/-- The parameter of the last test of a lowest bit after which there is such an operator, and the
operator. A line break is passed over only within this test, or as for the operator. -/
def lastMask : List Piece → Option (List Char × Op)
  | [] => none
  | .sign c :: ps => if dot c.1 then lastMask ps else none
  | .comparison a :: ps =>
    (if NoBreak a.text then lastMask ps else none).or
      (match a.operand with
      | .param _ => none
      | .masked p _ _ _ _ => (zeroAfter a (lastZero ps) ps).map fun op => (p.1, op))

/-! ### Steps of the engine -/

variable {k : List Char → Captures → Option Captures} {r : Regex} {s t : List Char} {c : Char}
  {g : Captures} {ps : List Piece} {a : Comparison} {op : Op}

lemma exec_spaces (h : ∀ c t g, space c → r.exec k (c :: t) g = none) :
    (Regex.seq spaces r).exec k s g = r.exec k (s.dropWhile space) g :=
  exec_many h

lemma exec_spaces_text {d : Char} {w : List Char} (hd : space d = false) :
    (Regex.seq spaces (.seq (.text (d :: w)) r)).exec k s g =
      (Regex.seq (.text (d :: w)) r).exec k (s.dropWhile space) g :=
  exec_many_text hd

lemma dropWhile_gap (g : Gap) (s : List Char) :
    (g.1 ++ s).dropWhile space = s.dropWhile space :=
  List.dropWhile_append_of_pos g.2

lemma exec_gap_text {d : Char} {w : List Char} (hd : space d = false) (gap : Gap) :
    (Regex.seq spaces (.seq (.text (d :: w)) r)).exec k (gap.1 ++ ((d :: w) ++ s)) g =
      r.exec k s g :=
  exec_many_append_text hd gap.2

lemma dropWhile_space_word {w : List Char} (hw : ∀ c ∈ w, word c = true) (hne : w ≠ []) :
    (w ++ s).dropWhile space = w ++ s := by
  obtain ⟨c, w, rfl⟩ := List.exists_cons_of_ne_nil hne
  rw [List.cons_append, List.dropWhile_cons_of_neg]
  rw [space_of_word (hw c (by simp))]
  exact Bool.false_ne_true

lemma takeWhile_word {w : List Char} (hw : ∀ c ∈ w, word c = true)
    (ht : ∀ c ∈ t.head?, word c = false) :
    (w ++ t).takeWhile word = w ∧ (w ++ t).dropWhile word = t := by
  rw [List.takeWhile_append_of_pos hw, List.dropWhile_append_of_pos hw]
  cases t with
  | nil => simp
  | cons c t => simp [ht c rfl]

lemma dot_of_word (h : word c = true) : dot c = true := by
  have hbreak : ∀ c ∈ ['\n', '\r', '\u0085', '\u2028', '\u2029'], word c = false :=
    forall_mem_of_all rfl
  simp only [dot, decide_eq_true_eq]
  intro hmem
  rw [hbreak c hmem] at h
  exact Bool.noConfusion h

lemma noBreak_append : NoBreak (s ++ t) ↔ NoBreak s ∧ NoBreak t := List.forall_mem_append

lemma noBreak_of_word (h : ∀ c ∈ s, word c = true) : NoBreak s := fun c hc => dot_of_word (h c hc)

/-! ### Operators and zeros -/

lemma exec_rest : (Regex.many dot).exec atEnd s g = if NoBreak s then some g else none := by
  change matchMany dot (fun t => atEnd t g) s = _
  have h := matchMany_append (p := dot) (k := fun t => atEnd t g) (s := []) (a := s)
    fun c _ t => by simp [atEnd]
  rw [List.append_nil] at h
  rw [h]
  exact if_congr List.all_eq_true rfl rfl

/-- After the operator and spaces there must be a zero. -/
lemma exec_zero : (Regex.seq spaces (.seq (.text ['0']) (.many dot))).exec atEnd s g =
    if (s.dropWhile space).head? = some '0' ∧ NoBreak (s.dropWhile space).tail then some g
    else none := by
  rw [exec_spaces]
  · cases s.dropWhile space with
    | nil => simp [Regex.exec]
    | cons c t =>
      by_cases hc : c = '0'
      · subst hc
        simpa using exec_text_append ['0'] (s := t) (r := .many dot) (k := atEnd) (g := g)
          |>.trans exec_rest
      · rw [exec_text_of_ne (Ne.symm hc)]
        simp [hc]
  · intro c t g hc
    refine exec_text_of_ne ?_
    rintro rfl
    exact absurd hc (by decide)

lemma zeroCheck_eq_none (h : c ≠ '=') (h' : c ≠ '!') : zeroCheck.exec atEnd (c :: s) g = none := by
  simp [zeroCheck, Regex.exec, Op.text, h.symm, h'.symm]

lemma zeroCheck_second (h : s.head? ≠ some '=') : zeroCheck.exec atEnd ('=' :: s) g = none := by
  cases s with
  | nil => simp [zeroCheck, Regex.exec, Op.text]
  | cons c s =>
    have hc : '=' ≠ c := fun heq => h (congrArg some heq.symm)
    simp [zeroCheck, Regex.exec, Op.text, hc]

lemma exec_op :
    (Regex.group 2 (.alt (.text Op.eq.text) (.text Op.ne.text))).exec k (op.text ++ s) g =
    k s (Function.update g 2 (some op.text)) := by
  have hlength : s.length + 1 + 1 - s.length = 2 := by omega
  cases op <;> simp [Regex.exec, Op.text, hlength]

lemma zeroCheck_op : zeroCheck.exec atEnd (op.text ++ s) g =
    if (s.dropWhile space).head? = some '0' ∧ NoBreak (s.dropWhile space).tail then
      some (Function.update g 2 (some op.text)) else none := by
  rw [← exec_zero]
  exact exec_op

def NoOp (s : List Char) : Prop := ∀ c ∈ s, c ≠ '=' ∧ c ≠ '!'

lemma noOp_of_word (h : ∀ c ∈ s, word c = true) : NoOp s := by
  intro c hc
  constructor <;> rintro rfl <;> exact absurd (h _ hc) (by decide)

lemma noOp_of_space (h : ∀ c ∈ s, space c = true) : NoOp s := by
  intro c hc
  constructor <;> rintro rfl <;> exact absurd (h _ hc) (by decide)

lemma noOp_append : NoOp (s ++ t) ↔ NoOp s ∧ NoOp t := List.forall_mem_append

lemma noOp_cons : NoOp (c :: s) ↔ (c ≠ '=' ∧ c ≠ '!') ∧ NoOp s := List.forall_mem_cons

lemma noOp_operand (o : Operand) : NoOp o.text := by
  cases o with
  | param p => exact noOp_of_word p.2.2
  | masked p g₁ g₂ g₃ g₄ =>
    have hx : NoOp "0x1".toList := noOp_of_word (forall_mem_of_all rfl)
    simp only [Operand.text, noOp_cons, noOp_append]
    refine ⟨by decide, ⟨⟨noOp_of_space g₁.2, noOp_of_word p.2.2⟩, noOp_of_space g₂.2⟩, by decide,
      ⟨⟨noOp_of_space g₃.2, hx⟩, noOp_of_space g₄.2⟩, by decide, ?_⟩
    exact List.forall_mem_nil _

lemma matchMany_noOp (h : NoOp s) :
    matchMany dot (fun t => zeroCheck.exec atEnd t g) (s ++ t) =
      if NoBreak s then matchMany dot (fun t => zeroCheck.exec atEnd t g) t else none :=
  (matchMany_append fun c hc _ => zeroCheck_eq_none (h c hc).1 (h c hc).2).trans
    (if_congr List.all_eq_true rfl rfl)

lemma constant_head : (a.constant.text ++ s).head? = a.constant.text.head? :=
  List.head?_append_of_ne_nil _ a.constant.text_ne_nil

lemma word_of_constant : ∀ c ∈ a.constant.text, word c = true := fun _ hc =>
  Constant.word_of_mem hc

lemma zeroCheck_comparison :
    zeroCheck.exec atEnd (a.op.text ++ (a.afterOp.1 ++ (a.constant.text ++ text ps))) g =
      if a.constant.LeadingZero ∧ NoBreak (text ps) then
        some (Function.update g 2 (some a.op.text)) else none := by
  rw [zeroCheck_op, dropWhile_gap, dropWhile_space_word word_of_constant a.constant.text_ne_nil,
    constant_head]
  obtain ⟨c, w, hw⟩ := List.exists_cons_of_ne_nil a.constant.text_ne_nil
  have htail : NoBreak (a.constant.text ++ text ps).tail ↔ NoBreak (text ps) := by
    rw [hw, List.cons_append, List.tail_cons, noBreak_append, and_iff_right]
    exact noBreak_of_word fun d hd => word_of_constant (a := a) d (by simp [hw, hd])
  simp only [htail]
  rfl

lemma afterOp_head : (a.afterOp.1 ++ (a.constant.text ++ s)).head? ≠ some '=' := by
  have hno := noOp_append.mpr ⟨noOp_of_space a.afterOp.2, noOp_of_word (word_of_constant (a := a))⟩
  have hne : a.afterOp.1 ++ a.constant.text ≠ [] := by simp [a.constant.text_ne_nil]
  rw [← List.append_assoc, List.head?_append_of_ne_nil _ hne]
  intro heq
  exact (hno '=' (List.mem_of_mem_head? heq)).1 rfl

/-- What is taken after the operand of a comparison. -/
lemma exec_zeroAfter {later : Option Op}
    (h : matchMany dot (fun t => zeroCheck.exec atEnd t g) (text ps) =
      later.map fun op => Function.update g 2 (some op.text)) :
    matchMany dot (fun t => zeroCheck.exec atEnd t g)
        (a.beforeOp.1 ++ (a.op.text ++ (a.afterOp.1 ++ (a.constant.text ++ text ps)))) =
      (zeroAfter a later ps).map fun op => Function.update g 2 (some op.text) := by
  have hlater : matchMany dot (fun t => zeroCheck.exec atEnd t g)
      (a.afterOp.1 ++ (a.constant.text ++ text ps)) =
        if NoBreak a.afterOp.1 then later.map fun op => Function.update g 2 (some op.text)
        else none := by
    rw [matchMany_noOp (noOp_of_space a.afterOp.2), matchMany_noOp (noOp_of_word word_of_constant),
      if_pos (noBreak_of_word word_of_constant), h]
  obtain ⟨x, hx, hsign⟩ := a.op.exists_text
  have hdot : dot x = true := by rcases hsign with rfl | rfl <;> decide
  -- the operator is taken, if a zero is after it, only where none of the later ones is
  have hmany : matchMany dot (fun t => zeroCheck.exec atEnd t g)
      (a.op.text ++ (a.afterOp.1 ++ (a.constant.text ++ text ps))) =
      (if NoBreak a.afterOp.1 then later.map fun op => Function.update g 2 (some op.text)
        else none).or
      (zeroCheck.exec atEnd (a.op.text ++ (a.afterOp.1 ++ (a.constant.text ++ text ps))) g) := by
    rw [hx, List.cons_append, matchMany, if_pos hdot, List.singleton_append,
      matchMany_cons (zeroCheck_second afterOp_head), if_pos (by decide), hlater]
  rw [matchMany_noOp (noOp_of_space a.beforeOp.2), hmany, zeroCheck_comparison, zeroAfter]
  by_cases hbefore : NoBreak a.beforeOp.1 <;> by_cases hafter : NoBreak a.afterOp.1 <;>
    by_cases hzero : a.constant.LeadingZero ∧ NoBreak (text ps) <;>
    cases later <;> simp [hbefore, hafter, hzero]

/-- **The search for an operator takes that of the last comparison with a zero.** -/
lemma exec_lastZero : matchMany dot (fun t => zeroCheck.exec atEnd t g) (text ps) =
    (lastZero ps).map fun op => Function.update g 2 (some op.text) := by
  induction ps with
  | nil => simp [lastZero, zeroCheck, Regex.exec, Op.text]
  | cons piece ps ih =>
    cases piece with
    | sign c =>
      have hc : c.1 ≠ '=' ∧ c.1 ≠ '!' := by
        have hsigns : NoOp ['(', ')', '&', '|'] := forall_mem_of_all rfl
        obtain ⟨c, hc | hc⟩ := c
        · exact hsigns c hc
        · exact noOp_of_space (s := [c]) (by simpa using hc) c (by simp)
      rw [text_sign, matchMany_cons (zeroCheck_eq_none hc.1 hc.2), ih, lastZero]
      split_ifs <;> rfl
    | comparison a =>
      have htext : text (.comparison a :: ps) = a.operand.text ++
          (a.beforeOp.1 ++ (a.op.text ++ (a.afterOp.1 ++ (a.constant.text ++ text ps)))) := by
        simp [Comparison.text]
      rw [htext, matchMany_noOp (noOp_operand a.operand), exec_zeroAfter ih, lastZero]
      split_ifs <;> rfl

/-! ### Tests of the lowest bit -/

lemma mask_eq_none (h : c ≠ '(') : (mask r).exec k (c :: s) g = none :=
  exec_text_of_ne h.symm

lemma word_eq_none (h : ∀ c ∈ s.head?, word c = false) :
    (Regex.seq (wordGroup 1 word) r).exec k s g = none := by
  refine exec_wordGroup_eq_none (k := r.exec k) ?_
  cases s with
  | nil => rfl
  | cons c s => simp [h c rfl]

lemma bitTest_eq_none (h : (s.dropWhile space).head? ≠ some '&') :
    (bitTest r).exec k s g = none := by
  unfold bitTest
  rw [exec_spaces_text (by decide)]
  cases hs : s.dropWhile space with
  | nil => simp [Regex.exec]
  | cons c t => exact exec_text_of_ne fun heq => h (by rw [hs, ← heq]; rfl)

lemma exec_word {w : List Char} (hr : ∀ c t g, word c = true → r.exec k (c :: t) g = none)
    (hw : ∀ c ∈ w, word c = true) (hne : w ≠ []) (hs : ∀ c ∈ s.head?, word c = false) :
    (Regex.seq (wordGroup 1 word) r).exec k (w ++ s) g =
      r.exec k s (Function.update g 1 (some w)) := by
  have htake := takeWhile_word hw hs
  rw [Regex.exec, exec_wordGroup hr (by simp [htake.1, hne]), htake.1, htake.2]

lemma exec_sign_word {d : Char} {w : List Char} (hd : word d = false) (hd' : space d = false) :
    ∀ c t g, word c = true →
      (Regex.seq spaces (.seq (.text (d :: w)) r)).exec k (c :: t) g = none := by
  intro c t g hc
  rw [exec_spaces_text hd', List.dropWhile_cons_of_neg (by simp [space_of_word hc])]
  refine exec_text_of_ne ?_
  rintro rfl
  rw [hd] at hc
  exact Bool.noConfusion hc

lemma bitTest_word : ∀ c t g, word c = true → (bitTest r).exec k (c :: t) g = none :=
  exec_sign_word (by decide) (by decide)

lemma exec_mask {p : Identifier} {g₁ g₂ g₃ g₄ : Gap} :
    (mask r).exec k ((Operand.masked p g₁ g₂ g₃ g₄).text ++ s) g =
      r.exec k s (Function.update g 1 (some p.1)) := by
  have htext : (Operand.masked p g₁ g₂ g₃ g₄).text ++ s = ['('] ++ (g₁.1 ++ (p.1 ++ (g₂.1 ++
      (['&'] ++ (g₃.1 ++ (['0', 'x', '1'] ++ (g₄.1 ++ ([')'] ++ s)))))))) := by
    simp [Operand.text]
  have hhead : ∀ rest, ∀ c ∈ (g₂.1 ++ (['&'] ++ rest)).head?, word c = false :=
    fun rest => gap_head g₂ (by decide)
  have hspaces : ∀ c t g, space c = true →
      (Regex.seq (wordGroup 1 word) (bitTest r)).exec k (c :: t) g = none :=
    fun c t g hc => word_eq_none (by simpa using word_of_space hc)
  rw [htext, mask, exec_text_append, exec_spaces hspaces, dropWhile_gap,
    dropWhile_space_word p.2.2 p.2.1, exec_word bitTest_word p.2.2 p.2.1 (hhead _), bitTest,
    exec_gap_text (by decide)]
  exact (exec_gap_text (by decide) g₃).trans (exec_gap_text (by decide) g₄)

/-- A bracket between comparisons begins no test. -/
lemma mask_open : (mask r).exec k ('(' :: text ps) g = none := by
  have hopen : ∀ s, (mask r).exec k ('(' :: s) g =
      (Regex.seq (wordGroup 1 word) (bitTest r)).exec k (s.dropWhile space) g := by
    intro s
    have htext : (mask r).exec k (['('] ++ s) g = _ := exec_text_append ['(']
    exact htext.trans (exec_spaces fun c t g hc => word_eq_none (by simpa using word_of_space hc))
  rw [hopen]
  induction ps with
  | nil => exact word_eq_none (by simp)
  | cons piece ps ih =>
    cases piece with
    | sign c =>
      rw [text_sign, List.dropWhile_cons]
      split_ifs with hc
      · exact ih
      · exact word_eq_none (by simpa using c.word_eq_false)
    | comparison a =>
      rw [text_comparison, Comparison.text]
      cases hoperand : a.operand with
      | param p =>
        -- the word is a parameter, and its operator follows instead of the ampersand
        obtain ⟨x, hx, hsign⟩ := a.op.exists_text
        have hword : word x = false := word_of_opSign hsign
        have hspace : space x = false := space_of_opSign hsign
        have hne : x ≠ '&' := by rcases hsign with rfl | rfl <;> decide
        rw [Operand.text, List.append_assoc, dropWhile_space_word p.2.2 p.2.1,
          List.append_assoc, hx, List.append_assoc, List.cons_append,
          exec_word bitTest_word p.2.2 p.2.1 (gap_head a.beforeOp hword)]
        refine bitTest_eq_none ?_
        rw [dropWhile_gap, List.dropWhile_cons_of_neg (by simp [hspace])]
        simpa using hne
      | masked p g₁ g₂ g₃ g₄ => exact word_eq_none (by simp [Operand.text, space, word])

lemma open_notMem_word {w : List Char} (hw : ∀ c ∈ w, word c = true) : '(' ∉ w := fun h =>
  absurd (hw _ h) (by decide)

lemma open_notMem_gap (gap : Gap) : '(' ∉ gap.1 := fun h => absurd (gap.2 _ h) (by decide)

lemma open_notMem_rest :
    '(' ∉ a.beforeOp.1 ++ (a.op.text ++ (a.afterOp.1 ++ a.constant.text)) := by
  have hop : '(' ∉ a.op.text := by cases a.op <;> decide
  have hconstant : '(' ∉ a.constant.text := open_notMem_word word_of_constant
  simp [hop, hconstant, open_notMem_gap]

lemma matchMany_noOpen (h : '(' ∉ s) :
    matchMany dot (fun t => (mask r).exec k t g) (s ++ t) =
      if NoBreak s then matchMany dot (fun t => (mask r).exec k t g) t else none :=
  (matchMany_append fun _ hc _ => mask_eq_none fun heq => h (heq ▸ hc)).trans
    (if_congr List.all_eq_true rfl rfl)

lemma exists_open {p : Identifier} {g₁ g₂ g₃ g₄ : Gap} (h : a.operand = .masked p g₁ g₂ g₃ g₄) :
    ∃ inner, a.text = '(' :: inner ∧ '(' ∉ inner := by
  have hx : '(' ∉ "0x1".toList := by decide
  have hrest := open_notMem_rest (a := a)
  refine ⟨_, by rw [Comparison.text, h, Operand.text, List.cons_append], ?_⟩
  simp only [List.mem_append, List.mem_cons, open_notMem_gap, open_notMem_word p.2.2, hx,
    not_or] at hrest ⊢
  simp [hrest]

lemma exec_masked {p : Identifier} {g₁ g₂ g₃ g₄ : Gap}
    (h : a.operand = .masked p g₁ g₂ g₃ g₄) :
    (mask (.seq (.many dot) zeroCheck)).exec atEnd (a.text ++ text ps) g =
      (zeroAfter a (lastZero ps) ps).map fun op =>
        Function.update (Function.update g 1 (some p.1)) 2 (some op.text) := by
  rw [Comparison.text, h, List.append_assoc, exec_mask]
  simp only [List.append_assoc]
  exact exec_zeroAfter exec_lastZero

/-- **The fifth pattern takes the last test of a lowest bit, with the operator found after it.** -/
lemma exec_maskCheck : maskCheck.exec atEnd (text ps) g = (lastMask ps).map fun x =>
    Function.update (Function.update g 1 (some x.1)) 2 (some x.2.text) := by
  -- the search is from the left, and what is found further right counts first
  change matchMany dot (fun t => (mask _).exec atEnd t g) (text ps) = _
  induction ps with
  | nil =>
    have hnil : (mask (.seq (.many dot) zeroCheck)).exec atEnd [] g = none := by
      simp [mask, Regex.exec]
    simp [lastMask, hnil]
  | cons piece ps ih =>
    cases piece with
    | sign c =>
      have hnone : (mask (.seq (.many dot) zeroCheck)).exec atEnd (c.1 :: text ps) g = none := by
        by_cases hc : c.1 = '('
        · rw [hc]
          exact mask_open
        · exact mask_eq_none hc
      rw [text_sign, matchMany_cons hnone, ih, lastMask]
      split_ifs <;> rfl
    | comparison a =>
      rw [text_comparison, lastMask]
      cases hoperand : a.operand with
      | param p =>
        have hopen : '(' ∉ a.text := by
          rw [Comparison.text, hoperand, List.mem_append, not_or]
          exact ⟨open_notMem_word p.2.2, open_notMem_rest⟩
        rw [matchMany_noOpen hopen, ih]
        split_ifs <;> simp
      | masked p g₁ g₂ g₃ g₄ =>
        obtain ⟨inner, hinner, hopen⟩ := exists_open hoperand
        have hbreak : NoBreak a.text ↔ NoBreak inner := by
          rw [hinner]
          exact List.forall_mem_cons.trans (and_iff_right (by decide))
        have hmany : matchMany dot (fun t => (mask (.seq (.many dot) zeroCheck)).exec atEnd t g)
            (a.text ++ text ps) =
            (if NoBreak inner then (lastMask ps).map fun x =>
              Function.update (Function.update g 1 (some x.1)) 2 (some x.2.text) else none).or
            ((mask (.seq (.many dot) zeroCheck)).exec atEnd (a.text ++ text ps) g) := by
          rw [hinner, List.cons_append, matchMany, if_pos (by decide), matchMany_noOpen hopen, ih]
        rw [hmany, exec_masked hoperand]
        simp only [hbreak]
        by_cases hline : NoBreak inner <;> cases lastMask ps <;> simp [hline, Function.comp_def]

/-! ### Single comparisons -/

lemma exec_text_atEnd {w : List Char} {g' : Captures}
    (h : (Regex.text w).exec atEnd s g = some g') : s = w ∧ g' = g := by
  simp only [Regex.exec, atEnd] at h
  split_ifs at h with hprefix hend
  obtain ⟨t, rfl⟩ := hprefix
  rw [List.drop_left] at hend
  simp_all

lemma exec_positive {g' : Captures} (h : (Regex.group 2 (.seq
    (.one fun c => c ∈ "123456789".toList) (.many Char.isDigit))).exec atEnd s g = some g') :
    (∃ c t, s = c :: t ∧ c ∈ "123456789".toList ∧ ∀ d ∈ t, d.isDigit = true) ∧ g' 1 = g 1 := by
  cases s with
  | nil => simp [Regex.exec] at h
  | cons c s =>
    simp only [Regex.exec] at h
    split_ifs at h with hc
    obtain ⟨u, t, rfl, hu, ht⟩ := exists_of_matchMany h
    simp only [atEnd] at ht
    split_ifs at ht with hend
    subst hend
    refine ⟨⟨c, u, by simp, by simpa using hc, hu⟩, ?_⟩
    rw [← Option.some.inj ht]
    exact Function.update_of_ne (by decide) _ _

lemma exec_op_constant {constant : Regex} {g' : Captures}
    (h : (Regex.seq spaces (.seq (.text op.text) (.seq spaces constant))).exec k
      (a.beforeOp.1 ++ (a.op.text ++ s)) g = some g') :
    a.op = op ∧ (Regex.seq spaces constant).exec k s g = some g' := by
  obtain ⟨x, hx, hsign⟩ := op.exists_text
  obtain ⟨y, hy, hsign'⟩ := a.op.exists_text
  have hspace : space x = false := space_of_opSign hsign
  have hspace' : space y = false := space_of_opSign hsign'
  rw [hx, hy] at h
  by_cases hxy : x = y
  · subst hxy
    rw [exec_gap_text hspace] at h
    exact ⟨Op.text_injective (hy.trans hx.symm), h⟩
  · rw [exec_spaces_text hspace, dropWhile_gap, List.cons_append,
      List.dropWhile_cons_of_neg (by simp [hspace']), exec_text_of_ne hxy] at h
    exact absurd h (by simp)

/-- A parameter is the group of the pattern, and the operator after it is that of the pattern. -/
lemma exec_param {constant : Regex} {i : Identifier} {g' : Captures}
    (h : (comparison op constant).exec k (i.1 ++ (a.beforeOp.1 ++ (a.op.text ++ s))) g = some g') :
    a.op = op ∧
      (Regex.seq spaces constant).exec k s (Function.update g 1 (some i.1)) = some g' := by
  obtain ⟨x, hx, hsign⟩ := op.exists_text
  obtain ⟨y, hy, hsign'⟩ := a.op.exists_text
  have hhead : ∀ c ∈ (a.beforeOp.1 ++ (a.op.text ++ s)).head?, word c = false := by
    rw [hy]
    exact gap_head a.beforeOp (word_of_opSign hsign')
  have hnone : ∀ c t g, word c = true →
      (Regex.seq spaces (.seq (.text op.text) (.seq spaces constant))).exec k (c :: t) g =
        none := by
    rw [hx]
    exact exec_sign_word (word_of_opSign hsign) (space_of_opSign hsign)
  rw [comparison, exec_word hnone i.2.2 i.2.1 hhead] at h
  exact exec_op_constant h

/-- The constant ends the text, since anything after it would not be part of a word. -/
lemma exec_constant {constant : Regex} {g' : Captures}
    (hconstant : ∀ s g g', constant.exec atEnd s g = some g' →
      (∀ c ∈ s, word c = true) ∧ g' 1 = g 1)
    (h : (Regex.seq spaces constant).exec atEnd
      (a.afterOp.1 ++ (a.constant.text ++ text ps)) g = some g') :
    ps = [] ∧ constant.exec atEnd a.constant.text g = some g' := by
  have hspaces : ∀ c t g, space c = true → constant.exec atEnd (c :: t) g = none := by
    intro c t g hc
    refine Option.eq_none_iff_forall_ne_some.mpr fun g'' heq => ?_
    have hcword := (hconstant _ _ _ heq).1 c (by simp)
    rw [word_of_space hc] at hcword
    exact Bool.noConfusion hcword
  rw [exec_spaces hspaces, dropWhile_gap, dropWhile_space_word word_of_constant
    a.constant.text_ne_nil] at h
  cases ps with
  | nil =>
    rw [text_nil, List.append_nil] at h
    exact ⟨rfl, h⟩
  | cons piece ps =>
    obtain ⟨c, hc, hnot⟩ := piece.exists_not_word
    have hcword := (hconstant _ _ _ h).1 c (by simp [text, hc])
    rw [hnot] at hcword
    exact Bool.noConfusion hcword

lemma capture_comparison {constant : Regex} {p : List Char}
    (hconstant : ∀ s g g', constant.exec atEnd s g = some g' →
      (∀ c ∈ s, word c = true) ∧ g' 1 = g 1)
    (h : (comparison op constant).capture (text ps) 1 = some p) :
    ∃ a i g g', ps = [.comparison a] ∧ a.operand = .param i ∧ i.1 = p ∧ a.op = op ∧
      constant.exec atEnd a.constant.text g = some g' := by
  obtain ⟨g', hexec, hp⟩ := Option.bind_eq_some_iff.mp h
  cases ps with
  | nil =>
    rw [text_nil, comparison, word_eq_none (by simp)] at hexec
    exact absurd hexec (by simp)
  | cons piece ps =>
    cases piece with
    | sign c =>
      rw [text_sign, comparison, word_eq_none (by simpa using c.word_eq_false)] at hexec
      exact absurd hexec (by simp)
    | comparison a =>
      rw [text_comparison, Comparison.text] at hexec
      cases hoperand : a.operand with
      | masked i g₁ g₂ g₃ g₄ =>
        rw [hoperand, comparison, word_eq_none (by simp [Operand.text, word])] at hexec
        exact absurd hexec (by simp)
      | param i =>
        simp only [hoperand, Operand.text, List.append_assoc] at hexec
        obtain ⟨hop, hexec⟩ := exec_param hexec
        obtain ⟨hps, hmatch⟩ := exec_constant hconstant hexec
        subst hps
        refine ⟨a, i, _, g', rfl, hoperand, ?_, hop, hmatch⟩
        rw [(hconstant _ _ _ hmatch).2, Function.update_self] at hp
        exact Option.some.inj hp

/-! ### Soundness -/

variable {condition : Condition} {rest : List String} {call : Call} {p : List Char} {v : ℤ}

lemma lookup_of_mem {l : List (List Char × ℤ)} (hnodup : (l.map Prod.fst).Nodup)
    (h : (p, v) ∈ l) : l.lookup p = some v := by
  induction l with
  | nil => simp at h
  | cons x l ih =>
    obtain ⟨q, w⟩ := x
    rw [List.map_cons, List.nodup_cons] at hnodup
    rcases List.mem_cons.mp h with heq | hmem
    · obtain ⟨rfl, rfl⟩ := Prod.mk.inj heq
      simp
    · have hne : (p == q) = false := by
        rw [beq_eq_false_iff_ne]
        rintro rfl
        exact hnodup.1 (List.mem_map.mpr ⟨(p, v), hmem, rfl⟩)
      rw [List.lookup_cons, hne]
      exact ih hnodup.2 hmem

lemma Call.value_of_mem (h : (p, v) ∈ call.parameters) : call.value p = v := by
  simp [Call.value, lookup_of_mem call.names_nodup h]

/-- The comparison of a value with a constant is false. -/
def Refutes (op : Op) (v : ℤ) (constant : ℕ) : Prop :=
  match op with
  | .eq => v ≠ constant
  | .ne => v = constant

lemma eval_eq_false {w : List Char → ℤ} :
    a.eval w = false ↔ Refutes a.op (a.operand.eval w) a.constant.value := by
  unfold Comparison.eval Refutes
  cases a.op <;> simp

lemma sound_comparison {constant : Regex}
    (hconstant : ∀ s g g', constant.exec atEnd s g = some g' →
      (∀ c ∈ s, word c = true) ∧ g' 1 = g 1)
    (h : (comparison op constant).capture condition.text 1 = some p)
    (hmem : (p, v) ∈ call.parameters)
    (hfalse : ∀ (k : Constant) g g', constant.exec atEnd k.text g = some g' →
      Refutes op v k.value) :
    condition.eval call.value = false := by
  obtain ⟨a, i, g, g', hpieces, hoperand, rfl, rfl, hexec⟩ := capture_comparison hconstant h
  rw [Condition.of_pieces_singleton hpieces, Condition.eval, eval_eq_false, hoperand,
    Operand.eval, Call.value_of_mem hmem]
  exact hfalse a.constant g g' hexec

lemma word_of_text {w : List Char} {g' : Captures} (hw : ∀ c ∈ w, word c = true)
    (h : (Regex.text w).exec atEnd s g = some g') : (∀ c ∈ s, word c = true) ∧ g' 1 = g 1 := by
  obtain ⟨rfl, rfl⟩ := exec_text_atEnd h
  exact ⟨hw, rfl⟩

lemma positive_digit (h : c ∈ "123456789".toList) : c.isDigit = true ∧ c ≠ '0' := by
  have hall : ∀ c ∈ "123456789".toList, c.isDigit = true ∧ c ≠ '0' :=
    forall_mem_of_all rfl
  exact hall c h

lemma sound_neZero (h : neZero.capture condition.text 1 = some p)
    (hmem : (p, 0) ∈ call.parameters) : condition.eval call.value = false :=
  sound_comparison (fun _ _ _ => word_of_text (forall_mem_of_all rfl)) h hmem fun k _ _ hexec => by
    simp [Refutes, Constant.value_of_zero (exec_text_atEnd hexec).1]

lemma sound_eqZero (h : eqZero.capture condition.text 1 = some p)
    (hmem : (p, v) ∈ call.parameters) (hv : v ≠ 0) : condition.eval call.value = false :=
  sound_comparison (fun _ _ _ => word_of_text (forall_mem_of_all rfl)) h hmem fun k _ _ hexec => by
    simpa [Refutes, Constant.value_of_zero (exec_text_atEnd hexec).1] using hv

lemma sound_neNull (h : neNull.capture condition.text 1 = some p)
    (hmem : (p, 0) ∈ call.parameters) : condition.eval call.value = false :=
  sound_comparison (fun _ _ _ => word_of_text (forall_mem_of_all rfl)) h hmem fun k _ _ hexec => by
    simp [Refutes, Constant.value_of_null (exec_text_atEnd hexec).1]

lemma sound_eqPositive (h : eqPositive.capture condition.text 1 = some p)
    (hmem : (p, 0) ∈ call.parameters) : condition.eval call.value = false := by
  refine sound_comparison (fun s g g' hexec => ?_) h hmem fun k g g' hexec => ?_
  · obtain ⟨⟨c, t, rfl, hc, ht⟩, hgroup⟩ := exec_positive hexec
    refine ⟨List.forall_mem_cons.mpr ⟨?_, fun d hd => word_of_digit (ht d hd)⟩, hgroup⟩
    exact word_of_digit (positive_digit hc).1
  · obtain ⟨⟨c, t, htext, hc, -⟩, -⟩ := exec_positive hexec
    obtain ⟨hdigit, hne⟩ := positive_digit hc
    have hvalue := Constant.value_ne_zero htext hdigit hne
    change (0 : ℤ) ≠ k.value
    exact mod_cast hvalue.symm

lemma capture_maskCheck_one (c : Condition) :
    maskCheck.capture c.text 1 = (lastMask c.pieces).map Prod.fst := by
  have hexec : maskCheck.exec atEnd c.text (fun _ => none) = _ := exec_maskCheck
  rw [Regex.capture, hexec]
  cases lastMask c.pieces <;> simp

lemma capture_maskCheck_two (c : Condition) :
    maskCheck.capture c.text 2 = (lastMask c.pieces).map fun x => x.2.text := by
  have hexec : maskCheck.exec atEnd c.text (fun _ => none) = _ := exec_maskCheck
  rw [Regex.capture, hexec]
  cases lastMask c.pieces <;> simp

lemma exists_of_lastMask (h : lastMask ps = some (p, op)) :
    ∃ a, Piece.comparison a ∈ ps ∧ a.operand.name = p := by
  induction ps with
  | nil => simp [lastMask] at h
  | cons piece ps ih =>
    cases piece with
    | sign c =>
      rw [lastMask] at h
      split_ifs at h
      obtain ⟨a, ha, hp⟩ := ih h
      exact ⟨a, List.mem_cons_of_mem _ ha, hp⟩
    | comparison a =>
      rw [lastMask] at h
      rcases Option.or_eq_some_iff.mp h with h | ⟨-, h⟩
      · split_ifs at h
        obtain ⟨b, hb, hp⟩ := ih h
        exact ⟨b, List.mem_cons_of_mem _ hb, hp⟩
      · refine ⟨a, List.mem_cons_self, ?_⟩
        cases hoperand : a.operand with
        | param i => simp [hoperand] at h
        | masked i g₁ g₂ g₃ g₄ =>
          simp only [hoperand, Option.map_eq_some_iff, Prod.mk.injEq] at h
          obtain ⟨-, -, hp, -⟩ := h
          exact hp

/-- The condition implies that the lowest bit of the parameter compares so with zero. -/
def Implies (c : Condition) (p : List Char) (op : Op) : Prop :=
  ∀ v : List Char → ℤ, (Text.int32 (v p)).isSome → c.eval v = true → ¬ Contradicts op (v p)

lemma int32_eq {i j : ℤ} (h : Text.int32 i = some j) : j = i := by
  unfold Text.int32 at h
  split_ifs at h
  exact (Option.some.inj h).symm

/-- The call that gives the parameters of a condition such values. -/
def callWith (c : Condition) (v : List Char → ℤ) : Call where
  parameters := c.names.dedup.map fun p => (p, v p)
  names_nodup := by
    rw [List.map_map]
    exact (List.map_id _).symm ▸ c.names.nodup_dedup

lemma mem_callWith {w : List Char → ℤ} (h : p ∈ condition.names) :
    (p, w p) ∈ (callWith condition w).parameters :=
  List.mem_map.mpr ⟨p, List.mem_dedup.mpr h, rfl⟩

/-- **The predicate is sound for a condition iff the condition implies the comparison that the
fifth pattern takes: of the lowest bit that is tested last before a zero, by the last operator with
a zero.** -/
theorem sound_iff (c : Condition) (rest : List String) :
    Sound c rest ↔ ∀ p op, lastMask c.pieces = some (p, op) → Implies c p op := by
  constructor
  · intro hsound p op htaken w hrange heval hbit
    have hvalues : ∀ q ∈ c.names, (callWith c w).value q = w q := fun q hq =>
      Call.value_of_mem (mem_callWith hq)
    obtain ⟨a, ha, hname⟩ := exists_of_lastMask htaken
    have hp : p ∈ c.names := hname ▸ Condition.name_mem_of_piece ha
    obtain ⟨argVal, hargVal⟩ := Option.isSome_iff_exists.mp hrange
    have hholds : WhenConditionIsFalseAtCallSite (whenMacro c rest) (callWith c w) := by
      refine ⟨rfl, _, rfl, p, w p, mem_callWith hp,
        Or.inr (Or.inr (Or.inr (Or.inr ⟨op, argVal, ?_, ?_, hargVal, ?_⟩)))⟩
      · rw [String.toList_ofList, capture_maskCheck_one, htaken]
        rfl
      · rw [String.toList_ofList, capture_maskCheck_two, htaken]
        rfl
      · rwa [int32_eq hargVal]
    have hfalse := hsound (callWith c w)
      (fun q hq => List.mem_map.mpr ⟨_, mem_callWith hq, rfl⟩) hholds
    rw [Condition.eval_congr hvalues, heval] at hfalse
    exact Bool.noConfusion hfalse
  · rintro himplies call - ⟨-, cond, hcond, p, v, hmem, hcases⟩
    obtain rfl : String.ofList c.text = cond := by simpa [whenMacro] using hcond
    rw [String.toList_ofList] at hcases
    -- the first four patterns take comparisons only, which they decide as the condition does
    rcases hcases with ⟨h, rfl⟩ | ⟨h, rfl⟩ | ⟨h, hv⟩ | ⟨h, rfl⟩ | ⟨op, argVal, h, hop, hv, hbit⟩
    · exact sound_neZero h hmem
    · exact sound_eqPositive h hmem
    · exact sound_eqZero h hmem hv
    · exact sound_neNull h hmem
    · rw [capture_maskCheck_one] at h
      rw [capture_maskCheck_two] at hop
      obtain ⟨⟨q, op'⟩, htaken, rfl⟩ := Option.map_eq_some_iff.mp h
      obtain rfl : op' = op := by
        rw [htaken, Option.map_some, Option.some.injEq] at hop
        exact Op.text_injective hop
      obtain rfl := int32_eq hv
      rw [← Call.value_of_mem hmem] at hv hbit
      rw [← Bool.not_eq_true]
      exact fun heval => himplies q op' htaken call.value (Option.isSome_of_eq_some hv) heval hbit

/-- `(Flags & 0x1) == 0x1` -/
def flagSet : Condition := .compare
  { operand := .masked ⟨"Flags".toList, by decide, forall_mem_of_all rfl⟩ ⟨[], by simp⟩
      ⟨[' '], forall_mem_of_all rfl⟩ ⟨[' '], forall_mem_of_all rfl⟩ ⟨[], by simp⟩
    beforeOp := ⟨[' '], forall_mem_of_all rfl⟩
    op := .eq
    afterOp := ⟨[' '], forall_mem_of_all rfl⟩
    constant := .hexadecimal false ⟨['1'], by decide, forall_mem_of_all rfl⟩ }

example : flagSet.text = "(Flags & 0x1) == 0x1".toList := by decide

/-- The zero of `0x1` is taken for the constant, and the condition for a test that the lowest bit
is clear. With `Flags = 1` it is true. -/
theorem flagSet_suppressed : ¬ Sound flagSet ["_IRQL_requires_(PASSIVE_LEVEL)"] := by
  intro hsound
  have htaken : lastMask flagSet.pieces = some ("Flags".toList, .eq) := by decide
  have hmem : ("Flags".toList, 1) ∈ (callWith flagSet fun _ => 1).parameters := by decide
  have hbit : Contradicts .eq 1 := by
    change (1 : ℤ) % 2 ≠ 0
    decide
  have hfalse := hsound (callWith flagSet fun _ => 1) (by decide) ⟨rfl, _, rfl, _, 1, hmem,
    Or.inr (Or.inr (Or.inr (Or.inr ⟨.eq, 1, by
      rw [String.toList_ofList, capture_maskCheck_one, htaken]
      rfl, by
      rw [String.toList_ofList, capture_maskCheck_two, htaken]
      rfl, by decide, hbit⟩)))⟩
  exact absurd hfalse (by decide)

end DriverQueries.WhenCondition
