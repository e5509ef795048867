import DriverQueries.RuleLists
import DriverQueries.Suppression

/-!
Alerts that pragmas suppress.

The rules of a pragma become annotations with the names of queries, and an annotation is for the
lines that the pragma covers. A rule counts exactly as it stands between two blanks: more blanks
only add rules without a name, which are for no query, and other white space next to a rule takes
the rule away. Here it is shown which alerts are suppressed in a file, whatever its pragmas say.
-/

namespace DriverQueries.AlertSuppression

open DriverQueries.Suppression DriverQueries.RuleLists DriverQueries.ConditionTexts

/-! ### The query -/

/-- Names of rules, with the annotations for them. -/
def annotations : List (List String × List String) :=
  [(["__WARNING_BANNED_API_USAGE", "28719", "__WARNING_BANNED_LEGACY_INSTRUMENTATION_API_USAGE",
      "__WARNING_BANNED_CRIMSON_API_USAGE", "28735", "__WARNING_BANNED_API_USAGEL2", "28726",
      "__WARNING_BANNED_API_USAGE_LSTRLEN", "28750"],
    ["lgtm[cpp/drivers/extended-deprecated-apis]"]),
  (["__WARNING_UNHELPFUL_TAG", "28147"],
    ["lgtm[cpp/drivers/default-pool-tag]", "lgtm[cpp/drivers/default-pool-tag-extended]"]),
  (["__WARNING_IRQL_NOT_SET", "28158"], ["lgtm[cpp/drivers/irql-not-saved]"]),
  (["__WARNING_IRQL_NOT_USED", "28157"], ["lgtm[cpp/drivers/irql-not-used]"]),
  (["__WARNING_POOL_TAG", "28134"], ["lgtm[cpp/drivers/pool-tag-integral]"]),
  (["__WARNING_STRSAFE_H", "28146"], ["lgtm[cpp/drivers/str-safe]"]),
  (["__WARNING_MUST_USE", "28193"], ["lgtm[cpp/drivers/examined-value]"]),
  (["__WARNING_IRQ_TOO_HIGH", "28121"], ["lgtm[cpp/drivers/irql-too-high]"]),
  (["__WARNING_IRQ_TOO_LOW", "28120"], ["lgtm[cpp/drivers/irql-too-low]"]),
  (["__WARNING_FUNCTION_ASSIGNMENT", "28128"], ["lgtm[cpp/drivers/illegal-field-access]"]),
  (["__WARNING_INACCESSIBLE_MEMBER", "28175"], ["lgtm[cpp/drivers/illegal-field-access-2]"]),
  (["__WARNING_READ_ONLY_MEMBER", "28176"], ["lgtm[cpp/drivers/illegal-field-write]"]),
  (["__WARNING_INIT_NOT_CLEARED", "28152"], ["lgtm[cpp/drivers/init-not-cleared]"]),
  (["__WARNING_KE_WAIT_LOCAL", "28135"], ["lgtm[cpp/drivers/kewaitlocal-requires-kernel-mode]"]),
  (["__WARNING_MULTIPLE_PAGED_CODE", "28171"], ["lgtm[cpp/drivers/multiple-paged-code]"]),
  (["__WARNING_NO_PAGED_CODE", "28170"], ["lgtm[cpp/drivers/no-paged-code]"]),
  (["__WARNING_NO_PAGING_SEGMENT", "28172"], ["lgtm[cpp/drivers/no-paging-segment]"]),
  (["__WARNING_OBJ_REFERENCE_MODE", "28126"], ["lgtm[cpp/drivers/ob-reference-mode]"]),
  (["__WARNING_MODIFYING_MDL", "28145"], ["lgtm[cpp/drivers/opaque-mdl-write]"]),
  (["__WARNING_PENDING_STATUS_ERROR", "28143"], ["lgtm[cpp/drivers/pending-status-error]"]),
  (["__WARNING_DISPATCH_MISMATCH", "28168", "__WARNING_DISPATCH_MISSING", "28169"],
    ["lgtm[cpp/drivers/wrong-dispatch-table-assignment]"]),
  (["__WARNING_IRQ_SET_TOO_HIGH", "28150"], ["lgtm[cpp/drivers/irql-set-too-high]"]),
  (["__WARNING_IRQ_SET_TOO_LOW", "28124"], ["lgtm[cpp/drivers/irql-set-too-low]"]),
  (["__WARNING_INTERLOCKEDDECREMENT_MISUSE1", "28616"],
    ["lgtm[cpp/drivers/multithreaded-av-condition]"]),
  (["__WARNING_PROTOTYPE_MISMATCH", "28127"],
    ["lgtm[cpp/drivers/routine-function-type-not-expected]"]),
  (["__WARNING_UNEXPECTED_IRQL_CHANGE", "28167"],
    ["lgtm[cpp/drivers/irql-function-not-annotated]"])]

def lgtm (query : List Char) : String := "lgtm[" ++ String.ofList query ++ "]"

/-- `makeLgtmName`, for one of the rules of a suppression. -/
def makeLgtmName (rule : String) : List String :=
  (annotations.filter fun row => rule ∈ row.1).flatMap (·.2) ++ ["lgtm[" ++ rule ++ "]"]

def getRuleName : PragmaKind → List String
  | .suppress rules | .disable rules => rules
  | _ => []

/-- A row of the query, with the first and the last line of the scope. -/
def DriverAlertSuppression (F : SourceFile) (cas : Pragma) (name : String)
    (startLine endLine : ℕ) : Prop :=
  cas ∈ F.pragmas ∧ CASuppression cas ∧
    (∃ rule ∈ getRuleName cas.kind, name ∈ makeLgtmName rule) ∧
    scopeCovers F cas startLine endLine

def Suppressed (F : SourceFile) (query : List Char) (line : ℕ) : Prop :=
  ∃ cas startLine endLine, DriverAlertSuppression F cas (lgtm query) startLine endLine ∧
    startLine ≤ line ∧ line ≤ endLine

/-! ### Words of a list -/

def Word (s : List Char) : Prop := s ≠ [] ∧ ∀ c ∈ s, space c = false

-- the instances say that only the characters of the text are looked at
instance : DecidablePred Word := fun s => @instDecidableAnd _ _ _ (List.decidableBAll _ s)

def words (s : List Char) : List (List Char) := (s.splitOn ' ').filter fun w => Word w

/-- What comes before a rule ends with a blank, or is nothing. -/
def EndsBlank (s : List Char) : Prop := ∀ c ∈ s.getLast?, c = ' '

/-- What comes after a rule begins with a blank, or is nothing. -/
def StartsBlank (s : List Char) : Prop := ∀ c ∈ s.head?, c = ' '

instance : DecidablePred EndsBlank := fun s => Option.decidableForallMem s.getLast?
instance : DecidablePred StartsBlank := fun s => Option.decidableForallMem s.head?

/-- The rules that have blanks, or the ends of the list, next to them. -/
def blankRules (before r : List Char) :
    List (Separator × RuleId) → List Char → List (List Char)
  | [], after => if EndsBlank before ∧ StartsBlank after then [r] else []
  | (sep, r') :: rest, after =>
    (if EndsBlank before ∧ StartsBlank sep.1 then [r] else []) ++
      blankRules sep.1 r'.1 rest after

/-- The text before the next character is no word, whatever comes after it, or it is nothing. -/
def Broken (y : List Char) : Prop := ' ' ∉ y ∧ (y = [] ∨ ∃ c ∈ y, space c = true)

variable {x y r s t sep before after q : List Char} {rest : List (Separator × RuleId)}

lemma words_blank (hx : ' ' ∉ x) :
    words (x ++ ' ' :: s) = (if Word x then [x] else []) ++ words s := by
  unfold words
  rw [List.splitOn_append_cons_self_of_not_mem hx, List.filter_cons]
  split_ifs with h h' h'
  · rfl
  · exact absurd (of_decide_eq_true h) h'
  · exact absurd (decide_eq_true h') h
  · rfl

lemma words_of_notMem (hx : ' ' ∉ x) : words x = if Word x then [x] else [] := by
  unfold words
  rw [List.splitOn_eq_singleton hx, List.filter_singleton]
  simp

lemma Broken.nil : Broken [] := ⟨by simp, .inl rfl⟩

lemma Broken.not_word (hy : Broken y) : ¬ Word y := by
  rintro ⟨hne, hspace⟩
  rcases hy.2 with rfl | ⟨c, hc, hcs⟩
  · exact hne rfl
  · simp [hspace c hc] at hcs

lemma Broken.word_append_iff (hy : Broken y) (hr : Word r) : Word (y ++ r) ↔ y = [] := by
  refine ⟨fun h => ?_, fun h => h ▸ hr⟩
  rcases hy.2 with rfl | ⟨c, hc, hcs⟩
  · rfl
  · simp [h.2 c (List.mem_append_left _ hc)] at hcs

lemma endsBlank_cons {c : Char} (hs : s ≠ []) : EndsBlank (c :: s) ↔ EndsBlank s := by
  unfold EndsBlank
  obtain ⟨d, s, rfl⟩ := List.exists_cons_of_ne_nil hs
  rw [List.getLast?_cons_cons]

lemma endsBlank_append (hs : s ≠ []) : EndsBlank (x ++ s) ↔ EndsBlank s := by
  induction x with
  | nil => rfl
  | cons c x ih => rw [List.cons_append, endsBlank_cons (by simp [hs]), ih]

/-- After white space the next piece is fresh if there is a blank last, and else it is broken. -/
lemma exists_broken (hsep : ∀ c ∈ sep, space c = true) (hx : Broken x) :
    ∃ y, Broken y ∧ (y = [] ↔ EndsBlank (x ++ sep)) ∧
      ∀ t, words (x ++ (sep ++ t)) = words (y ++ t) := by
  -- a blank ends the piece, and other white space makes it broken
  induction sep generalizing x with
  | nil =>
    refine ⟨x, hx, ⟨fun h => ?_, fun h => ?_⟩, fun t => rfl⟩
    · simp [h, EndsBlank]
    · by_contra hne
      rw [List.append_nil] at h
      have hlast := h _ (List.getLast?_eq_getLast_of_ne_nil hne)
      exact hx.1 (hlast ▸ List.getLast_mem hne)
  | cons c sep ih =>
    rw [List.forall_mem_cons] at hsep
    by_cases hc : c = ' '
    · subst hc
      obtain ⟨y, hy, hends, hwords⟩ := ih hsep.2 Broken.nil
      refine ⟨y, hy, hends.trans ?_, fun t => ?_⟩
      · rw [List.nil_append, endsBlank_append (by simp)]
        cases sep with
        | nil => simp [EndsBlank]
        | cons d sep => exact (endsBlank_cons (by simp)).symm
      · rw [List.cons_append, words_blank hx.1, if_neg hx.not_word]
        exact hwords t
    · have hx' : Broken (x ++ [c]) := by
        refine ⟨?_, .inr ⟨c, by simp, hsep.1⟩⟩
        simp [hx.1, Ne.symm hc]
      obtain ⟨y, hy, hends, hwords⟩ := ih hsep.2 hx'
      refine ⟨y, hy, ?_, fun t => ?_⟩
      · rw [hends, List.append_assoc, List.singleton_append]
      · rw [← hwords, List.append_assoc, List.singleton_append, List.cons_append]

/-- A rule and the white space after it. -/
lemma words_rule (hy : Broken y) (hr : Word r) (hsep : ∀ c ∈ sep, space c = true) (hne : sep ≠ []) :
    ∃ y', Broken y' ∧ (y' = [] ↔ EndsBlank sep) ∧ ∀ t, words (y ++ (r ++ (sep ++ t))) =
      (if y = [] ∧ StartsBlank sep then [r] else []) ++ words (y' ++ t) := by
  have hblank : ' ' ∉ y ++ r := by simp [hy.1, blank_notMem hr.2]
  obtain ⟨c, sep, rfl⟩ := List.exists_cons_of_ne_nil hne
  rw [List.forall_mem_cons] at hsep
  by_cases hc : c = ' '
  · subst hc
    obtain ⟨y', hy', hends, hwords⟩ := exists_broken hsep.2 Broken.nil
    have hstarts : StartsBlank (' ' :: sep) := by simp [StartsBlank]
    refine ⟨y', hy', hends.trans ?_, fun t => ?_⟩
    · cases sep with
      | nil => simp [EndsBlank]
      | cons d sep => exact (endsBlank_cons (by simp)).symm
    · rw [← List.append_assoc, List.cons_append, words_blank hblank, ← hwords t]
      simp only [hy.word_append_iff hr, hstarts, and_true, List.nil_append]
      split_ifs with h
      · simp [h]
      · rfl
  · have hstarts : ¬ StartsBlank (c :: sep) := by simp [StartsBlank, hc]
    have hx : Broken (y ++ r ++ [c]) := by
      refine ⟨?_, .inr ⟨c, by simp, hsep.1⟩⟩
      simp only [List.mem_append, List.mem_singleton, not_or] at hblank ⊢
      exact ⟨hblank, Ne.symm hc⟩
    obtain ⟨y', hy', hends, hwords⟩ := exists_broken hsep.2 hx
    refine ⟨y', hy', hends.trans ?_, fun t => ?_⟩
    · rw [List.append_assoc, List.singleton_append, endsBlank_append (by simp)]
    · rw [if_neg fun h => hstarts h.2, List.nil_append, ← hwords]
      simp

/-- **The words of a list are the rules that have blanks, or the ends of the list, next to
them.** -/
theorem words_listText (hy : Broken y) (hbefore : y = [] ↔ EndsBlank before) (hr : Word r)
    (hafter : ∀ c ∈ after, space c = true) :
    words (y ++ listText r rest after) = blankRules before r rest after := by
  induction rest generalizing y before r with
  | nil =>
    rw [listText, blankRules]
    simp only [← hbefore]
    by_cases hnil : after = []
    · subst hnil
      have hblank : ' ' ∉ y ++ r := by simp [hy.1, blank_notMem hr.2]
      have hstarts : StartsBlank [] := by simp [StartsBlank]
      rw [List.append_nil, words_of_notMem hblank]
      simp only [hy.word_append_iff hr, hstarts, and_true]
      split_ifs with h
      · simp [h]
      · rfl
    · obtain ⟨y', hy', -, hwords⟩ := words_rule hy hr hafter hnil
      have hlast := hwords []
      rw [List.append_nil, List.append_nil, words_of_notMem hy'.1, if_neg hy'.not_word,
        List.append_nil] at hlast
      exact hlast
  | cons p rest ih =>
    obtain ⟨sep, r'⟩ := p
    have hr' : Word r'.1 := ⟨r'.2.1, fun c hc => space_of_ruleChar (r'.2.2 c hc)⟩
    obtain ⟨y', hy', hends, hwords⟩ := words_rule hy hr sep.2.2 sep.2.1
    rw [listText, blankRules, hwords, ih hy' hends hr']
    simp only [hbefore]

/-! ### Alerts -/

def Names (rule query : List Char) : Prop :=
  query = rule ∨ ∃ row ∈ annotations, String.ofList rule ∈ row.1 ∧ lgtm query ∈ row.2

instance (rule query : List Char) : Decidable (Names rule query) :=
  inferInstanceAs (Decidable (_ ∨ ∃ row ∈ _, _))

lemma lgtm_injective : Function.Injective lgtm := by
  intro q q' h
  simpa [lgtm] using congrArg String.toList h

lemma lgtm_mem_iff {rule query : List Char} :
    lgtm query ∈ makeLgtmName (String.ofList rule) ↔ Names rule query := by
  have hown : lgtm query = lgtm rule ↔ query = rule := lgtm_injective.eq_iff
  unfold makeLgtmName Names
  rw [List.mem_append, List.mem_singleton, or_comm]
  refine or_congr hown ?_
  simp only [List.mem_flatMap, List.mem_filter, decide_eq_true_eq, and_assoc]

lemma toNat_le_of_space {c : Char} (h : space c = true) : c.toNat ≤ 32 :=
  of_space (q := fun c => c.toNat ≤ 32) (by decide) h

lemma rules_large : ∀ row ∈ annotations, ∀ rule ∈ row.1,
    rule.toList ≠ [] ∧ rule.toList.all (fun c => Nat.blt 32 c.toNat) = true := by
  decide +kernel

lemma word_of_annotations {row : List String × List String} (hrow : row ∈ annotations)
    {rule : String} (hrule : rule ∈ row.1) : Word rule.toList := by
  obtain ⟨hne, hlarge⟩ := rules_large row hrow rule hrule
  refine ⟨hne, fun c hc => Bool.eq_false_iff.mpr fun hspace => ?_⟩
  have hlt : 32 < c.toNat := Nat.blt_eq.mp (List.all_eq_true.mp hlarge c hc)
  exact absurd (toNat_le_of_space hspace) (by omega)

lemma Names.word {rule query : List Char} (hq : Word query) (h : Names rule query) : Word rule := by
  rcases h with rfl | ⟨row, hrow, hrule, -⟩
  · exact hq
  · simpa using word_of_annotations hrow hrule

/-- The rules of a pragma next to which its list has blanks or ends. -/
def effective (h : Head) : List (List Char) := blankRules [] h.first.1 h.rest h.afterList.1

lemma mem_effective_iff (h : Head) (hb : h.beforeBracket.1 = []) {rule : List Char} :
    rule ∈ effective h ↔ rule ∈ h.rules ∧ Word rule := by
  have hends : ([] : List Char) = [] ↔ EndsBlank [] := by simp [EndsBlank]
  have hwords : words ([] ++ listText h.first.1 h.rest h.afterList.1) =
      blankRules [] h.first.1 h.rest h.afterList.1 :=
    words_listText Broken.nil hends (first_word h) h.afterList.2
  rw [rules_text, if_pos hb, effective, ← hwords, List.nil_append, words, Head.list,
    List.mem_filter, decide_eq_true_eq]

/-- What a pragma with this head is. -/
def kindOf (h : Head) : PragmaKind :=
  if h.rules = [] then .other
  else match h.keyword with
    | .suppress => .suppress (h.rules.map String.ofList)
    | .disable => .disable (h.rules.map String.ofList)

lemma getRuleName_kindOf (h : Head) : getRuleName (kindOf h) = h.rules.map String.ofList := by
  unfold kindOf
  split_ifs with hnil
  · simp [hnil, getRuleName]
  · cases h.keyword <;> rfl

/-- A file whose suppressions have these heads. -/
structure HasHeads (F : SourceFile) (head : Pragma → Option Head) : Prop where
  kind : ∀ c ∈ F.pragmas, ∀ h ∈ head c, c.kind = kindOf h
  isSome : ∀ c ∈ F.pragmas, CASuppression c → (head c).isSome

variable {F : SourceFile} {head : Pragma → Option Head} {line : ℕ}

lemma suppressed_iff_covered : Suppressed F q line ↔ ∃ cas ∈ F.pragmas, CASuppression cas ∧
    (∃ rule ∈ getRuleName cas.kind, lgtm q ∈ makeLgtmName rule) ∧ Covered F cas line := by
  unfold Suppressed DriverAlertSuppression Covered
  constructor
  · rintro ⟨cas, s, e, ⟨hcas, hca, hrule, hscope⟩, hline⟩
    exact ⟨cas, hcas, hca, hrule, s, e, hscope, hline⟩
  · rintro ⟨cas, hcas, hca, hrule, s, e, hscope, hline⟩
    exact ⟨cas, s, e, ⟨hcas, hca, hrule, hscope⟩, hline⟩

lemma suppression_of_covered {c : Pragma} (h : Covered F c line) : CASuppression c := by
  obtain ⟨s, e, hscope, -⟩ := h
  unfold scopeCovers at hscope
  split at hscope
  · exact .inl ⟨_, ‹_›⟩
  · exact .inr ⟨_, ‹_›⟩
  · exact hscope.elim

/-- **An alert is suppressed iff its line is covered by a pragma without white space before the
bracket, one of whose rules is for the query of the alert and has blanks, or the ends of the list,
next to it**, whatever else there is in the pragmas. -/
theorem suppressed_iff (hheads : HasHeads F head) (hq : Word q) :
    Suppressed F q line ↔ ∃ c ∈ F.pragmas, Covered F c line ∧ ∃ h ∈ head c,
      h.beforeBracket.1 = [] ∧ ∃ rule ∈ effective h, Names rule q := by
  rw [suppressed_iff_covered]
  constructor
  · rintro ⟨c, hc, hca, ⟨rule, hrule, hname⟩, hcovered⟩
    obtain ⟨h, hh⟩ := Option.isSome_iff_exists.mp (hheads.isSome c hc hca)
    rw [hheads.kind c hc h hh, getRuleName_kindOf] at hrule
    obtain ⟨rule, hmem, rfl⟩ := List.mem_map.mp hrule
    have hnames := lgtm_mem_iff.mp hname
    have hb : h.beforeBracket.1 = [] := by
      by_contra hne
      rw [rules_text, if_neg hne] at hmem
      exact List.not_mem_nil hmem
    exact ⟨c, hc, hcovered, h, hh, hb, rule, (mem_effective_iff h hb).mpr ⟨hmem, hnames.word hq⟩,
      hnames⟩
  · rintro ⟨c, hc, hcovered, h, hh, hb, rule, hrule, hnames⟩
    refine ⟨c, hc, suppression_of_covered hcovered,
      ⟨String.ofList rule, ?_, lgtm_mem_iff.mpr hnames⟩, hcovered⟩
    rw [hheads.kind c hc h hh, getRuleName_kindOf]
    exact List.mem_map_of_mem ((mem_effective_iff h hb).mp hrule).1

/-! ### Blanks and tabs -/

/-- A pragma with this head on line 1, and code on line 2. -/
def oneLine (h : Head) : SourceFile := fileOf [(1, kindOf h)] [2]

lemma oneLine_heads (h : Head) : HasHeads (oneLine h) fun _ => some h where
  kind c hc h' hh := by
    obtain rfl : c = ⟨onLine 1, kindOf h⟩ := by simpa [oneLine, fileOf] using hc
    obtain rfl := Option.some.inj hh
    rfl
  isSome _ _ _ := rfl

/-- `warning(suppress:28719` and `28735)` with a tab between them. -/
def tabBetween : Head :=
  { twoBlanks with
    rest := twoBlanks.rest.map fun x => (⟨['\t'], by simp, forall_mem_of_all rfl⟩, x.2) }

def deprecatedApis : List Char := "cpp/drivers/extended-deprecated-apis".toList

/-- The second blank does no harm, and with the tab no rule is left. -/
theorem suppressed_iff_oneLine : Suppressed (oneLine twoBlanks) deprecatedApis 2 ∧
    ¬ Suppressed (oneLine tabBetween) deprecatedApis 2 := by
  have hq : Word deprecatedApis := by decide
  constructor
  · have hkind : kindOf twoBlanks = .suppress ["28719", "", "28735"] := by
      rw [kindOf, rules_twoBlanks]
      decide
    refine (suppressed_iff (oneLine_heads twoBlanks) hq).mpr ⟨⟨onLine 1, kindOf twoBlanks⟩, ?_, ?_,
      twoBlanks, rfl, rfl, ['2', '8', '7', '1', '9'], by decide, by decide⟩
    · simp [oneLine, fileOf]
    · rw [covered_suppress_iff hkind, oneLine, hkind]
      decide
  · rw [suppressed_iff (oneLine_heads tabBetween) hq]
    rintro ⟨c, -, -, h, hh, -, rule, hrule, -⟩
    obtain rfl := Option.some.inj hh
    have hnone : effective tabBetween = [] := by decide
    exact List.not_mem_nil (hnone ▸ hrule)

end DriverQueries.AlertSuppression
