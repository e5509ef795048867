import DriverQueries.ConditionTexts
import DriverQueries.RegexLoops

/-!
The rules that a `suppress` or `disable` pragma is for.

They are written between brackets, with white space between them, and may be followed by a comma
and a comment. A regular expression takes the list and whatever white space comes after it, which
is then split at single blanks. It is shown what comes out for any such pragma, and that these
are the rules exactly if there is no white space before the bracket and after the list, and one
blank between any two rules.
-/

namespace DriverQueries.RuleLists

open ConditionTexts GreedyRegex RegexLoops

/-! ### The patterns -/

/-- The characters of `\p{Pd}`. -/
def dash (c : Char) : Bool :=
  c.toNat ∈ [0x2D, 0x58A, 0x5BE, 0x1400, 0x1806, 0x2010, 0x2011, 0x2012, 0x2013, 0x2014, 0x2015,
    0x2E17, 0x2E1A, 0x2E3A, 0x2E3B, 0x2E40, 0x2E5D, 0x301C, 0x3030, 0x30A0, 0xFE31, 0xFE32, 0xFE58,
    0xFE63, 0xFF0D, 0x10EAD]

/-- The characters of `\p{Pc}`. -/
def connector (c : Char) : Bool :=
  c.toNat ∈ [0x5F, 0x203F, 0x2040, 0x2054, 0xFE33, 0xFE34, 0xFE4D, 0xFE4E, 0xFE4F, 0xFF3F]

/-- The characters of a list, `[\d\w\s\\\p{Pd}\p{Pc}/]`. -/
def listChar (c : Char) : Bool :=
  c.isDigit || word c || space c || c == '\\' || dash c || connector c || c == '/'

inductive Keyword
  | suppress | disable

def Keyword.text : Keyword → List Char
  | .suppress => "suppress".toList
  | .disable => "disable".toList

/-- `(prefast|warning)\(\s*keyword\s*:\s*` -/
def opening (keyword : Keyword) : Regex :=
  .seq (.group 1 (.alt (.text "prefast".toList) (.text "warning".toList)))
    (.seq (.text ['(']) (.seq (.many space) (.seq (.text keyword.text)
      (.seq (.many space) (.seq (.text [':']) (.many space))))))

/-- `(,?([\s\w\d\W\p{P}]))*\)`, where the class has every character. -/
def closing : Pattern :=
  .seq (.star (.regex (.group 3
      (.seq (.alt (.text [',']) (.text [])) (.group 4 (.one fun _ => true))))))
    (.regex (.text [')']))

/-- The expression for a list, which is group 2. -/
def listPattern (keyword : Keyword) : Pattern :=
  .seq (.regex (opening keyword)) (.seq (.plus (.regex (wordGroup 2 listChar))) closing)

/-- The list, split at every blank. -/
def rulesOf (keyword : Keyword) (getHead : List Char) : List (List Char) :=
  match (listPattern keyword).capture getHead 2 with
  | none => []
  | some list => list.splitOn ' '

/-- What the field `suppressedRule` of a `SuppressPragma` can be. -/
def suppressedRule (getHead : List Char) : List (List Char) := rulesOf .suppress getHead

/-- What the field `disabledRule` of a `DisablePragma` can be. -/
def disabledRule (getHead : List Char) : List (List Char) := rulesOf .disable getHead

/-- `warning` or `prefast`. -/
def pragmaName (isWarning : Bool) : List Char :=
  if isWarning then "warning".toList else "prefast".toList

/-- `warning\s*\(\s*command\s*\)`, or the same for `prefast`. -/
def commandRegex (isWarning : Bool) (command : List Char) : Regex :=
  .seq (.text (pragmaName isWarning)) (.seq (.many space) (.seq (.text ['(']) (.seq (.many space)
    (.seq (.text command) (.seq (.many space) (.text [')']))))))

def SuppressionPushPragma (getHead : List Char) (isWarning : Bool) : Prop :=
  (commandRegex isWarning "push".toList).accepts getHead

def SuppressionPopPragma (getHead : List Char) (isWarning : Bool) : Prop :=
  (commandRegex isWarning "pop".toList).accepts getHead

/-! ### Heads -/

/-- The digits, word characters, dashes and underscores of a rule. -/
def ruleChar (c : Char) : Bool := c.isDigit || word c || dash c || connector c

abbrev RuleId := {s : List Char // s ≠ [] ∧ ∀ c ∈ s, ruleChar c}

/-- White space between two rules. -/
abbrev Separator := {s : List Char // s ≠ [] ∧ ∀ c ∈ s, space c}

/-- A pragma with a list of rules, and possibly a comment. -/
structure Head where
  isWarning : Bool
  beforeBracket : Gap
  afterBracket : Gap
  keyword : Keyword
  beforeColon : Gap
  afterColon : Gap
  first : RuleId
  rest : List (Separator × RuleId)
  afterList : Gap
  comment : Option (List Char)

/-- A rule, those that come after it, and the white space after the last one. -/
def listText (r : List Char) : List (Separator × RuleId) → List Char → List Char
  | [], after => r ++ after
  | (sep, r') :: rest, after => r ++ (sep.1 ++ listText r'.1 rest after)

def commentText : Option (List Char) → List Char
  | none => []
  | some comment => ',' :: comment

namespace Head

variable (h : Head)

def list : List Char := listText h.first.1 h.rest h.afterList.1

def text : List Char :=
  pragmaName h.isWarning ++ (h.beforeBracket.1 ++ (['('] ++ (h.afterBracket.1 ++ (h.keyword.text ++
    (h.beforeColon.1 ++ ([':'] ++ (h.afterColon.1 ++ (h.list ++ (commentText h.comment ++
      [')'])))))))))

def ruleIds : List (List Char) := h.first.1 :: h.rest.map fun p => p.2.1

/-- The rules that the library takes the pragma to be for. -/
def rules : List (List Char) :=
  match h.keyword with
  | .suppress => suppressedRule h.text
  | .disable => disabledRule h.text

end Head

def commandText (isWarning : Bool) (gap : List Char) (command : List Char) : List Char :=
  pragmaName isWarning ++ (gap ++ (['('] ++ (command ++ [')'])))

/-- The rules are those that are listed, each of them a word, and white space before the bracket
is treated as in pushes and pops. -/
structure Parsed (h : Head) : Prop where
  mem_iff : ∀ s, s ∈ h.rules ↔ s ∈ h.ruleIds
  word : ∀ s ∈ h.rules, s ≠ [] ∧ ∀ c ∈ s, space c = false
  push : h.rules ≠ [] ↔ SuppressionPushPragma
    (commandText h.isWarning h.beforeBracket.1 "push".toList) h.isWarning
  pop : h.rules ≠ [] ↔ SuppressionPopPragma
    (commandText h.isWarning h.beforeBracket.1 "pop".toList) h.isWarning

/-! ### The list is taken -/

section Steps

variable {h : Head} {keyword : Keyword} {k : List Char → Captures → Option Captures}
  {g : Captures} {s t : List Char} {c : Char} {isWarning : Bool}

lemma ruleChar_of_space (hc : space c = true) : ruleChar c = false :=
  of_space (q := fun c => ruleChar c = false) (by decide) hc

lemma space_of_ruleChar (hc : ruleChar c = true) : space c = false :=
  space_eq_false ruleChar_of_space hc

lemma listChar_of_space (hc : space c = true) : listChar c = true := by simp [listChar, hc]

lemma listChar_of_ruleChar (hc : ruleChar c = true) : listChar c = true := by
  simp only [ruleChar, Bool.or_eq_true] at hc
  simp only [listChar, Bool.or_eq_true]
  tauto

lemma listText_cons {r : List Char} (hr : r ≠ []) (rest : List (Separator × RuleId))
    (after : List Char) : ∃ c t, listText r rest after = c :: t ∧ c ∈ r := by
  obtain ⟨c, w, rfl⟩ := List.exists_cons_of_ne_nil hr
  cases rest with
  | nil => exact ⟨c, w ++ after, rfl, by simp⟩
  | cons p rest => exact ⟨c, _, rfl, by simp⟩

lemma listChar_of_mem_listText {r : List Char} (hr : ∀ c ∈ r, ruleChar c = true)
    (rest : List (Separator × RuleId)) {after : List Char} (hafter : ∀ c ∈ after, space c = true) :
    ∀ c ∈ listText r rest after, listChar c = true := by
  induction rest generalizing r with
  | nil =>
    intro c hc
    rcases List.mem_append.mp hc with hc | hc
    · exact listChar_of_ruleChar (hr c hc)
    · exact listChar_of_space (hafter c hc)
  | cons p rest ih =>
    intro c hc
    simp only [listText, List.mem_append] at hc
    rcases hc with hc | hc | hc
    · exact listChar_of_ruleChar (hr c hc)
    · exact listChar_of_space (p.1.2.2 c hc)
    · exact ih p.2.2.2 c hc

lemma exists_closing (comment : Option (List Char)) :
    ∃ c t, commentText comment ++ [')'] = c :: t ∧ listChar c = false := by
  cases comment with
  | none => exact ⟨')', [], rfl, by decide⟩
  | some comment => exact ⟨',', comment ++ [')'], rfl, by decide⟩

lemma Keyword.exists_text (keyword : Keyword) :
    ∃ d w, keyword.text = d :: w ∧ space d = false := by
  cases keyword
  · exact ⟨'s', "uppress".toList, by decide, by decide⟩
  · exact ⟨'d', "isable".toList, by decide, by decide⟩

/-- The group of the name. -/
lemma exec_pragmaName :
    (Regex.group 1 (.alt (.text "prefast".toList) (.text "warning".toList))).exec k
      (pragmaName isWarning ++ s) g = k s (Function.update g 1 (some (pragmaName isWarning))) := by
  have hprefast : "prefast".toList = 'p' :: "refast".toList := by decide
  have hwarning : "warning".toList = 'w' :: "arning".toList := by decide
  rw [exec_group_alt]
  cases isWarning with
  | false =>
    have hother : (Regex.group 1 (.text "warning".toList)).exec k ("prefast".toList ++ s) g =
        none := by
      rw [hprefast, hwarning]
      exact exec_group_text_of_ne (by decide)
    have hname : pragmaName false = "prefast".toList := rfl
    rw [hname, hother, Option.or_none, exec_group_text]
  | true =>
    have hother : (Regex.group 1 (.text "prefast".toList)).exec k ("warning".toList ++ s) g =
        none := by
      rw [hprefast, hwarning]
      exact exec_group_text_of_ne (by decide)
    have hname : pragmaName true = "warning".toList := rfl
    rw [hname, hother, Option.none_or, exec_group_text]

lemma exec_opening_eq_none (hs : ∀ t, s ≠ '(' :: t) :
    (opening keyword).exec k (pragmaName isWarning ++ s) g = none := by
  refine exec_pragmaName.trans ?_
  cases s with
  | nil => rfl
  | cons c s => exact exec_text_of_ne fun heq => hs s (by rw [heq])

/-- The last repetition of the opening leaves off before the list, if the list is matched. -/
lemma exec_opening {x : Captures} {afterBracket beforeColon : Gap} (hs : ∀ c ∈ s, space c = true)
    (ht : t.dropWhile space = t)
    (hk : k t (Function.update g 1 (some (pragmaName isWarning))) = some x) :
    (opening keyword).exec k (pragmaName isWarning ++ (['('] ++ (afterBracket.1 ++ (keyword.text ++
      (beforeColon.1 ++ ([':'] ++ (s ++ t))))))) g = some x := by
  refine exec_pragmaName.trans ?_
  obtain ⟨d, w, hkeyword, hd⟩ := keyword.exists_text
  refine (exec_text_append ['(']).trans ?_
  rw [hkeyword]
  refine (exec_many_append_text hd afterBracket.2).trans ?_
  refine (exec_many_append_text (by decide) beforeColon.2).trans ?_
  refine matchMany_of_dropWhile ?_
  rwa [List.dropWhile_append_of_pos hs, ht]

lemma exec_closing (s : List Char) : ∃ x, closing.exec atEnd (s ++ [')']) g = some x ∧
    x 2 = g 2 := by
  have hsome : (closing.exec atEnd (s ++ [')']) g).isSome := by
    refine matchStar_isSome (fun k c s g hk => ?_) (fun g => rfl) ?_
    · change Option.isSome (Option.or _ _) = true
      rw [Option.isSome_or, Bool.or_eq_true]
      exact Or.inr (hk _)
    · rw [List.length_append]
      omega
  obtain ⟨x, hx⟩ := Option.isSome_iff_exists.mp hsome
  exact ⟨x, hx, closing.eq_of_atEnd hx (by decide)⟩

lemma rules_eq (h : Head) : h.rules = rulesOf h.keyword h.text := by
  unfold Head.rules
  cases h.keyword <;> rfl

/-- The list is taken with the white space after it. -/
lemma capture_text (hb : h.beforeBracket.1 = []) :
    (listPattern h.keyword).capture h.text 2 = some h.list := by
  obtain ⟨c, t, hend, hc⟩ := exists_closing h.comment
  obtain ⟨d, w, hlist, hd⟩ := listText_cons h.first.2.1 h.rest h.afterList.1
  have hchars : ∀ c ∈ h.list, listChar c = true :=
    listChar_of_mem_listText h.first.2.2 h.rest h.afterList.2
  have htake : (h.list ++ (commentText h.comment ++ [')'])).takeWhile listChar = h.list := by
    rw [List.takeWhile_append_of_pos hchars, hend, List.takeWhile_cons_of_neg (by simp [hc]),
      List.append_nil]
  have hdrop : (h.list ++ (commentText h.comment ++ [')'])).dropWhile listChar =
      commentText h.comment ++ [')'] := by
    rw [List.dropWhile_append_of_pos hchars, hend, List.dropWhile_cons_of_neg (by simp [hc])]
  have hspace : (h.list ++ (commentText h.comment ++ [')'])).dropWhile space =
      h.list ++ (commentText h.comment ++ [')']) := by
    rw [Head.list, hlist, List.cons_append, List.dropWhile_cons_of_neg]
    rw [space_of_ruleChar (h.first.2.2 d hd)]
    exact Bool.false_ne_true
  obtain ⟨x, hx, hgroup⟩ := exec_closing (g := Function.update (Function.update (fun _ => none) 1
    (some (pragmaName h.isWarning))) 2 (some h.list)) (commentText h.comment)
  have hexec : (listPattern h.keyword).exec atEnd h.text (fun _ => none) = some x := by
    rw [Head.text, hb]
    refine exec_opening h.afterColon.2 hspace (exec_plus_wordGroup ?_ ?_)
    · rw [htake]
      simp [Head.list, hlist]
    · rwa [hdrop, htake]
  rw [Pattern.capture, hexec]
  exact hgroup.trans (Function.update_self _ _ _)

/-- What the library takes the rules to be, for every pragma with a list. -/
theorem rules_text (h : Head) :
    h.rules = if h.beforeBracket.1 = [] then h.list.splitOn ' ' else [] := by
  rw [rules_eq, rulesOf]
  split_ifs with hb
  · rw [capture_text hb]
  · have hnone : (listPattern h.keyword).exec atEnd h.text (fun _ => none) = none := by
      refine exec_opening_eq_none fun t heq => ?_
      obtain ⟨c, w, hgap⟩ := List.exists_cons_of_ne_nil hb
      have hspace := h.beforeBracket.2 c (by simp [hgap])
      rw [hgap] at heq
      obtain rfl := (List.cons.inj heq).1
      exact absurd hspace (by decide)
    rw [Pattern.capture, hnone]
    rfl

end Steps

/-! ### The list is split -/

/-- Every piece of a text that is split at blanks is a word. -/
def Words (s : List Char) : Prop := ∀ w ∈ s.splitOn ' ', w ≠ [] ∧ ∀ c ∈ w, space c = false

section Splitting

variable {r s t : List Char} {c : Char} {rest : List (Separator × RuleId)} {after : List Char}

lemma blank_notMem (hr : ∀ c ∈ r, space c = false) : ' ' ∉ r := fun hmem =>
  absurd (hr ' ' hmem) (by decide)

lemma splitOn_append (hr : ' ' ∉ r) :
    (r ++ s).splitOn ' ' = (s.splitOn ' ').modifyHead (r ++ ·) := by
  induction r with
  | nil =>
    obtain ⟨w, ws, hsplit⟩ := List.exists_cons_of_ne_nil (List.splitOn_ne_nil ' ' s)
    simp [hsplit]
  | cons c r ih =>
    simp only [List.mem_cons, not_or] at hr
    have hc : (c == ' ') = false := beq_eq_false_iff_ne.mpr (Ne.symm hr.1)
    rw [List.cons_append, List.splitOn_cons_eq_if_modifyHead, hc, ih hr.2]
    cases s.splitOn ' ' <;> rfl

lemma not_words_of_ne (hr : ' ' ∉ r) (hc : space c = true) (hne : c ≠ ' ') :
    ¬ Words (r ++ c :: s) := by
  intro h
  have hblank : ' ' ∉ r ++ [c] := by simp [hr, hne.symm]
  obtain ⟨w, ws, hsplit⟩ := List.exists_cons_of_ne_nil (List.splitOn_ne_nil ' ' s)
  have hpiece : r ++ [c] ++ w ∈ (r ++ c :: s).splitOn ' ' := by
    rw [List.append_cons, splitOn_append hblank, hsplit]
    exact List.mem_cons_self
  have hfalse := (h _ hpiece).2 c (by simp)
  rw [hc] at hfalse
  exact Bool.noConfusion hfalse

lemma not_words_of_space (hc : space c = true) : ¬ Words (c :: s) := by
  by_cases hblank : c = ' '
  · subst hblank
    intro h
    exact (h [] (by simp [List.splitOn_cons_eq_if_modifyHead])).1 rfl
  · exact not_words_of_ne (r := []) (by simp) hc hblank

lemma not_words_nil : ¬ Words [] := fun h => (h [] (by simp)).1 rfl

lemma words_append_iff (hr : r ≠ [] ∧ ∀ c ∈ r, space c = false) (hc : space c = true) :
    Words (r ++ c :: s) ↔ c = ' ' ∧ Words s := by
  have hblank := blank_notMem hr.2
  by_cases heq : c = ' '
  · subst heq
    unfold Words
    rw [List.splitOn_append_cons_self_of_not_mem hblank, List.forall_mem_cons]
    tauto
  · simp [heq, not_words_of_ne hblank hc heq]

/-- A list is split into words exactly if there are single blanks between the rules and nothing
after the last one. -/
lemma words_listText (hr : r ≠ [] ∧ ∀ c ∈ r, space c = false)
    (hafter : ∀ c ∈ after, space c = true) :
    Words (listText r rest after) ↔ (∀ p ∈ rest, p.1.1 = [' ']) ∧ after = [] := by
  induction rest generalizing r with
  | nil =>
    cases after with
    | nil =>
      simpa [listText, Words, List.splitOn_eq_singleton (blank_notMem hr.2)] using hr
    | cons c after =>
      have hnot : ¬ Words after := by
        cases after with
        | nil => exact not_words_nil
        | cons d after => exact not_words_of_space (hafter d (by simp))
      simp [listText, words_append_iff hr (hafter c (by simp)), hnot]
  | cons p rest ih =>
    obtain ⟨⟨sep, hsep, hspace⟩, r'⟩ := p
    have hr' := ih ⟨r'.2.1, fun c hc => space_of_ruleChar (r'.2.2 c hc)⟩
    obtain ⟨c, sep, rfl⟩ := List.exists_cons_of_ne_nil hsep
    rw [listText, List.cons_append, words_append_iff hr (hspace c (by simp))]
    cases sep with
    | nil => simp [hr', and_assoc]
    | cons d sep => simp [not_words_of_space (hspace d (by simp))]

lemma splitOn_listText (hr : ∀ c ∈ r, space c = false) (hrest : ∀ p ∈ rest, p.1.1 = [' ']) :
    (listText r rest []).splitOn ' ' = r :: rest.map fun p => p.2.1 := by
  induction rest generalizing r with
  | nil => simp [listText, List.splitOn_eq_singleton (blank_notMem hr)]
  | cons p rest ih =>
    have htail := ih (fun c hc => space_of_ruleChar (p.2.2.2 c hc)) fun q hq =>
      hrest q (List.mem_cons_of_mem p hq)
    rw [listText, hrest p List.mem_cons_self, List.singleton_append,
      List.splitOn_append_cons_self_of_not_mem (blank_notMem hr), htail]
    rfl

end Splitting

/-! ### The condition -/

section Condition

variable {h : Head} {isWarning : Bool} {gap command : List Char}

lemma accepts_commandText {d : Char} {w : List Char} (hcommand : command = d :: w)
    (hd : space d = false) (hgap : ∀ c ∈ gap, space c = true) :
    (commandRegex isWarning command).accepts (commandText isWarning gap command) := by
  have hexec : (commandRegex isWarning command).exec atEnd (commandText isWarning gap command)
      (fun _ => none) = some fun _ => none := by
    refine (exec_text_append (pragmaName isWarning)).trans ?_
    refine (exec_many_append_text (by decide) hgap).trans ?_
    rw [hcommand]
    refine (exec_many_append_text (a := []) hd (by simp)).trans ?_
    refine matchMany_of_dropWhile ?_
    rfl
  rw [Regex.accepts, hexec]
  rfl

lemma push_commandText (hgap : ∀ c ∈ gap, space c = true) :
    SuppressionPushPragma (commandText isWarning gap "push".toList) isWarning := by
  have hpush : "push".toList = 'p' :: "ush".toList := by decide
  exact accepts_commandText hpush (by decide) hgap

lemma pop_commandText (hgap : ∀ c ∈ gap, space c = true) :
    SuppressionPopPragma (commandText isWarning gap "pop".toList) isWarning := by
  have hpop : "pop".toList = 'p' :: "op".toList := by decide
  exact accepts_commandText hpop (by decide) hgap

lemma first_word (h : Head) : h.first.1 ≠ [] ∧ ∀ c ∈ h.first.1, space c = false :=
  ⟨h.first.2.1, fun c hc => space_of_ruleChar (h.first.2.2 c hc)⟩

lemma ruleIds_word (h : Head) : ∀ s ∈ h.ruleIds, s ≠ [] ∧ ∀ c ∈ s, space c = false := by
  intro s hs
  rcases List.mem_cons.mp hs with rfl | hs
  · exact first_word h
  · obtain ⟨p, -, rfl⟩ := List.mem_map.mp hs
    exact ⟨p.2.2.1, fun c hc => space_of_ruleChar (p.2.2.2 c hc)⟩

end Condition

/-- The rules are parsed exactly if there is no white space before the bracket, one blank between
any two rules, and no white space after the last one. -/
theorem parsed_iff (h : Head) :
    Parsed h ↔ h.beforeBracket.1 = [] ∧ (∀ p ∈ h.rest, p.1.1 = [' ']) ∧ h.afterList.1 = [] := by
  constructor
  · intro hparsed
    -- with white space before the bracket there are no rules, but the head is still one of a push
    have hbracket : h.beforeBracket.1 = [] := by
      by_contra hne
      have hempty : h.rules = [] := by rw [rules_text, if_neg hne]
      exact hparsed.push.mpr (push_commandText h.beforeBracket.2) hempty
    have hwords : Words h.list := by
      have hrules := hparsed.word
      rwa [rules_text, if_pos hbracket] at hrules
    exact ⟨hbracket, (words_listText (first_word h) h.afterList.2).mp hwords⟩
  · rintro ⟨hbracket, hrest, hafter⟩
    have hrules : h.rules = h.ruleIds := by
      rw [rules_text, if_pos hbracket, Head.list, hafter]
      exact splitOn_listText (first_word h).2 hrest
    have hne : h.rules ≠ [] := by
      rw [hrules]
      exact List.cons_ne_nil _ _
    exact
      { mem_iff := fun s => by rw [hrules]
        word := fun s hs => ruleIds_word h s (hrules ▸ hs)
        push := iff_of_true hne (push_commandText h.beforeBracket.2)
        pop := iff_of_true hne (pop_commandText h.beforeBracket.2) }

lemma space_of_mem_nil : ∀ c ∈ ([] : List Char), space c = true := List.forall_mem_nil _

lemma space_of_mem_blank : ∀ c ∈ [' '], space c = true := forall_mem_of_all rfl

def noGap : Gap := ⟨[], space_of_mem_nil⟩

/-- `warning(suppress:28719  28735)`: the empty text is taken for a rule. -/
def twoBlanks : Head where
  isWarning := true
  beforeBracket := noGap
  afterBracket := noGap
  keyword := .suppress
  beforeColon := noGap
  afterColon := noGap
  first := ⟨['2', '8', '7', '1', '9'], by simp, forall_mem_of_all rfl⟩
  rest := [(⟨[' ', ' '], by simp, forall_mem_of_all rfl⟩,
    ⟨['2', '8', '7', '3', '5'], by simp, forall_mem_of_all rfl⟩)]
  afterList := noGap
  comment := none

def blankBefore : Head :=
  { twoBlanks with beforeBracket := ⟨[' '], space_of_mem_blank⟩, rest := [] }

lemma rules_twoBlanks :
    twoBlanks.rules = [['2', '8', '7', '1', '9'], [], ['2', '8', '7', '3', '5']] := by decide

lemma rules_blankBefore : blankBefore.rules = [] := by decide

/-- The empty text is no rule, and in a push the blank would be passed over. -/
theorem not_parsed : ¬ Parsed twoBlanks ∧ ¬ Parsed blankBefore := by
  constructor
  · intro h
    have hmem : [] ∈ twoBlanks.rules := by
      rw [rules_twoBlanks]
      simp
    exact (h.word [] hmem).1 rfl
  · intro h
    exact h.push.mpr (push_commandText blankBefore.beforeBracket.2) rules_blankBefore

end DriverQueries.RuleLists
