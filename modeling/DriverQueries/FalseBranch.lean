import DriverQueries.Bodies

/-!
Calls in a branch that is taken to be dead.

A call in the branch of an `if` is suppressed if the condition is the constant zero, or a local
flag that is zero at first and that no assignment, increment or address-of operator is applied to.
It is shown that such a call is not reached as long as no jump enters the branch, the flag is not
read without its initial value, and no reference is made to it.
-/

namespace DriverQueries.FalseBranch

open Bodies

/-! ### The predicate -/

def IsFunctionCall : Node → Prop
  | .expr (.call _) | .expr (.invoke _ _) => True
  | _ => False

/-- The local variable that is declared at `d` is a flag that is never mutated. -/
structure ConstantFlag (root : Node) (d : Path) : Prop where
  initializer : ∃ e, root.get d = some (.stmt (.declare false (some e))) ∧ e.getValue = some 0
  no_assignment : ∀ p op e, root.get p ≠ some (.expr (.assign op (.access (.declared d)) e))
  no_crement : ∀ p step before,
    root.get p ≠ some (.expr (.crement step before (.access (.declared d))))
  no_addressOf : ∀ p, root.get p ≠ some (.expr (.addressOf (.access (.declared d))))

/-- The condition of the `if` at `b` is zero, or such a flag. -/
def ConstantFalse (root : Node) (b : Path) : Prop :=
  ∃ c t e, root.get b = some (.stmt (.ifStmt c t e)) ∧
    (c.getValue = some 0 ∨ ∃ d, c = .access (.declared d) ∧ ConstantFlag root d)

/-- The node comes after the statement in `Stmt.getAChild*`, which goes on from statements only. -/
def StmtChild (root : Node) (s p : Path) : Prop :=
  s <+: p ∧ ∀ q, s <+: q → q <+: p → q ≠ p → ∃ t, root.get q = some (.stmt t)

/-- What `isInConstantFalseBranch` says, of every call below the branch, which is the second child
of the `if`: also of calls in the operands of others, which `getAChild*` does not come to. -/
def IsInConstantFalseBranch (root : Node) (call : Path) : Prop :=
  (∃ n, root.get call = some n ∧ IsFunctionCall n) ∧
    ∃ b, b ++ [1] <+: call ∧ ConstantFalse root b

/-! ### Executions -/

/-- The function is entered. Its automatic variables have no value, and nothing points to them. -/
def Entered (P : Function) (s : State) : Prop :=
  ∃ id bindings, s.stack = [.body ⟨none, id, bindings, [.eval false []], []⟩] ∧ id < s.fresh ∧
    ∀ d e, (P.code none).get d = some (.stmt (.declare false e)) →
      bindings.lookup (.declared d) = none ∧ s.memory (.automatic id (.declared d)) = none ∧
        Hidden (.automatic id (.declared d)) s

def nextItem (s : State) : Option Item :=
  match s.stack with
  | .body f :: _ => if f.code = none then f.control.head? else none
  | _ => none

def AtCall (s : State) (call : Path) : Prop :=
  nextItem s = some (.eval false call) ∨ nextItem s = some (.eval true call)

instance (s : State) (call : Path) : Decidable (AtCall s call) :=
  inferInstanceAs (Decidable (_ ∨ _))

/-- No execution of the function reaches a call for which the predicate holds. -/
def Sound (P : Function) : Prop :=
  ∀ call, IsInConstantFalseBranch (P.code none) call →
    ∀ s s', Entered P s → Reaches P (fun _ => True) s s' → ¬ AtCall s' call

/-! ### Steps that the predicate overlooks -/

/-- Where a `goto` or a `switch` goes. -/
def target (root : Node) (f : Frame) (p : Path) : Option Path :=
  match root.get p, f.values with
  | some (.stmt (.goto t)), _ => some t
  | some (.stmt (.switchStmt _ cases otherwise _)), .int n :: _ => (cases.lookup n).or otherwise
  | _, _ => none

/-- The branch is entered from outside, other than through its condition. -/
def jumpsInto (root : Node) (b : Path) (f : Frame) (p : Path) : Bool :=
  ¬ b ++ [1] <+: p ∧ (target root f p).any fun t => b ++ [1] <+: t

def isMutation : Node → Bool
  | .expr (.assign _ _ _) | .expr (.crement _ _ _) | .expr (.addressOf _) => true
  | _ => false

/-- What is at the place is no operand of an assignment, an increment or an address-of operator. -/
def lent (root : Node) (p : Path) : Bool :=
  p ≠ [] ∧ (root.get p.dropLast).any fun n => ¬ isMutation n

def accessed (root : Node) (p : Path) : Option Path :=
  match root.get p with
  | some (.expr (.access (.declared d))) => some d
  | _ => none

/-- The flag is bound to a reference, captured or passed by reference, or it is the result of an
lvalue with a comma or a conditional operator. -/
def lendsFlag (root : Node) (b : Path) (lvalue : Bool) (p : Path) : Bool :=
  lvalue ∧ (accessed root (b ++ [0])).isSome ∧ accessed root p = accessed root (b ++ [0]) ∧
    lent root p

/-- The condition is evaluated before the flag has got its initial value. -/
def readsNothing (root : Node) (b : Path) (s : State) (f : Frame) (p : Path) : Bool :=
  p = b ++ [0] ∧ (accessed root p).any fun d => (s.memory (f.locate (.declared d))).isNone

/-- The next step is one that the predicate overlooks. -/
def overlooked (P : Function) (b : Path) (s : State) : Bool :=
  match s.stack with
  | .body f :: _ =>
    match f.control with
    | .apply lvalue p :: _ => f.code = none ∧
      (jumpsInto (P.code none) b f p ∨ lendsFlag (P.code none) b lvalue p ∨
        readsNothing (P.code none) b s f p)
    | _ => false
  | _ => false

/-! ### What is still to be evaluated -/

section Control

/-- The flag of the condition, if it is not constant. -/
def FlagOf (root : Node) (b : Path) (flag : Option Path) : Prop :=
  ∃ c t e, root.get b = some (.stmt (.ifStmt c t e)) ∧
    match flag with
    | none => c.getValue = some 0
    | some d => c = .access (.declared d) ∧ ConstantFlag root d

lemma exists_flagOf {root : Node} {b : Path} (h : ConstantFalse root b) :
    ∃ flag, FlagOf root b flag := by
  obtain ⟨c, t, e, hget, hc | ⟨d, hc, hflag⟩⟩ := h
  · exact ⟨none, c, t, e, hget, hc⟩
  · exact ⟨some d, c, t, e, hget, hc, hflag⟩

def lvalueOf : Item → Bool
  | .eval lvalue _ | .apply lvalue _ => lvalue

variable (root : Node) (b : Path) (flag : Option Path)

/-- The item is in the branch, or mutates the flag. -/
def Bad (x : Item) : Prop :=
  b ++ [1] <+: x.path ∨
    lvalueOf x = true ∧ lent root x.path = false ∧
      ∃ d, flag = some d ∧ root.get x.path = some (.expr (.access (.declared d)))

/-- The condition and the initial value of the flag are zero. -/
def Waits (p : Path) : Prop := p = b ∨ flag = some p

def Calm (control : List Item) : Prop :=
  ∀ x ∈ control, ¬ Bad root b flag x ∧ ∀ lvalue p, x = .apply lvalue p → ¬ Waits b flag p

/-- The operand of the `if` or of the declaration is evaluated at once, to zero. -/
inductive Stage : List Item → List Value → Prop
  | calm {control : List Item} {values : List Value} (h : Calm root b flag control) :
    Stage control values
  | asked {w : Path} {lvalue : Bool} {control : List Item} {values : List Value}
    (h : Calm root b flag control) (hw : Waits b flag w) (hout : ¬ b ++ [1] <+: w) :
    Stage (.eval false (w ++ [0]) :: .apply lvalue w :: control) values
  | asking {w : Path} {lvalue : Bool} {control : List Item} {values : List Value}
    (h : Calm root b flag control) (hw : Waits b flag w) (hout : ¬ b ++ [1] <+: w) :
    Stage (.apply false (w ++ [0]) :: .apply lvalue w :: control) values
  | answered {w : Path} {lvalue : Bool} {control : List Item} {values : List Value}
    (h : Calm root b flag control) (hw : Waits b flag w) (hout : ¬ b ++ [1] <+: w) :
    Stage (.apply lvalue w :: control) (.int 0 :: values)

variable {root b flag} {p t : Path} {n : Node} {x : Item} {control : List Item}
  {values : List Value} {lvalue : Bool} {i : ℕ}

lemma calm_append {control' : List Item} : Calm root b flag (control ++ control') ↔
    Calm root b flag control ∧ Calm root b flag control' := List.forall_mem_append

lemma calm_cons : Calm root b flag (x :: control) ↔
    (¬ Bad root b flag x ∧ ∀ lvalue p, x = .apply lvalue p → ¬ Waits b flag p) ∧
      Calm root b flag control := List.forall_mem_cons

lemma not_bad_value (h : ¬ b ++ [1] <+: p) : ¬ Bad root b flag (.eval false p) := by
  rintro (hin | ⟨hlvalue, -⟩)
  · exact h hin
  · exact Bool.noConfusion hlvalue

lemma calm_value (h : ¬ b ++ [1] <+: p) : Calm root b flag [.eval false p] := by
  simp [Calm, not_bad_value h]

lemma not_in_child (h : ¬ b ++ [1] <+: p) (hi : p = b → i ≠ 1) : ¬ b ++ [1] <+: p ++ [i] := by
  rw [List.prefix_concat_iff, not_or]
  refine ⟨fun heq => ?_, h⟩
  obtain ⟨rfl, h1⟩ := List.append_inj' heq rfl
  exact hi rfl (List.cons.inj h1).1.symm

lemma not_in_self : ¬ b ++ [1] <+: b := fun h => by
  have hlength := h.length_le
  rw [List.length_append, List.length_singleton] at hlength
  omega

lemma exists_operand (h : FlagOf root b flag) (hw : Waits b flag p) :
    ∃ st e, root.get p = some (.stmt st) ∧ (Node.stmt st).operands = [false] ∧
      root.get (p ++ [0]) = some (.expr e) ∧
      (e.getValue = some 0 ∨ p = b ∧ ∃ d, flag = some d ∧ e = .access (.declared d)) := by
  obtain ⟨c, t, e, hb, hc⟩ := h
  rcases hw with rfl | rfl
  · refine ⟨_, c, hb, rfl, by rw [Node.get_child hb]; rfl, ?_⟩
    cases flag with
    | none => exact Or.inl hc
    | some d => exact Or.inr ⟨rfl, d, rfl, hc.1⟩
  · obtain ⟨e₀, hd, he₀⟩ := hc.2.initializer
    exact ⟨_, e₀, hd, rfl, by rw [Node.get_child hd]; rfl, Or.inl he₀⟩

lemma operands_eq_nil {e : Expr} {d : Path}
    (h : e.getValue = some 0 ∨ e = .access (.declared d)) : (Node.expr e).operands = [] := by
  rcases h with h | rfl
  · simp [Node.operands, h]
  · rfl

lemma eq_zero_of_isMutation (h : isMutation n) (hi : n.operands[i]? = some true) : i = 0 := by
  cases n with
  | stmt st => exact Bool.noConfusion h
  | expr e =>
    cases e with
    | assign op a e => rcases i with _ | _ | i <;>
        simp_all [Node.operands, Expr.getValue, Expr.operands]
    | crement step before e => rcases i with _ | i <;>
        simp_all [Node.operands, Expr.getValue, Expr.operands]
    | addressOf e => rcases i with _ | i <;>
        simp_all [Node.operands, Expr.getValue, Expr.operands]
    | _ => exact Bool.noConfusion h

lemma ConstantFlag.first_child {d : Path} (h : ConstantFlag root d) (hget : root.get p = some n)
    (hn : isMutation n) : n.children[0]? ≠ some (.expr (.access (.declared d))) := by
  intro hchild
  cases n with
  | stmt st => exact Bool.noConfusion hn
  | expr e =>
    cases e with
    | assign op a e =>
      obtain rfl : a = .access (.declared d) := by
        simpa [Node.children, Expr.children] using hchild
      exact h.no_assignment p op e hget
    | crement step before e =>
      obtain rfl : e = .access (.declared d) := by
        simpa [Node.children, Expr.children] using hchild
      exact h.no_crement p step before hget
    | addressOf e =>
      obtain rfl : e = .access (.declared d) := by
        simpa [Node.children, Expr.children] using hchild
      exact h.no_addressOf p hget
    | _ => exact Bool.noConfusion hn

lemma lent_child (hget : root.get p = some n) (hn : ¬ isMutation n) :
    lent root (p ++ [i]) = true := by
  simp [lent, hget, hn]

/-- The operands of what is not bad are not bad: those that are evaluated as lvalues belong to a
mutation of something else, or to what is no mutation. -/
lemma not_bad_operand (h : FlagOf root b flag) (hget : root.get p = some n)
    (hp : ¬ b ++ [1] <+: p) (hi : n.operands[i]? = some lvalue) :
    ¬ Bad root b flag (.eval lvalue (p ++ [i])) := by
  rintro (hin | ⟨hlvalue, hlent, d, rfl, haccess⟩)
  · refine not_in_child hp ?_ hin
    rintro rfl rfl
    obtain ⟨c, t, e, hb, -⟩ := h
    obtain rfl : _ = n := Option.some.inj (hb.symm.trans hget)
    simp [Node.operands, Stmt.operands] at hi
  · obtain rfl : lvalue = true := hlvalue
    have hmutation : isMutation n := by
      by_contra hnot
      exact Bool.noConfusion (hlent.symm.trans (lent_child hget hnot))
    obtain rfl := eq_zero_of_isMutation hmutation hi
    obtain ⟨-, -, -, -, -, hflag⟩ := h
    exact hflag.first_child hget hmutation ((Node.get_child hget).symm.trans haccess)

/-! ### Steps of the function -/

lemma stage_of_calm_eval (h : FlagOf root b flag) (hget : root.get p = some n)
    (hcalm : Calm root b flag (.eval lvalue p :: control)) :
    Stage root b flag (n.operands.mapIdx (fun i l => .eval l (p ++ [i])) ++
      .apply lvalue p :: control) values := by
  obtain ⟨⟨hbad, -⟩, hcontrol⟩ := calm_cons.mp hcalm
  have hout : ¬ b ++ [1] <+: p := fun hin => hbad (Or.inl hin)
  by_cases hw : Waits b flag p
  · obtain ⟨st, e, hst, hoperands, -⟩ := exists_operand h hw
    obtain rfl : .stmt st = n := Option.some.inj (hst.symm.trans hget)
    rw [hoperands]
    exact .asked hcontrol hw hout
  · refine .calm (calm_append.mpr ⟨fun x hx => ?_, calm_cons.mpr ⟨⟨hbad, ?_⟩, hcontrol⟩⟩)
    · obtain ⟨i, hi, rfl⟩ := List.mem_mapIdx.mp hx
      exact ⟨not_bad_operand h hget hout (List.getElem?_eq_getElem hi), by simp⟩
    · rintro _ _ ⟨⟩
      exact hw

/-- The items that an operation puts before those of its frame. -/
def itemsOf : Operation → List Item
  | .next items | .enter _ items => items
  | _ => []

lemma mem_items_expr {e : Expr} {locate : Variable → Location} {load : Location → Value}
    {operation : Operation} (h : e.Does lvalue p locate load values operation)
    (hx : x ∈ itemsOf operation) : ∃ i, x = .eval lvalue (p ++ [i]) ∧ ¬ isMutation (.expr e) := by
  cases h with
  | comma a b v => exact ⟨1, List.mem_singleton.mp hx, Bool.false_ne_true⟩
  | conditional c a b v => exact ⟨_, List.mem_singleton.mp hx, Bool.false_ne_true⟩
  | _ => exact absurd hx List.not_mem_nil

lemma mem_items_stmt {st : Stmt} {operation : Operation} (h : st.Does p values operation)
    (hx : x ∈ itemsOf operation) : x = .eval false p ∨ ∃ i, x = .eval false (p ++ [i]) := by
  cases h with
  | block ss =>
    obtain ⟨i, -, rfl⟩ := List.mem_map.mp hx
    exact Or.inr ⟨i, rfl⟩
  | ifStmt c t e v => exact Or.inr ⟨_, List.mem_singleton.mp hx⟩
  | whileTrue c st v =>
    rcases List.mem_cons.mp hx with hx | hx
    · exact Or.inr ⟨1, hx⟩
    · exact Or.inl (List.mem_singleton.mp hx)
  | label st => exact Or.inr ⟨0, List.mem_singleton.mp hx⟩
  | _ => exact absurd hx List.not_mem_nil

/-- The items that an operation leaves are for a statement itself, or for children. -/
lemma mem_items {f : Frame} {load : Location → Value} {operation : Operation}
    (hoperation : n.operation lvalue p f load values = some operation)
    (hx : x ∈ itemsOf operation) :
    x = .eval false p ∨ ∃ i l, x = .eval l (p ++ [i]) ∧ (l = true → ¬ isMutation n) := by
  cases n with
  | stmt st =>
    refine (mem_items_stmt (Stmt.does_of_operation hoperation) hx).imp_right ?_
    rintro ⟨i, hi⟩
    exact ⟨i, false, hi, by simp⟩
  | expr e =>
    simp only [Node.operation] at hoperation
    split at hoperation
    · split_ifs at hoperation
      obtain rfl := Option.some.inj hoperation
      exact absurd hx List.not_mem_nil
    · obtain ⟨i, hi, hmutation⟩ := mem_items_expr (Expr.does_of_operation hoperation) hx
      exact Or.inr ⟨i, lvalue, hi, fun _ => hmutation⟩

lemma calm_items {f : Frame} {load : Location → Value} {operation : Operation}
    (hget : root.get p = some n) (hout : ¬ b ++ [1] <+: p) (hb : p ≠ b)
    (hoperation : n.operation lvalue p f load values = some operation) :
    Calm root b flag (itemsOf operation) := by
  intro x hx
  rcases mem_items hoperation hx with rfl | ⟨i, l, rfl, hl⟩
  · exact ⟨not_bad_value hout, by simp⟩
  · refine ⟨?_, by simp⟩
    rintro (hin | ⟨hlvalue, hlent, -⟩)
    · exact not_in_child hout (fun heq => absurd heq hb) hin
    · exact Bool.noConfusion (hlent.symm.trans (lent_child hget (hl hlvalue)))

lemma calm_after (h : FlagOf root b flag) (hout : ¬ b ++ [1] <+: t) :
    Calm root b flag (root.after [] t) := by
  intro x hx
  obtain ⟨q, q', m, hq, -, hget, rfl, hq'⟩ := Node.mem_after hx
  have hq₀ : ¬ b ++ [1] <+: q := fun hin => hout (hin.trans hq)
  refine ⟨not_bad_value ?_, by simp⟩
  rcases hq' with rfl | ⟨j, ss, rfl, rfl⟩
  · exact hq₀
  · refine not_in_child hq₀ ?_
    rintro rfl
    obtain ⟨c, t', e, hb, -⟩ := h
    exact absurd (hb.symm.trans hget) (by simp)

lemma calm_afterBreak (h : FlagOf root b flag) (hout : ¬ b ++ [1] <+: p) :
    Calm root b flag (root.afterBreak p) := by
  unfold Node.afterBreak
  cases ht : root.breakable [] p with
  | none => exact fun x hx => absurd hx List.not_mem_nil
  | some t =>
    obtain ⟨q, hq, rfl⟩ := Node.breakable_prefix ht
    exact calm_after h fun hin => hout (hin.trans hq)

lemma eq_cons_of_take {f : Frame} {v : Value} (h : (f.values.take 1).reverse = [v]) :
    ∃ values, f.values = v :: values := by
  cases hf : f.values with
  | nil => simp [hf] at h
  | cons w values =>
    obtain rfl : w = v := by simpa [hf] using h
    exact ⟨values, rfl⟩

lemma operation_expr {e : Expr} {f : Frame} {load : Location → Value} {operation : Operation}
    (h : (Node.expr e).operation lvalue p f load values = some operation) :
    (∀ t, operation ≠ .jump t) ∧ ∀ l, operation ≠ .bind l := by
  simp only [Node.operation] at h
  split at h
  · split_ifs at h
    obtain rfl := Option.some.inj h
    simp
  · cases Expr.does_of_operation h <;> simp

lemma stmt_jump {st : Stmt} (h : st.operation p values = some (.jump t)) :
    st = .goto t ∨ ∃ e cases otherwise body n, st = .switchStmt e cases otherwise body ∧
      values = [.int n] ∧ (cases.lookup n).or otherwise = some t := by
  cases Stmt.does_of_operation h with
  | switchCase e cases' otherwise body n t ht =>
    exact Or.inr ⟨e, cases', otherwise, body, n, rfl, rfl, ht⟩
  | goto t => exact Or.inl rfl

lemma target_of_operation {f : Frame} {load : Location → Value} (hget : root.get p = some n)
    (hoperation : n.operation lvalue p f load (f.values.take n.operands.length).reverse =
      some (.jump t)) : target root f p = some t := by
  cases n with
  | expr e => exact absurd rfl ((operation_expr hoperation).1 t)
  | stmt st =>
    rcases stmt_jump hoperation with rfl | ⟨e, cases', otherwise, body, m, rfl, hvalues, ht⟩
    · simp [target, hget]
    · obtain ⟨values, hf⟩ := eq_cons_of_take hvalues
      simpa [target, hget, hf] using ht

lemma bind_of_operation {f : Frame} {load : Location → Value} {l : Location}
    (hoperation : n.operation lvalue p f load values = some (.bind l)) :
    ∃ e, n = .stmt (.bind e) := by
  cases n with
  | expr e => exact absurd rfl ((operation_expr hoperation).2 l)
  | stmt st =>
    cases Stmt.does_of_operation hoperation with
    | bind e l => exact ⟨e, rfl⟩

lemma stage_apply (h : Stage root b flag (.apply lvalue p :: control) values) :
    (Calm root b flag control ∧ ¬ b ++ [1] <+: p ∧
      (¬ Bad root b flag (.apply lvalue p) ∧ ¬ Waits b flag p ∨
        Waits b flag p ∧ ∃ rest, values = .int 0 :: rest)) ∨
    ∃ w l rest, lvalue = false ∧ p = w ++ [0] ∧ control = .apply l w :: rest ∧
      Waits b flag w ∧ Calm root b flag rest ∧ ¬ b ++ [1] <+: w := by
  cases h with
  | calm hcalm =>
    obtain ⟨⟨hbad, hwaits⟩, hcontrol⟩ := calm_cons.mp hcalm
    exact Or.inl ⟨hcontrol, fun hin => hbad (Or.inl hin), Or.inl ⟨hbad, hwaits _ _ rfl⟩⟩
  | asking hcalm hw hout => exact Or.inr ⟨_, _, _, rfl, rfl, rfl, hw, hcalm, hout⟩
  | answered hcalm hw hout => exact Or.inl ⟨hcalm, hout, Or.inr ⟨hw, _, rfl⟩⟩

lemma calm_items_if {f : Frame} {load : Location → Value} {operation : Operation}
    (h : FlagOf root b flag) (hget : root.get b = some n)
    (hoperation : n.operation lvalue b f load [.int 0] = some operation) :
    Calm root b flag (itemsOf operation) := by
  obtain ⟨c, t, e, hb, -⟩ := h
  obtain rfl : _ = n := Option.some.inj (hb.symm.trans hget)
  obtain rfl := Option.some.inj hoperation
  exact calm_value (not_in_child not_in_self (by simp [Value.truthy]))

end Control

/-! ### The stack -/

section Stack

variable (P : Function) (b : Path) (flag : Option Path) (id : ℕ)

/-- Frame `id` is the one of the function, in which the flag is no reference. -/
structure Belongs (f : Frame) : Prop where
  code_iff : f.code = none ↔ f.id = id
  unbound : f.code = none → ∀ d, flag = some d → f.bindings.lookup (.declared d) = none

def Suspended (f : Frame) : Prop :=
  Belongs flag id f ∧ (f.code = none → Calm (P.code none) b flag f.control)

def Active (f : Frame) : Prop :=
  Belongs flag id f ∧ (f.code = none → Stage (P.code none) b flag f.control f.values)

def StackOk : List Activation → Prop
  | [] => True
  | a :: stack => (∀ f, a = .body f → Active P b flag id f) ∧
      ∀ f, .body f ∈ stack → Suspended P b flag id f

variable {P b flag id} {f g : Frame} {stack : List Activation} {s : State} {operation : Operation}
  {p : Path} {control : List Item} {values : List Value} {v : Value} {lvalue : Bool}

lemma Suspended.active (h : Suspended P b flag id f) : Active P b flag id f :=
  ⟨h.1, fun hcode => .calm (h.2 hcode)⟩

lemma stackOk_body (hf : Active P b flag id f)
    (h : ∀ f, .body f ∈ stack → Suspended P b flag id f) :
    StackOk P b flag id (.body f :: stack) :=
  ⟨fun _ heq => Activation.body.inj heq ▸ hf, h⟩

lemma Suspended.cons (hf : Suspended P b flag id f)
    (h : ∀ f, .body f ∈ stack → Suspended P b flag id f) :
    ∀ g, .body g ∈ .body f :: stack → Suspended P b flag id g := by
  intro g hg
  rcases List.mem_cons.mp hg with heq | hmem
  · exact Activation.body.inj heq ▸ hf
  · exact h g hmem

lemma stackOk_deliver (h : ∀ f, .body f ∈ stack → Suspended P b flag id f) :
    StackOk P b flag id (deliver v stack) := by
  match stack, h with
  | [], _ => trivial
  | .external :: stack, h => exact ⟨by simp, fun f hf => h f (List.mem_cons_of_mem _ hf)⟩
  | .body f :: stack, h =>
    obtain ⟨hf, hcalm⟩ := h f List.mem_cons_self
    exact stackOk_body ⟨⟨hf.code_iff, hf.unbound⟩, fun hcode => .calm (hcalm hcode)⟩
      fun g hg => h g (List.mem_cons_of_mem _ hg)

lemma stackOk_perform (hf : Suspended P b flag id f)
    (hstack : ∀ f, .body f ∈ stack → Suspended P b flag id f) (hfresh : id < s.fresh)
    (hitems : f.code = none → Calm (P.code none) b flag (itemsOf operation))
    (hjump : f.code = none → ∀ t, operation = .jump t →
      Calm (P.code none) b flag (.eval false t :: (P.code none).after [] t))
    (hleave : f.code = none → operation = .leave →
      Calm (P.code none) b flag ((P.code none).afterBreak p))
    (hbind : f.code = none → ∀ l, operation = .bind l → flag ≠ some p) :
    StackOk P b flag id (operation.perform P s stack f p).stack := by
  have hpush : ∀ values control, (f.code = none → Calm (P.code none) b flag control) →
      Suspended P b flag id { f with control := control, values := values } :=
    fun values control hcontrol => ⟨⟨hf.1.code_iff, hf.1.unbound⟩, hcontrol⟩
  have hnew : ∀ code bindings control,
      Suspended P b flag id ⟨some code, s.fresh, bindings, control, []⟩ :=
    fun code bindings control => ⟨⟨by simp [Nat.ne_of_gt hfresh], by simp⟩, by simp⟩
  have hitems' : f.code = none → Calm (P.code none) b flag (itemsOf operation ++ f.control) :=
    fun hcode => calm_append.mpr ⟨hitems hcode, hf.2 hcode⟩
  cases operation with
  | push v => exact stackOk_body (hpush _ _ hf.2).active hstack
  | next items => exact stackOk_body (hpush _ _ hitems').active hstack
  | enter q items => exact stackOk_body (hpush _ _ hitems').active hstack
  | jump t =>
    refine stackOk_body (hpush _ _ fun hcode => ?_).active hstack
    rw [hcode]
    exact hjump hcode t rfl
  | leave =>
    refine stackOk_body (hpush _ _ fun hcode => ?_).active hstack
    rw [hcode]
    exact hleave hcode rfl
  | start v => exact stackOk_body hf.active hstack
  | write l v result => exact stackOk_body (hpush _ _ hf.2).active hstack
  | bind l =>
    refine stackOk_body ⟨⟨hf.1.code_iff, fun hcode d hd => ?_⟩, fun hcode => .calm (hf.2 hcode)⟩
      hstack
    -- a reference is bound at a declaration other than that of the flag
    have hne : (Variable.declared d == Variable.declared p) = false := by
      rw [beq_eq_false_iff_ne]
      rintro ⟨⟩
      exact hbind hcode l rfl hd
    rw [List.lookup_cons, hne]
    exact hf.1.unbound hcode d hd
  | capture body arguments => exact stackOk_body (hpush _ _ hf.2).active hstack
  | call arguments => exact ⟨by simp, hf.cons hstack⟩
  | invoke body captures arguments =>
    exact stackOk_body (hnew _ _ _).active (hf.cons hstack)
  | finish v => exact stackOk_deliver hstack

lemma seen_of_frame (hs : s.stack = .body f :: stack) (hcode : f.code = none)
    (hcontrol : f.control = .apply lvalue p :: control) (hseen : overlooked P b s = false) :
    jumpsInto (P.code none) b f p = false ∧ lendsFlag (P.code none) b lvalue p = false ∧
      readsNothing (P.code none) b s f p = false := by
  simpa [overlooked, hs, hcode, hcontrol] using hseen

lemma Belongs.locate (h : Belongs flag id f) (hcode : f.code = none) {d : Path}
    (hd : flag = some d) : f.locate (.declared d) = .automatic id (.declared d) := by
  rw [Frame.locate, h.unbound hcode d hd, h.code_iff.mp hcode]
  rfl

variable {s' : State} {n : Node}

lemma accessed_condition {root : Node} {d : Path} (h : FlagOf root b (some d)) :
    root.get (b ++ [0]) = some (.expr (.access (.declared d))) ∧
      accessed root (b ++ [0]) = some d := by
  obtain ⟨c, t, e, hb, rfl, -⟩ := h
  have hget : root.get (b ++ [0]) = some (.expr (.access (.declared d))) := by
    rw [Node.get_child hb]
    rfl
  exact ⟨hget, by simp [accessed, hget]⟩

/-- The operand of the `if` or of the declaration is zero. -/
lemma operation_operand (h : FlagOf (P.code none) b flag) (hs : s.stack = .body f :: stack)
    (hcode : f.code = none) (hseen : overlooked P b s = false) (hf : Belongs flag id f)
    (hzero : ∀ d, flag = some d → s.memory (.automatic id (.declared d)) = none ∨
      s.memory (.automatic id (.declared d)) = some (.int 0))
    {w : Path} {m : ℤ} (hw : Waits b flag w)
    (hcontrol : f.control = .apply false (w ++ [0]) :: control)
    (hget : (P.code none).get (w ++ [0]) = some n)
    (hoperation : n.operation false (w ++ [0]) f (s.memory.load m)
      (f.values.take n.operands.length).reverse = some operation) :
    n.operands = [] ∧ operation = .push (.int 0) := by
  obtain ⟨st, e, -, -, he, hvalue⟩ := exists_operand h hw
  obtain rfl : .expr e = n := Option.some.inj (he.symm.trans hget)
  rcases hvalue with hvalue | ⟨rfl, d, hd, rfl⟩
  · have hoperands := operands_eq_nil (d := []) (Or.inl hvalue)
    simp only [Node.operation, hvalue] at hoperation
    exact ⟨hoperands, (Option.some.inj hoperation).symm⟩
  · subst hd
    have hread := (seen_of_frame hs hcode hcontrol hseen).2.2
    have hlocate := hf.locate hcode rfl
    have hvalue : s.memory (.automatic id (.declared d)) = some (.int 0) := by
      refine (hzero d rfl).resolve_left fun hnone => ?_
      simp [readsNothing, (accessed_condition h).2, hlocate, hnone] at hread
    refine ⟨rfl, (Option.some.inj (Eq.symm ?_ : some operation = _))⟩
    rw [← hoperation]
    simp [Node.operation, Expr.getValue, Node.operands, Expr.operands, Expr.operation, valueAt,
      Memory.load, hlocate, hvalue]

lemma stackOk_apply (h : FlagOf (P.code none) b flag) (hs : s.stack = .body f :: stack)
    (hstack : ∀ f, .body f ∈ stack → Suspended P b flag id f) (hf : Active P b flag id f)
    (hfresh : id < s.fresh) (hseen : overlooked P b s = false)
    (hzero : ∀ d, flag = some d → s.memory (.automatic id (.declared d)) = none ∨
      s.memory (.automatic id (.declared d)) = some (.int 0))
    (hcontrol : f.control = .apply lvalue p :: control)
    (hget : (P.code f.code).get p = some n) {m : ℤ}
    (hoperation : n.operation lvalue p f (s.memory.load m)
      (f.values.take n.operands.length).reverse = some operation) :
    StackOk P b flag id (operation.perform P s stack
      { f with control := control, values := f.values.drop n.operands.length } p).stack := by
  by_cases hcode : f.code = none
  · rw [hcode] at hget
    have hstage := hf.2 hcode
    rw [hcontrol] at hstage
    rcases stage_apply hstage with
      ⟨hcalm, hout, hwaits⟩ | ⟨w, l, rest, rfl, rfl, rfl, hw, hcalm, hout⟩
    · refine stackOk_perform ⟨⟨hf.1.code_iff, hf.1.unbound⟩, fun _ => hcalm⟩ hstack hfresh
        (fun _ => ?_) (fun _ t ht => ?_) (fun _ _ => calm_afterBreak h hout) (fun _ l hl hd => ?_)
      · -- the `if` goes to the other branch, and elsewhere nothing leads into it
        by_cases hb : p = b
        · obtain ⟨hw, values, hvalues⟩ := hwaits.resolve_left fun hnot => hnot.2 (Or.inl hb)
          obtain ⟨st, e, hst, hoperands, -⟩ := exists_operand h hw
          obtain rfl : .stmt st = n := Option.some.inj (hst.symm.trans hget)
          rw [hoperands, hvalues] at hoperation
          subst hb
          exact calm_items_if h hget hoperation
        · exact calm_items hget hout hb hoperation
      · -- the step would be overlooked if the jump went into the branch
        have htarget := target_of_operation hget (ht ▸ hoperation)
        have houtside : ¬ b ++ [1] <+: t := by
          simpa [jumpsInto, hout, htarget] using (seen_of_frame hs hcode hcontrol hseen).1
        exact calm_cons.mpr ⟨⟨not_bad_value houtside, by simp⟩, calm_after h houtside⟩
      · obtain ⟨e, rfl⟩ := bind_of_operation (hl ▸ hoperation)
        subst hd
        obtain ⟨c, t, e', hb, hflag⟩ := h
        obtain ⟨e₀, he₀, -⟩ := hflag.2.initializer
        exact absurd (he₀.symm.trans hget) (by simp)
    · obtain ⟨hoperands, rfl⟩ :=
        operation_operand h hs hcode hseen hf.1 hzero hw hcontrol hget hoperation
      rw [hoperands]
      exact stackOk_body ⟨⟨hf.1.code_iff, hf.1.unbound⟩, fun _ => .answered hcalm hw hout⟩ hstack
  · exact stackOk_perform ⟨⟨hf.1.code_iff, hf.1.unbound⟩, fun hnone => absurd hnone hcode⟩ hstack
      hfresh (fun hnone => absurd hnone hcode) (fun hnone => absurd hnone hcode)
      (fun hnone => absurd hnone hcode) (fun hnone => absurd hnone hcode)

lemma stackOk_step (h : FlagOf (P.code none) b flag) (hstep : Step P s s')
    (hok : StackOk P b flag id s.stack) (hfresh : id < s.fresh) (hseen : overlooked P b s = false)
    (hzero : ∀ d, flag = some d → s.memory (.automatic id (.declared d)) = none ∨
      s.memory (.automatic id (.declared d)) = some (.int 0)) :
    StackOk P b flag id s'.stack := by
  cases hstep with
  | finish hs hcontrol =>
    rw [hs] at hok
    exact stackOk_deliver hok.2
  | @eval f stack lvalue p control node hs hcontrol hget =>
    rw [hs] at hok
    have hf := hok.1 f rfl
    refine stackOk_body ⟨⟨hf.1.code_iff, hf.1.unbound⟩, fun hcode => ?_⟩ hok.2
    have hcode : f.code = none := hcode
    have hstage := hf.2 hcode
    rw [hcode] at hget
    rw [hcontrol] at hstage
    cases hstage with
    | calm hcalm => exact stage_of_calm_eval h hget hcalm
    | asked hcalm hw hout =>
      obtain ⟨st, e, -, -, he, hvalue⟩ := exists_operand h hw
      obtain rfl : .expr e = node := Option.some.inj (he.symm.trans hget)
      have hoperands : (Node.expr e).operands = [] := by
        rcases hvalue with hvalue | ⟨-, d, -, hvalue⟩
        · exact operands_eq_nil (d := []) (Or.inl hvalue)
        · exact operands_eq_nil (Or.inr hvalue)
      rw [hoperands]
      exact .asking hcalm hw hout
  | @apply f stack lvalue p control node n operation hs hcontrol hget hoperation =>
    rw [hs] at hok
    exact stackOk_apply h hs hok.2 (hok.1 f rfl) hfresh hseen hzero hcontrol hget hoperation
  | learn hs hl => exact hok
  | write hs hl hv => exact hok
  | resume hs hv =>
    rw [hs] at hok
    exact stackOk_deliver hok.2

end Stack

/-! ### Runs -/

section Runs

variable {P : Function} {b call : Path} {flag : Option Path} {id : ℕ} {s s' : State}

/-- The flag is zero if it has a value, and nothing points to it. -/
structure Invariant (P : Function) (b : Path) (flag : Option Path) (id : ℕ) (s : State) : Prop where
  stack : StackOk P b flag id s.stack
  fresh : id < s.fresh
  hidden : ∀ d, flag = some d → Hidden (.automatic id (.declared d)) s
  zero : ∀ d, flag = some d → s.memory (.automatic id (.declared d)) = none ∨
    s.memory (.automatic id (.declared d)) = some (.int 0)

lemma eq_of_locate {f : Frame} {x v : Variable} (hf : Belongs flag id f)
    (hhides : f.Hides (.automatic id v)) (h : f.locate x = .automatic id v) :
    f.code = none ∧ x = v := by
  unfold Frame.locate at h
  cases hx : f.bindings.lookup x with
  | some l =>
    obtain ⟨l₁, l₂, hl, -⟩ := List.lookup_eq_some_iff.mp hx
    rw [hx] at h
    exact absurd h (hhides.bindings (x, l) (by simp [hl]))
  | none =>
    rw [hx] at h
    obtain ⟨hid, hv⟩ := Location.automatic.inj h
    exact ⟨hf.code_iff.mpr hid, hv⟩

namespace Invariant

variable {f : Frame} {stack : List Activation} {d : Path}

lemma active (h : Invariant P b flag id s) (hs : s.stack = .body f :: stack) :
    Active P b flag id f := by
  have hok := h.stack
  rw [hs] at hok
  exact hok.1 f rfl

/-- The flag is never taken as an lvalue: no mutation of it is evaluated, and lending it would be
overlooked. -/
lemma not_takes (h : Invariant P b flag id s) (hflag : FlagOf (P.code none) b flag)
    (hseen : overlooked P b s = false) (hd : flag = some d) (hs : s.stack = .body f :: stack) :
    ¬ f.Takes P (.automatic id (.declared d)) := by
  rintro ⟨p, control, x, hcontrol, hget, hlocate⟩
  obtain ⟨hf, hstage⟩ := h.active hs
  have hhides := (h.hidden d hd).frames f (hs ▸ List.mem_cons_self)
  obtain ⟨hcode, rfl⟩ := eq_of_locate hf hhides hlocate
  have hstage := hstage hcode
  rw [hcode] at hget
  rw [hcontrol] at hstage
  rcases stage_apply hstage with ⟨-, -, ⟨hbad, -⟩ | ⟨hw, -⟩⟩ | ⟨w, l, rest, hlvalue, -⟩
  · have hlent : lent (P.code none) p = true := by
      by_contra hnot
      exact hbad (Or.inr ⟨rfl, Bool.eq_false_iff.mpr hnot, d, hd, hget⟩)
    subst hd
    have haccessed : accessed (P.code none) p = some d := by simp [accessed, hget]
    have hlends := (seen_of_frame hs hcode hcontrol hseen).2.1
    simp [lendsFlag, (accessed_condition hflag).2, haccessed, hlent] at hlends
  · obtain ⟨st, e, hst, -⟩ := exists_operand hflag hw
    exact absurd (hst.symm.trans hget) (by simp)
  · exact absurd hlvalue (by simp)

lemma starts_zero (h : Invariant P b flag id s) (hflag : FlagOf (P.code none) b flag)
    (hd : flag = some d) (hs : s.stack = .body f :: stack) {v : Value}
    (hstarts : f.Starts P (.automatic id (.declared d)) v) : v = .int 0 := by
  obtain ⟨lvalue, p, control, node, load, hcontrol, hlocation, hget, hoperation⟩ := hstarts
  obtain ⟨hf, hstage⟩ := h.active hs
  obtain ⟨hid, hp⟩ := Location.automatic.inj hlocation
  obtain rfl := Variable.declared.inj hp
  have hcode := hf.code_iff.mpr hid.symm
  have hstage := hstage hcode
  rw [hcode] at hget
  rw [hcontrol] at hstage
  obtain ⟨st, e, hst, hoperands, -⟩ := exists_operand hflag (p := d) (Or.inr hd)
  obtain rfl : .stmt st = node := Option.some.inj (hst.symm.trans hget)
  rcases stage_apply hstage with
    ⟨-, -, ⟨-, hnot⟩ | ⟨-, rest, hvalues⟩⟩ | ⟨w, l, rest, -, rfl, -, hw, -⟩
  · exact absurd (Or.inr hd) hnot
  · obtain ⟨c, t, e', -, hc⟩ := hflag
    subst hd
    obtain ⟨e₀, he₀, -⟩ := hc.2.initializer
    obtain rfl : st = .declare false (some e₀) := by simpa using hst.symm.trans he₀
    rw [hoperands, hvalues] at hoperation
    exact (Operation.start.inj (Option.some.inj hoperation)).symm
  · obtain ⟨-, e, -, -, he, -⟩ := exists_operand hflag hw
    exact absurd (hst.symm.trans he) (by simp)

/-- **A step that is not overlooked keeps the invariant.** -/
lemma step (h : Invariant P b flag id s) (hflag : FlagOf (P.code none) b flag)
    (hseen : overlooked P b s = false) (hstep : Step P s s') : Invariant P b flag id s' := by
  have hne : ∀ v x, Location.automatic id v ≠ .automatic s.fresh x := by
    intro v x heq
    exact Nat.ne_of_lt h.fresh (Location.automatic.inj heq).1
  refine ⟨stackOk_step hflag hstep h.stack h.fresh hseen h.zero, ?_, fun d hd => ?_, fun d hd => ?_⟩
  · exact Nat.lt_of_lt_of_le h.fresh hstep.fresh_le
  · exact (h.hidden d hd).step hstep (hne _) fun f stack hs => h.not_takes hflag hseen hd hs
  · rcases (h.hidden d hd).memory_step hstep (hne _)
        fun f stack hs => h.not_takes hflag hseen hd hs with
      heq | heq | ⟨f, stack, v, hs, hstarts, heq⟩
    · rw [heq]
      exact h.zero d hd
    · exact Or.inl heq
    · rw [heq, h.starts_zero hflag hd hs hstarts]
      exact Or.inr rfl

lemma not_atCall (h : Invariant P b flag id s) (hcall : b ++ [1] <+: call) : ¬ AtCall s call := by
  have hnext : ∀ lvalue, nextItem s ≠ some (.eval lvalue call) := by
    intro lvalue heq
    unfold nextItem at heq
    split at heq
    case h_2 => simp at heq
    case h_1 f stack hs =>
      split_ifs at heq with hcode
      obtain ⟨hf, hstage⟩ := h.active hs
      obtain ⟨control, hcontrol⟩ := List.head?_eq_some_iff.mp heq
      have hstage := hstage hcode
      rw [hcontrol] at hstage
      cases hstage with
      | calm hcalm => exact (hcalm _ List.mem_cons_self).1 (Or.inl hcall)
      | asked hcalm hw hout => exact not_in_child hout (by simp) hcall
  exact fun hat => hat.elim (hnext false) (hnext true)

end Invariant

lemma invariant_of_entered (hflag : FlagOf (P.code none) b flag) (h : Entered P s) :
    ∃ id, Invariant P b flag id s := by
  obtain ⟨id, bindings, hs, hfresh, hautomatic⟩ := h
  have hd : ∀ d, flag = some d → ∃ e, (P.code none).get d = some (.stmt (.declare false e)) := by
    rintro d rfl
    obtain ⟨c, t, e, -, -, hconstant⟩ := hflag
    obtain ⟨e₀, he₀, -⟩ := hconstant.initializer
    exact ⟨_, he₀⟩
  refine ⟨id, ⟨?_, hfresh, fun d hflag => ?_, fun d hflag => ?_⟩⟩
  · rw [hs]
    refine stackOk_body ⟨⟨by simp, fun _ d hflag => ?_⟩, fun _ => .calm ?_⟩ (by simp)
    · obtain ⟨e, he⟩ := hd d hflag
      exact (hautomatic d e he).1
    · exact calm_value (by simp)
  · obtain ⟨e, he⟩ := hd d hflag
    exact (hautomatic d e he).2.2
  · obtain ⟨e, he⟩ := hd d hflag
    exact Or.inl (hautomatic d e he).2.1

/-- **In a run without an overlooked step a call in the branch is not reached.** -/
theorem call_not_reached {P : Function} {b call : Path} {s s' : State}
    (hb : ConstantFalse (P.code none) b) (hcall : b ++ [1] <+: call) (hentered : Entered P s)
    (hrun : Reaches P (fun s => overlooked P b s = false) s s') : ¬ AtCall s' call := by
  obtain ⟨flag, hflag⟩ := exists_flagOf hb
  obtain ⟨id, hinvariant⟩ := invariant_of_entered hflag hentered
  have hs' : Invariant P b flag id s' := by
    induction hrun with
    | refl => exact hinvariant
    | tail _ hstep ih =>
      obtain ⟨hseen, choice, hstep⟩ := hstep
      exact ih.step hflag hseen (step_cases hstep)
  exact hs'.not_atCall hcall

end Runs

/-! ### Programs -/

section Programs

/-- The test holds of all nodes of a tree whose depth is less than `k`. -/
def allNodes (test : Node → Bool) : ℕ → Node → Bool
  | 0, _ => false
  | k + 1, n => test n && n.children.all (allNodes test k)

lemma test_of_allNodes {test : Node → Bool} {k : ℕ} {n m : Node} {p : Path}
    (h : allNodes test k n = true) (hget : n.get p = some m) : test m = true := by
  induction p generalizing n k with
  | nil =>
    obtain rfl : n = m := Option.some.inj hget
    cases k with
    | zero => exact Bool.noConfusion h
    | succ k => exact (Bool.and_eq_true_iff.mp h).1
  | cons i p ih =>
    cases k with
    | zero => exact Bool.noConfusion h
    | succ k =>
      obtain ⟨child, hchild, hget⟩ := Option.bind_eq_some_iff.mp hget
      have hall := List.all_eq_true.mp (Bool.and_eq_true_iff.mp h).2
      exact ih (hall child (List.mem_of_getElem? hchild)) hget

def mutates (d : Path) : Node → Bool
  | .expr (.assign _ (.access (.declared d')) _) | .expr (.crement _ _ (.access (.declared d')))
  | .expr (.addressOf (.access (.declared d'))) => d' = d
  | _ => false

lemma constantFlag_of_allNodes {root : Node} {d : Path} {e : Expr} {k : ℕ}
    (hget : root.get d = some (.stmt (.declare false (some e)))) (he : e.getValue = some 0)
    (h : allNodes (fun n => !mutates d n) k root = true) : ConstantFlag root d where
  initializer := ⟨e, hget, he⟩
  no_assignment p op e hp := by simpa [mutates] using test_of_allNodes h hp
  no_crement p step before hp := by simpa [mutates] using test_of_allNodes h hp
  no_addressOf p hp := by simpa [mutates] using test_of_allNodes h hp

/-- The state after such steps, all of them from states with `ok`. -/
def run (P : Function) (ok : State → Bool) : List Choice → State → Option State
  | [], s => some s
  | choice :: choices, s => if ok s then (step P choice s).bind (run P ok choices) else none

lemma reaches_of_run {P : Function} {ok : State → Bool} {choices : List Choice} {s s' : State}
    (h : run P ok choices s = some s') : Reaches P (fun s => ok s = true) s s' := by
  induction choices generalizing s with
  | nil => exact Option.some.inj h ▸ .refl
  | cons choice choices ih =>
    rw [run] at h
    split_ifs at h with hok
    obtain ⟨s₁, hstep, hrun⟩ := Option.bind_eq_some_iff.mp h
    exact (Relation.ReflTransGen.single ⟨hok, choice, hstep⟩).trans (ih hrun)

def entry : State where
  memory := fun _ => none
  known := []
  stack := [.body ⟨none, 0, [], [.eval false []], []⟩]
  fresh := 1

lemma entered_entry (P : Function) : Entered P entry :=
  ⟨0, [], rfl, Nat.zero_lt_one, fun d e _ => ⟨rfl, rfl,
    { memory := by simp [entry]
      known := List.not_mem_nil
      frames := fun f hf => by
        obtain rfl := Activation.body.inj (List.mem_singleton.mp hf)
        exact ⟨by simp, by simp⟩ }⟩⟩

/-- `BOOLEAN b = FALSE; if (b) { f(); }` -/
def deadCall : Function where
  body := .block [.declare false (some (.literal 0)),
    .ifStmt (.access (.declared [0])) (.block [.expr (.call [])]) (.block [])]
  lambdas := fun _ => .block []

/-- The function is executed to its end. -/
theorem deadCall_not_reached : ∃ s', run deadCall (fun s => !overlooked deadCall [1] s)
    (List.replicate 13 (.go 0)) entry = some s' ∧ ¬ AtCall s' [1, 1, 0, 0] := by
  have hflag : ConstantFlag (deadCall.code none) [0] :=
    constantFlag_of_allNodes (k := 9) rfl rfl rfl
  have hsome : (run deadCall (fun s => !overlooked deadCall [1] s)
      (List.replicate 13 (.go 0)) entry).isSome = true := by decide
  obtain ⟨s', hs'⟩ := Option.isSome_iff_exists.mp hsome
  refine ⟨s', hs', call_not_reached (b := [1]) ⟨_, _, _, rfl, Or.inr ⟨_, rfl, hflag⟩⟩ (by decide)
    (entered_entry deadCall) ?_⟩
  exact (reaches_of_run hs').mono fun s hok => by simpa using hok

lemma not_sound {P : Function} {call : Path} {choices : List Choice}
    (hcall : IsInConstantFalseBranch (P.code none) call)
    (hrun : (run P (fun _ => true) choices entry).any (fun s => AtCall s call) = true) :
    ¬ Sound P := by
  intro hsound
  obtain ⟨s', hs', hat⟩ := (Option.any_eq_true _ _).mp hrun
  have hreaches : Reaches P (fun _ => True) entry s' :=
    (reaches_of_run hs').mono fun _ _ => trivial
  exact hsound call hcall entry s' (entered_entry P) hreaches (of_decide_eq_true hat)

/-- `BOOLEAN b = FALSE; BOOLEAN &r = b; r = TRUE; if (b) { f(); }` -/
def boundFlag : Function where
  body := .block [.declare false (some (.literal 0)), .bind (.access (.declared [0])),
    .expr (.assign none (.access (.declared [1])) (.literal 1)),
    .ifStmt (.access (.declared [0])) (.block [.expr (.call [])]) (.block [])]
  lambdas := fun _ => .block []

/-- `goto L; if (0) { L: f(); }` -/
def jumpedInto : Function where
  body := .block [.goto [1, 1, 0],
    .ifStmt (.literal 0) (.block [.label (.expr (.call []))]) (.block [])]
  lambdas := fun _ => .block []

/-- `goto L; BOOLEAN b = FALSE; L: if (b) { f(); }` -/
def jumpedOver : Function where
  body := .block [.goto [2], .declare false (some (.literal 0)),
    .label (.ifStmt (.access (.declared [1])) (.block [.expr (.call [])]) (.block []))]
  lambdas := fun _ => .block []

/-- The call is reached through a reference, a jump into the branch, and a jump over the initial
value. -/
theorem overlooked_reached : ¬ Sound boundFlag ∧ ¬ Sound jumpedInto ∧ ¬ Sound jumpedOver := by
  refine ⟨?_, ?_, ?_⟩
  · have hflag : ConstantFlag (boundFlag.code none) [0] :=
      constantFlag_of_allNodes (k := 9) rfl rfl rfl
    have hcall : IsInConstantFalseBranch (boundFlag.code none) [3, 1, 0, 0] :=
      ⟨⟨_, rfl, trivial⟩, [3], by decide, _, _, _, rfl, Or.inr ⟨_, rfl, hflag⟩⟩
    have hrun : (run boundFlag (fun _ => true) (List.replicate 25 (.go 0)) entry).any
        (fun s => AtCall s [3, 1, 0, 0]) = true := by decide
    exact not_sound hcall hrun
  · have hcall : IsInConstantFalseBranch (jumpedInto.code none) [1, 1, 0, 0, 0] :=
      ⟨⟨_, rfl, trivial⟩, [1], by decide, _, _, _, rfl, Or.inl rfl⟩
    have hrun : (run jumpedInto (fun _ => true) (List.replicate 7 (.go 0)) entry).any
        (fun s => AtCall s [1, 1, 0, 0, 0]) = true := by decide
    exact not_sound hcall hrun
  · have hflag : ConstantFlag (jumpedOver.code none) [1] :=
      constantFlag_of_allNodes (k := 9) rfl rfl rfl
    have hcall : IsInConstantFalseBranch (jumpedOver.code none) [2, 0, 1, 0, 0] :=
      ⟨⟨_, rfl, trivial⟩, [2, 0], by decide, _, _, _, rfl, Or.inr ⟨_, rfl, hflag⟩⟩
    -- the indeterminate value is read as one
    have hrun : (run jumpedOver (fun _ => true) (List.replicate 13 (.go 1)) entry).any
        (fun s => AtCall s [2, 0, 1, 0, 0]) = true := by decide
    exact not_sound hcall hrun

end Programs

end DriverQueries.FalseBranch
