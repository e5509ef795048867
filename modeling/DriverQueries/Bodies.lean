import Mathlib.Data.Int.Notation
import Mathlib.Data.List.Basic
import Mathlib.Logic.Function.Basic
import Mathlib.Logic.Relation

/-!
Bodies of functions and their executions.

A body is a tree of statements and expressions. A place in it is a path from the root; a local
variable is known by the place of its declaration, and a jump by the place it goes to. A frame has
a list of places that it still has to evaluate, and a jump puts there what follows its target.
Functions whose code is not here read and write what they have been given a pointer to.
-/

namespace DriverQueries.Bodies

/-! ### Values -/

abbrev Path := List ℕ

inductive Variable
  | declared (p : Path)
  | parameter (n : ℕ)
  | captured (n : ℕ)
  | global (n : ℕ)
  deriving DecidableEq

/-- A variable of a frame, or memory that is not part of a frame. -/
inductive Location
  | automatic (frame : ℕ) (v : Variable)
  | elsewhere (n : ℕ)
  deriving DecidableEq

inductive Value
  | int (n : ℤ)
  | pointer (l : Location)
  | closure (body : ℕ) (captures : List (Variable × Location))
  deriving DecidableEq

/-! ### Syntax -/

/-- Arguments and captured variables are marked if they are passed by reference. An operator is
taken with the conversion of its result. -/
inductive Expr
  | literal (value : ℤ)
  | access (v : Variable)
  | deref (e : Expr)
  | addressOf (operand : Expr)
  | assign (op : Option (Value → Value → ℤ)) (lvalue rvalue : Expr)
  | crement (step : ℤ) (before : Bool) (operand : Expr)
  | binary (op : Value → Value → ℤ) (a b : Expr)
  | comma (a b : Expr)
  | conditional (c a b : Expr)
  | call (arguments : List (Bool × Expr))
  | invoke (closure : Expr) (arguments : List (Bool × Expr))
  | lambda (body : ℕ) (captures : List (Bool × Expr))

/-- `bind` declares a reference. The cases of a switch are labels in its body. -/
inductive Stmt
  | expr (e : Expr)
  | declare (isStatic : Bool) (initializer : Option Expr)
  | bind (lvalue : Expr)
  | block (ss : List Stmt)
  | ifStmt (condition : Expr) (t e : Stmt)
  | whileStmt (condition : Expr) (s : Stmt)
  | switchStmt (e : Expr) (cases : List (ℤ × Path)) (otherwise : Option Path) (s : Stmt)
  | label (s : Stmt)
  | goto (target : Path)
  | breakStmt
  | returnStmt (e : Option Expr)

inductive Node
  | expr (e : Expr)
  | stmt (s : Stmt)

def Expr.children : Expr → List Expr
  | literal _ | access _ => []
  | deref e | addressOf e | crement _ _ e => [e]
  | assign _ a b | binary _ a b | comma a b => [a, b]
  | conditional c a b => [c, a, b]
  | call arguments => arguments.map Prod.snd
  | invoke closure arguments => closure :: arguments.map Prod.snd
  | lambda _ captures => captures.map Prod.snd

def Stmt.children : Stmt → List Node
  | expr e | bind e => [.expr e]
  | declare _ initializer => initializer.toList.map .expr
  | block ss => ss.map .stmt
  | ifStmt c t e => [.expr c, .stmt t, .stmt e]
  | whileStmt c s => [.expr c, .stmt s]
  | switchStmt e _ _ s => [.expr e, .stmt s]
  | label s => [.stmt s]
  | goto _ | breakStmt => []
  | returnStmt e => e.toList.map .expr

namespace Node

def children : Node → List Node
  | expr e => e.children.map expr
  | stmt s => s.children

def get : Node → Path → Option Node
  | n, [] => some n
  | n, i :: p => n.children[i]?.bind fun m => m.get p

end Node

/-- The value of a constant. -/
def Expr.getValue : Expr → Option ℤ
  | literal value => some value
  | binary op a b => a.getValue.bind fun m => b.getValue.map fun n => op (.int m) (.int n)
  | _ => none

def Node.getValue : Node → Option ℤ
  | expr e => e.getValue
  | stmt _ => none

/-! ### States -/

/-- Nothing is stored where the value is indeterminate. -/
abbrev Memory := Location → Option Value

/-- A node to be evaluated, as an lvalue or not, or whose operands are evaluated. -/
inductive Item
  | eval (lvalue : Bool) (p : Path)
  | apply (lvalue : Bool) (p : Path)
  deriving DecidableEq

def Item.path : Item → Path
  | eval _ p | apply _ p => p

/-- An execution of the function (`none`) or of the body of a lambda. References, and variables
with a place of their own elsewhere, are bound to it. -/
structure Frame where
  code : Option ℕ
  id : ℕ
  bindings : List (Variable × Location)
  control : List Item
  values : List Value

inductive Activation
  | body (f : Frame)
  | external

/-- `known` are the variables that code elsewhere has a pointer to. -/
structure State where
  memory : Memory
  known : List Location
  stack : List Activation
  fresh : ℕ

/-- A function and the bodies of its lambdas. -/
structure Function where
  body : Stmt
  lambdas : ℕ → Stmt

def Function.code (P : Function) : Option ℕ → Node
  | none => .stmt P.body
  | some n => .stmt (P.lambdas n)

def Value.locations : Value → List Location
  | int _ => []
  | pointer l => [l]
  | closure _ captures => captures.map Prod.snd

def Value.truthy : Value → Bool
  | int n => n ≠ 0
  | _ => true

def Frame.locate (f : Frame) (v : Variable) : Location :=
  (f.bindings.lookup v).getD (.automatic f.id v)

/-- An indeterminate value is read as any number `n`. -/
def Memory.load (memory : Memory) (n : ℤ) (l : Location) : Value := (memory l).getD (.int n)

/-- The variables that are declared directly in such blocks have no value. -/
def Memory.forget (memory : Memory) (id : ℕ) (scope : Path → Bool) : Memory
  | .automatic frame (.declared d) =>
    if frame = id ∧ d ≠ [] ∧ scope d.dropLast then none else memory (.automatic frame (.declared d))
  | l => memory l

/-! ### What is done at a node -/

/-- The operands that are evaluated first, from left to right, and which of them as lvalues. -/
def Expr.operands : Expr → List Bool
  | literal _ | access _ => []
  | deref _ | comma _ _ | conditional _ _ _ => [false]
  | addressOf _ | crement _ _ _ => [true]
  | assign _ _ _ => [true, false]
  | binary _ _ _ => [false, false]
  | call arguments => arguments.map Prod.fst
  | invoke _ arguments => false :: arguments.map Prod.fst
  | lambda _ captures => captures.map Prod.fst

/-- A static variable is initialized before. -/
def Stmt.operands : Stmt → List Bool
  | expr _ | ifStmt _ _ _ | whileStmt _ _ | switchStmt _ _ _ _ => [false]
  | declare isStatic initializer => if isStatic then [] else initializer.toList.map fun _ => false
  | bind _ => [true]
  | block _ | label _ | goto _ | breakStmt => []
  | returnStmt e => e.toList.map fun _ => false

/-- A constant is not evaluated. -/
def Node.operands : Node → List Bool
  | expr e => if e.getValue.isSome then [] else e.operands
  | stmt s => s.operands

inductive Operation
  | push (v : Value)
  | next (items : List Item)
  | enter (p : Path) (items : List Item)
  | jump (t : Path)
  | leave
  | start (v : Value)
  | write (l : Location) (v result : Value)
  | bind (l : Location)
  | capture (body : ℕ) (arguments : List (Bool × Value))
  | call (arguments : List Value)
  | invoke (body : ℕ) (captures : List (Variable × Location)) (arguments : List (Bool × Value))
  | finish (v : Option Value)

def assigned (op : Option (Value → Value → ℤ)) (old w : Value) : Value :=
  match op with
  | none => w
  | some op => .int (op old w)

/-- The value of an lvalue, or its location. -/
def valueAt (lvalue : Bool) (load : Location → Value) (l : Location) : Value :=
  if lvalue then .pointer l else load l

/-- What an expression does with the values of its operands. -/
def Expr.operation (lvalue : Bool) (p : Path) (locate : Variable → Location)
    (load : Location → Value) : Expr → List Value → Option Operation
  | access v, [] => some (.push (valueAt lvalue load (locate v)))
  | deref _, [.pointer l] => some (.push (valueAt lvalue load l))
  | addressOf _, [.pointer l] => if lvalue then none else some (.push (.pointer l))
  | assign op _ _, [.pointer l, w] =>
    let v := assigned op (load l) w
    some (.write l v (valueAt lvalue (fun _ => v) l))
  | crement step before _, [.pointer l] =>
    match load l with
    | .int n => some (.write l (.int (n + step))
        (valueAt lvalue (fun _ => .int (if before then n + step else n)) l))
    | _ => none
  | binary op _ _, [v, w] => some (.push (.int (op v w)))
  | comma _ _, [_] => some (.next [.eval lvalue (p ++ [1])])
  | conditional _ _ _, [c] => some (.next [.eval lvalue (p ++ [if c.truthy then 1 else 2])])
  | call _, values => some (.call values)
  | invoke _ arguments, .closure body captures :: values =>
    some (.invoke body captures ((arguments.map Prod.fst).zip values))
  | lambda body captures, values => some (.capture body ((captures.map Prod.fst).zip values))
  | _, _ => none

def Stmt.operation (p : Path) : Stmt → List Value → Option Operation
  | expr _, [_] => some (.next [])
  | declare _ _, [] => some (.next [])
  | declare _ _, [v] => some (.start v)
  | bind _, [.pointer l] => some (.bind l)
  | block ss, [] => some (.enter p ((List.range ss.length).map fun i => .eval false (p ++ [i])))
  | ifStmt _ _ _, [c] => some (.next [.eval false (p ++ [if c.truthy then 1 else 2])])
  | whileStmt _ _, [c] =>
    some (.next (if c.truthy then [.eval false (p ++ [1]), .eval false p] else []))
  | switchStmt _ cases otherwise _, [.int n] =>
    match (cases.lookup n).or otherwise with
    | some t => some (.jump t)
    | none => some (.next [])
  | label _, [] => some (.next [.eval false (p ++ [0])])
  | goto t, [] => some (.jump t)
  | breakStmt, [] => some .leave
  | returnStmt _, values => some (.finish values.head?)
  | _, _ => none

def Node.operation (lvalue : Bool) (p : Path) (f : Frame) (load : Location → Value)
    (values : List Value) : Node → Option Operation
  | expr e =>
    match e.getValue with
    | some n => if lvalue then none else some (.push (.int n))
    | none => e.operation lvalue p f.locate load values
  | stmt s => s.operation p values

/-- What an expression does, by cases. -/
inductive Expr.Does (lvalue : Bool) (p : Path) (locate : Variable → Location)
    (load : Location → Value) : Expr → List Value → Operation → Prop
  | access (x : Variable) :
    Does lvalue p locate load (.access x) [] (.push (valueAt lvalue load (locate x)))
  | deref (e : Expr) (l : Location) :
    Does lvalue p locate load (.deref e) [.pointer l] (.push (valueAt lvalue load l))
  | addressOf (e : Expr) (l : Location) (h : lvalue = false) :
    Does lvalue p locate load (.addressOf e) [.pointer l] (.push (.pointer l))
  | assign (op : Option (Value → Value → ℤ)) (a e : Expr) (l : Location) (w : Value) :
    Does lvalue p locate load (.assign op a e) [.pointer l, w]
      (.write l (assigned op (load l) w) (valueAt lvalue (fun _ => assigned op (load l) w) l))
  | crement (step : ℤ) (before : Bool) (e : Expr) (l : Location) (n : ℤ) (h : load l = .int n) :
    Does lvalue p locate load (.crement step before e) [.pointer l] (.write l (.int (n + step))
      (valueAt lvalue (fun _ => .int (if before then n + step else n)) l))
  | binary (op : Value → Value → ℤ) (a b : Expr) (v w : Value) :
    Does lvalue p locate load (.binary op a b) [v, w] (.push (.int (op v w)))
  | comma (a b : Expr) (v : Value) :
    Does lvalue p locate load (.comma a b) [v] (.next [.eval lvalue (p ++ [1])])
  | conditional (c a b : Expr) (v : Value) :
    Does lvalue p locate load (.conditional c a b) [v]
      (.next [.eval lvalue (p ++ [if v.truthy then 1 else 2])])
  | call (arguments : List (Bool × Expr)) (values : List Value) :
    Does lvalue p locate load (.call arguments) values (.call values)
  | invoke (e : Expr) (arguments : List (Bool × Expr)) (body : ℕ)
    (captures : List (Variable × Location)) (values : List Value) :
    Does lvalue p locate load (.invoke e arguments) (.closure body captures :: values)
      (.invoke body captures ((arguments.map Prod.fst).zip values))
  | lambda (body : ℕ) (captures : List (Bool × Expr)) (values : List Value) :
    Does lvalue p locate load (.lambda body captures) values
      (.capture body ((captures.map Prod.fst).zip values))

lemma Expr.does_of_operation {e : Expr} {lvalue : Bool} {p : Path} {locate : Variable → Location}
    {load : Location → Value} {values : List Value} {operation : Operation}
    (h : e.operation lvalue p locate load values = some operation) :
    e.Does lvalue p locate load values operation := by
  unfold Expr.operation at h
  split at h
  case h_3 =>
    split_ifs at h with hl
    exact Option.some.inj h ▸ .addressOf _ _ (Bool.eq_false_iff.mpr hl)
  case h_5 =>
    split at h
    · rename_i hn
      exact Option.some.inj h ▸ .crement _ _ _ _ _ hn
    · exact absurd h (by simp)
  case h_12 => exact absurd h (by simp)
  all_goals
    obtain rfl := Option.some.inj h
    constructor

inductive Stmt.Does (p : Path) : Stmt → List Value → Operation → Prop
  | expr (e : Expr) (v : Value) : Does p (.expr e) [v] (.next [])
  | declare (isStatic : Bool) (initializer : Option Expr) :
    Does p (.declare isStatic initializer) [] (.next [])
  | start (isStatic : Bool) (initializer : Option Expr) (v : Value) :
    Does p (.declare isStatic initializer) [v] (.start v)
  | bind (e : Expr) (l : Location) : Does p (.bind e) [.pointer l] (.bind l)
  | block (ss : List Stmt) :
    Does p (.block ss) []
      (.enter p ((List.range ss.length).map fun i => .eval false (p ++ [i])))
  | ifStmt (c : Expr) (t e : Stmt) (v : Value) :
    Does p (.ifStmt c t e) [v] (.next [.eval false (p ++ [if v.truthy then 1 else 2])])
  | whileTrue (c : Expr) (s : Stmt) (v : Value) :
    Does p (.whileStmt c s) [v] (.next [.eval false (p ++ [1]), .eval false p])
  | whileFalse (c : Expr) (s : Stmt) (v : Value) : Does p (.whileStmt c s) [v] (.next [])
  | switchCase (e : Expr) (cases : List (ℤ × Path)) (otherwise : Option Path) (s : Stmt) (n : ℤ)
    (t : Path) (h : (cases.lookup n).or otherwise = some t) :
    Does p (.switchStmt e cases otherwise s) [.int n] (.jump t)
  | switchNone (e : Expr) (cases : List (ℤ × Path)) (otherwise : Option Path) (s : Stmt) (n : ℤ) :
    Does p (.switchStmt e cases otherwise s) [.int n] (.next [])
  | label (s : Stmt) : Does p (.label s) [] (.next [.eval false (p ++ [0])])
  | goto (t : Path) : Does p (.goto t) [] (.jump t)
  | breakStmt : Does p .breakStmt [] .leave
  | returnStmt (e : Option Expr) (values : List Value) :
    Does p (.returnStmt e) values (.finish values.head?)

lemma Stmt.does_of_operation {s : Stmt} {p : Path} {values : List Value} {operation : Operation}
    (h : s.operation p values = some operation) : s.Does p values operation := by
  unfold Stmt.operation at h
  split at h
  case h_7 =>
    split_ifs at h
    · exact Option.some.inj h ▸ .whileTrue _ _ _
    · exact Option.some.inj h ▸ .whileFalse _ _ _
  case h_8 =>
    split at h
    · rename_i ht
      exact Option.some.inj h ▸ .switchCase _ _ _ _ _ _ ht
    · exact Option.some.inj h ▸ .switchNone _ _ _ _ _
  case h_13 => exact absurd h (by simp)
  all_goals
    obtain rfl := Option.some.inj h
    constructor

/-- What follows the `i`-th child of a statement. -/
def Node.rest (p : Path) (i : ℕ) : Node → List Item
  | stmt (.block ss) =>
    (List.range' (i + 1) (ss.length - (i + 1))).map fun j => .eval false (p ++ [j])
  | stmt (.whileStmt _ _) => [.eval false p]
  | _ => []

/-- What follows the statement at a place, from the node at `p` on. -/
def Node.after : Node → Path → Path → List Item
  | _, _, [] => []
  | n, p, i :: t =>
    (match n.children[i]? with
      | some m => m.after (p ++ [i]) t
      | none => []) ++ n.rest p i

def Node.IsBreakable : Node → Bool
  | stmt (.whileStmt _ _) | stmt (.switchStmt _ _ _ _) => true
  | _ => false

/-- The innermost loop or switch around a place, from the node at `p` on. -/
def Node.breakable : Node → Path → Path → Option Path
  | _, _, [] => none
  | n, p, i :: t =>
    (n.children[i]?.bind fun m => m.breakable (p ++ [i]) t).or
      (if n.IsBreakable then some p else none)

def Node.afterBreak (n : Node) (p : Path) : List Item :=
  match n.breakable [] p with
  | some t => n.after [] t
  | none => []

/-! ### Steps -/

def places (id : ℕ) (variable' : ℕ → Variable) (arguments : List (Bool × Value)) :
    List (Variable × Location) :=
  arguments.mapIdx fun i a =>
    (variable' i,
      match a with
      | (true, .pointer l) => l
      | _ => .automatic id (variable' i))

/-- Values that are not passed by reference are copied to these places. -/
def fill (id : ℕ) (variable' : ℕ → Variable) : ℕ → List (Bool × Value) → Memory → Memory
  | _, [], memory => memory
  | i, (reference, v) :: arguments, memory =>
    fill id variable' (i + 1) arguments
      (if reference then memory
        else Function.update memory (.automatic id (variable' i)) (some v))

/-- The value of a call is given to its caller. -/
def deliver (v : Value) : List Activation → List Activation
  | .body f :: stack => .body { f with values := v :: f.values } :: stack
  | stack => stack

/-- `f` is the frame on top of `stack` without the node at `p` and its operands. -/
def Operation.perform (P : Function) (s : State) (stack : List Activation) (f : Frame) (p : Path) :
    Operation → State
  | push v => { s with stack := .body { f with values := v :: f.values } :: stack }
  | next items => { s with stack := .body { f with control := items ++ f.control } :: stack }
  | enter q items =>
    { s with
      memory := s.memory.forget f.id fun scope => scope = q
      stack := .body { f with control := items ++ f.control } :: stack }
  | jump t =>
    { s with
      memory := s.memory.forget f.id fun scope => scope <+: t ∧ scope ≠ t ∧ ¬ scope <+: p
      stack := .body { f with control := .eval false t :: (P.code f.code).after [] t } :: stack }
  | leave =>
    { s with stack := .body { f with control := (P.code f.code).afterBreak p } :: stack }
  | start v =>
    { s with
      memory := Function.update s.memory (.automatic f.id (.declared p)) (some v)
      stack := .body f :: stack }
  | write l v result =>
    { s with
      memory := Function.update s.memory l (some v)
      stack := .body { f with values := result :: f.values } :: stack }
  | bind l =>
    { s with stack := .body { f with bindings := (.declared p, l) :: f.bindings } :: stack }
  | capture body arguments =>
    { s with
      memory := fill s.fresh .captured 0 arguments s.memory
      stack := .body { f with
        values := .closure body (places s.fresh .captured arguments) :: f.values } :: stack
      fresh := s.fresh + 1 }
  | call arguments =>
    { s with
      known := arguments.flatMap Value.locations ++ s.known
      stack := .external :: .body f :: stack }
  | invoke body captures arguments =>
    { s with
      memory := fill s.fresh .parameter 0 arguments s.memory
      stack := .body ⟨some body, s.fresh, captures ++ places s.fresh .parameter arguments,
        [.eval false []], []⟩ :: .body f :: stack
      fresh := s.fresh + 1 }
  | finish v => { s with stack := deliver (v.getD (.int 0)) stack }

/-- A step of a frame. `n` is what is read where the value is indeterminate. -/
def Frame.step (P : Function) (n : ℤ) (s : State) (stack : List Activation) (f : Frame) :
    Option State :=
  match f.control with
  | [] => some { s with stack := deliver (.int 0) stack }
  | .eval lvalue p :: control => ((P.code f.code).get p).map fun node =>
    { s with stack := .body { f with
      control := node.operands.mapIdx (fun i l => .eval l (p ++ [i])) ++
        .apply lvalue p :: control } :: stack }
  | .apply lvalue p :: control => ((P.code f.code).get p).bind fun node =>
    let k := node.operands.length
    (node.operation lvalue p f (s.memory.load n) (f.values.take k).reverse).map
      (Operation.perform P s stack { f with control := control, values := f.values.drop k } p)

/-- What code elsewhere can read and write. -/
def State.Knows (s : State) : Location → Prop
  | .automatic frame v => .automatic frame v ∈ s.known
  | .elsewhere _ => True

instance (s : State) : DecidablePred s.Knows
  | .automatic _ _ => inferInstanceAs (Decidable (_ ∈ _))
  | .elsewhere _ => inferInstanceAs (Decidable True)

/-- A step of a frame, or of code elsewhere, which takes a pointer from memory, writes or
returns. -/
inductive Choice
  | go (n : ℤ)
  | learn (l : Location)
  | write (l : Location) (v : Value)
  | resume (v : Value)

def step (P : Function) (choice : Choice) (s : State) : Option State :=
  match choice, s.stack with
  | .go n, .body f :: stack => f.step P n s stack
  | .learn l, .external :: _ =>
    if s.Knows l then
      some { s with known := (s.memory l).toList.flatMap Value.locations ++ s.known }
    else none
  | .write l v, .external :: _ =>
    if s.Knows l ∧ ∀ l' ∈ v.locations, s.Knows l' then
      some { s with memory := Function.update s.memory l (some v) }
    else none
  | .resume v, .external :: stack =>
    if ∀ l ∈ v.locations, s.Knows l then some { s with stack := deliver v stack } else none
  | _, _ => none

/-- What a step can do. -/
inductive Step (P : Function) (s : State) : State → Prop
  | finish {f : Frame} {stack : List Activation} (hs : s.stack = .body f :: stack)
    (hcontrol : f.control = []) : Step P s { s with stack := deliver (.int 0) stack }
  | eval {f : Frame} {stack : List Activation} {lvalue : Bool} {p : Path} {control : List Item}
    {node : Node} (hs : s.stack = .body f :: stack)
    (hcontrol : f.control = .eval lvalue p :: control)
    (hget : (P.code f.code).get p = some node) :
    Step P s { s with stack := .body { f with
      control := node.operands.mapIdx (fun i l => .eval l (p ++ [i])) ++
        .apply lvalue p :: control } :: stack }
  | apply {f : Frame} {stack : List Activation} {lvalue : Bool} {p : Path} {control : List Item}
    {node : Node} {n : ℤ} {operation : Operation} (hs : s.stack = .body f :: stack)
    (hcontrol : f.control = .apply lvalue p :: control)
    (hget : (P.code f.code).get p = some node)
    (hoperation : node.operation lvalue p f (s.memory.load n)
      (f.values.take node.operands.length).reverse = some operation) :
    Step P s (operation.perform P s stack
      { f with control := control, values := f.values.drop node.operands.length } p)
  | learn {stack : List Activation} {l : Location} (hs : s.stack = .external :: stack)
    (hl : s.Knows l) :
    Step P s { s with known := (s.memory l).toList.flatMap Value.locations ++ s.known }
  | write {stack : List Activation} {l : Location} {v : Value} (hs : s.stack = .external :: stack)
    (hl : s.Knows l) (hv : ∀ l' ∈ v.locations, s.Knows l') :
    Step P s { s with memory := Function.update s.memory l (some v) }
  | resume {stack : List Activation} {v : Value} (hs : s.stack = .external :: stack)
    (hv : ∀ l ∈ v.locations, s.Knows l) : Step P s { s with stack := deliver v stack }

theorem step_cases {P : Function} {choice : Choice} {s s' : State}
    (h : step P choice s = some s') : Step P s s' := by
  unfold step at h
  split at h
  case h_1 n f stack hs =>
    unfold Frame.step at h
    split at h
    case h_1 hcontrol => exact Option.some.inj h ▸ .finish hs hcontrol
    case h_2 hcontrol =>
      obtain ⟨node, hget, rfl⟩ := Option.map_eq_some_iff.mp h
      exact .eval hs hcontrol hget
    case h_3 hcontrol =>
      obtain ⟨node, hget, h⟩ := Option.bind_eq_some_iff.mp h
      obtain ⟨operation, hoperation, rfl⟩ := Option.map_eq_some_iff.mp h
      exact .apply hs hcontrol hget hoperation
  case h_2 hs =>
    split_ifs at h with hl
    exact Option.some.inj h ▸ .learn hs hl
  case h_3 hs =>
    split_ifs at h with hl
    exact Option.some.inj h ▸ .write hs hl.1 hl.2
  case h_4 hs =>
    split_ifs at h with hl
    exact Option.some.inj h ▸ .resume hs hl
  case h_5 => exact absurd h (by simp)

lemma Step.fresh_le {P : Function} {s s' : State} (h : Step P s s') : s.fresh ≤ s'.fresh := by
  cases h with
  | @apply f _ _ _ _ _ _ operation =>
    cases operation with
    | capture body arguments => exact Nat.le_succ _
    | invoke body captures arguments => exact Nat.le_succ _
    | _ => exact Nat.le_refl _
  | _ => exact Nat.le_refl _

def Reaches (P : Function) (ok : State → Prop) : State → State → Prop :=
  Relation.ReflTransGen fun s s' => ok s ∧ ∃ choice, step P choice s = some s'

lemma Reaches.mono {P : Function} {ok ok' : State → Prop} {s s' : State} (h : Reaches P ok s s')
    (hok : ∀ s, ok s → ok' s) : Reaches P ok' s s' := by
  induction h with
  | refl => exact .refl
  | tail _ hstep ih => exact ih.tail ⟨hok _ hstep.1, hstep.2⟩

/-! ### Places -/

section Places

variable {n m : Node} {p q t : Path} {i : ℕ} {x : Item}

lemma Node.get_append : n.get (p ++ q) = (n.get p).bind fun m => m.get q := by
  induction p generalizing n with
  | nil => rfl
  | cons i p ih =>
    rw [List.cons_append, Node.get, Node.get, Option.bind_assoc]
    exact congrArg _ (funext fun m => ih)

lemma Node.get_child (h : n.get p = some m) : n.get (p ++ [i]) = m.children[i]? := by
  rw [get_append, h]
  change m.children[i]?.bind (fun m => some m) = _
  cases m.children[i]? <;> rfl

lemma Node.mem_rest (h : x ∈ n.rest p i) :
    ∃ q, x = .eval false q ∧ (q = p ∨ ∃ j ss, n = .stmt (.block ss) ∧ q = p ++ [j]) := by
  unfold Node.rest at h
  split at h
  · obtain ⟨j, -, rfl⟩ := List.mem_map.mp h
    exact ⟨_, rfl, Or.inr ⟨j, _, rfl, rfl⟩⟩
  · exact ⟨p, List.mem_singleton.mp h, Or.inl rfl⟩
  · simp at h

/-- What follows a place are loops around it and statements of blocks around it. -/
lemma Node.mem_after {p₀ : Path} (h : x ∈ n.after p₀ t) :
    ∃ p q m, p <+: t ∧ p ≠ t ∧ n.get p = some m ∧ x = .eval false q ∧
      (q = p₀ ++ p ∨ ∃ j ss, m = .stmt (.block ss) ∧ q = p₀ ++ p ++ [j]) := by
  induction t generalizing n p₀ with
  | nil => simp [after] at h
  | cons i t ih =>
    rw [after, List.mem_append] at h
    rcases h with h | h
    · cases hm : n.children[i]? with
      | none => simp [hm] at h
      | some m =>
        rw [hm] at h
        obtain ⟨p, q, m', hp, hne, hget, hx, hq⟩ := ih h
        refine ⟨i :: p, q, m', List.cons_prefix_cons.mpr ⟨rfl, hp⟩, by simpa using hne, ?_, hx, ?_⟩
        · rw [get, hm]
          exact hget
        · simpa using hq
    · obtain ⟨q, hx, hq⟩ := mem_rest h
      exact ⟨[], q, n, List.nil_prefix, by simp, rfl, hx, by simpa using hq⟩

lemma Node.breakable_prefix {p₀ : Path} (h : n.breakable p₀ t = some q) :
    ∃ p, p <+: t ∧ q = p₀ ++ p := by
  induction t generalizing n p₀ with
  | nil => simp [breakable] at h
  | cons i t ih =>
    rw [breakable] at h
    rcases Option.or_eq_some_iff.mp h with h | ⟨-, h⟩
    · obtain ⟨m, -, hm⟩ := Option.bind_eq_some_iff.mp h
      obtain ⟨p, hp, rfl⟩ := ih hm
      exact ⟨i :: p, List.cons_prefix_cons.mpr ⟨rfl, hp⟩, by simp⟩
    · refine ⟨[], List.nil_prefix, ?_⟩
      split_ifs at h
      simpa using h.symm

end Places

/-! ### Hidden locations -/

section Hidden

variable {l l' : Location} {v w : Value} {memory : Memory} {n : ℤ} {p : Path} {values : List Value}
  {lvalue : Bool} {operation : Operation} {id : ℕ} {arguments : List (Bool × Value)}

def Operation.locations : Operation → List Location
  | push v => v.locations
  | next _ | enter _ _ | jump _ | leave => []
  | start v => v.locations
  | write l v result => l :: (v.locations ++ result.locations)
  | bind l => [l]
  | capture _ arguments => arguments.flatMap fun a => a.2.locations
  | call arguments => arguments.flatMap Value.locations
  | invoke _ captures arguments =>
    captures.map Prod.snd ++ arguments.flatMap fun a => a.2.locations
  | finish v => v.toList.flatMap Value.locations

structure Frame.Hides (l : Location) (f : Frame) : Prop where
  bindings : ∀ x ∈ f.bindings, x.2 ≠ l
  values : ∀ v ∈ f.values, l ∉ v.locations

/-- Nothing has a pointer to the location. -/
structure Hidden (l : Location) (s : State) : Prop where
  memory : ∀ l' v, s.memory l' = some v → l ∉ v.locations
  known : ¬ s.Knows l
  frames : ∀ f, .body f ∈ s.stack → f.Hides l

lemma forget_eq_some {scope : Path → Bool} (h : memory.forget id scope l = some v) :
    memory l = some v := by
  unfold Memory.forget at h
  split at h
  · split_ifs at h
    exact h
  · exact h

lemma mem_load (h : l ∈ (memory.load n l').locations) :
    ∃ v, memory l' = some v ∧ l ∈ v.locations := by
  unfold Memory.load at h
  cases hl : memory l' with
  | none => simp [hl, Value.locations] at h
  | some v => exact ⟨v, rfl, by simpa [hl] using h⟩

lemma fill_eq_some {variable' : ℕ → Variable} {i : ℕ}
    (h : fill id variable' i arguments memory l = some v) :
    memory l = some v ∨ ∃ a ∈ arguments, a.2 = v := by
  induction arguments generalizing i memory with
  | nil => exact Or.inl h
  | cons a arguments ih =>
    rcases ih h with h | ⟨b, hb, rfl⟩
    · by_cases ha : a.1 = true
      · exact Or.inl (by simpa [ha] using h)
      · simp only [ha, Bool.false_eq_true, if_false, Function.update_apply] at h
        split_ifs at h
        · exact Or.inr ⟨a, by simp, Option.some.inj h⟩
        · exact Or.inl h
    · exact Or.inr ⟨b, List.mem_cons_of_mem _ hb, rfl⟩

lemma fill_of_ne {variable' : ℕ → Variable} {i : ℕ} (h : ∀ x, l ≠ .automatic id x) :
    fill id variable' i arguments memory l = memory l := by
  induction arguments generalizing i memory with
  | nil => rfl
  | cons a arguments ih =>
    rw [fill, ih]
    split_ifs
    · rfl
    · exact Function.update_of_ne (h _) _ _

lemma mem_places {variable' : ℕ → Variable} {x : Variable × Location}
    (h : x ∈ places id variable' arguments) :
    x.2 = .automatic id x.1 ∨ ∃ a ∈ arguments, a.2 = .pointer x.2 := by
  obtain ⟨i, hi, rfl⟩ := List.mem_iff_getElem.mp h
  simp only [places, List.getElem_mapIdx]
  split
  · rename_i heq
    exact Or.inr ⟨_, List.getElem_mem _, by rw [heq]⟩
  · exact Or.inl rfl

lemma mem_valueAt {load : Location → Value} (h : l ∈ (valueAt lvalue load l').locations) :
    (lvalue = true ∧ l = l') ∨ l ∈ (load l').locations := by
  unfold valueAt at h
  split_ifs at h with hl
  · exact Or.inl ⟨hl, List.mem_singleton.mp h⟩
  · exact Or.inr h

lemma mem_assigned {op : Option (Value → Value → ℤ)} (h : l ∈ (assigned op v w).locations) :
    l ∈ w.locations := by
  cases op with
  | none => exact h
  | some op => simp [assigned, Value.locations] at h

lemma mem_zip {modes : List Bool} (h : ∃ a ∈ modes.zip values, l ∈ a.2.locations) :
    ∃ v ∈ values, l ∈ v.locations := by
  obtain ⟨a, ha, hl⟩ := h
  exact ⟨a.2, (List.of_mem_zip ha).2, hl⟩

lemma Expr.mem_operation {e : Expr} {locate : Variable → Location} {load : Location → Value}
    (h : e.Does lvalue p locate load values operation) (hl : l ∈ operation.locations) :
    (∃ v ∈ values, l ∈ v.locations) ∨ (∃ l', l ∈ (load l').locations) ∨
      ∃ x, e = .access x ∧ lvalue = true ∧ l = locate x := by
  have hpointer : ∀ l, l ∈ (Value.pointer l).locations := fun l => List.mem_singleton_self l
  cases h with
  | access x =>
    rcases mem_valueAt hl with ⟨hlvalue, rfl⟩ | hread
    · exact Or.inr (Or.inr ⟨x, rfl, hlvalue, rfl⟩)
    · exact Or.inr (Or.inl ⟨_, hread⟩)
  | deref e l' =>
    rcases mem_valueAt hl with ⟨-, rfl⟩ | hread
    · exact Or.inl ⟨_, List.mem_singleton_self _, hpointer _⟩
    · exact Or.inr (Or.inl ⟨_, hread⟩)
  | addressOf e l' => exact Or.inl ⟨_, List.mem_singleton_self _, hl⟩
  | assign op a e l' w =>
    simp only [Operation.locations, List.mem_cons, List.mem_append] at hl
    rcases hl with rfl | hl | hl
    · exact Or.inl ⟨_, List.mem_cons_self, hpointer _⟩
    · exact Or.inl ⟨w, by simp, mem_assigned hl⟩
    · rcases mem_valueAt hl with ⟨-, rfl⟩ | hl
      · exact Or.inl ⟨_, List.mem_cons_self, hpointer _⟩
      · exact Or.inl ⟨w, by simp, mem_assigned hl⟩
  | crement step before e l' n =>
    simp only [Operation.locations, List.mem_cons, List.mem_append, Value.locations,
      List.not_mem_nil, false_or] at hl
    rcases hl with rfl | hl
    · exact Or.inl ⟨_, List.mem_singleton_self _, hpointer _⟩
    · rcases mem_valueAt hl with ⟨-, rfl⟩ | hl
      · exact Or.inl ⟨_, List.mem_singleton_self _, hpointer _⟩
      · exact absurd hl List.not_mem_nil
  | call arguments => exact Or.inl (List.mem_flatMap.mp hl)
  | invoke e arguments body captures values =>
    rcases List.mem_append.mp hl with hl | hl
    · exact Or.inl ⟨_, List.mem_cons_self, hl⟩
    · obtain ⟨v, hv, hl⟩ := mem_zip (List.mem_flatMap.mp hl)
      exact Or.inl ⟨v, List.mem_cons_of_mem _ hv, hl⟩
  | lambda body captures => exact Or.inl (mem_zip (List.mem_flatMap.mp hl))
  | _ => exact absurd hl List.not_mem_nil

lemma Stmt.mem_operation {s : Stmt} (h : s.Does p values operation)
    (hl : l ∈ operation.locations) : ∃ v ∈ values, l ∈ v.locations := by
  cases h with
  | start isStatic initializer v => exact ⟨v, List.mem_singleton_self _, hl⟩
  | bind e l' => exact ⟨_, List.mem_singleton_self _, hl⟩
  | returnStmt e =>
    obtain ⟨v, hv, hl⟩ := List.mem_flatMap.mp hl
    exact ⟨v, List.mem_of_mem_head? (Option.mem_toList.mp hv), hl⟩
  | _ => exact absurd hl List.not_mem_nil

variable {P : Function} {s s' : State} {f g : Frame} {stack : List Activation} {choice : Choice}

lemma Frame.Hides.push (h : f.Hides l) (hv : l ∉ v.locations) :
    ({ f with values := v :: f.values } : Frame).Hides l :=
  ⟨h.bindings, List.forall_mem_cons.mpr ⟨hv, h.values⟩⟩

lemma hides_deliver (h : ∀ f, .body f ∈ stack → f.Hides l) (hv : l ∉ v.locations) :
    ∀ f, .body f ∈ deliver v stack → f.Hides l := by
  intro f hf
  match stack, hf with
  | .body g :: stack, hf =>
    rcases List.mem_cons.mp hf with heq | hmem
    · obtain rfl := Activation.body.inj heq
      exact (h g List.mem_cons_self).push hv
    · exact h f (List.mem_cons_of_mem _ hmem)
  | .external :: stack, hf => exact h f hf

lemma hides_cons (h : ∀ f, .body f ∈ stack → f.Hides l) (hg : g.Hides l) :
    ∀ f, .body f ∈ .body g :: stack → f.Hides l := by
  intro f hf
  rcases List.mem_cons.mp hf with heq | hmem
  · exact Activation.body.inj heq ▸ hg
  · exact h f hmem

lemma knows_append {locations : List Location} (h : l ∉ locations) (hs : ¬ s.Knows l) :
    ¬ ({ s with known := locations ++ s.known } : State).Knows l := by
  cases l with
  | automatic frame x =>
    intro hmem
    exact (List.mem_append.mp hmem).elim h hs
  | elsewhere n => exact hs

lemma update_hides (h : ∀ l' v, memory l' = some v → l ∉ v.locations) (hv : l ∉ v.locations) :
    ∀ l₁ w, Function.update memory l' (some v) l₁ = some w → l ∉ w.locations := by
  intro l₁ w hw
  rw [Function.update_apply] at hw
  split_ifs at hw
  · exact Option.some.inj hw ▸ hv
  · exact h l₁ w hw

lemma fill_hides {variable' : ℕ → Variable} (h : ∀ l' v, memory l' = some v → l ∉ v.locations)
    (hv : l ∉ arguments.flatMap fun a => a.2.locations) :
    ∀ l' w, fill id variable' 0 arguments memory l' = some w → l ∉ w.locations := by
  intro l' w hw hl
  rcases fill_eq_some hw with hw | ⟨a, ha, rfl⟩
  · exact h l' w hw hl
  · exact hv (List.mem_flatMap.mpr ⟨a, ha, hl⟩)

lemma places_hides {variable' : ℕ → Variable} (hid : ∀ x, l ≠ .automatic id x)
    (hv : l ∉ arguments.flatMap fun a => a.2.locations) :
    ∀ x ∈ places id variable' arguments, x.2 ≠ l := by
  rintro x hx rfl
  rcases mem_places hx with heq | ⟨a, ha, heq⟩
  · exact hid _ heq
  · refine hv (List.mem_flatMap.mpr ⟨a, ha, ?_⟩)
    rw [heq]
    exact List.mem_singleton_self _

/-- An operation that does not handle a hidden location keeps it hidden. -/
lemma Hidden.perform (h : Hidden l s) (hstack : ∀ f, .body f ∈ stack → f.Hides l)
    (hf : f.Hides l) (hfresh : ∀ x, l ≠ .automatic s.fresh x) (hl : l ∉ operation.locations) :
    Hidden l (operation.perform P s stack f p) := by
  have hcontrol : ∀ control, ({ f with control := control } : Frame).Hides l := fun control =>
    ⟨hf.bindings, hf.values⟩
  -- a scope that ends only takes values away
  have hforget : ∀ scope l' v, s.memory.forget f.id scope l' = some v → l ∉ v.locations :=
    fun scope l' v hv => h.memory l' v (forget_eq_some hv)
  cases operation with
  | push v => exact ⟨h.memory, h.known, hides_cons hstack (hf.push hl)⟩
  | next items => exact ⟨h.memory, h.known, hides_cons hstack (hcontrol _)⟩
  | enter q items =>
    exact ⟨hforget fun scope => scope = q, h.known, hides_cons hstack (hcontrol _)⟩
  | jump t =>
    exact ⟨hforget fun scope => scope <+: t ∧ scope ≠ t ∧ ¬ scope <+: p, h.known,
      hides_cons hstack (hcontrol _)⟩
  | leave => exact ⟨h.memory, h.known, hides_cons hstack (hcontrol _)⟩
  | start v => exact ⟨update_hides h.memory hl, h.known, hides_cons hstack hf⟩
  | write l' v result =>
    simp only [Operation.locations, List.mem_cons, List.mem_append, not_or] at hl
    exact ⟨update_hides h.memory hl.2.1, h.known, hides_cons hstack (hf.push hl.2.2)⟩
  | bind l' =>
    have hne : l' ≠ l := fun heq => hl (List.mem_singleton.mpr heq.symm)
    exact ⟨h.memory, h.known, hides_cons hstack
      ⟨List.forall_mem_cons.mpr ⟨hne, hf.bindings⟩, hf.values⟩⟩
  | capture body arguments =>
    refine ⟨fill_hides h.memory hl, h.known, hides_cons hstack (hf.push ?_)⟩
    intro hmem
    obtain ⟨x, hx, heq⟩ := List.mem_map.mp hmem
    exact places_hides hfresh hl x hx heq
  | call arguments =>
    refine ⟨h.memory, knows_append hl h.known, fun g hg => ?_⟩
    rcases List.mem_cons.mp hg with heq | hmem
    · exact Activation.noConfusion heq
    · exact hides_cons hstack hf g hmem
  | invoke body captures arguments =>
    obtain ⟨hcaptures, harguments⟩ := not_or.mp fun hmem => hl (List.mem_append.mpr hmem)
    refine ⟨fill_hides h.memory harguments, h.known,
      hides_cons (hides_cons hstack hf) ⟨fun x hx => ?_, by simp⟩⟩
    rcases List.mem_append.mp hx with hx | hx
    · rintro rfl
      exact hcaptures (List.mem_map_of_mem hx)
    · exact places_hides hfresh harguments x hx
  | finish v =>
    refine ⟨h.memory, h.known, hides_deliver hstack ?_⟩
    cases v with
    | none => simp [Value.locations]
    | some v => simpa [Operation.locations] using hl

lemma perform_memory (hfresh : ∀ x, l ≠ .automatic s.fresh x) (hl : l ∉ operation.locations) :
    (operation.perform P s stack f p).memory l = s.memory l ∨
      (operation.perform P s stack f p).memory l = none ∨
      ∃ v, operation = .start v ∧ l = .automatic f.id (.declared p) ∧
        (operation.perform P s stack f p).memory l = some v := by
  have hforget : ∀ scope, s.memory.forget f.id scope l = s.memory l ∨
      s.memory.forget f.id scope l = none := by
    intro scope
    unfold Memory.forget
    split
    · split_ifs
      · exact Or.inr rfl
      · exact Or.inl rfl
    · exact Or.inl rfl
  cases operation with
  | enter q items => exact (hforget fun scope => scope = q).imp_right Or.inl
  | jump t =>
    exact (hforget fun scope => scope <+: t ∧ scope ≠ t ∧ ¬ scope <+: p).imp_right Or.inl
  | start v =>
    by_cases heq : l = .automatic f.id (.declared p)
    · refine Or.inr (Or.inr ⟨v, rfl, heq, ?_⟩)
      rw [heq]
      exact Function.update_self _ _ _
    · exact Or.inl (Function.update_of_ne heq _ _)
  | write l' v result =>
    have hne : l ≠ l' := fun heq => hl (List.mem_cons.mpr (Or.inl heq))
    exact Or.inl (Function.update_of_ne hne _ _)
  | capture body arguments => exact Or.inl (fill_of_ne hfresh)
  | invoke body captures arguments => exact Or.inl (fill_of_ne hfresh)
  | _ => exact Or.inl rfl

lemma Node.mem_operation {node : Node}
    (h : node.operation lvalue p f (memory.load n) values = some operation)
    (hl : l ∈ operation.locations) :
    (∃ v ∈ values, l ∈ v.locations) ∨ (∃ l' v, memory l' = some v ∧ l ∈ v.locations) ∨
      ∃ x, node = .expr (.access x) ∧ lvalue = true ∧ l = f.locate x := by
  cases node with
  | expr e =>
    simp only [Node.operation] at h
    split at h
    · split_ifs at h
      obtain rfl := Option.some.inj h
      simp [Operation.locations, Value.locations] at hl
    · rcases Expr.mem_operation (Expr.does_of_operation h) hl with
        hvalues | ⟨l', hl'⟩ | ⟨x, rfl, hlvalue, hx⟩
      · exact Or.inl hvalues
      · exact Or.inr (Or.inl ⟨l', mem_load hl'⟩)
      · exact Or.inr (Or.inr ⟨x, rfl, hlvalue, hx⟩)
  | stmt st => exact Or.inl (Stmt.mem_operation (Stmt.does_of_operation h) hl)

def Frame.Takes (P : Function) (f : Frame) (l : Location) : Prop :=
  ∃ p control x, f.control = .apply true p :: control ∧
    (P.code f.code).get p = some (.expr (.access x)) ∧ f.locate x = l

/-- The frame gives the location its initial value. -/
def Frame.Starts (P : Function) (f : Frame) (l : Location) (v : Value) : Prop :=
  ∃ lvalue p control node load, f.control = .apply lvalue p :: control ∧
    l = .automatic f.id (.declared p) ∧ (P.code f.code).get p = some node ∧
    node.operation lvalue p f load (f.values.take node.operands.length).reverse = some (.start v)

lemma Hidden.notMem_operation (h : Hidden l s) {node : Node} {control : List Item}
    (hs : s.stack = .body f :: stack) (hcontrol : f.control = .apply lvalue p :: control)
    (hget : (P.code f.code).get p = some node)
    (hoperation : node.operation lvalue p f (s.memory.load n)
      (f.values.take node.operands.length).reverse = some operation)
    (htakes : ¬ f.Takes P l) : l ∉ operation.locations := by
  intro hl
  rcases Node.mem_operation hoperation hl with ⟨v, hv, hl⟩ | ⟨l', v, hv, hl⟩ | ⟨x, rfl, rfl, hx⟩
  · have hf := h.frames f (hs ▸ List.mem_cons_self)
    exact hf.values v (List.mem_of_mem_take (List.mem_reverse.mp hv)) hl
  · exact h.memory l' v hv hl
  · exact htakes ⟨p, control, x, hcontrol, hget, hx.symm⟩

/-- **A hidden location stays hidden as long as no frame takes it.** -/
theorem Hidden.step (h : Hidden l s) (hstep : Step P s s') (hfresh : ∀ x, l ≠ .automatic s.fresh x)
    (htakes : ∀ f stack, s.stack = .body f :: stack → ¬ f.Takes P l) :
    Hidden l s' := by
  have htail : ∀ {a stack}, s.stack = a :: stack → ∀ f, .body f ∈ stack → f.Hides l :=
    fun hs f hf => h.frames f (hs ▸ List.mem_cons_of_mem _ hf)
  -- what the rest of the program stores or returns it knows, and a hidden location it does not
  have hknows : ∀ {v : Value}, (∀ l' ∈ v.locations, s.Knows l') → l ∉ v.locations :=
    fun hv hmem => h.known (hv l hmem)
  cases hstep with
  | finish hs hcontrol =>
    exact ⟨h.memory, h.known, hides_deliver (htail hs) (by simp [Value.locations])⟩
  | @eval f _ _ _ _ _ hs hcontrol hget =>
    have hf := h.frames f (hs ▸ List.mem_cons_self)
    exact ⟨h.memory, h.known, hides_cons (htail hs) ⟨hf.bindings, hf.values⟩⟩
  | @apply f _ lvalue p _ node n operation hs hcontrol hget hoperation =>
    have hf := h.frames f (hs ▸ List.mem_cons_self)
    exact h.perform (htail hs) ⟨hf.bindings, fun v hv => hf.values v (List.mem_of_mem_drop hv)⟩
      hfresh (h.notMem_operation hs hcontrol hget hoperation (htakes f _ hs))
  | learn hs hl =>
    refine ⟨h.memory, knows_append (fun hmem => ?_) h.known, h.frames⟩
    obtain ⟨v, hv, hl⟩ := List.mem_flatMap.mp hmem
    exact h.memory _ v (Option.mem_toList.mp hv) hl
  | write hs hl hv => exact ⟨update_hides h.memory (hknows hv), h.known, h.frames⟩
  | resume hs hv => exact ⟨h.memory, h.known, hides_deliver (htail hs) (hknows hv)⟩

/-- **Only its declaration gives a value to a hidden location.** -/
theorem Hidden.memory_step (h : Hidden l s) (hstep : Step P s s')
    (hfresh : ∀ x, l ≠ .automatic s.fresh x)
    (htakes : ∀ f stack, s.stack = .body f :: stack → ¬ f.Takes P l) :
    s'.memory l = s.memory l ∨ s'.memory l = none ∨
      ∃ f stack v, s.stack = .body f :: stack ∧ f.Starts P l v ∧ s'.memory l = some v := by
  cases hstep with
  | @apply f _ lvalue p _ node n operation hs hcontrol hget hoperation =>
    have hl := h.notMem_operation hs hcontrol hget hoperation (htakes f _ hs)
    rcases perform_memory hfresh hl with heq | heq | ⟨v, rfl, hlocation, heq⟩
    · exact Or.inl heq
    · exact Or.inr (Or.inl heq)
    · exact Or.inr (Or.inr ⟨f, _, v, hs, ⟨lvalue, p, _, node, _, hcontrol, hlocation, hget,
        hoperation⟩, heq⟩)
  | @write stack l' v hs hl hv =>
    have hne : l ≠ l' := fun heq => h.known (heq ▸ hl)
    exact Or.inl (Function.update_of_ne hne _ _)
  | _ => exact Or.inl rfl

end Hidden

end DriverQueries.Bodies
