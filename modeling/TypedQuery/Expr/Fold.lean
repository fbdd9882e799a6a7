import TypedQuery.Expr.Eval

/-!
# Constant folding

Which parts of an expression do not depend on a row, and their values. Such a part is
evaluated once, when the query is built, and enters a statement as one value.

An analyzer remembers which nodes it has found to be constants, and the values of those it has
evaluated, so no accessor is called twice for one node. A failed evaluation is not remembered, but
the operands that it got to are.
-/

namespace TypedQuery

namespace Expr

/-- Is the expression a constant? Literals and accessors without arguments are, and members,
operators and connectives of constants. -/
def foldable : Expr → Bool
  | literal _ => true
  | call (.accessor _) args => args.isEmpty
  | call _ _ => false
  | member target _ => target.foldable
  | comparison _ l r => l.foldable && r.foldable
  | logical _ l r => l.foldable && r.foldable
  | construct _ _ => false
  | row _ => false

/-- The value of a constant. -/
def evalConstant : Expr → Eval Value
  | literal v => pure v
  | call (.accessor a) _ => Eval.callAccessor a
  | member target name => do Eval.ofValue ((← target.evalConstant).member name)
  | comparison op l r => do
    let a ← l.evalConstant
    let b ← r.evalConstant
    Eval.ofValue (a.applyBinary op b)
  | logical op l r => do
    let a ← l.evalConstant
    let b ← r.evalConstant
    Eval.ofValue (a.applyConnective op b)
  | x => Eval.fail (.unsupported (.notConstant x.kind))

/-- The value of an expression if it is a constant. -/
def fold (x : Expr) : Eval (Option Value) :=
  if x.foldable then some <$> x.evalConstant else pure none

mutual

/-- The expression and all below it, each node before those below it. -/
def nodes : Expr → List Expr
  | .comparison op l r => .comparison op l r :: (nodes l ++ nodes r)
  | .logical op l r => .logical op l r :: (nodes l ++ nodes r)
  | .member t name => .member t name :: nodes t
  | .literal v => [.literal v]
  | .call f args => .call f args :: nodesOfArgs args
  | .construct target bindings => .construct target bindings :: nodesOfBindings bindings
  | .row e => [.row e]
termination_by structural x => x

def nodesOfArgs : List Expr → List Expr
  | [] => []
  | x :: xs => nodes x ++ nodesOfArgs xs
termination_by structural xs => xs

def nodesOfBindings : List (String × Expr) → List Expr
  | [] => []
  | (_, x) :: bs => nodes x ++ nodesOfBindings bs
termination_by structural bs => bs

end

end Expr

/-- A node of a tree: the positions among their siblings of the nodes on the way to it, the
node itself first and the root not counted. -/
abbrev NodePath := List Nat

/-- Whether the nodes looked at so far are constants, the values of those evaluated, and the log of
calls. -/
structure Analyzer where
  classes : List (NodePath × Bool)
  values : List (NodePath × Value)
  log : CallLog

namespace Analyzer

def new (log : CallLog) : Analyzer := ⟨[], [], log⟩

/-- The number of values remembered. -/
def evaluated (a : Analyzer) : Nat := a.values.length

/-- Remembers whether a node is a constant. -/
def mark (path : NodePath) (constant : Bool) : StateM Analyzer Bool := do
  modify fun s => { s with classes := (path, constant) :: s.classes }
  return constant

mutual

/-- Is the node at a path a constant? Asked for the first time, all nodes below it are classified
too, whatever the others are. -/
def classify (path : NodePath) (x : Expr) : StateM Analyzer Bool := do
  match (← get).classes.lookup path with
  | some constant => return constant
  | none =>
    match x with
    | .literal _ => mark path true
    | .row _ => mark path false
    | .member target _ => do mark path (← classify (0 :: path) target)
    | .comparison _ l r => do
      let a ← classify (0 :: path) l
      let b ← classify (1 :: path) r
      mark path (a && b)
    | .logical _ l r => do
      let a ← classify (0 :: path) l
      let b ← classify (1 :: path) r
      mark path (a && b)
    | .call f args => do
      classifyArgs path 0 args
      mark path (match f with
        | .accessor _ => args.isEmpty
        | _ => false)
    | .construct _ bindings => do
      classifyBindings path 0 bindings
      mark path false
termination_by structural x

/-- Classifies the arguments of the node at a path, the first of them being the one at `i`. -/
def classifyArgs (path : NodePath) (i : Nat) : List Expr → StateM Analyzer Unit
  | [] => pure ()
  | x :: xs => do
    let _ ← classify (i :: path) x
    classifyArgs path (i + 1) xs
termination_by structural xs => xs

def classifyBindings (path : NodePath) (i : Nat) : List (String × Expr) → StateM Analyzer Unit
  | [] => pure ()
  | (_, x) :: bs => do
    let _ ← classify (i :: path) x
    classifyBindings path (i + 1) bs
termination_by structural bs => bs

end

/-- A step of an analyzer; what it remembers is kept on failure too. -/
abbrev Step := ExceptT QueryError (StateM Analyzer)

/-- Runs a call of an accessor on the analyzer's log. -/
def callAccessor (a : Accessor) : Step Value := do
  let s ← get
  set { s with log := a.name :: s.log }
  return a.read s.log

def ofValue : Except EvaluationError Value → Step Value
  | .ok v => pure v
  | .error e => throw (.evaluation e)

/-- Remembers a value as that of a node. -/
def remember (path : NodePath) (v : Value) : Step Value := do
  modify fun s => { s with values := (path, v) :: s.values }
  return v

/-- The value of the constant node at a path: the one remembered, or a new one. -/
def evaluate (path : NodePath) (x : Expr) : Step Value := do
  match (← get).values.lookup path with
  | some v => return v
  | none =>
    match x with
    | .literal v => remember path v
    | .call (.accessor a) _ => do remember path (← callAccessor a)
    | .member target name => do
      let v ← evaluate (0 :: path) target
      remember path (← ofValue (v.member name))
    | .comparison op l r => do
      let a ← evaluate (0 :: path) l
      let b ← evaluate (1 :: path) r
      remember path (← ofValue (a.applyBinary op b))
    | .logical op l r => do
      let a ← evaluate (0 :: path) l
      let b ← evaluate (1 :: path) r
      remember path (← ofValue (a.applyConnective op b))
    | x => throw (.unsupported (.notConstant x.kind))

/-- The value of the node at a path if it is a constant. -/
def fold (path : NodePath) (x : Expr) : Step (Option Value) := do
  if ← classify path x then some <$> evaluate path x else pure none

/-- The outcome of a step and the analyzer afterwards. -/
def run {α : Type} (a : Analyzer) (step : Step α) : Except QueryError α × Analyzer :=
  StateT.run (ExceptT.run step) a

end Analyzer

end TypedQuery
