import TypedQuery.Expr.Arithmetic
import TypedQuery.Expr.Like

/-!
# Evaluation

The value of an expression for one row, as the database would compute it. Operands are
evaluated from left to right and all of them, so the first fault in that order is reported.
-/

namespace TypedQuery

/-- Evaluation may fail and may call accessors; the log of calls is kept on failure too. -/
abbrev Eval := ExceptT QueryError (StateM CallLog)

namespace Eval

/-- The outcome and the log of calls afterwards. -/
def outcome {α : Type} (x : Eval α) (log : CallLog) : Except QueryError α × CallLog := x.run.run log

def fail {α : Type} (e : QueryError) : Eval α := throw e

/-- The outcome of an operation on values. -/
def ofValue {α : Type} : Except EvaluationError α → Eval α
  | .ok v => pure v
  | .error e => fail (.evaluation e)

/-- Calls an accessor and logs the call. -/
def callAccessor (a : Accessor) : Eval Value := do
  let log ← get
  set (a.name :: log)
  return a.read log

end Eval

/-- The field values of the row that an expression is evaluated for. -/
abbrev Scope := Entity → String → Option Value

/-- A predicate helper on its target and its other arguments. A NULL target decides all of them;
a NULL item of a set is skipped. -/
def applyHelper (h : PredicateHelper) (target first second : Value) : Except EvaluationError Value :=
  if target.isNull then .ok .null
  else match h with
    | .between => do
      let lower ← Value.applyBinary .gte target first
      let upper ← Value.applyBinary .lte target second
      Value.applyConnective .and lower upper
    | .isIn => .ok (.bool (isMember first))
    | .notIn => .ok (.bool (!isMember first))
    | .like =>
      match target, first with
      | .text s, .text pattern => .ok (.bool (likeMatch s.toList pattern.toList))
      | _, .null => .ok .null
      | t, p => .error (.notText t.typeName p.typeName)
where
  isMember (set : Value) : Bool :=
    let items := match set with
      | .list items => items
      | v => [v]
    items.any fun item => !item.isNull && target.equals item

namespace Expr

mutual

/-- The value of an expression for the row of a scope. -/
def evalIn (scope : Scope) : Expr → Eval Value
  | .literal v => pure v
  | .row e => Eval.fail (.unsupported (.rowAsValue e.typeName))
  | .member target name =>
    match target with
    | .row e =>
      match scope e name with
      | some v => pure v
      | none => Eval.fail (.unknownField e.typeName name)
    | _ => do Eval.ofValue ((← evalIn scope target).member name)
  | .comparison op l r => do
    let a ← evalIn scope l
    let b ← evalIn scope r
    Eval.ofValue (a.applyBinary op b)
  | .logical op l r => do
    let a ← evalIn scope l
    let b ← evalIn scope r
    Eval.ofValue (a.applyConnective op b)
  | .call (.helper h) args =>
    if args.length = h.arity then do
      let vs ← evalArgs scope args
      Eval.ofValue (applyHelper h (vs.getD 0 .null) (vs.getD 1 .null) (vs.getD 2 .null))
    else Eval.fail (.unsupported (.arity h.symbol h.arity args.length))
  | .call (.accessor a) [] => Eval.callAccessor a
  | .call f _ => Eval.fail (.unsupported (.notPerRow f.name))
  | .construct target _ => Eval.fail (.unsupported (.constructPerRow target.typeName))
termination_by structural x => x

def evalArgs (scope : Scope) : List Expr → Eval (List Value)
  | [] => pure []
  | x :: xs => do
    let v ← evalIn scope x
    let vs ← evalArgs scope xs
    pure (v :: vs)
termination_by structural xs => xs

end

/-- Does the row of a scope satisfy a condition? An unknown outcome does not. -/
def holdsIn (scope : Scope) (condition : Expr) : Eval Bool := do
  match ← condition.evalIn scope with
  | .bool b => pure b
  | .null => pure false
  | v => Eval.fail (.evaluation (.notPredicate v.typeName))

end Expr

end TypedQuery
