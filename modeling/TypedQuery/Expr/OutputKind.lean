import TypedQuery.Expr.Basic

/-!
# Kinds of expressions

The kind of the values of an expression, where it can be told from the tree alone. Grouping
and aggregate columns are read back as this kind.
-/

namespace TypedQuery.Expr

/-- The kind of an operation on operands of two kinds. -/
def arithmeticKind : Option Kind → Option Kind → Option Kind
  | some .int, some .int => some .int
  | some _, some _ => some .float
  | _, _ => none

mutual

/-- The kind of an expression's values. -/
def outputKind : Expr → Option Kind
  | .literal v => v.kind?
  | .member target name => ((Expr.member target name).asField?.bind fun (e, f) => e.field? f).map Field.kind
  | .comparison op l r =>
    if op.isComparison then some .bool else arithmeticKind (outputKind l) (outputKind r)
  | .logical .. => some .bool
  | .call (.helper _) _ => some .bool
  | .call (.aggregate a) args =>
    match a with
    | .count | .countDistinct => some .int
    | .avg => some .float
    | .sum | .min | .max => kindOfFirst args
  | .call _ _ => none
  | .construct .. => none
  | .row _ => none
termination_by structural x => x

def kindOfFirst : List Expr → Option Kind
  | [] => none
  | x :: _ => outputKind x
termination_by structural xs => xs

end

end TypedQuery.Expr
