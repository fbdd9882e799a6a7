import TypedQuery.Expr.Basic
import TypedQuery.Field.Constant
import TypedQuery.Wire.Value

/-!
# Expressions as documents

An expression is a list that begins with the name of its form. Entities and accessors are
referred to by name.
-/

namespace TypedQuery.Wire

/-- What the names in a document stand for. -/
structure Names where
  schema : Schema
  accessors : List Accessor

namespace Names

def accessor? (n : Names) (name : String) : Option Accessor := n.accessors.find? (·.name == name)

end Names

/-- The names of the operators on two values. -/
def binaryOps : List (String × BinaryOp) :=
  [("eq", .eq), ("ne", .ne), ("gt", .gt), ("gte", .gte), ("lt", .lt), ("lte", .lte),
    ("add", .add), ("sub", .sub), ("mul", .mul), ("div", .div), ("rem", .rem),
    ("bit_and", .bitAnd), ("bit_or", .bitOr), ("bit_xor", .bitXor), ("shl", .shiftLeft),
    ("shr", .shiftRight)]

def connectives : List (String × Connective) := [("and", .and), ("or", .or)]

/-- The names of predicate helpers and aggregates. -/
def functions : List (String × Function) :=
  [("between", .helper .between), ("in", .helper .isIn), ("not_in", .helper .notIn),
    ("like", .helper .like), ("count", .aggregate .count),
    ("count_distinct", .aggregate .countDistinct), ("sum", .aggregate .sum),
    ("avg", .aggregate .avg), ("min", .aggregate .min), ("max", .aggregate .max)]

/-- The expression that combines two others under the name of an operator. -/
def combiner? (name : String) : Option (Expr → Expr → Expr) :=
  (binaryOps.lookup name).map Expr.comparison <|> (connectives.lookup name).map Expr.logical

/-- A constant of a type: one in text, a missing one, or a list of them. -/
def readConstant? (t : ScalarType) : Json → Option Value
  | .text s => t.readValue? s
  | .null => some .null
  | .object [("some", .text s)] => t.readValue? s
  | .array items => (items.mapM fun j => j.text? >>= t.readValue?).map .list
  | _ => none

variable (n : Names)

mutual

/-- The expression of a document. -/
def readExpr? : Json → Option Expr
  | .array [.text "lit", j] => (readValue? j).map .literal
  | .array [.text "native", .text t, j] =>
    (ScalarType.ofName? t >>= fun t => readConstant? t j).map .literal
  | .array [.text "param", .text e] => (n.schema.entity? e).map .row
  | .array [.text "field", .text e, .text name] => (n.schema.entity? e).map (.field · name)
  | .array [.text "member", x, .text name] => (readExpr? x).map (.member · name)
  | .array [.text "chain", .text op, .array xs] =>
    match combiner? op, readExprs? xs with
    | some combine, some xs => Expr.chain combine xs
    | _, _ => none
  | .array [.text "construct", .text e, .array bs] =>
    match n.schema.entity? e, readBindings? bs with
    | some e, some bs => some (.construct e bs)
    | _, _ => none
  | .array (.text "static" :: .text name :: args) =>
    match n.accessor? name, readExprs? args with
    | some a, some args => some (.call (.accessor a) args)
    | _, _ => none
  | .array (.text "named" :: .text name :: args) => (readExprs? args).map (.call (.named name))
  | .array (.text tag :: args) =>
    match readExprs? args with
    | none => none
    | some args =>
      match functions.lookup tag, combiner? tag, args with
      | some f, _, args => some (.call f args)
      | none, some combine, [l, r] => some (combine l r)
      | _, _, _ => none
  | _ => none
termination_by structural j => j

def readExprs? : List Json → Option (List Expr)
  | [] => some []
  | j :: js =>
    match readExpr? j, readExprs? js with
    | some x, some xs => some (x :: xs)
    | _, _ => none
termination_by structural js => js

def readBindings? : List Json → Option (List (String × Expr))
  | [] => some []
  | .array [.text name, j] :: js =>
    match readExpr? j, readBindings? js with
    | some x, some bs => some ((name, x) :: bs)
    | _, _ => none
  | _ => none
termination_by structural js => js

end

end TypedQuery.Wire
