/-!
# Operators and functions

The operators of expressions with their SQL symbols, and the aggregate functions.
-/

namespace TypedQuery

/-- Operators on two values: comparisons, arithmetic and operations on bits. -/
inductive BinaryOp where
  | eq | ne | gt | gte | lt | lte
  | add | sub | mul | div | rem
  | bitAnd | bitOr | bitXor | shiftLeft | shiftRight
deriving DecidableEq

namespace BinaryOp

def symbol : BinaryOp → String
  | eq => "="
  | ne => "!="
  | gt => ">"
  | gte => ">="
  | lt => "<"
  | lte => "<="
  | add => "+"
  | sub => "-"
  | mul => "*"
  | div => "/"
  | rem => "%"
  | bitAnd => "&"
  | bitOr => "|"
  | bitXor => "^"
  | shiftLeft => "<<"
  | shiftRight => ">>"

/-- Does the operator give a truth value? -/
def isComparison : BinaryOp → Bool
  | eq | ne | gt | gte | lt | lte => true
  | _ => false

def isBitwise : BinaryOp → Bool
  | bitAnd | bitOr | bitXor | shiftLeft | shiftRight => true
  | _ => false

end BinaryOp

/-- Connectives of truth values. -/
inductive Connective where
  | and
  | or
deriving DecidableEq

def Connective.symbol : Connective → String
  | .and => "AND"
  | .or => "OR"

/-- Functions of all rows of a group. -/
inductive Aggregate where
  | count | countDistinct | sum | avg | min | max
deriving DecidableEq

def Aggregate.symbol : Aggregate → String
  | .count | .countDistinct => "COUNT"
  | .sum => "SUM"
  | .avg => "AVG"
  | .min => "MIN"
  | .max => "MAX"

/-- Predicates with a syntax of their own. -/
inductive PredicateHelper where
  | between | isIn | notIn | like
deriving DecidableEq

namespace PredicateHelper

def symbol : PredicateHelper → String
  | between => "BETWEEN"
  | isIn => "IN"
  | notIn => "NOT IN"
  | like => "LIKE"

/-- The number of arguments. -/
def arity : PredicateHelper → Nat
  | between => 3
  | isIn | notIn | like => 2

end PredicateHelper

end TypedQuery
