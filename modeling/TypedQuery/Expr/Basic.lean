import TypedQuery.Entity
import TypedQuery.Expr.Operator

/-!
# Expressions

Predicates, selections, join keys, sort keys and aggregates are one type of trees. Rows of
entities are read through their fields; constants are literals or accessors.

An accessor gives a value when it is called. The value may depend on the accessors called
before it, so evaluation carries the log of calls, and calling twice is not calling once.
-/

namespace TypedQuery

/-- The names of the accessors called so far, the latest first. -/
abbrev CallLog := List String

/-- A named source of values. -/
structure Accessor where
  name : String
  read : CallLog → Value

/-- Does every call of the accessor give the same value? -/
def Accessor.Pure (a : Accessor) : Prop := ∀ log log' : CallLog, a.read log = a.read log'

/-- What a call calls. -/
inductive Function where
  | helper (h : PredicateHelper)
  | aggregate (a : Aggregate)
  | accessor (a : Accessor)
  | named (name : String)

namespace Function

def name : Function → String
  | helper h => h.symbol
  | aggregate a => a.symbol
  | accessor a => a.name
  | named name => name

def isPredicateHelper : Function → Bool
  | helper _ => true
  | _ => false

/-- The number of arguments, where it is fixed. -/
def arity? : Function → Option Nat
  | helper h => some h.arity
  | _ => none

end Function

inductive Expr where
  | comparison (op : BinaryOp) (left right : Expr)
  | logical (op : Connective) (left right : Expr)
  | member (target : Expr) (name : String)
  | literal (v : Value)
  | call (f : Function) (args : List Expr)
  | construct (target : Entity) (bindings : List (String × Expr))
  | row (entity : Entity)

/-- The kinds of nodes, by which diagnostics name them. -/
inductive NodeKind where
  | comparison | logical | member | literal | call | construct | row
deriving DecidableEq

def NodeKind.name : NodeKind → String
  | .comparison => "Comparison"
  | .logical => "Logical"
  | .member => "Member"
  | .literal => "Literal"
  | .call => "Call"
  | .construct => "Construct"
  | .row => "Param"

namespace Expr

def kind : Expr → NodeKind
  | comparison .. => .comparison
  | logical .. => .logical
  | member .. => .member
  | literal _ => .literal
  | call .. => .call
  | construct .. => .construct
  | row _ => .row

/-- The nodes directly below a node, in the order of evaluation. -/
def children : Expr → List Expr
  | comparison _ l r | logical _ l r => [l, r]
  | member t _ => [t]
  | call _ args => args
  | construct _ bindings => bindings.map Prod.snd
  | literal _ | row _ => []

/-- The entity and the name of a field, when the expression reads a field of a row. -/
def asField? : Expr → Option (Entity × String)
  | member (row e) name => some (e, name)
  | _ => none

/-- A field of the rows of an entity. -/
def field (e : Entity) (name : String) : Expr := member (row e) name

theorem eq_field_of_asField? {x : Expr} {e : Entity} {name : String}
    (h : x.asField? = some (e, name)) : x = field e name := by
  unfold asField? at h
  split at h <;> simp_all [field]

/-- A comparison or an operation applied several times, from the left. -/
def chain (combine : Expr → Expr → Expr) : List Expr → Option Expr
  | [] => none
  | x :: xs => some (xs.foldl combine x)

/-- Values become constants. -/
instance : Coe Value Expr := ⟨literal⟩

end Expr

end TypedQuery
