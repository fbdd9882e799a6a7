/-!
# Clauses

The parts of a statement in the order in which they are listed, and what may appear in each.
-/

namespace TypedQuery

inductive Clause where
  | select | from | join | where | groupBy | having | selectAggregate | orderBy | limit | offset
deriving DecidableEq

namespace Clause

def all : List Clause :=
  [.select, .from, .join, .where, .groupBy, .having, .selectAggregate, .orderBy, .limit, .offset]

def name : Clause → String
  | .select => "Select"
  | .from => "From"
  | .join => "Join"
  | .where => "Where"
  | .groupBy => "GroupBy"
  | .having => "Having"
  | .selectAggregate => "SelectAggregate"
  | .orderBy => "OrderBy"
  | .limit => "Limit"
  | .offset => "Offset"

def ofName? (s : String) : Option Clause := all.find? (·.name == s)

/-- What stands between two fragments of the clause. -/
inductive Separator where
  | comma | and | newline
deriving DecidableEq

def Separator.text : Separator → String
  | .comma => ", "
  | .and => " AND "
  | .newline => "\n"

def separator : Clause → Separator
  | .select | .groupBy | .selectAggregate | .orderBy => .comma
  | .where | .having => .and
  | .from | .join | .limit | .offset => .newline

/-- May predicate helpers appear in the clause? -/
def acceptsPredicates : Clause → Bool
  | .where | .having => true
  | _ => false

/-- May aggregate functions appear in the clause? -/
def acceptsAggregates : Clause → Bool
  | .having | .selectAggregate => true
  | _ => false

/-- Does the clause read the flattened columns of a grouped query? -/
def readsGroupedColumns : Clause → Bool
  | .groupBy | .having | .selectAggregate => true
  | _ => false

end Clause

end TypedQuery
